import ServerEngine.Core.Hash
import ServerEngine.Core.Status
import Mathlib.Logic.Function.Basic

/-! # The string table

`string_table`: texts interned under 32-bit ids by any number of threads. A call advances by atomic
steps; the pages it follows are never unlinked, so following a page and loading its slot is one step.
-/
namespace ServerEngine

/-! ## Memory -/

/-- `record`: `next` is read off the chain that holds it. -/
structure StringRecord where
  hash : Nat
  id : Nat
  text : Bytes
  deriving DecidableEq

/-- The texts of a saved image; an id without a text has none. -/
structure StringBaseline where
  slotCount : Nat
  text : Nat → Bytes
  findString : Bytes → Option Nat
  exact : ∀ (value : Bytes) (id : Nat), value ≠ [] →
    (findString value = some id ↔ id ≠ 0 ∧ id ≤ slotCount ∧ text id = value)

/-- A chain lists the records that following `next` from a head visits. -/
structure StringTable where
  baseline : Option StringBaseline := none
  denseBuckets : Option (Nat → List StringRecord) := none
  bucketPages : Nat → Option (Nat → List StringRecord) := fun _ => none
  pages : Option (Nat → Option (Nat → Option StringRecord)) := none
  nextId : Nat := 1
  denseBucketMode : Bool := true

namespace StringTable

def bucketCount : Nat := 2 ^ 20

def bucketPageSize : Nat := 2 ^ 10

def pageSize : Nat := 2 ^ 12

def pageCount : Nat := 2 ^ 16

def maximumId : Nat := pageCount * pageSize

def recordSize : Nat := 24

def create (baseline : Option StringBaseline) (bucketsAllocated pagesAllocated : Bool) :
    StringTable where
  baseline := baseline
  nextId := match baseline with
    | none => 1
    | some b => if b.slotCount < u32Max then b.slotCount + 1 else 0
  denseBucketMode := baseline.isNone
  denseBuckets := if baseline.isNone && bucketsAllocated then some fun _ => [] else none
  pages := if pagesAllocated then some fun _ => none else none

def hashText (value : Bytes) : Nat :=
  mix64 (value.foldl (fun hash byte => mul64 (hash ^^^ byte.toNat) 1099511628211)
    1469598103934665603)

def bucketIndex (value : Bytes) : Nat := hashText value % bucketCount

def isText (value : Bytes) (item : StringRecord) : Bool :=
  item.hash == hashText value && item.text == value

/-- `bucket_slot` and the load of its head. -/
def bucketHead (t : StringTable) (index : Nat) : Option (List StringRecord) :=
  if t.denseBucketMode then t.denseBuckets.map (· index)
  else (t.bucketPages (index / bucketPageSize)).map (· (index % bucketPageSize))

def findRecord (t : StringTable) (value : Bytes) : Option StringRecord :=
  match t.bucketHead (bucketIndex value) with
  | none => none
  | some chain => chain.find? (isText value)

/-- `find`; zero is the empty id. -/
def find (t : StringTable) (value : Bytes) : Nat :=
  if value = [] then 0
  else match t.findRecord value with
    | some found => found.id
    | none => ((t.baseline.bind fun b => b.findString value).getD 0)

def pageIndex (id : Nat) : Nat := (id - 1) / pageSize

/-- `page(id)` and the load of its slot. -/
def slot (t : StringTable) (id : Nat) : Option StringRecord :=
  if id = 0 || pageIndex id ≥ pageCount then none
  else match t.pages with
    | none => none
    | some pages =>
      match pages (pageIndex id) with
      | none => none
      | some page => page ((id - 1) % pageSize)

/-- `get`; an id without a text gives the empty view. -/
def get (t : StringTable) (id : Nat) : Bytes :=
  let direct := match t.slot id with
    | some value => value.text
    | none => []
  if id = 0 then []
  else match t.baseline with
    | some b => if id ≤ b.slotCount then b.text id else direct
    | none => direct

/-- `compare_exchange_strong` of an empty bucket page; a loser's page is deleted. -/
def installBucketPage (t : StringTable) (index : Nat) : StringTable :=
  match t.bucketPages index with
  | some _ => t
  | none => { t with bucketPages := Function.update t.bucketPages index (some fun _ => []) }

/-- `compare_exchange_strong` of an empty record page. -/
def installPage (t : StringTable) (index : Nat) : StringTable :=
  match t.pages with
  | none => t
  | some pages =>
    match pages index with
    | some _ => t
    | none => { t with pages := some (Function.update pages index (some fun _ => none)) }

def storeSlot (t : StringTable) (id : Nat) (value : Option StringRecord) : StringTable :=
  match t.pages with
  | none => t
  | some pages =>
    match pages (pageIndex id) with
    | none => t
    | some page =>
      let page := Function.update page ((id - 1) % pageSize) value
      { t with pages := some (Function.update pages (pageIndex id) (some page)) }

def storeHead (t : StringTable) (index : Nat) (chain : List StringRecord) : StringTable :=
  if t.denseBucketMode then
    match t.denseBuckets with
    | none => t
    | some buckets => { t with denseBuckets := some (Function.update buckets index chain) }
  else
    match t.bucketPages (index / bucketPageSize) with
    | none => t
    | some page =>
      let page := Function.update page (index % bucketPageSize) chain
      { t with bucketPages := Function.update t.bucketPages (index / bucketPageSize) (some page) }

end StringTable

/-- Where a call of `intern` stands; `head` is what it last loaded from its bucket. -/
inductive InternStage
  | find
  | ensureBucket
  | installBucket
  | allocate
  | takeId
  | ensurePage (id : Nat)
  | installPage (id : Nat)
  | publish (id : Nat)
  | loadHead (id : Nat)
  | link (id : Nat) (head : List StringRecord)
  | returned (result : Except StatusCode Nat)

structure InternCall where
  value : Bytes
  stage : InternStage := .find

namespace StringTable

/-- The checks of `intern`, and its first search. -/
def startIntern (t : StringTable) (value : Bytes) : InternStage :=
  if value = [] then .returned (.error .invalidArgument)
  else if t.pages.isNone then .returned (.error .notAvailable)
  else if value.length > u32Max then .returned (.error .notAvailable)
  else if recordSize > sizeMax - value.length then .returned (.error .notAvailable)
  else if t.find value ≠ 0 then .returned (.ok (t.find value))
  else .ensureBucket

/-- One step of a call. `succeeds` is the outcome of what may fail in it: an allocation, or a weak
`compare_exchange`, which may fail on equal values. -/
def advance (t : StringTable) (call : InternCall) (succeeds : Bool) : StringTable × InternStage :=
  let value := call.value
  let index := bucketIndex value
  match call.stage with
  | .find => (t, t.startIntern value)
  | .ensureBucket =>
    (t, if t.denseBucketMode then
        if t.denseBuckets.isSome then .allocate else .returned (.error .notAvailable)
      else if (t.bucketPages (index / bucketPageSize)).isSome then .allocate
      else if succeeds then .installBucket
      else .returned (.error .notAvailable))
  | .installBucket => (t.installBucketPage (index / bucketPageSize), .allocate)
  | .allocate => (t, if succeeds then .takeId else .returned (.error .initializationFailed))
  | .takeId =>
    ({ t with nextId := (t.nextId + 1) % 2 ^ 32 },
      if t.nextId = 0 || t.nextId > maximumId then .returned (.error .notAvailable)
      else .ensurePage t.nextId)
  | .ensurePage id =>
    (t, match t.pages with
      | none => .returned (.error .notAvailable)
      | some pages =>
        if id = 0 || pageIndex id ≥ pageCount then .returned (.error .notAvailable)
        else if (pages (pageIndex id)).isSome then .publish id
        else if succeeds then .installPage id
        else .returned (.error .notAvailable))
  | .installPage id => (t.installPage (pageIndex id), .publish id)
  | .publish id => (t.storeSlot id (some ⟨hashText value, id, value⟩), .loadHead id)
  | .loadHead id => (t, .link id ((t.bucketHead index).getD []))
  | .link id head =>
    match head.find? (isText value) with
    | some item => (t.storeSlot id none, .returned (.ok item.id))
    | none =>
      if succeeds && (t.bucketHead index).getD [] == head then
        (t.storeHead index (⟨hashText value, id, value⟩ :: head), .returned (.ok id))
      else (t, .link id ((t.bucketHead index).getD []))
  | .returned result => (t, .returned result)

end StringTable

end ServerEngine
