import ServerEngine.Core.Hash
import ServerEngine.Frontend.SourceFacts
import Mathlib.Data.List.Nodup

/-! # The identity space

`identity_space`: one `identity_ref` for every (parent, local name), resolved by any number of
threads. A word on a page that is not there yet is modelled as zero and the page by its presence.
-/
namespace ServerEngine

def IdentityKind.code : IdentityKind → Nat
  | .root => 0
  | .namespaceScope => 1
  | .type => 2
  | .object => 3

namespace IdentityRef

def maximumSlot : Nat := 2 ^ 30 - 1

def make (slot : Nat) (kind : IdentityKind) : IdentityRef := ⟨kind.code * 2 ^ 30 + slot⟩

def root : IdentityRef := make 1 .root

end IdentityRef

/-! ## Memory -/

/-- `record`, with the fields of its `identity_node`. -/
structure IdentityRecord where
  parent : IdentityRef := .null
  name : Nat := 0
  fingerprint : Nat := 0
  nextBucket : IdentityRef := .null

/-- The identities of a saved image: its root, and at most one for each parent and name. -/
structure IdentityBaseline where
  slotCount : Nat
  identityCount : Nat
  identityValid : IdentityRef → Bool
  identityParent : IdentityRef → IdentityRef
  identityName : IdentityRef → Nat
  findIdentity : IdentityRef → Nat → IdentityKind → Option IdentityRef
  rootValid : identityValid .root = true
  bounded : ∀ i, identityValid i = true → i.valid = true ∧ i.slot ≤ slotCount
  canonical : ∀ i j, identityValid i = true → identityValid j = true →
    identityParent i = identityParent j → identityName i = identityName j → i = j
  counted : ∃ refs : List IdentityRef, refs.Nodup ∧ (∀ i, i ∈ refs ↔ identityValid i = true) ∧
    refs.length = identityCount
  exact : ∀ parent name kind i, findIdentity parent name kind = some i ↔
    identityValid parent = true ∧ name ≠ 0 ∧ kind ≠ .root ∧ identityValid i = true ∧
      i.kind = kind ∧ identityParent i = parent ∧ identityName i = name

/-- A bucket's word is the encoded reference of its first record, and so is `next_bucket`. -/
structure IdentitySpace where
  baseline : Option IdentityBaseline := none
  denseSemanticBucketMode : Bool := true
  denseSemanticBuckets : Bool := true
  semanticBucketPages : Nat → Bool := fun _ => false
  buckets : Nat → IdentityRef := fun _ => .null
  directories : Nat → Bool := fun _ => false
  pages : Nat → Bool := fun _ => false
  records : Nat → IdentityRecord := fun _ => {}
  nextSlot : Nat := 2
  identityCount : Nat := 1

namespace IdentitySpace

def semanticBucketCount : Nat := 2 ^ 21

def semanticBucketPageSize : Nat := 2 ^ 11

def pageSize : Nat := 2 ^ 12

def directoryPageCount : Nat := 2 ^ 9

def directoryCount : Nat := 2 ^ 9

/-- The constructors; the allocation of the dense buckets may fail. -/
def create (baseline : Option IdentityBaseline) (bucketsAllocated : Bool) : IdentitySpace where
  baseline := baseline
  denseSemanticBucketMode := baseline.isNone
  denseSemanticBuckets := baseline.isNone && bucketsAllocated
  nextSlot := match baseline with
    | none => 2
    | some b => if b.slotCount < IdentityRef.maximumSlot then b.slotCount + 1 else 0
  identityCount := if baseline.isNone then 1 else 0

def rootRecord : IdentityRecord := { fingerprint := 1 }

def pageNumber (slot : Nat) : Nat := slot / pageSize

def directoryIndex (slot : Nat) : Nat := pageNumber slot / directoryPageCount

def slotRecord (t : IdentitySpace) (slot : Nat) : Option IdentityRecord :=
  if slot = 1 then some rootRecord
  else if slot = 0 || slot > IdentityRef.maximumSlot then none
  else if directoryIndex slot ≥ directoryCount then none
  else if t.directories (directoryIndex slot) && t.pages (pageNumber slot) then some (t.records slot)
  else none

def publishedRecord (t : IdentitySpace) (identity : IdentityRef) : Option IdentityRecord :=
  if !identity.valid then none
  else match t.slotRecord identity.slot with
    | none => none
    | some item =>
      if identity.slot = 1 then if identity.kind = .root then some item else none
      else if item.fingerprint % 2 ^ 30 ≠ 0 ∧ IdentityRef.kind ⟨item.fingerprint⟩ = identity.kind ∧
          item.name ≠ 0 then some item
      else none

def baselineOf (t : IdentitySpace) (identity : IdentityRef) : Option IdentityBaseline :=
  t.baseline.filter fun b => identity.valid && identity.slot ≤ b.slotCount

def valid (t : IdentitySpace) (identity : IdentityRef) : Bool :=
  match t.baselineOf identity with
  | some b => b.identityValid identity
  | none => (t.publishedRecord identity).isSome

def parent (t : IdentitySpace) (identity : IdentityRef) : IdentityRef :=
  match t.baselineOf identity with
  | some b => b.identityParent identity
  | none => ((t.publishedRecord identity).map (·.parent)).getD .null

def name (t : IdentitySpace) (identity : IdentityRef) : Nat :=
  match t.baselineOf identity with
  | some b => b.identityName identity
  | none => ((t.publishedRecord identity).map (·.name)).getD 0

def size (t : IdentitySpace) : Nat :=
  (match t.baseline with
    | some b => b.identityCount
    | none => 0) + t.identityCount

def semanticHashValue (parent : IdentityRef) (localName : Nat) : Nat :=
  mix64 (parent.value ^^^ (localName * 2 ^ 32))

def semanticFingerprint (hash : Nat) : Nat :=
  let result := (hash ^^^ (hash >>> 32)) % 2 ^ 30
  if result = 0 then 1 else result

def packedFingerprint (fingerprint : Nat) (kind : IdentityKind) : Nat :=
  kind.code * 2 ^ 30 + fingerprint

def bucketIndex (parent : IdentityRef) (localName : Nat) : Nat :=
  semanticHashValue parent localName % semanticBucketCount

def isDeclaration (parent : IdentityRef) (localName : Nat) (item : IdentityRecord) : Bool :=
  item.fingerprint % 2 ^ 30 == semanticFingerprint (semanticHashValue parent localName) &&
    item.parent == parent && item.name == localName

end IdentitySpace

/-! ## Calls -/

/-- Where a call of `resolve_declaration` stands; `slot` is the candidate's. -/
inductive ResolveStage
  | start
  | findHead
  | findRecord (current : IdentityRef)
  | findBaseline
  | ensureBucket
  | installBucket
  | loadSlot
  | takeSlot (slot : Nat)
  | ensureDirectory (slot : Nat)
  | installDirectory (slot : Nat)
  | ensurePage (slot : Nat)
  | installPage (slot : Nat)
  | initialiseCandidate (slot : Nat)
  | loadHead (slot : Nat)
  | scan (slot : Nat) (head current : IdentityRef)
  | link (slot : Nat) (head : IdentityRef)
  | exchange (slot : Nat) (head : IdentityRef)
  | count (slot : Nat)
  | discard (slot : Nat) (result : Except StatusCode IdentityRef)
  | returned (result : Except StatusCode IdentityRef)
  deriving DecidableEq

structure IdentityDeclaration where
  parent : IdentityRef
  localName : Nat
  kind : IdentityKind

structure ResolveCall where
  declaration : IdentityDeclaration
  stage : ResolveStage := .start

namespace IdentitySpace

def accept (kind : IdentityKind) (existing : IdentityRef) : Except StatusCode IdentityRef :=
  if existing.kind ≠ kind then .error .semanticConflict else .ok existing

/-- The search of the image: the kind asked for, then the others. -/
def findBaseline (t : IdentitySpace) (parent : IdentityRef) (localName : Nat)
    (kind : IdentityKind) : ResolveStage :=
  match t.baseline with
  | none => .ensureBucket
  | some b =>
    match b.findIdentity parent localName kind with
    | some existing => .returned (.ok existing)
    | none =>
      if [IdentityKind.namespaceScope, .type, .object].any fun other =>
          other ≠ kind && (b.findIdentity parent localName other).isSome then
        .returned (.error .semanticConflict)
      else .ensureBucket

def storeRecord (t : IdentitySpace) (slot : Nat) (item : IdentityRecord) : IdentitySpace :=
  { t with records := Function.update t.records slot item }

/-- One step of a call. `succeeds` is the outcome of what may fail in it: an allocation, or a weak
`compare_exchange`, which may fail on equal values. -/
def advance (t : IdentitySpace) (call : ResolveCall) (succeeds : Bool) :
    IdentitySpace × ResolveStage :=
  let parent := call.declaration.parent
  let localName := call.declaration.localName
  let kind := call.declaration.kind
  let index := bucketIndex parent localName
  match call.stage with
  | .start =>
    (t, if !parent.valid || localName = 0 || kind = .root || !t.valid parent then
        .returned (.error .invalidArgument)
      else .findHead)
  | .findHead =>
    (t, if t.denseSemanticBucketMode then
        if t.denseSemanticBuckets then .findRecord (t.buckets index) else .findBaseline
      else if t.semanticBucketPages (index / semanticBucketPageSize) then
        .findRecord (t.buckets index)
      else .findBaseline)
  | .findRecord current =>
    (t, if current = .null then .findBaseline
      else match t.publishedRecord current with
        | none => .findBaseline
        | some item =>
          if isDeclaration parent localName item then .returned (accept kind current)
          else .findRecord item.nextBucket)
  | .findBaseline => (t, t.findBaseline parent localName kind)
  | .ensureBucket =>
    (t, if t.denseSemanticBucketMode then
        if t.denseSemanticBuckets then .loadSlot else .returned (.error .notAvailable)
      else if t.semanticBucketPages (index / semanticBucketPageSize) then .loadSlot
      else if succeeds then .installBucket
      else .returned (.error .notAvailable))
  | .installBucket =>
    let pages := Function.update t.semanticBucketPages (index / semanticBucketPageSize) true
    ({ t with semanticBucketPages := pages }, .loadSlot)
  | .loadSlot => (t, .takeSlot t.nextSlot)
  | .takeSlot slot =>
    if slot = 0 || slot > IdentityRef.maximumSlot then (t, .returned (.error .notAvailable))
    else if succeeds && t.nextSlot == slot then
      ({ t with nextSlot := slot + 1 }, .ensureDirectory slot)
    else (t, .takeSlot t.nextSlot)
  | .ensureDirectory slot =>
    (t, if slot ≤ 1 || slot > IdentityRef.maximumSlot || directoryIndex slot ≥ directoryCount then
        .returned (.error .notAvailable)
      else if t.directories (directoryIndex slot) then .ensurePage slot
      else if succeeds then .installDirectory slot
      else .returned (.error .notAvailable))
  | .installDirectory slot =>
    ({ t with directories := Function.update t.directories (directoryIndex slot) true },
      .ensurePage slot)
  | .ensurePage slot =>
    (t, if t.pages (pageNumber slot) then .initialiseCandidate slot
      else if succeeds then .installPage slot
      else .returned (.error .notAvailable))
  | .installPage slot =>
    ({ t with pages := Function.update t.pages (pageNumber slot) true }, .initialiseCandidate slot)
  | .initialiseCandidate slot =>
    let fingerprint := semanticFingerprint (semanticHashValue parent localName)
    (t.storeRecord slot ⟨parent, localName, packedFingerprint fingerprint kind, .null⟩,
      .loadHead slot)
  | .loadHead slot => (t, .scan slot (t.buckets index) (t.buckets index))
  | .scan slot head current =>
    (t, if current = .null then .link slot head
      else match t.publishedRecord current with
        | none => .discard slot (.error .initializationFailed)
        | some item =>
          if isDeclaration parent localName item then .discard slot (accept kind current)
          else .scan slot head item.nextBucket)
  | .link slot head =>
    (t.storeRecord slot { t.records slot with nextBucket := head }, .exchange slot head)
  | .exchange slot head =>
    if succeeds && t.buckets index == head then
      ({ t with buckets := Function.update t.buckets index (.make slot kind) }, .count slot)
    else (t, .scan slot (t.buckets index) (t.buckets index))
  | .count slot =>
    ({ t with identityCount := t.identityCount + 1 }, .returned (.ok (.make slot kind)))
  | .discard slot result => (t.storeRecord slot {}, .returned result)
  | .returned result => (t, .returned result)

end IdentitySpace

end ServerEngine
