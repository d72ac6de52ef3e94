import ServerEngine.Runtime.Layout
import ServerEngine.Library.CopyPlan
import ServerEngine.Library.TopologicalOrder

/-! # The managed runtime

Construction of a runtime from a Graph: initializers are applied, references resolved to the field
whose storage they alias, value links ordered, and the storage filled. A write goes to the resolved
field and all value links are copied again.
-/
namespace ServerEngine
open Slice ConstructM

/-! ## Scalar bytes -/

/-- `std::bit_cast` of 64 bits to a signed integer. -/
def toInt64 (bits : Nat) : Int := if bits < 2 ^ 63 then bits else bits - 2 ^ 64

/-- The first `count` bytes of an integer in little-endian order. -/
def littleEndian (bits count : Nat) : Bytes :=
  (List.range count).map fun i => (bits / 256 ^ i).toUInt8

def ofLittleEndian (bytes : Bytes) : Nat := bytes.foldr (fun b bits => b.toNat + 256 * bits) 0

def integerFits (field : ManagedFieldLayout) (bits : Nat) (negative : Bool) : Bool :=
  if field.pointer then bits == 0
  else if field.boolean then !negative && bits ≤ 1
  else if !field.isSigned && negative then false
  else if field.size = 8 then !field.isSigned || negative || bits < 2 ^ 63
  else
    let width := field.size * 8
    if negative then -(2 ^ (width - 1) : Int) ≤ toInt64 bits
    else bits < 2 ^ (width - if field.isSigned then 1 else 0)

def initializeReal (field : ManagedFieldLayout) (number : Nat) : Option Bytes :=
  if !binary64.isFinite number then none
  else if field.size = 4 then
    let narrowed := binary64.convert binary32 number
    if binary32.isFinite narrowed then some (littleEndian narrowed 4) else none
  else some (littleEndian number 8)

/-- `initialize`: the bytes it writes at the offset of the field, or `none` for its `false`. -/
def initializeStorage (field : ManagedFieldLayout) : Option Bytes :=
  let value := field.initial
  if !validConstruction value || value.kind = .unsupported || value.kind = .aggregate then none
  else if field.aggregate then if value.kind = .zero then some [] else none
  else if field.reference then
    if value.kind = .zero || value.kind = .memberBinding then some [] else none
  else if value.kind = .memberBinding then none
  else if field.floating then
    initializeReal field <|
      match value.kind with
      | .real => value.bits
      | .signedInteger => binary64.ofInt (toInt64 value.bits)
      | _ => binary64.ofInt value.bits
  else if value.kind = .real ||
      !integerFits field value.bits (value.kind = .signedInteger && toInt64 value.bits < 0) then none
  else some (littleEndian value.bits field.size)

def setInitial (fields : List ManagedFieldLayout) (index : Nat) (value : ConstructionValue) :
    List ManagedFieldLayout :=
  fields.modify index fun field => { field with initial := value }

mutual

/-- `apply_initializer`; `none` is its `false`. -/
def applyInitializer (fields : List ManagedFieldLayout) (index : Nat) :
    AggregateInitializer → Option (List ManagedFieldLayout)
  | .scalar value =>
    let field := fields.getD index {}
    if field.aggregate || field.reference then none else some (setInitial fields index value)
  | .list children =>
    let field := fields.getD index {}
    if field.aggregate then
      if field.childCount < children.length then none
      else (applyChildren fields field.firstChild children).map fun fields =>
        setInitial fields index {}
    else match children with
      | [] => some (setInitial fields index {})
      | [child] => applyInitializer fields index child
      | _ => none

def applyChildren (fields : List ManagedFieldLayout) (index : Nat) :
    List AggregateInitializer → Option (List ManagedFieldLayout)
  | [] => some fields
  | child :: rest =>
    match applyInitializer fields index child with
    | none => none
    | some fields => applyChildren fields (index + 1) rest

end

def initializeField (graph : ManagedGraphReader) (fields : List ManagedFieldLayout) (index : Nat) :
    ConstructM (List ManagedFieldLayout) :=
  let field := fields.getD index {}
  if field.initial.kind = .aggregate then
    match (parseAggregateInitializer (graph.string field.initial.operand)).bind
        (applyInitializer fields index) with
    | some fields => .ok fields
    | none => fail
        "Invalid aggregate initializer shape, too many elements or unsupported reference initializer"
  else if field.aggregate && field.initial.kind ≠ .zero then
    fail "Nested record initialization requires braces"
  else .ok fields

def initializeFields (graph : ManagedGraphReader) (fields : List ManagedFieldLayout) :
    ConstructM (List ManagedFieldLayout) :=
  (List.range fields.length).reverse.foldlM (initializeField graph) fields

/-! ## Bindings and links -/

def compatible (fields : List ManagedFieldLayout) (target source : Nat) : Bool :=
  let t := fields.getD target {}
  let s := fields.getD source {}
  !t.aggregate && !s.aggregate && t.valueType = s.valueType && t.pointer = s.pointer &&
    t.size = s.size && (!t.reference || t.readOnly || !s.readOnly)

structure Bindings where
  references : List (Option Nat)
  incoming : List (Option Nat)

def boundSibling (field : ManagedFieldLayout) : Option Nat :=
  if field.initial.operand ≠ 0 && field.initial.operand ≤ field.siblingCount then
    some (field.siblingFirst + field.initial.operand - 1)
  else none

def bindLocal (fields : List ManagedFieldLayout) (b : Bindings) (index : Nat) :
    ConstructM Bindings :=
  let field := fields.getD index {}
  if field.initial.kind ≠ .memberBinding then .ok b
  else match boundSibling field with
    | none => fail "Invalid local reference binding"
    | some source =>
      if !field.reference || !compatible fields index source then
        fail "Invalid local reference binding"
      else .ok { b with references := b.references.set index (some source) }

def endpointField (objectSlots : List (Option Nat)) (objectLayouts : List ManagedObjectLayout)
    (endpoint : ObjectEndpoint) : Option Nat :=
  if endpoint.object = 0 || endpoint.member = invalidMember then none
  else match objectSlots[endpoint.object]?.join with
    | none => none
    | some slot =>
      let object := objectLayouts.getD slot {}
      if endpoint.member < object.fieldCount then some (object.firstField + endpoint.member)
      else none

def bindLink (fields : List ManagedFieldLayout) (field : ObjectEndpoint → Option Nat) (b : Bindings)
    (link : LinkRecord) : ConstructM Bindings :=
  if !link.live then .ok b
  else match field link.target, field link.source with
    | some target, some source =>
      if !compatible fields target source then fail "Link endpoint type mismatch"
      else if (b.incoming.getD target none).isSome then fail "Multiple links target one field"
      else
        let b := { b with incoming := b.incoming.set target (some source) }
        if (fields.getD target {}).reference then
          .ok { b with references := b.references.set target (some source) }
        else if (fields.getD target {}).readOnly then
          fail "A value link cannot target a const field"
        else .ok b
    | _, _ => fail "Link endpoint type mismatch"

def bindAll (graph : ManagedGraphReader) (fields : List ManagedFieldLayout)
    (field : ObjectEndpoint → Option Nat) : ConstructM Bindings := do
  let missing := List.replicate fields.length none
  let b ← (List.range fields.length).foldlM (bindLocal fields) ⟨missing, missing⟩
  let links ← uncorrupt graph.links
  links.foldlM (bindLink fields field) b

/-- The marks of the resolution: the field whose storage each field uses, once it is known. -/
structure Resolution where
  resolved : List (Option Nat)
  state : List Nat

/-- Follow the bindings from `current` to a resolved field; the fields passed are collected. -/
def followReferences (fields : List ManagedFieldLayout) (references : List (Option Nat)) :
    Nat → Nat → List Nat → Resolution → ConstructM (Nat × List Nat × Resolution)
  | 0, _, _, _ => .error .diverges
  | fuel + 1, current, path, r =>
    if (r.resolved.getD current none).isSome then .ok (current, path, r)
    else if r.state.getD current 0 = 1 then fail "Reference binding cycle"
    else
      let r := { r with state := r.state.set current 1 }
      let path := path ++ [current]
      if !(fields.getD current {}).reference then
        .ok (current, path, { r with resolved := r.resolved.set current (some current) })
      else match references.getD current none with
        | none => fail "Reference field has no binding"
        | some next => followReferences fields references fuel next path r

def resolveField (fields : List ManagedFieldLayout) (references : List (Option Nat))
    (r : Resolution) (index : Nat) : ConstructM Resolution := do
  let (current, path, r) ← followReferences fields references (fields.length + 1) index [] r
  let target := r.resolved.getD current none
  .ok (path.foldl (fun r item =>
    { resolved := r.resolved.set item target, state := r.state.set item 2 }) r)

def resolveReferences (fields : List ManagedFieldLayout) (references : List (Option Nat)) :
    ConstructM (List (Option Nat)) := do
  let count := fields.length
  let r ← (List.range count).foldlM (resolveField fields references)
    ⟨List.replicate count none, List.replicate count 0⟩
  .ok r.resolved

/-- `managed_binding`: the storage of `source` is copied to `target`. -/
abbrev ManagedBinding := CopyPlan.Copy Nat

/-- `source_for`: the resolved source of the value link into a field. -/
def sourceFor (fields : List ManagedFieldLayout) (incoming resolved : List (Option Nat))
    (index : Nat) : Option Nat :=
  match incoming.getD index none with
  | none => none
  | some source =>
    if (fields.getD index {}).reference then none
    else
      let source := resolved.getD source none
      if source = some index then none else source

/-- `outgoing`, in the order of the targets. -/
def outgoing (sources : List (Option Nat)) (node : Nat) : List Nat :=
  (List.range sources.length).filter fun target => sources.getD target none == some node

/-- The copies in the order in which the nodes leave the queue. -/
def orderLinks (sources : List (Option Nat)) : ConstructM (List ManagedBinding) :=
  let indegree := sources.map fun source => if source.isSome then 1 else 0
  match TopologicalOrder.loop (outgoing sources) (sources.length + 1) 0
      (TopologicalOrder.start indegree) with
  | none => .error .diverges
  | some s =>
    if s.queue.length ≠ sources.length then fail "Value link cycle"
    else .ok (s.queue.filterMap fun node => (sources.getD node none).map fun source => ⟨node, source⟩)

structure ManagedRuntime where
  objectLayouts : List ManagedObjectLayout := []
  fieldLayouts : List ManagedFieldLayout := []
  objectSlots : List (Option Nat) := []
  resolved : List (Option Nat) := []
  copies : List ManagedBinding := []
  storage : Bytes := []

/-- The `std::memcpy` of one value link. -/
def copyField (fields : List ManagedFieldLayout) (storage : Bytes) (link : ManagedBinding) : Bytes :=
  let source := fields.getD link.source {}
  let target := fields.getD link.target {}
  overwrite storage target.offset (slice storage source.offset target.size)

def ManagedRuntime.propagate (r : ManagedRuntime) : ManagedRuntime :=
  { r with storage := CopyPlan.run (copyField r.fieldLayouts) r.copies r.storage }

def storeInitial (storage : Bytes) (field : ManagedFieldLayout) : ConstructM Bytes :=
  match initializeStorage field with
  | none => fail "Unsupported initializer or constant out of range"
  | some bytes => .ok (overwrite storage field.offset bytes)

/-- `construct`, on success the runtime that replaces the previous one. -/
def ManagedRuntime.construct (fuel : Nat) (graph : ManagedGraphReader) (abi : AbiConfiguration) :
    ConstructM ManagedRuntime :=
  if !abi.supported then fail "Unsupported ABI configuration"
  else do
    let layout ← layoutObjects fuel graph abi
    let fields ← initializeFields graph layout.fieldLayouts
    let b ← bindAll graph fields (endpointField layout.objectSlots layout.objectLayouts)
    let resolved ← resolveReferences fields b.references
    let copies ← orderLinks ((List.range fields.length).map (sourceFor fields b.incoming resolved))
    let storage ← fields.foldlM storeInitial (List.replicate layout.total 0)
    let candidate : ManagedRuntime :=
      ⟨layout.objectLayouts, fields, layout.objectSlots, resolved, copies, storage⟩
    .ok candidate.propagate

namespace ManagedRuntime

/-! ## Access -/

def field (r : ManagedRuntime) (endpoint : ObjectEndpoint) (path : List Nat) : Option Nat :=
  path.foldl
    (fun index member =>
      match index with
      | none => none
      | some index =>
        let parent := r.fieldLayouts.getD index {}
        if member = invalidMember || !parent.aggregate || parent.childCount ≤ member then none
        else some (parent.firstChild + member))
    (endpointField r.objectSlots r.objectLayouts endpoint)

def target (r : ManagedRuntime) (index : Nat) : Nat := (r.resolved.getD index none).getD index

def resolvedField (r : ManagedRuntime) (index : Nat) : ManagedFieldLayout :=
  r.fieldLayouts.getD (r.target index) {}

def bytesAt (r : ManagedRuntime) (index : Nat) : Bytes :=
  let f := r.fieldLayouts.getD index {}
  slice r.storage f.offset f.size

def aliases (r : ManagedRuntime) (a b : ObjectEndpoint) : Bool :=
  match r.field a [], r.field b [] with
  | some first, some second => r.target first == r.target second
  | _, _ => false

def readInteger (r : ManagedRuntime) (endpoint : ObjectEndpoint) (path : List Nat) :
    Except StatusCode Int :=
  match r.field endpoint path with
  | none => .error .notFound
  | some index =>
    let f := r.resolvedField index
    if f.aggregate || f.floating || f.pointer then .error .invalidArgument
    else
      let bits := ofLittleEndian (slice r.storage f.offset f.size)
      if f.isSigned then
        if f.size < 8 && bits / 2 ^ (f.size * 8 - 1) % 2 = 1 then .ok (bits - 2 ^ (f.size * 8))
        else .ok (toInt64 bits)
      else if 2 ^ 63 ≤ bits then .error .invalidArgument
      else .ok bits

/-- `read_real`: the bits of the double. -/
def readReal (r : ManagedRuntime) (endpoint : ObjectEndpoint) (path : List Nat) :
    Except StatusCode Nat :=
  match r.field endpoint path with
  | none => .error .notFound
  | some index =>
    let f := r.resolvedField index
    if !f.floating then .error .invalidArgument
    else
      let bits := ofLittleEndian (slice r.storage f.offset f.size)
      .ok (if f.size = 4 then binary32.convert binary64 bits else bits)

def store (r : ManagedRuntime) (f : ManagedFieldLayout) (bytes : Bytes) : ManagedRuntime :=
  { r with storage := overwrite r.storage f.offset bytes : ManagedRuntime }.propagate

/-- `write_integer`: the status and the runtime after the call. -/
def writeInteger (r : ManagedRuntime) (endpoint : ObjectEndpoint) (path : List Nat) (value : Int64) :
    Except StatusCode Unit × ManagedRuntime :=
  match r.field endpoint path with
  | none => (.error .notFound, r)
  | some index =>
    let f := r.resolvedField index
    let bits := value.toUInt64.toNat
    if f.aggregate || f.floating || f.pointer || (r.fieldLayouts.getD index {}).readOnly ||
        f.readOnly || !integerFits f bits (value < 0) then (.error .invalidArgument, r)
    else (.ok (), r.store f (littleEndian bits f.size))

/-- `write_real`, of the double with these bits. -/
def writeReal (r : ManagedRuntime) (endpoint : ObjectEndpoint) (path : List Nat) (value : UInt64) :
    Except StatusCode Unit × ManagedRuntime :=
  match r.field endpoint path with
  | none => (.error .notFound, r)
  | some index =>
    let f := r.resolvedField index
    if !f.floating || f.readOnly || (r.fieldLayouts.getD index {}).readOnly then
      (.error .invalidArgument, r)
    else
      match initializeStorage { f with initial := .constant .real value.toNat } with
      | none => (.error .invalidArgument, r)
      | some bytes => (.ok (), r.store f bytes)

inductive Write
  | integer (endpoint : ObjectEndpoint) (path : List Nat) (value : Int64)
  | real (endpoint : ObjectEndpoint) (path : List Nat) (value : UInt64)

def write (r : ManagedRuntime) : Write → Except StatusCode Unit × ManagedRuntime
  | .integer endpoint path value => r.writeInteger endpoint path value
  | .real endpoint path value => r.writeReal endpoint path value

def writes (r : ManagedRuntime) (calls : List Write) : ManagedRuntime :=
  calls.foldl (fun r call => (r.write call).2) r

end ManagedRuntime

end ServerEngine
