import ServerEngine.Core.Hash
import ServerEngine.Frontend.SourceFacts
import ServerEngine.Library.ProbedTable

/-! # Source interfaces

`source_interface`: what a parsed source shows to the sources that import it. The incremental build
fills tables of its own, the full build fills ranges of a runtime store; both read the same facts.
-/
namespace ServerEngine
open ProbedTable Slice

/-- `identity_view`: of the space behind it the parent and the name are read. -/
structure IdentityView where
  parent : IdentityRef → IdentityRef
  name : IdentityRef → Nat

/-! ## Slots -/

structure InterfaceTypeSlot where
  parent : IdentityRef := .null
  name : Nat := 0
  identity : IdentityRef := .null
  deriving DecidableEq

structure InterfaceObjectSlot where
  parent : IdentityRef := .null
  name : Nat := 0
  identity : IdentityRef := .null
  namedType : IdentityRef := .null
  deriving DecidableEq

structure InterfaceMemberSlot where
  type : IdentityRef := .null
  name : Nat := 0
  index : Nat := invalidMember
  deriving DecidableEq

def bindingHash (owner : IdentityRef) (name : Nat) : Nat := mix64 (owner.value ^^^ (name * 2 ^ 32))

def typeFormat : Format InterfaceTypeSlot (IdentityRef × Nat) where
  empty := {}
  free s := !s.identity.valid
  key s := (s.parent, s.name)
  hash k := bindingHash k.1 k.2

def objectFormat : Format InterfaceObjectSlot (IdentityRef × Nat) where
  empty := {}
  free s := !s.identity.valid
  key s := (s.parent, s.name)
  hash k := bindingHash k.1 k.2

def memberFormat : Format InterfaceMemberSlot (IdentityRef × Nat) where
  empty := {}
  free s := !s.type.valid
  key s := (s.type, s.name)
  hash k := bindingHash k.1 k.2

def capacityLoop : Nat → Nat → Nat → Nat
  | 0, _, _ => 0
  | fuel + 1, target, capacity =>
    if capacity < target then
      if capacity > sizeMax / 2 then 0 else capacityLoop fuel target (capacity * 2)
    else capacity

/-- `capacity_for`; after 61 doublings the capacity has left the range. -/
def capacityFor (count : Nat) : Nat :=
  capacityLoop 62 (if count > sizeMax / 2 then sizeMax else count * 2 + 1) 16

/-! ## Interfaces -/

/-- An imported interface is named by its address. The persistence lists hold the entries in the
order they were inserted. -/
structure SourceInterface where
  localTypes : List IdentityRef := []
  typeSlots : List InterfaceTypeSlot := []
  objectSlots : List InterfaceObjectSlot := []
  memberSlots : List InterfaceMemberSlot := []
  persistenceTypeSlots : List InterfaceTypeSlot := []
  persistenceObjectSlots : List InterfaceObjectSlot := []
  persistenceMemberSlots : List InterfaceMemberSlot := []
  persistenceLocalTypeCount : Nat := 0
  persistenceTypeSlotCount : Nat := 0
  persistenceObjectSlotCount : Nat := 0
  persistenceMemberSlotCount : Nat := 0
  persistenceCompactState : Bool := true
  runtimeExternalizedState : Bool := false
  imports : List Nat := []
  deriving DecidableEq

inductive InterfaceStop
  | failed (code : StatusCode)
  | endless
  deriving DecidableEq

/-- A table under construction: `inserted` grows with every entry, as the local types, the compact
slots and the count do. -/
structure BindingTable (S : Type) where
  slots : List S
  inserted : List S := []

namespace SourceInterface

/-- The probe loop of the insertions: a slot of the key in use is compared by `agrees`. -/
def bind {S κ : Type} [DecidableEq κ] (f : Format S κ) (agrees : S → S → Bool)
    (table : BindingTable S) (value : S) : Except InterfaceStop (BindingTable S) :=
  match probe f table.slots (f.key value) with
  | none => .error .endless
  | some pos =>
    if f.free (slotAt f table.slots pos) then
      .ok ⟨table.slots.set pos value, table.inserted ++ [value]⟩
    else if agrees (slotAt f table.slots pos) value then .ok table
    else .error (.failed .semanticConflict)

def sameType (slot value : InterfaceTypeSlot) : Bool := slot.identity == value.identity

def sameObject (slot value : InterfaceObjectSlot) : Bool :=
  !(slot.identity != value.identity || slot.namedType != value.namedType)

def bindingKey (view : IdentityView) (identity : IdentityRef) :
    Except InterfaceStop (IdentityRef × Nat) :=
  if !(view.parent identity).valid || view.name identity = 0 then .error (.failed .invalidArgument)
  else .ok (view.parent identity, view.name identity)

def insertType (view : IdentityView) (table : BindingTable InterfaceTypeSlot)
    (identity : IdentityRef) : Except InterfaceStop (BindingTable InterfaceTypeSlot) :=
  if !identity.valid || identity.kind ≠ .type then .error (.failed .invalidArgument)
  else do
    let (parent, name) ← bindingKey view identity
    bind typeFormat sameType table ⟨parent, name, identity⟩

/-- `insert_type` of the full build, which also fails when its range of local types is full. -/
def insertTypeExternal (view : IdentityView) (localTypeCount : Nat)
    (table : BindingTable InterfaceTypeSlot) (identity : IdentityRef) :
    Except InterfaceStop (BindingTable InterfaceTypeSlot) :=
  if !identity.valid || identity.kind ≠ .type || table.slots.isEmpty ||
      table.inserted.length ≥ localTypeCount then .error (.failed .invalidArgument)
  else do
    let (parent, name) ← bindingKey view identity
    bind typeFormat sameType table ⟨parent, name, identity⟩

def insertObject (view : IdentityView) (table : BindingTable InterfaceObjectSlot)
    (object : SourceObjectFact) : Except InterfaceStop (BindingTable InterfaceObjectSlot) :=
  if !object.identity.valid || object.identity.kind ≠ .object then
    .error (.failed .invalidArgument)
  else do
    let (parent, name) ← bindingKey view object.identity
    let namedType := if object.type.identity.valid && object.type.modifiers.count = 0 then
        object.type.identity
      else .null
    bind objectFormat sameObject table ⟨parent, name, object.identity, namedType⟩

def insertMember (type : IdentityRef) (table : BindingTable InterfaceMemberSlot)
    (item : SourceMemberFact × Nat) : Except InterfaceStop (BindingTable InterfaceMemberSlot) :=
  if item.1.name = 0 then .error (.failed .invalidArgument)
  else bind memberFormat (fun _ _ => false) table ⟨type, item.1.name, item.2⟩

def badRange (range : SourceFactRange) (size : Nat) : Bool :=
  range.begin > size || range.count > size - range.begin

/-- One round of the loop over the records; `bad` is the build path's check of a definition. -/
def insertMembers (facts : SourceFacts) (bad : SourceRecordFact → Bool)
    (table : BindingTable InterfaceMemberSlot) (item : SourceRecordFact) :
    Except InterfaceStop (BindingTable InterfaceMemberSlot) :=
  if item.declarationKind ≠ .definition then .ok table
  else if bad item then .error (.failed .invalidArgument)
  else (slice facts.members item.members.begin item.members.count).zipIdx.foldlM
    (insertMember item.identity) table

def badDefinition (facts : SourceFacts) (item : SourceRecordFact) : Bool :=
  !item.identity.valid || item.identity.kind ≠ .type ||
    badRange item.members facts.members.length || badRange item.bases facts.bases.length ||
    badRange item.methods facts.methods.length

def badDefinitionExternal (facts : SourceFacts) (item : SourceRecordFact) : Bool :=
  !item.identity.valid || item.identity.kind ≠ .type ||
    badRange item.members facts.members.length

def collectImports (imports : List (Option Nat)) : Except InterfaceStop (List Nat) :=
  imports.mapM fun imported =>
    match imported with
    | none => .error (.failed .invalidArgument)
    | some address => .ok address

def typeCount (facts : SourceFacts) : Nat := facts.records.length + facts.enums.length

def memberCount (facts : SourceFacts) : Nat :=
  (facts.records.map fun item =>
    if item.declarationKind = .definition then item.members.count else 0).sum

/-- `initialize` without a runtime store. -/
def initializeInterface (facts : SourceFacts) (view : IdentityView) (imports : List (Option Nat))
    (retainCompactPersistence : Bool) : Except InterfaceStop SourceInterface := do
  let typeCapacity := capacityFor (typeCount facts)
  let objectCapacity := capacityFor facts.objects.length
  let memberCapacity := capacityFor (memberCount facts)
  if typeCapacity = 0 || objectCapacity = 0 || memberCapacity = 0 then
    throw (.failed .notAvailable)
  let types ← (facts.records.map (·.identity)).foldlM (insertType view)
    ⟨List.replicate typeCapacity {}, []⟩
  let types ← (facts.enums.map (·.identity)).foldlM (insertType view) types
  let objects ← facts.objects.foldlM (insertObject view) ⟨List.replicate objectCapacity {}, []⟩
  let members ← facts.records.foldlM (insertMembers facts (badDefinition facts))
    ⟨List.replicate memberCapacity {}, []⟩
  let imported ← collectImports imports
  return {
    localTypes := types.inserted.map (·.identity)
    typeSlots := types.slots
    objectSlots := objects.slots
    memberSlots := members.slots
    persistenceTypeSlots := if retainCompactPersistence then types.inserted else []
    persistenceObjectSlots := if retainCompactPersistence then objects.inserted else []
    persistenceMemberSlots := if retainCompactPersistence then members.inserted else []
    persistenceLocalTypeCount := types.inserted.length
    persistenceTypeSlotCount := types.inserted.length
    persistenceObjectSlotCount := objects.inserted.length
    persistenceMemberSlotCount := members.inserted.length
    persistenceCompactState := retainCompactPersistence
    imports := imported }

/-- `initialize_external`: the full build's interface in ranges of the runtime store, which come
zeroed and of the sizes asked for; the allocation of the ranges may fail. -/
def initializeExternal (facts : SourceFacts) (view : IdentityView) (imports : List (Option Nat))
    (allocated : Bool) : Except InterfaceStop SourceInterface := do
  let typeCapacity := if typeCount facts = 0 then 0 else capacityFor (typeCount facts)
  let objectCapacity := if facts.objects.isEmpty then 0 else capacityFor facts.objects.length
  let memberCapacity := if memberCount facts = 0 then 0 else capacityFor (memberCount facts)
  if (typeCount facts ≠ 0 && typeCapacity = 0) || (!facts.objects.isEmpty && objectCapacity = 0) ||
      (memberCount facts ≠ 0 && memberCapacity = 0) then
    throw (.failed .notAvailable)
  if !allocated then
    throw (.failed .notAvailable)
  let types ← (facts.records.map (·.identity)).foldlM (insertTypeExternal view (typeCount facts))
    ⟨List.replicate typeCapacity {}, []⟩
  let types ← (facts.enums.map (·.identity)).foldlM (insertTypeExternal view (typeCount facts)) types
  if types.inserted.length ≠ typeCount facts then
    throw (.failed .initializationFailed)
  let objects ← (if objectCapacity = 0 then .ok ⟨[], []⟩
    else facts.objects.foldlM (insertObject view) ⟨List.replicate objectCapacity {}, []⟩)
  let members ← (if memberCapacity = 0 then .ok ⟨[], []⟩
    else facts.records.foldlM (insertMembers facts (badDefinitionExternal facts))
      ⟨List.replicate memberCapacity {}, []⟩)
  let imported ← collectImports imports
  return {
    localTypes := types.inserted.map (·.identity)
    typeSlots := types.slots
    objectSlots := objects.slots
    memberSlots := members.slots
    persistenceLocalTypeCount := typeCount facts
    persistenceTypeSlotCount := types.inserted.length
    persistenceObjectSlotCount := objects.inserted.length
    persistenceMemberSlotCount := members.inserted.length
    persistenceCompactState := false
    runtimeExternalizedState := true
    imports := imported }

abbrev Interfaces := Nat → SourceInterface

/-- The last import that knows the name; the search goes no deeper than its fuel. -/
def findTypeRecursive (interfaces : Interfaces) (scope : IdentityRef) (name : Nat) :
    Nat → SourceInterface → IdentityRef
  | 0, _ => .null
  | fuel + 1, interface =>
    if !scope.valid || name = 0 then .null
    else match find typeFormat interface.typeSlots (scope, name) with
      | some slot => slot.identity
      | none => (interface.imports.reverse.findSome? fun address =>
          let found := findTypeRecursive interfaces scope name fuel (interfaces address)
          if found.valid then some found else none).getD .null

def findObjectRecursive (interfaces : Interfaces) (scope : IdentityRef) (name : Nat) :
    Nat → SourceInterface → IdentityRef × IdentityRef
  | 0, _ => (.null, .null)
  | fuel + 1, interface =>
    if !scope.valid || name = 0 then (.null, .null)
    else match find objectFormat interface.objectSlots (scope, name) with
      | some slot => (slot.identity, slot.namedType)
      | none => (interface.imports.reverse.findSome? fun address =>
          let found := findObjectRecursive interfaces scope name fuel (interfaces address)
          if found.1.valid then some found else none).getD (.null, .null)

def findMemberRecursive (interfaces : Interfaces) (type : IdentityRef) (name : Nat) :
    Nat → SourceInterface → Nat
  | 0, _ => invalidMember
  | fuel + 1, interface =>
    if !type.valid || name = 0 then invalidMember
    else match find memberFormat interface.memberSlots (type, name) with
      | some slot => slot.index
      | none => (interface.imports.reverse.findSome? fun address =>
          let found := findMemberRecursive interfaces type name fuel (interfaces address)
          if found ≠ invalidMember then some found else none).getD invalidMember

def searchDepth : Nat := 1025

def findType (interfaces : Interfaces) (interface : SourceInterface) (scope : IdentityRef)
    (name : Nat) : IdentityRef :=
  findTypeRecursive interfaces scope name searchDepth interface

def findObject (interfaces : Interfaces) (interface : SourceInterface) (scope : IdentityRef)
    (name : Nat) : IdentityRef × IdentityRef :=
  findObjectRecursive interfaces scope name searchDepth interface

def findMember (interfaces : Interfaces) (interface : SourceInterface) (type : IdentityRef)
    (name : Nat) : Nat :=
  findMemberRecursive interfaces type name searchDepth interface

end SourceInterface
end ServerEngine
