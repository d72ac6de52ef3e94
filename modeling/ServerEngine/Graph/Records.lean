import ServerEngine.Frontend.SourceFacts
import ServerEngine.Storage.IndexTable

/-! # Graph records

The semantic state of the one committed Graph and the sparse update of it. The record of its vectors
is generic in the container: lists of current values, or vectors mapped over a saved baseline.
-/
namespace ServerEngine

/-! ## Handles -/

/-- `type_handle`, `object_handle` and `link_handle` are one-based slots; zero is no handle. -/
abbrev TypeHandle := Nat
abbrev ObjectHandle := Nat
abbrev LinkHandle := Nat

abbrev TypeRef := Nat

/-! ## Records -/

structure DefinitionRange where
  begin : Nat := 0
  count : Nat := 0
  deriving DecidableEq

def DefinitionRange.valid (r : DefinitionRange) : Bool := r.begin != 0

inductive GraphTypeKind
  | record
  | enumeration
  deriving DecidableEq

/-- `enumScoped`, `enumFixedUnderlying` and `live` are the bits `0x01`, `0x02`, `0x80` of `flags`. -/
structure TypeEntry where
  definition : DefinitionRange := {}
  kind : GraphTypeKind := .record
  recordKind : SourceRecordKind := .structType
  enumUnderlying : IntrinsicType := .none
  enumScoped : Bool := false
  enumFixedUnderlying : Bool := false
  live : Bool := false
  deriving DecidableEq

def TypeEntry.defined (e : TypeEntry) : Bool := e.definition.valid

structure MemberRecord where
  name : Nat := 0
  type : TypeRef := 0
  access : SourceMemberAccess := .publicAccess
  construction : ConstructionValue := {}

structure EnumValueRecord where
  bits : Nat := 0
  name : Nat := 0
  intrinsic : IntrinsicType := .signedInt
  deriving DecidableEq

/-- `live` is the bit `0x80000000` of `flags`. -/
structure ObjectEntry where
  type : TypeRef := 0
  constructionFlags : Nat := 0
  live : Bool := false

structure ObjectEndpoint where
  object : ObjectHandle := 0
  member : Nat := invalidMember
  deriving DecidableEq

structure LinkRecord where
  source : ObjectEndpoint := {}
  target : ObjectEndpoint := {}

def LinkRecord.live (l : LinkRecord) : Bool := l.source.object != 0 && l.target.object != 0

inductive CanonicalTypeKind
  | intrinsic
  | named
  | derived
  deriving DecidableEq

/-- `graph_canonical_type_record`; `detail` is the code of an intrinsic type or a modifier. -/
structure CanonicalTypeRecord where
  payload : Nat := 0
  childOrHandle : Nat := 0
  kind : CanonicalTypeKind := .intrinsic
  detail : Nat := 0
  deriving DecidableEq

structure DependencyEdge where
  ownerHandle : Nat := 0
  nextForTarget : Nat := 0
  ownerVersion : Nat := 0

instance : Inhabited TypeEntry := ⟨{}⟩
instance : Inhabited MemberRecord := ⟨{}⟩
instance : Inhabited EnumValueRecord := ⟨{}⟩
instance : Inhabited ObjectEntry := ⟨{}⟩
instance : Inhabited LinkRecord := ⟨{}⟩
instance : Inhabited CanonicalTypeRecord := ⟨{}⟩
instance : Inhabited DependencyEdge := ⟨{}⟩
instance : Inhabited IdentityRef := ⟨.null⟩

/-- The fields of `graph`, with its vectors in the container `V`. -/
structure GraphOf (V : Type → Type) where
  baselineBacked : Bool
  types : V TypeEntry
  identities : V IdentityRef
  memberRecords : V MemberRecord
  enumValueRecords : V EnumValueRecord
  objectEntries : V ObjectEntry
  objectIdentities : V IdentityRef
  linkRecords : V LinkRecord
  canonicalTypes : V CanonicalTypeRecord
  identityIndex : V IndexSlot
  objectIdentityIndex : V IndexSlot
  linkIndex : V IndexSlot
  intrinsicRefs : List TypeRef
  namedRefs : V TypeRef
  derivedIndex : V IndexSlot
  derivedIndexEntries : Nat
  dependencyVersions : V Nat
  reverseDependencyHeads : V Nat
  dependencyEdges : V DependencyEdge
  liveTypeCount : Nat
  liveObjectCount : Nat
  liveLinkCount : Nat

structure Patch (α : Type) where
  handle : Nat
  value : α

structure PendingDependencyEdge where
  targetHandle : Nat := 0
  ownerHandle : Nat := 0
  ownerVersion : Nat := 0

structure PreparedGraphUpdate where
  typePatches : List (Patch TypeEntry) := []
  newTypes : List TypeEntry := []
  newIdentities : List IdentityRef := []
  objectPatches : List (Patch ObjectEntry) := []
  newObjects : List ObjectEntry := []
  newObjectIdentities : List IdentityRef := []
  linkPatches : List (Patch LinkRecord) := []
  newLinks : List LinkRecord := []
  members : List MemberRecord := []
  enumValues : List EnumValueRecord := []
  canonicalTypes : List CanonicalTypeRecord := []
  intrinsicRefs : List TypeRef := []
  namedRefPatches : List (Patch TypeRef) := []
  dependencyVersionPatches : List (Patch Nat) := []
  dependencyEdges : List PendingDependencyEdge := []
  rebuiltIdentityIndex : List IndexSlot := []
  rebuiltObjectIdentityIndex : List IndexSlot := []
  rebuiltLinkIndex : List IndexSlot := []
  rebuiltDerivedIndex : List IndexSlot := []
  derivedIndexEntries : Nat := 0
  liveTypeCount : Nat := 0
  liveObjectCount : Nat := 0
  liveLinkCount : Nat := 0
  replaceIdentityIndex : Bool := false
  replaceObjectIdentityIndex : Bool := false
  replaceLinkIndex : Bool := false
  replaceDerivedIndex : Bool := false

def identityHash (identity : IdentityRef) : Nat := mix64 identity.value

def endpointHash (e : ObjectEndpoint) : Nat := mix64 ((e.object <<< 32 % 2 ^ 64) ^^^ e.member)

def derivedHash (kind child payload : Nat) : Nat :=
  mix64 ((kind <<< 56 % 2 ^ 64) ^^^ (child <<< 16 % 2 ^ 64) ^^^ mix64 payload)

def identityEntry (identity : IdentityRef) (handle : Nat) : IndexEntry IdentityRef :=
  ⟨identityHash identity, handle, (· == identity)⟩

def linkEntry (target : ObjectEndpoint) (handle : Nat) : IndexEntry LinkRecord :=
  ⟨endpointHash target, handle, (·.target == target)⟩

def derivedEntry (record : CanonicalTypeRecord) (ref : TypeRef) : IndexEntry CanonicalTypeRecord :=
  ⟨derivedHash record.detail record.childOrHandle record.payload, ref, fun _ => false⟩

namespace PreparedGraphUpdate

def identityEntries (p : PreparedGraphUpdate) (oldTypeSlots : Nat) : List (IndexEntry IdentityRef) :=
  p.newIdentities.zipIdx.map fun (identity, i) => identityEntry identity (oldTypeSlots + i + 1)

def objectIdentityEntries (p : PreparedGraphUpdate) (oldObjectSlots : Nat) :
    List (IndexEntry IdentityRef) :=
  p.newObjectIdentities.zipIdx.map fun (identity, i) =>
    identityEntry identity (oldObjectSlots + i + 1)

def linkEntries (p : PreparedGraphUpdate) (oldLinkSlots : Nat) : List (IndexEntry LinkRecord) :=
  p.newLinks.zipIdx.map fun (link, i) => linkEntry link.target (oldLinkSlots + i + 1)

def derivedEntries (p : PreparedGraphUpdate) (canonicalBase : Nat) :
    List (IndexEntry CanonicalTypeRecord) :=
  (p.canonicalTypes.zipIdx.filter (·.1.kind == .derived)).map fun (record, i) =>
    derivedEntry record (canonicalBase + i)

end PreparedGraphUpdate

end ServerEngine
