import ServerEngine.Graph.Records
import ServerEngine.Library.Slice

/-! # Queries of the Graph

The read operations of a Graph whose vectors hold their current values. A dead slot is found by no
query, and a range that leaves its arena is read as empty.
-/
namespace ServerEngine
open Slice

abbrev Graph := GraphOf List

/-! ## Canonical type expressions -/

/-- The intrinsic type of a code; a code without a type is read as `none` by every switch. -/
def IntrinsicType.ofCode (code : Nat) : IntrinsicType :=
  ([.none, .voidType, .boolType, .charType, .signedChar, .unsignedChar, .wcharType, .char8Type,
    .char16Type, .char32Type, .signedShort, .unsignedShort, .signedInt, .unsignedInt, .signedLong,
    .unsignedLong, .signedLongLong, .unsignedLongLong, .floatType, .doubleType, .longDoubleType,
    .nullptrType] : List IntrinsicType).getD code .none

/-- `derived_type_kind`, with the codes that name no kind. -/
inductive DerivedTypeKind
  | constQualified
  | volatileQualified
  | pointer
  | lvalueReference
  | rvalueReference
  | boundedArray
  | unboundedArray
  | unknown (code : Nat)
  deriving DecidableEq

def DerivedTypeKind.ofCode (code : Nat) : DerivedTypeKind :=
  ([.constQualified, .volatileQualified, .pointer, .lvalueReference, .rvalueReference,
    .boundedArray, .unboundedArray] : List DerivedTypeKind).getD code (.unknown code)

/-- `derived_type_record`: one modifier around its child. -/
structure DerivedTypeRecord where
  payload : Nat := 0
  child : TypeRef := 0
  kind : DerivedTypeKind := .pointer

namespace Graph

def empty : Graph where
  baselineBacked := false
  types := []
  identities := []
  memberRecords := []
  enumValueRecords := []
  objectEntries := []
  objectIdentities := []
  linkRecords := []
  canonicalTypes := []
  identityIndex := []
  objectIdentityIndex := []
  linkIndex := []
  intrinsicRefs := []
  namedRefs := []
  derivedIndex := []
  derivedIndexEntries := 0
  dependencyVersions := []
  reverseDependencyHeads := []
  dependencyEdges := []
  liveTypeCount := 0
  liveObjectCount := 0
  liveLinkCount := 0

def findType (g : Graph) (handle : TypeHandle) : Option TypeEntry :=
  if handle = 0 then none else g.types[handle - 1]?.filter (·.live)

def findObject (g : Graph) (handle : ObjectHandle) : Option ObjectEntry :=
  if handle = 0 then none else g.objectEntries[handle - 1]?.filter (·.live)

def objectAt (g : Graph) (index : Nat) : ObjectHandle :=
  if u32Max ≤ index then 0
  else match g.objectEntries[index]? with
    | some entry => if entry.live then index + 1 else 0
    | none => 0

def members (g : Graph) (handle : TypeHandle) : List MemberRecord :=
  match g.findType handle with
  | none => []
  | some entry =>
    if entry.kind ≠ .record || !entry.defined then []
    else
      let begin := entry.definition.begin - 1
      let count := entry.definition.count
      if g.memberRecords.length < begin || g.memberRecords.length - begin < count then []
      else slice g.memberRecords begin count

def enumValues (g : Graph) (handle : TypeHandle) : List EnumValueRecord :=
  match g.findType handle with
  | none => []
  | some entry =>
    if entry.kind ≠ .enumeration || !entry.defined then []
    else
      let begin := entry.definition.begin - 1
      let count := entry.definition.count
      if g.enumValueRecords.length < begin || g.enumValueRecords.length - begin < count then []
      else slice g.enumValueRecords begin count

def canonical (g : Graph) (type : TypeRef) : Option CanonicalTypeRecord :=
  if type = 0 then none else g.canonicalTypes[type]?

def intrinsic (g : Graph) (type : TypeRef) : Option IntrinsicType :=
  match g.canonical type with
  | some record => if record.kind = .intrinsic then some (.ofCode record.detail) else none
  | none => none

def namedRaw (g : Graph) (type : TypeRef) : Option TypeHandle :=
  match g.canonical type with
  | some record =>
    if record.kind ≠ .named || record.childOrHandle = 0 || g.types.length < record.childOrHandle
    then none else some record.childOrHandle
  | none => none

def named (g : Graph) (type : TypeRef) : Option TypeHandle :=
  (g.namedRaw type).filter fun handle => (g.findType handle).isSome

def derived (g : Graph) (type : TypeRef) : Option DerivedTypeRecord :=
  match g.canonical type with
  | some record =>
    if record.kind ≠ .derived || record.childOrHandle = 0 ||
      g.canonicalTypes.length ≤ record.childOrHandle then none
    else some ⟨record.payload, record.childOrHandle, .ofCode record.detail⟩
  | none => none

end Graph

end ServerEngine
