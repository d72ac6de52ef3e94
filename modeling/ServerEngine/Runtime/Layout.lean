import ServerEngine.Core.Configuration
import ServerEngine.Graph.Queries
import ServerEngine.Frontend.AggregateInitializer

/-! # Managed layout

The storage layout of the Project objects: one flat list of fields in which the direct members of a
record stand next to each other and the members of nested records follow. Offsets are relative and
shifted by each enclosing record.
-/
namespace ServerEngine

/-! ## Layout records -/

structure ManagedFieldLayout where
  endpoint : ObjectEndpoint := {}
  offset : Nat := 0
  size : Nat := 0
  alignment : Nat := 1
  valueType : TypeRef := 0
  initial : ConstructionValue := {}
  reference : Bool := false
  isSigned : Bool := false
  floating : Bool := false
  pointer : Bool := false
  readOnly : Bool := false
  boolean : Bool := false
  aggregate : Bool := false
  firstChild : Nat := 0
  childCount : Nat := 0
  siblingFirst : Nat := 0
  siblingCount : Nat := 0
  deriving Inhabited

structure ManagedObjectLayout where
  object : ObjectHandle := 0
  offset : Nat := 0
  size : Nat := 0
  alignment : Nat := 1
  firstField : Nat := 0
  fieldCount : Nat := 0
  deriving Inhabited

/-- `managed_graph_reader`, over either backing of the project. `none` from `members` and `links` is
the exception thrown for a corrupt image. -/
structure ManagedGraphReader where
  objectSlotCount : Nat
  objectAt : Nat → ObjectHandle
  findObject : ObjectHandle → Option ObjectEntry
  findType : TypeHandle → Option TypeEntry
  intrinsic : TypeRef → Option IntrinsicType
  named : TypeRef → Option TypeHandle
  derived : TypeRef → Option DerivedTypeRecord
  members : TypeHandle → Option (List MemberRecord)
  links : Option (List LinkRecord)
  string : Nat → Bytes

def ManagedGraphReader.ofGraph (g : Graph) (string : Nat → Bytes) : ManagedGraphReader where
  objectSlotCount := g.objectEntries.length
  objectAt := g.objectAt
  findObject := g.findObject
  findType := g.findType
  intrinsic := g.intrinsic
  named := g.named
  derived := g.derived
  members type := some (g.members type)
  links := some g.linkRecords
  string := string

/-- How a construction ends without a runtime; `diverges` is a loop that has used up its fuel. -/
inductive ConstructFailure
  | failed (code : StatusCode) (detail : String)
  | diverges
  deriving DecidableEq

abbrev ConstructM := Except ConstructFailure

def ConstructM.fail {α : Type} (detail : String) : ConstructM α :=
  .error (.failed .notAvailable detail)

/-- A `std::runtime_error` of the reader. -/
def ConstructM.uncorrupt {α : Type} : Option α → ConstructM α
  | some value => .ok value
  | none => .error (.failed .artifactCorrupt "")

open ConstructM

def alignUp (offset alignment : Nat) : Option Nat :=
  if sizeMax - (alignment - 1) < offset then none
  else some ((offset + alignment - 1) / alignment * alignment)

/-- The modifiers of a scalar, outermost first; `none` is a modifier without managed storage. -/
def scalarModifiers (graph : ManagedGraphReader) :
    Nat → TypeRef → Bool → ManagedFieldLayout → ConstructM (Option ManagedFieldLayout)
  | 0, _, _, _ => .error .diverges
  | fuel + 1, type, indirect, field =>
    match graph.derived type with
    | none => .ok (some { field with valueType := type })
    | some derived =>
      match derived.kind with
      | .constQualified =>
        scalarModifiers graph fuel derived.child indirect { field with readOnly := true }
      | .lvalueReference =>
        if indirect then .ok none
        else scalarModifiers graph fuel derived.child true { field with reference := true }
      | .pointer =>
        if indirect then .ok none
        else scalarModifiers graph fuel derived.child true { field with pointer := true }
      | _ => .ok none

def scalarStorage (target : AbiTarget) (field : ManagedFieldLayout) :
    IntrinsicType → Option ManagedFieldLayout
  | .boolType => some { field with size := 1, boolean := true }
  | .unsignedChar | .char8Type => some { field with size := 1 }
  | .charType | .signedChar => some { field with size := 1, isSigned := true }
  | .signedShort => some { field with size := 2, isSigned := true }
  | .unsignedShort | .char16Type => some { field with size := 2 }
  | .signedInt => some { field with size := 4, isSigned := true }
  | .unsignedInt | .char32Type => some { field with size := 4 }
  | .wcharType => some { field with size := if target = .windowsX64 then 2 else 4 }
  | .signedLong =>
    some { field with size := if target = .windowsX64 then 4 else 8, isSigned := true }
  | .unsignedLong => some { field with size := if target = .windowsX64 then 4 else 8 }
  | .signedLongLong => some { field with size := 8, isSigned := true }
  | .unsignedLongLong => some { field with size := 8 }
  | .floatType => some { field with size := 4, floating := true }
  | .doubleType => some { field with size := 8, floating := true }
  | _ => none

/-- `scalar_layout`; `none` is its `false`. -/
def scalarLayout (fuel : Nat) (graph : ManagedGraphReader) (type : TypeRef) (target : AbiTarget)
    (field : ManagedFieldLayout) : ConstructM (Option ManagedFieldLayout) := do
  match ← scalarModifiers graph fuel type false field with
  | none => .ok none
  | some field =>
    match graph.intrinsic field.valueType with
    | none => .ok none
    | some intrinsic =>
      if field.pointer then .ok (some { field with size := 8, alignment := 8 })
      else .ok ((scalarStorage target field intrinsic).map fun field =>
        { field with alignment := field.size })

def constModifiers (graph : ManagedGraphReader) : Nat → TypeRef → Bool → ConstructM (TypeRef × Bool)
  | 0, _, _ => .error .diverges
  | fuel + 1, base, qualifiedConst =>
    match graph.derived base with
    | some derived =>
      if derived.kind = .constQualified then constModifiers graph fuel derived.child true
      else .ok (base, qualifiedConst)
    | none => .ok (base, qualifiedConst)

/-! ## Records -/

/-- The values `layout_record` returns through its parameters. -/
structure RecordLayout where
  size : Nat
  alignment : Nat
  first : Nat
  membersCount : Nat

def reserved : ManagedFieldLayout := {}

structure MemberCursor where
  fields : List ManagedFieldLayout
  size : Nat := 0
  alignment : Nat := 1

/-- `layout_record`, for its recursive call. -/
abbrev LayoutRecord :=
  TypeHandle → ObjectEndpoint → Bool → List ManagedFieldLayout →
    ConstructM (RecordLayout × List ManagedFieldLayout)

def shift (distance : Nat) (field : ManagedFieldLayout) : ManagedFieldLayout :=
  { field with offset := field.offset + distance }

/-- Shift the fields from position `begin` on. -/
def shiftFrom (fields : List ManagedFieldLayout) (begin distance : Nat) : List ManagedFieldLayout :=
  fields.take begin ++ (fields.drop begin).map (shift distance)

def ManagedFieldLayout.bytes (field : ManagedFieldLayout) : Nat :=
  if field.reference then 8 else field.size

/-- The field of the member at `position` of the record whose fields begin at `first`. -/
def memberStart (root : ObjectEndpoint) (first count position : Nat) (member : MemberRecord) :
    ManagedFieldLayout where
  endpoint := if root.member ≠ invalidMember then root else ⟨root.object, position % 2 ^ 32⟩
  initial := member.construction
  siblingFirst := first
  siblingCount := count

/-- A by-value record; references and pointers to records have no managed storage. -/
def nestedField (fuel : Nat) (graph : ManagedGraphReader) (self : LayoutRecord) (readOnly : Bool)
    (type : TypeRef) (start : ManagedFieldLayout) (fields : List ManagedFieldLayout) :
    ConstructM (ManagedFieldLayout × List ManagedFieldLayout) := do
  let (base, qualifiedConst) ← constModifiers graph fuel type false
  match graph.named base with
  | none => fail "Unsupported managed field type"
  | some nested => do
    let isConst := readOnly || qualifiedConst
    let (layout, fields) ← self nested start.endpoint isConst fields
    if u32Max < layout.size then fail "Managed record layout exceeds 4 GiB"
    else
      .ok ({ start with
        valueType := base, aggregate := true, readOnly := isConst,
        firstChild := layout.first, childCount := layout.membersCount,
        size := layout.size, alignment := layout.alignment % 2 ^ 32 }, fields)

/-- A member's field without its offset, and the fields with those nested in it. -/
def memberField (fuel : Nat) (graph : ManagedGraphReader) (target : AbiTarget) (self : LayoutRecord)
    (readOnly : Bool) (type : TypeRef) (start : ManagedFieldLayout)
    (fields : List ManagedFieldLayout) :
    ConstructM (ManagedFieldLayout × List ManagedFieldLayout) := do
  match ← scalarLayout fuel graph type target start with
  | none => nestedField fuel graph self readOnly type start fields
  | some field =>
    -- const containment does not make a reference's referent const
    if field.reference then .ok (field, fields)
    else .ok ({ field with readOnly := field.readOnly || readOnly }, fields)

/-- Place a field behind the members before it; `begin` is where the fields nested in it start. -/
def placeField (pack index begin : Nat) (field : ManagedFieldLayout) (cursor : MemberCursor) :
    ConstructM MemberCursor :=
  let fieldAlignment := min (if field.reference then 8 else field.alignment) pack
  match alignUp cursor.size fieldAlignment with
  | none => fail "Layout overflow"
  | some offset =>
    if sizeMax - field.bytes < offset then fail "Layout overflow"
    else .ok
      { fields := (shiftFrom cursor.fields begin offset).set index { field with offset := offset }
        size := offset + field.bytes
        alignment := max cursor.alignment fieldAlignment }

def layoutMember (fuel : Nat) (graph : ManagedGraphReader) (abi : AbiConfiguration)
    (self : LayoutRecord) (root : ObjectEndpoint) (readOnly : Bool) (first count : Nat)
    (cursor : MemberCursor) (member : MemberRecord × Nat) : ConstructM MemberCursor := do
  let start := memberStart root first count member.2 member.1
  let (field, fields) ←
    memberField fuel graph abi.target self readOnly member.1.type start cursor.fields
  placeField abi.pack (first + member.2) cursor.fields.length field { cursor with fields := fields }

/-- The end of `layout_record`: an empty record takes one byte. -/
def closeRecord (first count : Nat) (cursor : MemberCursor) :
    ConstructM (RecordLayout × List ManagedFieldLayout) :=
  match alignUp (if cursor.size = 0 then 1 else cursor.size) cursor.alignment with
  | none => fail "Layout overflow"
  | some size => .ok (⟨size, cursor.alignment, first, count⟩, cursor.fields)

/-- `layout_record`. The first argument is what is left of the sixty-four active types; sibling slots
are reserved before the descent. -/
def layoutRecord (fuel : Nat) (graph : ManagedGraphReader) (abi : AbiConfiguration) :
    Nat → List TypeHandle → LayoutRecord
  | 0, _, _, _, _, _ => fail "Recursive value containment or managed nesting depth exceeds 64"
  | depth + 1, active, type, root, readOnly, fields =>
    if type ∈ active then fail "Recursive value containment or managed nesting depth exceeds 64"
    else match graph.findType type with
      | none => fail "Managed values require defined struct/class records; unions are unsupported"
      | some record =>
        if !record.defined || record.kind ≠ .record || record.recordKind = .unionType then
          fail "Managed values require defined struct/class records; unions are unsupported"
        else do
          let members ← uncorrupt (graph.members type)
          let first := fields.length
          let cursor ← members.zipIdx.foldlM
            (layoutMember fuel graph abi (layoutRecord fuel graph abi depth (active ++ [type]))
              root readOnly first members.length)
            { fields := fields ++ List.replicate members.length reserved }
          closeRecord first members.length cursor

structure ObjectCursor where
  objectLayouts : List ManagedObjectLayout := []
  fieldLayouts : List ManagedFieldLayout := []
  objectSlots : List (Option Nat)
  total : Nat := 0

/-- Place an object whose record has been laid out behind the objects before it. -/
def placeObject (object : ObjectHandle) (layout : RecordLayout) (fields : List ManagedFieldLayout)
    (cursor : ObjectCursor) : ConstructM ObjectCursor :=
  match alignUp layout.size layout.alignment, alignUp cursor.total layout.alignment with
  | some size, some offset =>
    if sizeMax - size < offset then fail "Layout overflow"
    else .ok
      { objectLayouts := cursor.objectLayouts ++
          [⟨object, offset, size, layout.alignment, layout.first, layout.membersCount⟩]
        fieldLayouts := shiftFrom fields layout.first offset
        objectSlots := cursor.objectSlots.set object (some cursor.objectLayouts.length)
        total := offset + size }
  | _, _ => fail "Layout overflow"

def layoutObject (fuel : Nat) (graph : ManagedGraphReader) (abi : AbiConfiguration)
    (cursor : ObjectCursor) (index : Nat) : ConstructM ObjectCursor :=
  let object := graph.objectAt index
  match graph.findObject object with
  | none => .ok cursor
  | some entry =>
    if entry.constructionFlags % 2 = 1 then
      fail "Non-default object initializers are unsupported by managed construction"
    else match graph.named entry.type with
      | none => fail "Managed objects require a direct record type"
      | some type => do
        let (layout, fields) ← layoutRecord fuel graph abi 64 [] type ⟨object, invalidMember⟩ false
          cursor.fieldLayouts
        placeObject object layout fields cursor

def layoutObjects (fuel : Nat) (graph : ManagedGraphReader) (abi : AbiConfiguration) :
    ConstructM ObjectCursor :=
  (List.range graph.objectSlotCount).foldlM (layoutObject fuel graph abi)
    { objectSlots := List.replicate (graph.objectSlotCount + 1) none }

end ServerEngine
