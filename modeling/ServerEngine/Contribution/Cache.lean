import ServerEngine.Frontend.SourceFacts
import ServerEngine.Library.Slice

/-! # The source contribution cache

Flat append arenas with one state slot for each source. A `mapped_vector` is the list of its current
values. A capacity is what the last `reserve` asked for: `std::vector` promises no more.
-/
namespace ServerEngine
open Slice

/-! ## Records -/

inductive SourceContributionTypeKind
  | record
  | enumeration
  deriving DecidableEq

structure SourceContributionTypeRef where
  identity : IdentityRef := .null
  modifiers : SourceFactRange := {}
  intrinsic : IntrinsicType := .none
  deriving DecidableEq

structure SourceContributionMember where
  type : SourceContributionTypeRef := {}
  name : Nat := 0
  access : SourceMemberAccess := .publicAccess
  construction : ConstructionValue := {}
  deriving DecidableEq

structure SourceContributionEnumValue where
  name : Nat := 0
  value : SourceIntegralConstant := {}
  deriving DecidableEq

structure SourceContributionObject where
  identity : IdentityRef := .null
  type : SourceContributionTypeRef := {}
  constructionFlags : Nat := 0
  deriving DecidableEq

structure SourceContributionLink where
  source : SourceObjectEndpointFact := {}
  target : SourceObjectEndpointFact := {}
  deriving DecidableEq

/-- `definition` and `enumScoped` are the bits `0x01` and `0x02` of `flags`. -/
structure SourceContributionType where
  identity : IdentityRef := .null
  definitionItems : SourceFactRange := {}
  explicitUnderlying : IntrinsicType := .none
  recordKind : SourceRecordKind := .structType
  kind : SourceContributionTypeKind := .record
  definition : Bool := false
  enumScoped : Bool := false
  deriving DecidableEq

structure SourceContributionState where
  source : Nat := 0
  types : SourceFactRange := {}
  members : SourceFactRange := {}
  modifiers : SourceFactRange := {}
  enumValues : SourceFactRange := {}
  objects : SourceFactRange := {}
  links : SourceFactRange := {}
  deriving DecidableEq

/-- Aggregation of the declarations of one type; `definitionType` is a one-based arena index. -/
structure SourceConstructionState where
  declarations : Nat := 0
  definitions : Nat := 0
  definitionType : Nat := 0
  recordStruct : Nat := 0
  recordClass : Nat := 0
  recordUnion : Nat := 0
  enumScoped : Nat := 0
  enumUnscoped : Nat := 0
  enumFixed : Nat := 0
  fixedUnderlying : IntrinsicType := .none
  kind : SourceContributionTypeKind := .record
  deriving DecidableEq

structure SourceContributionStatistics where
  sources : Nat := 0
  typeDeclarations : Nat := 0
  members : Nat := 0
  modifiers : Nat := 0
  enumValues : Nat := 0
  objects : Nat := 0
  links : Nat := 0
  deriving DecidableEq

/-! ## Storage -/

structure Arenas where
  types : List SourceContributionType := []
  members : List SourceContributionMember := []
  modifiers : List SourceTypeModifier := []
  enumValues : List SourceContributionEnumValue := []
  objects : List SourceContributionObject := []
  links : List SourceContributionLink := []
  deriving DecidableEq

/-- Where a source's payload begins in each arena, or how long each arena is. -/
structure ArenaSizes where
  types : Nat := 0
  members : Nat := 0
  modifiers : Nat := 0
  enumValues : Nat := 0
  objects : Nat := 0
  links : Nat := 0
  deriving DecidableEq

namespace Arenas

def sizes (a : Arenas) : ArenaSizes :=
  ⟨a.types.length, a.members.length, a.modifiers.length, a.enumValues.length, a.objects.length,
    a.links.length⟩

def append (a b : Arenas) : Arenas :=
  ⟨a.types ++ b.types, a.members ++ b.members, a.modifiers ++ b.modifiers,
    a.enumValues ++ b.enumValues, a.objects ++ b.objects, a.links ++ b.links⟩

def payload (a : Arenas) (s : SourceContributionState) : Arenas :=
  ⟨slice a.types s.types.begin s.types.count, slice a.members s.members.begin s.members.count,
    slice a.modifiers s.modifiers.begin s.modifiers.count,
    slice a.enumValues s.enumValues.begin s.enumValues.count,
    slice a.objects s.objects.begin s.objects.count, slice a.links s.links.begin s.links.count⟩

end Arenas

structure SourceContributionState.Within (s : SourceContributionState) (n : ArenaSizes) :
    Prop where
  types : s.types.begin + s.types.count ≤ n.types
  members : s.members.begin + s.members.count ≤ n.members
  modifiers : s.modifiers.begin + s.modifiers.count ≤ n.modifiers
  enumValues : s.enumValues.begin + s.enumValues.count ≤ n.enumValues
  objects : s.objects.begin + s.objects.count ≤ n.objects
  links : s.links.begin + s.links.count ≤ n.links

def SourceContributionState.place (source : Nat) (base n : ArenaSizes) : SourceContributionState :=
  ⟨source, ⟨base.types, n.types⟩, ⟨base.members, n.members⟩, ⟨base.modifiers, n.modifiers⟩,
    ⟨base.enumValues, n.enumValues⟩, ⟨base.objects, n.objects⟩, ⟨base.links, n.links⟩⟩

def SourceContributionState.base (s : SourceContributionState) : ArenaSizes :=
  ⟨s.types.begin, s.members.begin, s.modifiers.begin, s.enumValues.begin, s.objects.begin,
    s.links.begin⟩

structure StorageCapacity where
  arenas : ArenaSizes := {}
  sources : Nat := 0
  construction : Nat := 0
  deriving DecidableEq

structure Storage where
  arenas : Arenas := {}
  sources : List SourceContributionState := []
  construction : List SourceConstructionState := []
  statistics : SourceContributionStatistics := {}
  capacity : StorageCapacity := {}
  deriving DecidableEq

structure SourceContributionCache where
  committed : Storage := {}
  statistics : SourceContributionStatistics := {}
  provenanceComplete : Bool := true
  baselineBacked : Bool := false
  deriving DecidableEq

def slotOf (sources : List SourceContributionState) (source : Nat) :
    Option SourceContributionState :=
  if source = 0 then none
  else match sources[source]? with
    | some value => if value.source = source then some value else none
    | none => none

namespace Storage

def state (c : Storage) (source : Nat) : Option SourceContributionState := slotOf c.sources source

/-- `construction`: a handle inside the vector has a state, slot zero being the sentinel. -/
def constructionAt (c : Storage) (handle : Nat) : Option SourceConstructionState :=
  if handle = 0 then none else c.construction[handle]?

end Storage

def checkedSpan {α : Type} (values : List α) (range : SourceFactRange) : List α :=
  if range.begin > values.length || range.count > values.length - range.begin || range.count = 0
    then []
  else slice values range.begin range.count

variable {α : Type}

theorem checkedSpan_eq {values : List α} {range : SourceFactRange}
    (h : range.begin + range.count ≤ values.length) :
    checkedSpan values range = slice values range.begin range.count := by
  unfold checkedSpan
  split
  · rename_i hbad
    simp only [Bool.or_eq_true, decide_eq_true_eq] at hbad
    have hzero : range.count = 0 := by omega
    rw [hzero, slice_zero]
  · rfl

variable {sources : List SourceContributionState} {source : Nat} {s : SourceContributionState}

def growTo {α : Type} (values : List α) (size : Nat) (fill : α) : List α :=
  values ++ List.replicate (size - values.length) fill

theorem growTo_length (values : List α) (size : Nat) (fill : α) :
    (growTo values size fill).length = max values.length size := by
  simp only [growTo, List.length_append, List.length_replicate]
  omega

theorem slotOf_growTo (sources : List SourceContributionState) (size source : Nat) :
    slotOf (growTo sources size {}) source = slotOf sources source := by
  unfold slotOf growTo
  by_cases hz : source = 0
  · simp [hz]
  · by_cases hlt : source < sources.length
    · simp [hz, List.getElem?_append_left hlt]
    · have hnone : sources[source]? = none := List.getElem?_eq_none (by omega)
      rw [List.getElem?_append_right (by omega), hnone, List.getElem?_replicate]
      by_cases hin : source - sources.length < size - sources.length
      · simp [hz, hin, Ne.symm hz]
      · simp [hin]

theorem slotOf_set_self (hlt : source < sources.length) (hne : source ≠ 0) :
    slotOf (sources.set source s) source = if s.source = source then some s else none := by
  simp [slotOf, hne, hlt]

theorem slotOf_set_other {other : Nat} (h : other ≠ source) :
    slotOf (sources.set source s) other = slotOf sources other := by
  simp [slotOf, List.getElem?_set_ne (Ne.symm h)]

open Arenas

@[simp] theorem Arenas.sizes_append (a b : Arenas) :
    (a.append b).sizes = ⟨a.types.length + b.types.length, a.members.length + b.members.length,
      a.modifiers.length + b.modifiers.length, a.enumValues.length + b.enumValues.length,
      a.objects.length + b.objects.length, a.links.length + b.links.length⟩ := by
  simp [sizes, append]

variable {a : Arenas}

theorem Arenas.payload_append_left {b : Arenas} (h : s.Within a.sizes) :
    (a.append b).payload s = a.payload s := by
  simp only [payload, append]
  rw [slice_append_left h.types, slice_append_left h.members, slice_append_left h.modifiers,
    slice_append_left h.enumValues, slice_append_left h.objects, slice_append_left h.links]

open SourceContributionState

theorem Arenas.payload_append_self (a b : Arenas) (source : Nat) :
    (a.append b).payload (.place source a.sizes b.sizes) = b := by
  simp [payload, append, place, sizes,
    slice_append_self]

theorem SourceContributionState.Within.append (h : s.Within a.sizes) (b : Arenas) :
    s.Within (a.append b).sizes := by
  have ht := h.types
  have hm := h.members
  have hd := h.modifiers
  have he := h.enumValues
  have ho := h.objects
  have hl := h.links
  rw [sizes_append]
  simp only [sizes] at ht hm hd he ho hl
  constructor <;> simp only <;> omega

theorem SourceContributionState.place_within (source : Nat) (a b : Arenas) :
    (place source a.sizes b.sizes).Within (a.append b).sizes := by
  rw [sizes_append]
  constructor <;> simp [place, sizes]

end ServerEngine
