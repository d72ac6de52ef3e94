import ServerEngine.Storage.VectorRefinement

/-! # Runs of calls on mapped vectors

The calls on a family of mapped vectors against the same calls on plain vectors. Every call keeps that a
mapped vector represents its plain one, so every observation along a run is the plain vector's.
-/
namespace ServerEngine
open ProbedTable Slice

variable {α : Type}

/-! ## What a mapped vector represents -/

/-- The vector holds these values, in the reader, the caches and the local tail. -/
structure Represents (v : CachedVector α) (values : List α) : Prop where
  indexes : Indexes v
  baseline : v.baselineCount ≤ values.length
  localValues : v.localValues = values.drop v.baselineCount
  reads : ∀ {index : Nat} {value : α}, index < v.baselineCount →
    v.findElement index = none → values[index]? = some value → v.readBaseline index = .ok value
  cached : ∀ {index : Nat} {value : α}, (index, value) ∈ v.elementCache →
    index < v.baselineCount ∧ values[index]? = some value
  ranges : ∀ range ∈ v.rangeCache, range.begin + range.count ≤ v.baselineCount ∧
    range.values = slice values range.begin range.count
  failure : v.readFailure = none

namespace Represents

variable {v : CachedVector α} {values : List α}

theorem size_eq (h : Represents v values) : v.size = values.length := by
  rw [CachedVector.size, h.localValues, List.length_drop]
  have hbaseline := h.baseline
  omega

variable {index : Nat}

theorem local_get (h : Represents v values) (hle : v.baselineCount ≤ index) :
    v.localValues[index - v.baselineCount]? = values[index]? := by
  rw [h.localValues, List.getElem?_drop, Nat.add_sub_cancel' hle]

variable {value : α}

theorem found (h : Represents v values) (hfind : v.findElement index = some value) :
    values[index]? = some value :=
  (h.cached ((CachedVector.findElement_eq_some h.indexes).mp hfind)).2

theorem decoded (h : Represents v values) (hlt : index < v.baselineCount)
    (hget : values[index]? = some value) : v.decodeElement index = .ok value := by
  rw [CachedVector.decodeElement]
  cases hfind : v.findElement index with
  | none => exact h.reads hlt hfind hget
  | some found =>
    rw [h.found hfind] at hget
    cases hget
    rfl

theorem materialize (h : Represents v values) (hlt : index < v.baselineCount)
    (hget : values[index]? = some value) :
    ∃ v' position, v.materializeElement index = some (v', .cached position) ∧
      Represents v' values ∧ v'.elementCache[position]? = some (index, value) ∧
        v'.baselineCount = v.baselineCount ∧ v'.rangeCache = v.rangeCache := by
  cases hposition : v.findPosition index with
  | some position =>
    obtain ⟨⟨index', value'⟩, he, rfl⟩ :=
      Option.map_eq_some_iff.mp ((CachedVector.findPosition_iff h.indexes).mp hposition)
    have hvalue := (h.cached (List.mem_of_getElem? he)).2
    rw [hget] at hvalue
    cases hvalue
    refine ⟨v, position, ?_, h, he, rfl, rfl⟩
    rw [CachedVector.materializeElement, hposition]
  | none =>
    have habsent := (CachedVector.findPosition_eq_none h.indexes).mp hposition
    have hread := h.reads hlt ((CachedVector.findElement_eq_none h.indexes).mpr habsent) hget
    obtain ⟨slots, hmaterialize, hindexes⟩ :=
      CachedVector.materializeElement_missing h.indexes hposition hread
    refine ⟨_, _, hmaterialize, ?_, ?_, rfl, rfl⟩
    · refine ⟨hindexes, h.baseline, h.localValues, ?_, ?_, h.ranges, h.failure⟩
      · intro other value' hlt' hnone hget'
        have hnone' := (CachedVector.findElement_eq_none hindexes).mp hnone
        rw [List.map_append, List.mem_append, not_or] at hnone'
        exact h.reads hlt' ((CachedVector.findElement_eq_none h.indexes).mpr hnone'.1) hget'
      · intro other value' hmem
        cases List.mem_append.mp hmem with
        | inl hmem => exact h.cached hmem
        | inr hmem =>
          cases List.mem_singleton.mp hmem
          exact ⟨hlt, hget⟩
    · exact List.getElem?_concat_length

/-! ## Writing -/

/-- A write through a reference to a cached element, after the ranges with it are gone. -/
theorem storeCached (h : Represents v values) {position : Nat} {old : α} (value : α)
    (hcache : v.elementCache[position]? = some (index, old))
    (hranges : ∀ range ∈ v.rangeCache, index < range.begin ∨ range.begin + range.count ≤ index) :
    Represents (v.store value (.cached position)) (values.set index value) := by
  have hlt := (h.cached (List.mem_of_getElem? hcache)).1
  have hbaseline := h.baseline
  have hkeys : (v.elementCache.modify position fun e => (e.1, value)).map (·.1) =
      v.elementCache.map (·.1) := by
    apply List.ext_getElem?
    intro i
    rw [List.getElem?_map, List.getElem?_map, List.getElem?_modify]
    cases v.elementCache[i]? with
    | none => rfl
    | some e => by_cases hi : position = i <;> simp [hi]
  have hindexes : Indexes (v.store value (.cached position)) := by
    refine ⟨?_, ?_, ?_, ?_⟩
    · rw [CachedVector.store, hkeys]
      exact h.indexes.nodup
    · intro hnil
      rw [CachedVector.store, h.indexes.empty hnil, List.modify_nil]
    · intro hne
      rw [CachedVector.store, hkeys]
      exact h.indexes.table hne
    · intro hne
      rw [CachedVector.store, List.length_modify]
      exact h.indexes.room hne
  refine ⟨hindexes, ?_, ?_, ?_, ?_, ?_, h.failure⟩
  · rw [List.length_set]
    exact h.baseline
  · exact h.localValues.trans (List.drop_set_of_lt hlt).symm
  · intro other value' hother hnone hget
    rw [CachedVector.findElement_eq_none hindexes, CachedVector.store, hkeys] at hnone
    have hne : index ≠ other := by
      rintro rfl
      exact hnone (List.mem_map_of_mem (List.mem_of_getElem? hcache))
    rw [List.getElem?_set_ne hne] at hget
    exact h.reads hother ((CachedVector.findElement_eq_none h.indexes).mpr hnone) hget
  · intro other value' hmem
    obtain ⟨i, hget⟩ := List.getElem?_of_mem hmem
    rw [CachedVector.store, List.getElem?_modify] at hget
    by_cases hi : position = i
    · subst hi
      rw [hcache] at hget
      simp only [if_pos, Option.map_eq_map, Option.map_some, Option.some.injEq,
        Prod.mk.injEq] at hget
      obtain ⟨rfl, rfl⟩ := hget
      exact ⟨hlt, List.getElem?_set_self (by omega)⟩
    · simp only [hi, if_false, Option.map_eq_map, Option.map_id_fun', id_eq] at hget
      have hcached := h.cached (List.mem_of_getElem? hget)
      have hne : index ≠ other := by
        rintro rfl
        apply hi
        have hposition : position < (v.elementCache.map (·.1)).length := by
          rw [List.length_map]
          exact (List.getElem?_eq_some_iff.mp hcache).1
        apply (List.getElem?_inj hposition h.indexes.nodup).mp
        rw [List.getElem?_map, List.getElem?_map, hcache, hget]
        rfl
      rw [List.getElem?_set_ne hne]
      exact hcached
  · intro range hrange
    obtain ⟨hwithin, hvalues⟩ := h.ranges range hrange
    refine ⟨hwithin, ?_⟩
    rw [slice_set_outside (hranges range hrange)]
    exact hvalues

theorem storeLocal (h : Represents v values) (value : α) (hle : v.baselineCount ≤ index) :
    Represents (v.store value (.localElement (index - v.baselineCount)))
      (values.set index value) := by
  refine ⟨⟨h.indexes.nodup, h.indexes.empty, h.indexes.table, h.indexes.room⟩, ?_, ?_, ?_, ?_, ?_,
    h.failure⟩
  · rw [List.length_set]
    exact h.baseline
  · change v.localValues.set (index - v.baselineCount) value = (values.set index value).drop v.baselineCount
    rw [List.drop_set, if_neg (by omega), h.localValues]
  · intro other value' hother hnone hget
    rw [List.getElem?_set_ne (by have : other < v.baselineCount := hother; omega)] at hget
    exact h.reads hother hnone hget
  · intro other value' hmem
    obtain ⟨hlt, hget⟩ := h.cached hmem
    refine ⟨hlt, ?_⟩
    rw [List.getElem?_set_ne (by omega)]
    exact hget
  · intro range hrange
    obtain ⟨hwithin, hvalues⟩ := h.ranges range hrange
    refine ⟨hwithin, ?_⟩
    rw [slice_set_outside (Or.inr (by omega))]
    exact hvalues

theorem invalidate (h : Represents v values) (index : Nat) :
    Represents (v.invalidateRangesContaining index) values ∧
      ∀ range ∈ (v.invalidateRangesContaining index).rangeCache,
        index < range.begin ∨ range.begin + range.count ≤ index := by
  constructor
  · exact ⟨⟨h.indexes.nodup, h.indexes.empty, h.indexes.table, h.indexes.room⟩, h.baseline,
      h.localValues, h.reads, h.cached, fun range hrange => h.ranges range (List.mem_filter.mp hrange).1,
      h.failure⟩
  · intro range hrange
    have hkept := (List.mem_filter.mp hrange).2
    simp only [Bool.not_eq_true', Bool.and_eq_false_iff, decide_eq_false_iff_not] at hkept
    omega

theorem assign (h : Represents v values) (value : α) (hlt : index < values.length) :
    ∃ v', v.assign index value = some v' ∧ Represents v' (values.set index value) := by
  rw [CachedVector.assign]
  by_cases hle : v.baselineCount ≤ index
  · rw [if_pos hle]
    exact ⟨_, rfl, h.storeLocal value hle⟩
  · rw [if_neg hle]
    obtain ⟨hrepresents, hranges⟩ := h.invalidate index
    obtain ⟨v', position, hmaterialize, h', hcache, -, hkept⟩ :=
      hrepresents.materialize (Nat.lt_of_not_le hle) (List.getElem?_eq_getElem hlt)
    rw [hmaterialize]
    refine ⟨_, rfl, h'.storeCached value hcache ?_⟩
    rw [hkept]
    exact hranges

theorem append (h : Represents v values) (more : List α) :
    Represents { v with localValues := v.localValues ++ more } (values ++ more) := by
  have hbaseline := h.baseline
  refine ⟨⟨h.indexes.nodup, h.indexes.empty, h.indexes.table, h.indexes.room⟩, ?_, ?_, ?_, ?_, ?_,
    h.failure⟩
  · rw [List.length_append]
    exact Nat.le_trans hbaseline (Nat.le_add_right ..)
  · rw [List.drop_append_of_le_length hbaseline, h.localValues]
  · intro index value hlt hnone hget
    have hlt' : index < v.baselineCount := hlt
    rw [List.getElem?_append_left (by omega)] at hget
    exact h.reads hlt hnone hget
  · intro index value hmem
    obtain ⟨hlt, hget⟩ := h.cached hmem
    refine ⟨hlt, ?_⟩
    rw [List.getElem?_append_left (by omega)]
    exact hget
  · intro range hrange
    obtain ⟨hwithin, hvalues⟩ := h.ranges range hrange
    refine ⟨hwithin, ?_⟩
    rw [slice_append_left (by omega)]
    exact hvalues

theorem ofLocal (values : List α) : Represents { localValues := values } values where
  indexes := ⟨List.nodup_nil, fun _ => rfl, fun hne => absurd rfl hne, fun hne => absurd rfl hne⟩
  baseline := Nat.zero_le _
  localValues := rfl
  reads hlt := absurd hlt (Nat.not_lt_zero _)
  cached hmem := absurd hmem List.not_mem_nil
  ranges _ hrange := absurd hrange List.not_mem_nil
  failure := rfl

variable {count : Nat}

theorem resized_eq [Inhabited α] (values : List α) (h : values.length ≤ count) :
    CachedVector.resized values count =
      values ++ List.replicate (count - values.length) default := by
  rw [CachedVector.resized, List.take_of_length_le h]

theorem resize [Inhabited α] (h : Represents v values) {requested : Nat} (hle : values.length ≤ requested) :
    ∃ v', v.resize requested = some v' ∧
      Represents v' (CachedVector.resized values requested) := by
  have hbaseline := h.baseline
  have hlength : v.localValues.length = values.length - v.baselineCount := by
    rw [h.localValues, List.length_drop]
  rw [CachedVector.resize, resized_eq values hle]
  by_cases hbacked : v.baselineBacked
  · simp only [hbacked, Bool.not_true, Bool.false_eq_true, if_false]
    rw [if_neg (by omega), resized_eq _ (by omega)]
    have hmore : requested - v.baselineCount - v.localValues.length = requested - values.length := by
      omega
    rw [hmore]
    exact ⟨_, rfl, h.append _⟩
  · have hzero : v.baselineCount = 0 := by
      simp only [CachedVector.baselineBacked, Bool.or_eq_true, decide_eq_true_eq, not_or,
        Decidable.not_not] at hbacked
      exact hbacked.1
    simp only [hbacked, Bool.not_false, if_true]
    have hsame : v.localValues.length = values.length := by omega
    rw [resized_eq _ (by omega), hsame]
    exact ⟨_, rfl, h.append _⟩

/-! ## Observations -/

theorem read_eq [Inhabited α] (h : Represents v values) (index : Nat) :
    v.read index = match values[index]? with
      | some value => .ok value
      | none => .error .notFound := by
  rw [CachedVector.read, h.size_eq]
  by_cases hsize : values.length ≤ index
  · rw [if_pos hsize, List.getElem?_eq_none hsize]
  · rw [if_neg hsize]
    have hget := List.getElem?_eq_getElem (Nat.lt_of_not_le hsize)
    rw [hget]
    by_cases hle : v.baselineCount ≤ index
    · rw [if_pos hle, List.getD_eq_getElem?_getD, h.local_get hle, hget]
      rfl
    · rw [if_neg hle]
      exact h.decoded (Nat.lt_of_not_le hle) hget

theorem materialized_eq (h : Represents v values) (hsome : v.materialized index = some value) :
    values[index]? = some value := by
  rw [CachedVector.materialized] at hsome
  split at hsome
  · cases hsome
  · split at hsome
    · rename_i hle
      rwa [h.local_get hle] at hsome
    · exact h.found hsome

theorem subscript [Inhabited α] (h : Represents v values) (hget : values[index]? = some value) :
    ∃ v' ref, v.subscript index = some (v', ref) ∧ v'.deref ref = value ∧ Represents v' values := by
  rw [CachedVector.subscript]
  by_cases hle : v.baselineCount ≤ index
  · rw [if_pos hle]
    refine ⟨_, _, rfl, ?_, h⟩
    rw [CachedVector.deref, List.getD_eq_getElem?_getD, h.local_get hle, hget]
    rfl
  · rw [if_neg hle]
    obtain ⟨v', position, hmaterialize, h', hcache, -, -⟩ :=
      h.materialize (Nat.lt_of_not_le hle) hget
    refine ⟨_, _, hmaterialize, ?_, h'⟩
    rw [CachedVector.deref, hcache]
    rfl

theorem readRange_eq (h : Represents v values) {begin : Nat}
    (hwithin : begin + count ≤ v.baselineCount) :
    v.readRange begin count = .ok (slice values begin count) := by
  have hbaseline := h.baseline
  induction count with
  | zero => rw [slice_zero]; rfl
  | succ count ih =>
    have hlt : begin + count < values.length := by omega
    have hget := List.getElem?_eq_getElem hlt
    have hlast := h.decoded (by omega) hget
    rw [CachedVector.readRange, List.range_succ, List.mapM_append]
    have hinit := ih (by omega)
    rw [CachedVector.readRange] at hinit
    rw [hinit, List.mapM_cons, hlast, slice_succ hget]
    rfl

/-- A span is empty or the current values, and inside the vector it is the current values. -/
theorem span (h : Represents v values) (begin count : Nat) :
    Represents (v.span begin count).1 values ∧
      ((v.span begin count).2 = [] ∨ (v.span begin count).2 = slice values begin count) ∧
        (begin + count ≤ values.length →
          v.baselineCount ≤ begin ∨ begin + count ≤ v.baselineCount →
            (v.span begin count).2 = slice values begin count) := by
  rw [CachedVector.span, h.size_eq]
  by_cases hzero : count = 0
  · rw [if_pos hzero, hzero, slice_zero]
    exact ⟨h, Or.inl rfl, fun _ _ => rfl⟩
  rw [if_neg hzero]
  by_cases hout : values.length < begin || values.length - begin < count
  · rw [if_pos hout]
    simp only [Bool.or_eq_true, decide_eq_true_eq] at hout
    exact ⟨h, Or.inl rfl, fun hin _ => by omega⟩
  rw [if_neg hout]
  by_cases hlocal : v.baselineCount ≤ begin
  · have hslice : slice v.localValues (begin - v.baselineCount) count = slice values begin count := by
      rw [h.localValues, slice, slice, List.drop_drop, Nat.add_sub_cancel' hlocal]
    rw [if_pos hlocal, hslice]
    exact ⟨h, Or.inr rfl, fun _ _ => rfl⟩
  rw [if_neg hlocal]
  by_cases hstraddles : v.baselineCount < begin + count
  · rw [if_pos hstraddles]
    exact ⟨h, Or.inl rfl, fun _ hside => by omega⟩
  rw [if_neg hstraddles]
  cases hfind : v.rangeCache.find? fun range => range.begin == begin && range.count == count with
  | some range =>
    have hkey := List.find?_some hfind
    simp only [Bool.and_eq_true, beq_iff_eq] at hkey
    have hvalues := (h.ranges range (List.mem_of_find?_eq_some hfind)).2
    rw [hkey.1, hkey.2] at hvalues
    exact ⟨h, Or.inr hvalues, fun _ _ => hvalues⟩
  | none =>
    have hwithin : begin + count ≤ v.baselineCount := Nat.le_of_not_lt hstraddles
    rw [h.readRange_eq hwithin]
    refine ⟨⟨⟨h.indexes.nodup, h.indexes.empty, h.indexes.table, h.indexes.room⟩, h.baseline,
      h.localValues, h.reads, h.cached, ?_, h.failure⟩, Or.inr rfl, fun _ _ => rfl⟩
    intro range hrange
    cases List.mem_append.mp hrange with
    | inl hrange => exact h.ranges range hrange
    | inr hrange =>
      cases List.mem_singleton.mp hrange
      exact ⟨hwithin, rfl⟩

theorem copyElements [Inhabited α] (h : Represents v values) (hle : count ≤ v.baselineCount) :
    ∃ v', (List.range count).foldlM CachedVector.copyElement (v, []) =
        some (v', values.take count) ∧
      Represents v' values ∧ v'.baselineCount = v.baselineCount := by
  induction count with
  | zero => exact ⟨v, rfl, h, rfl⟩
  | succ count ih =>
    obtain ⟨v₁, hrun, h₁, hcount⟩ := ih (by omega)
    have hbaseline := h.baseline
    have hlt : count < values.length := by omega
    have hget := List.getElem?_eq_getElem hlt
    obtain ⟨v₂, position, hmaterialize, h₂, hcache, hcount', -⟩ :=
      h₁.materialize (by omega) hget
    refine ⟨v₂, ?_, h₂, hcount'.trans hcount⟩
    rw [List.range_succ, List.foldlM_append, hrun]
    change List.foldlM CachedVector.copyElement (v₁, values.take count) [count] = _
    rw [List.foldlM_cons, CachedVector.copyElement, hmaterialize]
    change some (v₂, values.take count ++ [v₂.deref (.cached position)]) = _
    rw [CachedVector.deref, hcache, List.take_add_one, hget]
    rfl

theorem copyAll [Inhabited α] (h : Represents v values) :
    ∃ v', v.copyAll = some (v', none, values) ∧ Represents v' values := by
  obtain ⟨v', hrun, h', hcount⟩ := h.copyElements (Nat.le_refl _)
  refine ⟨v', ?_, h'⟩
  rw [CachedVector.copyAll, hrun, Option.map_some]
  dsimp only
  rw [h'.failure, h'.localValues, hcount, List.take_append_drop]

end Represents

variable {vectors : Vectors α} {plain : Nat → List α}

theorem put_represents (h : ∀ name, Represents (vectors name) (plain name)) (name : Nat)
    {v : CachedVector α} {values : List α} (hv : Represents v values) (other : Nat) :
    Represents (vectors.put name v other) (Function.update plain name values other) := by
  rw [Vectors.put, Function.update_apply]
  split
  · exact hv
  · exact h other

theorem put_same (h : ∀ name, Represents (vectors name) (plain name)) (name : Nat)
    {v : CachedVector α} (hv : Represents v (plain name)) (other : Nat) :
    Represents (vectors.put name v other) (plain other) := by
  have hput := put_represents h name hv other
  rwa [Function.update_eq_self] at hput

section Runs

variable [Inhabited α]

def decodedBaseline (count : Nat) (reader : Nat → Except StatusCode α) : List α :=
  (List.range count).map fun index => (reader index).toOption.getD default

def plainCall (vectors : Nat → List α) : VectorCall α → Nat → List α
  | .bindBaseline name count reader => Function.update vectors name (decodedBaseline count reader)
  | .pushBack name value => Function.update vectors name (vectors name ++ [value])
  | .assign name index value => Function.update vectors name ((vectors name).set index value)
  | .resize name requested =>
    Function.update vectors name (CachedVector.resized (vectors name) requested)
  | .swap name other =>
    Function.update (Function.update vectors name (vectors other)) other (vectors name)
  | .swapLocal name values => Function.update vectors name values
  | _ => vectors

def Defined (vectors : Nat → List α) : VectorCall α → Prop
  | .bindBaseline _ count reader => ∀ index < count, ∃ value, reader index = .ok value
  | .assign name index _ => index < (vectors name).length
  | .subscript name index => index < (vectors name).length
  | .resize name requested => (vectors name).length ≤ requested
  | _ => True

def DefinedRun (vectors : Nat → List α) : List (VectorCall α) → Prop
  | [] => True
  | c :: calls => Defined vectors c ∧ DefinedRun (plainCall vectors c) calls

/-- The result of a call is what the plain vector holds. `materialized` may have nothing, and so may a
span that lies on both sides of the boundary; a plain vector swapped in gets the local tail. -/
def Observes (vectors : Nat → List α) (boundary : Nat → Nat) : VectorCall α → VectorResult α → Prop
  | .subscript name index, result =>
    ∃ value, (vectors name)[index]? = some value ∧ result = .value value
  | .read name index, result => result = .read (match (vectors name)[index]? with
    | some value => .ok value
    | none => .error .notFound)
  | .materialized name index, result => ∃ found, result = .materialized found ∧
    ∀ value, found = some value → (vectors name)[index]? = some value
  | .span name begin count, result => ∃ values, result = .span values ∧
    (values = [] ∨ values = slice (vectors name) begin count) ∧
      (begin + count ≤ (vectors name).length →
        boundary name ≤ begin ∨ begin + count ≤ boundary name →
          values = slice (vectors name) begin count)
  | .copyAll name, result => result = .copied none (vectors name)
  | .swapLocal name _, result => result = .swapped ((vectors name).drop (boundary name))
  | _, result => result = .unit

/-! ## Every call keeps the vectors -/

theorem bindBaseline_represents {count : Nat} {reader : Nat → Except StatusCode α}
    (hreader : ∀ index < count, ∃ value, reader index = .ok value) :
    Represents (CachedVector.bindBaseline count reader) (decodedBaseline count reader) where
  indexes := ⟨List.nodup_nil, fun _ => rfl, fun hne => absurd rfl hne, fun hne => absurd rfl hne⟩
  baseline := by simp [CachedVector.bindBaseline, decodedBaseline]
  localValues := by simp [CachedVector.bindBaseline, decodedBaseline]
  reads := by
    intro index value hlt _ hget
    obtain ⟨decoded, hdecoded⟩ := hreader index hlt
    have hlt' : index < count := hlt
    simp only [decodedBaseline, List.getElem?_map, List.getElem?_range hlt', Option.map_some,
      hdecoded, Except.toOption, Option.getD_some, Option.some.injEq] at hget
    rw [← hget]
    exact hdecoded
  cached hmem := absurd hmem List.not_mem_nil
  ranges _ hrange := absurd hrange List.not_mem_nil
  failure := rfl

variable {vectors : Vectors α} {plain : Nat → List α}

theorem call_represents (h : ∀ name, Represents (vectors name) (plain name)) {c : VectorCall α}
    (hc : Defined plain c) : ∃ vectors' result, vectors.call c = some (vectors', result) ∧
      (∀ name, Represents (vectors' name) (plainCall plain c name)) ∧
        Observes plain (fun name => (vectors name).baselineCount) c result := by
  cases c with
  | bindBaseline name count reader =>
    exact ⟨_, _, rfl, put_represents h name (bindBaseline_represents hc), rfl⟩
  | pushBack name value => exact ⟨_, _, rfl, put_represents h name ((h name).append [value]), rfl⟩
  | assign name index value =>
    obtain ⟨v, hassign, hv⟩ := (h name).assign value hc
    refine ⟨_, _, ?_, put_represents h name hv, rfl⟩
    rw [Vectors.call, hassign]
    rfl
  | subscript name index =>
    have hget := List.getElem?_eq_getElem hc
    obtain ⟨v, ref, hsubscript, hvalue, hv⟩ := (h name).subscript hget
    refine ⟨_, _, ?_, put_same h name hv, _, hget, rfl⟩
    rw [Vectors.call, hsubscript, ← hvalue]
    rfl
  | read name index =>
    refine ⟨_, _, rfl, h, ?_⟩
    rw [Observes, (h name).read_eq]
  | materialized name index =>
    exact ⟨_, _, rfl, h, _, rfl, fun value hsome => (h name).materialized_eq hsome⟩
  | span name begin count =>
    obtain ⟨hv, hempty, hwithin⟩ := (h name).span begin count
    exact ⟨_, _, rfl, put_same h name hv, _, rfl, hempty, hwithin⟩
  | copyAll name =>
    obtain ⟨v, hcopy, hv⟩ := (h name).copyAll
    refine ⟨_, _, ?_, put_same h name hv, rfl⟩
    rw [Vectors.call, hcopy]
    rfl
  | resize name requested =>
    obtain ⟨v, hresize, hv⟩ := (h name).resize hc
    refine ⟨_, _, ?_, put_represents h name hv, rfl⟩
    rw [Vectors.call, hresize]
    rfl
  | swap name other =>
    exact ⟨_, _, rfl, put_represents (put_represents h name (h other)) other (h name), rfl⟩
  | swapLocal name values =>
    refine ⟨_, _, rfl, put_represents h name (Represents.ofLocal values), ?_⟩
    exact congrArg VectorResult.swapped (h name).localValues

theorem run_represents {calls : List (VectorCall α)}
    (h : ∀ name, Represents (vectors name) (plain name)) (hdefined : DefinedRun plain calls) :
    ∃ vectors', vectors.run calls = some vectors' ∧
      ∀ name, Represents (vectors' name) (calls.foldl plainCall plain name) := by
  induction calls generalizing vectors plain with
  | nil => exact ⟨vectors, rfl, h⟩
  | cons c calls ih =>
    obtain ⟨next, result, hcall, hnext, -⟩ := call_represents h hdefined.1
    obtain ⟨vectors', hrun, hvectors⟩ := ih hnext hdefined.2
    refine ⟨vectors', ?_, hvectors⟩
    rw [Vectors.run, List.foldlM_cons, hcall]
    exact hrun

end Runs

end ServerEngine
