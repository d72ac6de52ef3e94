import ServerEngine.Storage.CachedVector

/-! # Mapped vectors are vectors

A mapped vector bound to a baseline behaves as a plain vector that starts with the baseline's records,
wherever its values are: in the reader, in the element cache, in a cached range or in the local tail.
-/
namespace ServerEngine
open ProbedTable Slice

variable {α : Type}

/-! ## The index of the element cache -/

theorem elementSlots_snoc (indices : List Nat) (index : Nat) :
    CachedVector.elementSlots (indices ++ [index]) =
      CachedVector.elementSlots indices ++ [⟨index + 1, indices.length + 1⟩] := by
  simp [CachedVector.elementSlots, List.zipIdx_append]

variable {indices : List Nat}

theorem mem_elementSlots {slot : ElementSlot} : slot ∈ CachedVector.elementSlots indices ↔
      ∃ index position, indices[position]? = some index ∧ slot = ⟨index + 1, position + 1⟩ := by
  simp only [CachedVector.elementSlots, List.mem_map, Prod.exists]
  constructor
  · rintro ⟨index, position, hmem, rfl⟩
    exact ⟨index, position, List.mem_zipIdx_iff_getElem?.mp hmem, rfl⟩
  · rintro ⟨index, position, hget, rfl⟩
    exact ⟨index, position, List.mem_zipIdx_iff_getElem?.mpr hget, rfl⟩

theorem elementSlots_keys (indices : List Nat) :
    (CachedVector.elementSlots indices).map elementFormat.key = indices.map (· + 1) := by
  rw [CachedVector.elementSlots, List.map_map]
  change indices.zipIdx.map ((· + 1) ∘ Prod.fst) = _
  rw [← List.map_map, List.zipIdx_map_fst]

theorem elementSlots_length (indices : List Nat) :
    (CachedVector.elementSlots indices).length = indices.length := by
  simp [CachedVector.elementSlots]

theorem elementSlots_nodup (h : indices.Nodup) :
    ((CachedVector.elementSlots indices).map elementFormat.key).Nodup := by
  rw [elementSlots_keys]
  exact h.map (fun a b hab => Nat.succ.inj hab)

/-- The index is a table of the cached records with a free slot. -/
structure Indexes (v : CachedVector α) : Prop where
  nodup : (v.elementCache.map (·.1)).Nodup
  empty : v.elementIndex = [] → v.elementCache = []
  table : v.elementIndex ≠ [] →
    Table elementFormat v.elementIndex (CachedVector.elementSlots (v.elementCache.map (·.1)))
  room : v.elementIndex ≠ [] → v.elementCache.length < v.elementIndex.length

namespace CachedVector

variable {v : CachedVector α} {index : Nat}

theorem findPosition_iff (h : Indexes v) {position : Nat} : v.findPosition index = some position ↔
      (v.elementCache[position]?).map (·.1) = some index := by
  rw [findPosition]
  by_cases hempty : v.elementIndex = []
  · rw [hempty, h.empty hempty]
    simp
  · have hnot : v.elementIndex.isEmpty = false := by simpa using hempty
    rw [hnot, ← List.getElem?_map]
    have htable := h.table hempty
    simp only [Bool.false_eq_true, if_false]
    constructor
    · intro hfound
      cases hfind : find elementFormat v.elementIndex (index + 1) with
      | none =>
        rw [hfind] at hfound
        cases hfound
      | some slot =>
        rw [hfind] at hfound
        obtain ⟨hmem, hkey⟩ := htable.find_eq.mp hfind
        obtain ⟨index', position', hget, rfl⟩ := mem_elementSlots.mp hmem
        obtain rfl : index' = index := Nat.succ.inj hkey
        dsimp only at hfound
        split at hfound
        · cases hfound
          exact hget
        · cases hfound
    · intro hget
      have hfind : find elementFormat v.elementIndex (index + 1) =
          some ⟨index + 1, position + 1⟩ :=
        htable.find_eq.mpr ⟨mem_elementSlots.mpr ⟨index, position, hget, rfl⟩, rfl⟩
      have hlt := (List.getElem?_eq_some_iff.mp hget).1
      rw [List.length_map] at hlt
      rw [hfind]
      exact if_pos hlt

variable {value : α}

theorem findElement_eq_some (h : Indexes v) :
    v.findElement index = some value ↔ (index, value) ∈ v.elementCache := by
  rw [findElement]
  constructor
  · intro hfound
    cases hposition : v.findPosition index with
    | none =>
      rw [hposition] at hfound
      cases hfound
    | some position =>
      rw [hposition] at hfound
      obtain ⟨e, he, hindex⟩ := Option.map_eq_some_iff.mp ((findPosition_iff h).mp hposition)
      dsimp only at hfound
      rw [he] at hfound
      cases hfound
      rw [← hindex]
      exact List.mem_of_getElem? he
  · intro hmem
    obtain ⟨position, hget⟩ := List.getElem?_of_mem hmem
    have hposition : v.findPosition index = some position := by
      rw [findPosition_iff h, hget]
      rfl
    rw [hposition]
    dsimp only
    rw [hget]
    rfl

theorem findPosition_eq_none (h : Indexes v) :
    v.findPosition index = none ↔ index ∉ v.elementCache.map (·.1) := by
  rw [Option.eq_none_iff_forall_not_mem]
  simp only [Option.mem_def, findPosition_iff h, ← List.getElem?_map]
  constructor
  · intro hnone hmem
    obtain ⟨position, hget⟩ := List.getElem?_of_mem hmem
    exact hnone position hget
  · intro hnot position hget
    exact hnot (List.mem_of_getElem? hget)

theorem findElement_eq_none (h : Indexes v) :
    v.findElement index = none ↔ index ∉ v.elementCache.map (·.1) := by
  rw [Option.eq_none_iff_forall_not_mem]
  simp only [Option.mem_def, findElement_eq_some h, List.mem_map, Prod.exists, exists_and_right,
    exists_eq_right, not_exists]

theorem probe_ends (h : Indexes v) (hne : v.elementIndex ≠ []) (key : Nat) :
    ∃ position, probe elementFormat v.elementIndex key = some position := by
  apply (h.table hne).probe_isSome
  rw [elementSlots_length, List.length_map]
  exact h.room hne

theorem ensureElementIndex_spec (h : Indexes v) : ∃ slots,
    v.ensureElementIndex = some { v with elementIndex := slots } ∧
      Table elementFormat slots (elementSlots (v.elementCache.map (·.1))) ∧
        v.elementCache.length + 1 < slots.length := by
  rw [ensureElementIndex]
  split
  · rename_i hroom
    simp only [Bool.and_eq_true, Bool.not_eq_true', List.isEmpty_eq_false_iff,
      decide_eq_true_eq] at hroom
    exact ⟨v.elementIndex, rfl, h.table hroom.1, by omega⟩
  · dsimp only
    have hminimum : 2 ≤ (if (v.elementCache.length + 1) * 2 < 8 then 8
        else (v.elementCache.length + 1) * 2) := by
      split <;> omega
    obtain ⟨⟨k, hk⟩, hle⟩ := bitCeil_spec hminimum
    have hcapacity : (v.elementCache.length + 1) * 2 ≤ 2 ^ k := by
      rw [← hk]
      refine Nat.le_trans ?_ hle
      split <;> omega
    rw [hk]
    have hstart : Table elementFormat (List.replicate (2 ^ k) elementFormat.empty) [] :=
      table_replicate rfl k
    have hoccupied : ∀ slot ∈ elementSlots (v.elementCache.map (·.1)),
        elementFormat.free slot = false := by
      intro slot hslot
      obtain ⟨index, position, -, rfl⟩ := mem_elementSlots.mp hslot
      rfl
    have hfits : ([] : List ElementSlot).length + (elementSlots (v.elementCache.map (·.1))).length ≤
        (List.replicate (2 ^ k) elementFormat.empty).length := by
      rw [elementSlots_length, List.length_map, List.length_replicate, List.length_nil]
      omega
    obtain ⟨slots, hslots, hlen, htable⟩ :=
      hstart.insertAll hfits (elementSlots_nodup h.nodup) hoccupied
    rw [hslots]
    rw [List.length_replicate] at hlen
    exact ⟨slots, rfl, htable, by omega⟩

theorem materializeElement_missing (h : Indexes v) (hnone : v.findPosition index = none)
    (hread : v.readBaseline index = .ok value) : ∃ slots, v.materializeElement index =
        some ({ v with elementCache := v.elementCache ++ [(index, value)], elementIndex := slots },
          .cached v.elementCache.length) ∧
      Indexes { v with elementCache := v.elementCache ++ [(index, value)], elementIndex := slots } := by
  obtain ⟨slots, hensure, htable, hroom⟩ := ensureElementIndex_spec h
  have habsent : index ∉ v.elementCache.map (·.1) := (findPosition_eq_none h).mp hnone
  have hnodup : ((v.elementCache ++ [(index, value)]).map (·.1)).Nodup := by
    rw [List.map_append, List.nodup_append]
    refine ⟨h.nodup, List.nodup_singleton _, ?_⟩
    intro a ha b hb hab
    rw [List.map_singleton, List.mem_singleton] at hb
    rw [hab, hb] at ha
    exact habsent ha
  have hnew : ∀ slot ∈ elementSlots (v.elementCache.map (·.1)),
      elementFormat.key slot ≠
        elementFormat.key (⟨index + 1, v.elementCache.length + 1⟩ : ElementSlot) := by
    intro slot hslot hkey
    obtain ⟨index', position, hget, rfl⟩ := mem_elementSlots.mp hslot
    obtain rfl : index' = index := Nat.succ.inj hkey
    exact habsent (List.mem_of_getElem? hget)
  obtain ⟨slots', hinsert, hlen, htable'⟩ :=
    htable.insertFree (by rw [elementSlots_length, List.length_map]; omega) hnew rfl
  have hread' : readBaseline { v with elementIndex := slots } index = .ok value := hread
  refine ⟨slots', ?_, hnodup, ?_, ?_, ?_⟩
  · rw [materializeElement, hnone]
    rw [hensure]
    dsimp only
    rw [hread']
    rw [hinsert]
    rfl
  · rintro rfl
    simp at hlen
    omega
  · intro _
    have hsnoc := elementSlots_snoc (v.elementCache.map (·.1)) index
    rw [List.length_map] at hsnoc
    dsimp only
    rw [List.map_append, List.map_singleton, hsnoc]
    exact htable'
  · intro _
    rw [List.length_append, List.length_singleton, hlen]
    omega

end CachedVector

end ServerEngine
