import ServerEngine.Frontend.FrontendCache

/-! # The overlay of the frontend cache

The index finds exactly the entry of a source. Making room leaves every entry where it is, and a
published entry is a new last one or takes the place of the old one.
-/
namespace ServerEngine
open SourceIndex

/-! ## Lists of sources -/

theorem length_le_of_nodup {values : List Nat} {bound : Nat} (hnodup : values.Nodup)
    (hrange : ∀ value ∈ values, value ≠ 0 ∧ value ≤ bound) : values.length ≤ bound := by
  have hsub : values ⊆ List.range' 1 bound := by
    intro value hvalue
    obtain ⟨hne, hle⟩ := hrange value hvalue
    rw [List.mem_range'_1]
    omega
  have hlength := (hnodup.subperm hsub).length_le
  rwa [List.length_range'] at hlength

theorem map_modify_same {α β : Type} (values : List α) (f : α → α) (g : α → β)
    (h : ∀ value, g (f value) = g value) (i : Nat) :
    (values.modify i f).map g = values.map g := by
  apply List.ext_getElem?
  intro j
  rw [List.getElem?_map, List.getElem?_modify, List.getElem?_map]
  cases values[j]? with
  | none => rfl
  | some value =>
    by_cases hij : i = j
    · simp [hij, h]
    · simp [hij]

theorem mem_modify_of_nodup {α β : Type} {values : List α} {key : α → β}
    (hnodup : (values.map key).Nodup) {i : Nat} {old : α} (hold : values[i]? = some old) (f : α → α)
    {value : α} :
    value ∈ values.modify i f ↔ value = f old ∨ (value ∈ values ∧ key value ≠ key old) := by
  rw [List.mem_iff_getElem?]
  constructor
  · rintro ⟨j, hj⟩
    rw [List.getElem?_modify] at hj
    by_cases hij : i = j
    · subst hij
      rw [hold] at hj
      left
      simpa using hj.symm
    · have hat : values[j]? = some value := by simpa [hij] using hj
      refine .inr ⟨List.mem_of_getElem? hat, fun heq => hij ?_⟩
      obtain ⟨hi, hgeti⟩ := List.getElem?_eq_some_iff.mp hold
      obtain ⟨hj', hgetj⟩ := List.getElem?_eq_some_iff.mp hat
      refine (@List.Nodup.getElem_inj_iff _ _ hnodup i (by simpa using hi) j (by simpa using hj')).mp ?_
      rw [List.getElem_map, List.getElem_map, hgeti, hgetj, heq]
  · rintro (rfl | ⟨hmem, hne⟩)
    · refine ⟨i, ?_⟩
      rw [List.getElem?_modify, hold]
      simp
    · obtain ⟨j, hj⟩ := List.mem_iff_getElem?.mp hmem
      refine ⟨j, ?_⟩
      have hij : i ≠ j := by
        rintro rfl
        rw [hold] at hj
        cases hj
        exact hne rfl
      simp [hij, hj]

namespace FrontendCache
variable {cache cache' : FrontendCache} {source : Nat} {entry : OverlayEntry}

def rest (cache : FrontendCache) : FrontendCache :=
  { cache with overlay := [], overlayReserved := 0, overlayIndex := [], nextAddress := 0 }

theorem blocks_of_rest (h : cache'.rest = cache.rest) :
    cache'.frontendBlocks = cache.frontendBlocks := by
  have hblocks : cache'.rest.frontendBlocks = cache.rest.frontendBlocks := by rw [h]
  exact hblocks

def sources (cache : FrontendCache) : List Nat := cache.overlay.map (·.source)

structure Indexed (cache : FrontendCache) : Prop where
  index : Indexes cache.overlayIndex cache.sources
  reserved : cache.overlay.length ≤ cache.overlayReserved

theorem sources_length (cache : FrontendCache) : cache.sources.length = cache.overlay.length :=
  List.length_map _

theorem overlayPosition_eq (h : cache.Indexed) {i : Nat} :
    cache.overlayPosition source = some i ↔ ∃ e, cache.overlay[i]? = some e ∧ e.source = source := by
  unfold overlayPosition
  rw [← cache.sources_length, h.index.position_eq]
  unfold sources
  rw [List.getElem?_map, Option.map_eq_some_iff]

theorem overlayPosition_none (h : cache.Indexed) :
    cache.overlayPosition source = none ↔ source ∉ cache.sources := by
  unfold overlayPosition
  rw [← cache.sources_length]
  exact h.index.position_none

theorem findOverlay_eq (h : cache.Indexed) :
    cache.findOverlay source = some entry ↔ entry ∈ cache.overlay ∧ entry.source = source := by
  unfold findOverlay
  rw [Option.bind_eq_some_iff]
  constructor
  · rintro ⟨i, hposition, hget⟩
    obtain ⟨e, he, hsource⟩ := (overlayPosition_eq h).mp hposition
    rw [hget] at he
    cases he
    exact ⟨List.mem_of_getElem? hget, hsource⟩
  · rintro ⟨hmem, hsource⟩
    obtain ⟨i, hi, hget⟩ := List.mem_iff_getElem.mp hmem
    have hat : cache.overlay[i]? = some entry := by
      rw [List.getElem?_eq_getElem hi, hget]
    exact ⟨i, (overlayPosition_eq h).mpr ⟨entry, hat, hsource⟩, hat⟩

theorem findOverlay_none (h : cache.Indexed) :
    cache.findOverlay source = none ↔ source ∉ cache.sources := by
  constructor
  · intro hnone hmem
    obtain ⟨e, he, hsource⟩ := List.mem_map.mp hmem
    have hsome := (findOverlay_eq h).mpr ⟨he, hsource⟩
    rw [hnone] at hsome
    cases hsome
  · intro habsent
    cases hfind : cache.findOverlay source with
    | none => rfl
    | some e =>
      obtain ⟨hmem, hsource⟩ := (findOverlay_eq h).mp hfind
      exact absurd (List.mem_map.mpr ⟨e, hmem, hsource⟩) habsent

/-! ## Room -/

structure RoomMade (cache cache' : FrontendCache) : Prop where
  rest : cache'.rest = cache.rest
  overlay : cache'.overlay = cache.overlay
  nextAddress : cache'.nextAddress = cache.nextAddress
  reserved : cache.overlayReserved ≤ cache'.overlayReserved
  index : cache.overlayIndex.length ≤ cache'.overlayIndex.length
  indexed : cache'.Indexed

theorem roomMade_refl (h : cache.Indexed) : RoomMade cache cache :=
  ⟨rfl, rfl, rfl, Nat.le_refl _, Nat.le_refl _, h⟩

theorem prepareOverlayCapacity_room (h : cache.Indexed) (overlayFault indexFault : Bool)
    (additional : Nat) :
    RoomMade cache (cache.prepareOverlayCapacity overlayFault indexFault additional).1 := by
  have hreserved : RoomMade cache { cache with
      overlayReserved := max cache.overlayReserved (cache.overlay.length + additional) } :=
    ⟨rfl, rfl, rfl, Nat.le_max_left _ _, Nat.le_refl _, ⟨h.index, Nat.le_trans h.reserved (Nat.le_max_left _ _)⟩⟩
  unfold prepareOverlayCapacity
  split
  · exact roomMade_refl h
  split
  · exact roomMade_refl h
  dsimp only
  split
  · exact roomMade_refl h
  split
  · exact hreserved
  rename_i hsmall
  split
  · exact hreserved
  rename_i hcapacity
  split
  · exact hreserved
  · have hrebuilt := @Indexes.rebuild _ _ h.index (cache.overlay.length + additional)
      (by rw [sources_length]; omega) hcapacity
    have hlarger : cache.overlayIndex.length ≤
        (rebuild (overlayCapacity (cache.overlay.length + additional)) cache.sources).length := by
      have hhalf := (overlayCapacity_spec hcapacity).2.1
      by_cases hnil : cache.overlayIndex = []
      · rw [hnil]
        exact Nat.zero_le _
      · simp [hnil] at hsmall
        omega
    exact ⟨rfl, rfl, rfl, Nat.le_max_left _ _, hlarger,
      ⟨hrebuilt.1, Nat.le_trans h.reserved (Nat.le_max_left _ _)⟩⟩

theorem prepareOverlayCapacity_ok (h : cache.Indexed) {overlayFault indexFault : Bool}
    {additional : Nat} (hadditional : 0 < additional)
    (hok : (cache.prepareOverlayCapacity overlayFault indexFault additional).2 = .ok ()) :
    cache.overlay.length + additional ≤
        (cache.prepareOverlayCapacity overlayFault indexFault additional).1.overlayReserved ∧
      (cache.overlay.length + additional) * 2 ≤
        (cache.prepareOverlayCapacity overlayFault indexFault additional).1.overlayIndex.length := by
  unfold prepareOverlayCapacity at hok ⊢
  rw [if_neg (by omega)] at hok ⊢
  split at hok
  · cases hok
  rename_i hsize
  rw [if_neg hsize]
  dsimp only at hok ⊢
  split at hok
  · cases hok
  rename_i hfault
  rw [if_neg hfault]
  split at hok
  · rename_i hlarge
    rw [if_pos hlarge]
    simp only [Bool.and_eq_true, decide_eq_true_eq] at hlarge
    exact ⟨Nat.le_max_right _ _, Nat.le_of_lt hlarge.2⟩
  rename_i hsmall
  rw [if_neg hsmall]
  split at hok
  · cases hok
  rename_i hcapacity
  rw [if_neg hcapacity]
  split at hok
  · cases hok
  rename_i hindex
  rw [if_neg hindex]
  obtain ⟨hrebuilt, hlength⟩ := @Indexes.rebuild _ _ h.index
    (cache.overlay.length + additional) (by rw [sources_length]; omega) hcapacity
  refine ⟨Nat.le_max_right _ _, ?_⟩
  have hhalf := (overlayCapacity_spec hcapacity).2.1
  show _ ≤ (rebuild _ cache.sources).length
  omega

theorem prepareOverlayCapacity_succeeds (hsize : cache.overlay.length ≤ u32Max) :
    (cache.prepareOverlayCapacity false false 1).2 = .ok () := by
  have hmax : sizeMax = 18446744073709551615 := rfl
  have h32 : u32Max = 4294967295 := rfl
  have hcapacity : overlayCapacity (cache.overlay.length + 1) ≠ 0 := by
    unfold overlayCapacity
    rw [if_neg (by omega), if_neg (by omega), bitCeil]
    split
    · omega
    · exact Nat.ne_of_gt (Nat.two_pow_pos _)
  unfold prepareOverlayCapacity
  rw [if_neg (by omega), if_neg (by omega)]
  dsimp only
  have hnone : ¬(false && cache.overlay.length + 1 > cache.overlayReserved) = true := by simp
  rw [if_neg hnone]
  split
  · rfl
  · rfl

def newEntry (source : Nat) (interface : Option CachedInterface) (resolved : Bool) : OverlayEntry :=
  { source := source, interface := interface, resolved := resolved }

theorem publishOverlay_new (h : cache.Indexed) (hnew : source ∉ cache.sources) (hne : source ≠ 0)
    (hroom : cache.overlay.length < cache.overlayReserved)
    (hindex : cache.overlay.length < cache.overlayIndex.length)
    (interface : Option CachedInterface) (resolved : Bool) :
    ∃ cache', cache.publishOverlay source interface resolved = (cache', some cache.overlay.length) ∧
      cache'.rest = cache.rest ∧ cache'.nextAddress = cache.nextAddress ∧
      cache'.overlayReserved = cache.overlayReserved ∧
      cache'.overlay = cache.overlay ++ [newEntry source interface resolved] ∧ cache'.Indexed ∧
      cache'.overlayIndex.length = cache.overlayIndex.length := by
  have hsome : cache.overlayIndex ≠ [] := by
    intro hnil
    rw [hnil] at hindex
    simp at hindex
  have hplace := h.index.place hnew hne (by rw [sources_length]; exact hindex)
  have hlength : (place cache.overlayIndex source (cache.overlay.length + 1)).length =
      cache.overlayIndex.length := by
    rcases h.index.table with hnil | htable
    · exact absurd hnil.1 hsome
    · have hplaced := place_table htable hnew hne (by rw [sources_length]; exact hindex)
      rw [sources_length] at hplaced
      exact hplaced.1
  unfold publishOverlay
  rw [(overlayPosition_none h).mpr hnew]
  rw [if_neg (by simp [hne, hsome]; omega)]
  refine ⟨_, rfl, rfl, rfl, rfl, rfl, ⟨?_, ?_⟩, hlength⟩
  · rw [sources_length] at hplace
    show Indexes _ ((cache.overlay ++ [newEntry source interface resolved]).map (·.source))
    rw [List.map_append]
    exact hplace
  · show (cache.overlay ++ [newEntry source interface resolved]).length ≤ _
    rw [List.length_append, List.length_singleton]
    exact hroom

theorem indexed_modify (h : cache.Indexed) (i : Nat) (f : OverlayEntry → OverlayEntry)
    (hf : ∀ e, (f e).source = e.source) :
    Indexed { cache with overlay := cache.overlay.modify i f } := by
  constructor
  · show Indexes _ ((cache.overlay.modify i f).map (·.source))
    rw [map_modify_same _ _ _ hf]
    exact h.index
  · show (cache.overlay.modify i f).length ≤ _
    rw [List.length_modify]
    exact h.reserved

theorem mem_modify (h : cache.Indexed) {i : Nat} {old : OverlayEntry}
    (hold : cache.overlay[i]? = some old) (f : OverlayEntry → OverlayEntry) {e : OverlayEntry} :
    e ∈ cache.overlay.modify i f ↔
      e = f old ∨ (e ∈ cache.overlay ∧ e.source ≠ old.source) :=
  mem_modify_of_nodup h.index.nodup hold f

end FrontendCache
end ServerEngine
