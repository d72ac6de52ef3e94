import Mathlib.Data.List.Induction
import ServerEngine.Contribution.Update
import ServerEngine.Library.ProbedTable

/-! # Indexes from sources to positions

The overlay of the frontend cache and the replacements of an update are vectors with an
open-addressing index from the source to its position. An index that is never overfilled finds what
it was given.
-/
namespace ServerEngine
open ProbedTable

/-- `overlay_slot` and `replacement_slot`; the position counts from one. -/
structure SourceSlot where
  source : Nat := 0
  position : Nat := 0

def sourceFormat : Format SourceSlot Nat where
  empty := {}
  free s := s.source == 0
  key s := s.source
  hash := mix64

def overlayCapacity (count : Nat) : Nat :=
  if count = 0 then 0
  else if count > sizeMax / 2 then 0
  else bitCeil (max 8 (count * 2))

namespace SourceIndex

def position (slots : List SourceSlot) (length source : Nat) : Option Nat :=
  if source = 0 || slots.isEmpty then none
  else match find sourceFormat slots source with
    | none => none
    | some slot => if slot.position - 1 < length then some (slot.position - 1) else none

def place (slots : List SourceSlot) (source position : Nat) : List SourceSlot :=
  (insertFree sourceFormat slots ⟨source, position⟩).getD slots

def positions (sources : List Nat) : List SourceSlot :=
  sources.zipIdx.map fun item => ⟨item.1, item.2 + 1⟩

def rebuild (capacity : Nat) (sources : List Nat) : List SourceSlot :=
  (positions sources).foldl (fun slots slot => place slots slot.source slot.position)
    (List.replicate capacity {})

structure Indexes (slots : List SourceSlot) (sources : List Nat) : Prop where
  table : slots = [] ∧ sources = [] ∨ Table sourceFormat slots (positions sources)
  room : sources.length ≤ slots.length

variable {slots : List SourceSlot} {sources : List Nat}

theorem positions_length (sources : List Nat) : (positions sources).length = sources.length := by
  simp [positions]

theorem positions_keys (sources : List Nat) :
    (positions sources).map sourceFormat.key = sources := by
  unfold positions
  rw [List.map_map]
  show sources.zipIdx.map Prod.fst = sources
  exact List.zipIdx_map_fst 0 sources

theorem mem_positions {slot : SourceSlot} (h : slot ∈ positions sources) :
    0 < slot.position ∧ sources[slot.position - 1]? = some slot.source := by
  obtain ⟨item, hitem, rfl⟩ := List.mem_map.mp h
  exact ⟨Nat.succ_pos _, List.mem_zipIdx_iff_getElem?.mp hitem⟩

theorem positions_concat (sources : List Nat) (source : Nat) :
    positions (sources ++ [source]) =
      positions sources ++ [⟨source, sources.length + 1⟩] := by
  simp [positions, List.zipIdx_append]

theorem indexes_nil : Indexes [] [] := ⟨.inl ⟨rfl, rfl⟩, Nat.zero_le _⟩

theorem Indexes.nodup (h : Indexes slots sources) : sources.Nodup := by
  rcases h.table with ⟨-, hnil⟩ | htable
  · rw [hnil]
    exact List.nodup_nil
  · have hkeys := htable.keys
    rwa [positions_keys] at hkeys

theorem Indexes.ne_zero (h : Indexes slots sources) : ∀ source ∈ sources, source ≠ 0 := by
  intro source hsource hzero
  rcases h.table with ⟨-, hnil⟩ | htable
  · rw [hnil] at hsource
    cases hsource
  · obtain ⟨i, hi, hget⟩ := List.mem_iff_getElem.mp hsource
    have hmem : (⟨source, i + 1⟩ : SourceSlot) ∈ positions sources := by
      refine List.mem_map.mpr ⟨(source, i), List.mem_zipIdx_iff_getElem?.mpr ?_, rfl⟩
      rw [← hget, List.getElem?_eq_getElem hi]
    have hfree := (htable.reached _ hmem).1
    rw [hzero] at hfree
    cases hfree

theorem Indexes.position_eq (h : Indexes slots sources) {source i : Nat} :
    position slots sources.length source = some i ↔ sources[i]? = some source := by
  rcases h.table with ⟨hslots, hsources⟩ | htable
  · rw [hslots, hsources]
    simp [position]
  have hsome : slots ≠ [] := by
    rintro rfl
    have := htable.length_pos
    cases this
  constructor
  · intro hposition
    unfold position at hposition
    split at hposition
    · cases hposition
    split at hposition
    · cases hposition
    · rename_i slot hfind
      split at hposition
      · obtain ⟨hmem, hkey⟩ := htable.find_eq.mp hfind
        obtain ⟨-, hget⟩ := mem_positions hmem
        cases hposition
        rw [hget]
        exact congrArg some hkey
      · cases hposition
  · intro hget
    have hmem : (⟨source, i + 1⟩ : SourceSlot) ∈ positions sources :=
      List.mem_map.mpr ⟨(source, i), List.mem_zipIdx_iff_getElem?.mpr hget, rfl⟩
    have hfind : find sourceFormat slots source = some ⟨source, i + 1⟩ :=
      htable.find_eq.mpr ⟨hmem, rfl⟩
    have hne : source ≠ 0 := h.ne_zero source (List.mem_of_getElem? hget)
    have hlt : i < sources.length := (List.getElem?_eq_some_iff.mp hget).1
    unfold position
    rw [if_neg (by simp [hne, hsome]), hfind]
    exact if_pos hlt

theorem Indexes.position_none (h : Indexes slots sources) {source : Nat} :
    position slots sources.length source = none ↔ source ∉ sources := by
  constructor
  · intro hnone hmem
    obtain ⟨i, hi, hget⟩ := List.mem_iff_getElem.mp hmem
    have hsome := (@Indexes.position_eq _ _ h source i).mpr
      (by rw [List.getElem?_eq_getElem hi, hget])
    rw [hnone] at hsome
    cases hsome
  · intro habsent
    cases hposition : position slots sources.length source with
    | none => rfl
    | some i => exact absurd (List.mem_of_getElem? (h.position_eq.mp hposition)) habsent

theorem place_table (t : Table sourceFormat slots (positions sources)) {source : Nat}
    (hnew : source ∉ sources) (hne : source ≠ 0) (hroom : sources.length < slots.length) :
    (place slots source (sources.length + 1)).length = slots.length ∧
      Table sourceFormat (place slots source (sources.length + 1))
        (positions (sources ++ [source])) := by
  obtain ⟨slots', hinsert, hlength, htable⟩ :=
    @ProbedTable.Table.insertFree _ _ _ _ _ _ t (by rwa [positions_length])
      ⟨source, sources.length + 1⟩ (by
        intro slot hslot hkey
        obtain ⟨-, hget⟩ := mem_positions hslot
        have hsource : slot.source = source := hkey
        rw [hsource] at hget
        exact hnew (List.mem_of_getElem? hget)) (by simpa [sourceFormat] using hne)
  have hplace : place slots source (sources.length + 1) = slots' := by
    unfold place
    rw [hinsert]
    rfl
  rw [hplace, positions_concat]
  exact ⟨hlength, htable⟩

theorem Indexes.place (h : Indexes slots sources) {source : Nat} (hnew : source ∉ sources)
    (hne : source ≠ 0) (hroom : sources.length < slots.length) :
    Indexes (place slots source (sources.length + 1)) (sources ++ [source]) := by
  rcases h.table with ⟨hslots, -⟩ | htable
  · rw [hslots, List.length_nil] at hroom
    omega
  · obtain ⟨hlength, hnext⟩ := place_table htable hnew hne hroom
    refine ⟨.inr hnext, ?_⟩
    rw [hlength, List.length_append, List.length_singleton]
    exact hroom

theorem rebuild_concat (capacity : Nat) (sources : List Nat) (source : Nat) :
    rebuild capacity (sources ++ [source]) =
      SourceIndex.place (rebuild capacity sources) source (sources.length + 1) := by
  unfold rebuild
  rw [positions_concat, List.foldl_append]
  rfl

theorem rebuild_table {n : Nat} (hnodup : sources.Nodup) (hne : ∀ source ∈ sources, source ≠ 0)
    (hroom : sources.length ≤ 2 ^ n) :
    (rebuild (2 ^ n) sources).length = 2 ^ n ∧
      Table sourceFormat (rebuild (2 ^ n) sources) (positions sources) := by
  induction sources using List.reverseRecOn with
  | nil => exact ⟨List.length_replicate, @table_replicate _ _ sourceFormat rfl n⟩
  | append_singleton sources source ih =>
    rw [List.length_append, List.length_singleton] at hroom
    rw [List.nodup_append] at hnodup
    obtain ⟨hlength, htable⟩ := ih hnodup.1 (fun s hs => hne s (List.mem_append_left _ hs))
      (by omega)
    have hplaced := @place_table (rebuild (2 ^ n) sources) sources htable source (fun hmem =>
      hnodup.2.2 source hmem source (by simp) rfl) (hne source (by simp)) (by omega)
    rw [rebuild_concat]
    exact ⟨hplaced.1.trans hlength, hplaced.2⟩

theorem overlayCapacity_spec {count : Nat} (h : overlayCapacity count ≠ 0) :
    (∃ n, overlayCapacity count = 2 ^ n) ∧ count * 2 ≤ overlayCapacity count ∧
      8 ≤ overlayCapacity count := by
  unfold overlayCapacity at h ⊢
  split at h
  · cases h rfl
  rename_i hcount
  split at h
  · cases h rfl
  rename_i hsize
  rw [if_neg hcount, if_neg hsize]
  obtain ⟨hpow, hle⟩ := @bitCeil_spec (max 8 (count * 2)) (by omega)
  exact ⟨hpow, by omega, by omega⟩

theorem Indexes.rebuild (h : Indexes slots sources) {count : Nat} (hcount : sources.length ≤ count)
    (hcapacity : overlayCapacity count ≠ 0) :
    Indexes (SourceIndex.rebuild (overlayCapacity count) sources) sources ∧
      (SourceIndex.rebuild (overlayCapacity count) sources).length = overlayCapacity count := by
  obtain ⟨⟨n, hn⟩, hhalf, -⟩ := overlayCapacity_spec hcapacity
  rw [hn] at hhalf ⊢
  obtain ⟨hlength, htable⟩ := @rebuild_table sources n h.nodup h.ne_zero (by omega)
  exact ⟨⟨.inr htable, by omega⟩, hlength⟩

end SourceIndex
end ServerEngine
