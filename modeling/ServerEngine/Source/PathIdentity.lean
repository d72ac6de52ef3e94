import ServerEngine.Source.PathTables
import ServerEngine.Source.Runs

/-! # Paths and ids

Every source has a path and no two sources share one, so a path finds at most one id. A publication
gives the new sources the ids their update gave them, and leaves the paths of the others alone.
-/
namespace ServerEngine
open Transaction

namespace SourceManager

/-! ## The path of a source -/

variable {m n : SourceManager}

theorem path_congr (hbaseline : n.baseline = m.baseline) (hrecords : n.records = m.records)
    (hstorage : n.pathStorage = m.pathStorage) (source : Nat) : n.path source = m.path source := by
  unfold path path.stored
  rw [hbaseline, hrecords, hstorage]

theorem Grown.path (h : Grown m n) (source : Nat) : n.path source = m.path source := by
  unfold SourceManager.path SourceManager.path.stored
  rw [h.records.size, h.baseline, h.pathStorage.size, h.pathStorage.values, h.records.value]

/-- The path of a source that was added, wherever its bytes lie. -/
def StoredAt (m : SourceManager) (source : Nat) (path : Bytes) : Prop :=
  m.baselineSourceCount < source ∧ source ≤ m.records.size ∧
    (m.records.value (source - 1)).pathOffset + (m.records.value (source - 1)).pathLength ≤
        m.pathStorage.size ∧
      Slice.slice m.pathStorage.values (m.records.value (source - 1)).pathOffset
        (m.records.value (source - 1)).pathLength = path

theorem StoredAt.path {source : Nat} {p : Bytes} (h : m.StoredAt source p) : m.path source = p := by
  obtain ⟨hsaved, hsize, hbound, hslice⟩ := h
  have hstored : SourceManager.path.stored m source = p := by
    unfold SourceManager.path.stored
    dsimp only
    rw [if_neg (by simp; omega)]
    exact hslice
  unfold SourceManager.path
  rw [if_neg (by simp; omega)]
  unfold baselineSourceCount at hsaved
  cases hb : m.baseline with
  | none => exact hstored
  | some b =>
    rw [hb] at hsaved
    dsimp only at hsaved ⊢
    rw [if_neg (by omega)]
    exact hstored

theorem stored_of_path {source : Nat} (hne : m.path source ≠ []) :
    source ≠ 0 ∧ source ≤ m.records.size ∧
      (source ≤ m.baselineSourceCount ∨ m.StoredAt source (m.path source)) := by
  unfold SourceManager.path at hne
  by_cases hbad : (source = 0 || m.records.size < source) = true
  · rw [if_pos hbad] at hne
    exact absurd rfl hne
  · have hsource : source ≠ 0 ∧ source ≤ m.records.size := by simpa using hbad
    refine ⟨hsource.1, hsource.2, ?_⟩
    by_cases hsaved : source ≤ m.baselineSourceCount
    · exact .inl hsaved
    · have hstored : m.path source = SourceManager.path.stored m source := by
        unfold SourceManager.path
        rw [if_neg hbad]
        unfold baselineSourceCount at hsaved
        cases hb : m.baseline with
        | none => rfl
        | some b =>
          rw [hb] at hsaved
          dsimp only at hsaved ⊢
          rw [if_neg (by omega)]
      have hne' : m.path source ≠ [] := by
        unfold SourceManager.path
        exact hne
      rw [hstored] at hne'
      unfold SourceManager.path.stored at hne'
      dsimp only at hne'
      split at hne'
      · exact absurd rfl hne'
      · rename_i hbound
        have hbound : (m.records.value (source - 1)).pathOffset ≤ m.pathStorage.size ∧
            (m.records.value (source - 1)).pathLength ≤
              m.pathStorage.size - (m.records.value (source - 1)).pathOffset := by
          simpa using hbound
        refine .inr ⟨by omega, hsource.2, by omega, ?_⟩
        rw [hstored]
        unfold SourceManager.path.stored
        dsimp only
        rw [if_neg (by simp; omega)]

theorem path_saved (hbaseline : n.baseline = m.baseline) (hsize : m.records.size ≤ n.records.size)
    {source : Nat} (hs : source ≤ m.records.size) (hsaved : source ≤ m.baselineSourceCount) :
    n.path source = m.path source := by
  unfold SourceManager.path
  by_cases hz : source = 0
  · rw [if_pos (by simp [hz]), if_pos (by simp [hz])]
  · rw [if_neg (by simp; omega), if_neg (by simp; omega), hbaseline]
    unfold baselineSourceCount at hsaved
    cases hb : m.baseline with
    | none =>
      rw [hb] at hsaved
      dsimp only at hsaved
      omega
    | some b =>
      rw [hb] at hsaved
      dsimp only at hsaved ⊢
      rw [if_pos hsaved, if_pos hsaved]

end SourceManager

namespace SourceManagerUpdate
open SourceManager

/-! ## Publishing paths -/

def PathsFit (u : SourceManagerUpdate) : Prop :=
  ∀ k item, u.newSources[k]? = some item →
    u.owner.pathStorage.size + ((u.newSources.take k).map (·.normalizedPath.length)).sum ≤ u32Max ∧
      item.normalizedPath.length ≤ u32Max

variable {m : SourceManager}

theorem publishSource_path (hm : m.Wf) {item : NewSource} (hoffset : m.pathStorage.size ≤ u32Max)
    (hlength : item.normalizedPath.length ≤ u32Max) :
    (publishSource m item).path (m.records.size + 1) = item.normalizedPath ∧
      ∀ source, m.path source ≠ [] → (publishSource m item).path source = m.path source := by
  have hsize : (publishSource m item).records.size = m.records.size + 1 :=
    MappedVector.append_size m.records [_]
  have hbytes : (publishSource m item).pathStorage.values =
      m.pathStorage.values ++ item.normalizedPath := rfl
  have hstorage : (publishSource m item).pathStorage.size =
      m.pathStorage.size + item.normalizedPath.length := GrowVector.append_size _ _
  have hcount : m.baselineSourceCount ≤ m.records.size := by
    rw [← hm.recordsBaseline]
    unfold MappedVector.size
    omega
  have hbaseline : (publishSource m item).baseline = m.baseline := rfl
  have hsaved : (publishSource m item).baselineSourceCount = m.baselineSourceCount := rfl
  have hvalue : ∀ i, (publishSource m item).records.value i =
      if i = m.records.size then ⟨m.pathStorage.size, item.normalizedPath.length⟩
      else m.records.value i := by
    intro i
    have hpush : (publishSource m item).records = m.records.pushBack
        ⟨m.pathStorage.size % (u32Max + 1), item.normalizedPath.length % (u32Max + 1)⟩ := rfl
    rw [hpush, MappedVector.pushBack_value, Nat.mod_eq_of_lt (by omega),
      Nat.mod_eq_of_lt (by omega)]
  constructor
  · apply StoredAt.path
    refine ⟨by rw [hsaved]; omega, Nat.le_of_eq hsize.symm, ?_, ?_⟩
    · apply Nat.le_of_eq
      rw [Nat.add_sub_cancel, hvalue, if_pos rfl, hstorage]
    · rw [Nat.add_sub_cancel, hvalue, if_pos rfl, hbytes]
      exact Slice.slice_append_self
  · intro source hne
    obtain ⟨hs, hle, hcase⟩ := stored_of_path hne
    rcases hcase with hold | ⟨h1, h2, h3, h4⟩
    · exact path_saved hbaseline (by omega) hle hold
    · apply StoredAt.path
      refine ⟨by rw [hsaved]; exact h1, by omega, ?_, ?_⟩
      · rw [hvalue, if_neg (by omega), hstorage]
        omega
      · rw [hvalue, if_neg (by omega), hbytes, Slice.slice_append_left h3]
        exact h4

theorem publishSources_path (hm : m.Wf) {items : List NewSource}
    (hfit : ∀ k item, items[k]? = some item → m.pathStorage.size + ((items.take k).map (·.normalizedPath.length)).sum ≤ u32Max ∧ item.normalizedPath.length ≤ u32Max)
    (hnamed : ∀ item ∈ items, item.normalizedPath ≠ []) : (∀ k item, items[k]? = some item →
      (items.foldl publishSource m).path (m.records.size + k + 1) = item.normalizedPath) ∧
      ∀ source, m.path source ≠ [] → (items.foldl publishSource m).path source = m.path source := by
  induction items generalizing m with
  | nil =>
    refine ⟨fun k item h => ?_, fun _ _ => rfl⟩
    cases h
  | cons first rest ih =>
    obtain ⟨hoffset, hlength⟩ := hfit 0 first rfl
    have hoffset : m.pathStorage.size ≤ u32Max := by simpa using hoffset
    obtain ⟨hnew, hold⟩ := publishSource_path hm hoffset hlength
    have hone : (publishSource m first).Wf := (publishSource_spec hm first).wf
    have hsize : (publishSource m first).records.size = m.records.size + 1 :=
      MappedVector.pushBack_size m.records _
    have hstorage : (publishSource m first).pathStorage.size =
        m.pathStorage.size + first.normalizedPath.length := GrowVector.append_size _ _
    obtain ⟨hlater, hkept⟩ := @ih (publishSource m first) hone (fun k item h => by
      obtain ⟨h1, h2⟩ := hfit (k + 1) item h
      rw [List.take_succ_cons, List.map_cons, List.sum_cons] at h1
      refine ⟨?_, h2⟩
      rw [hstorage]
      omega) fun item h => hnamed item (by simp [h])
    rw [List.foldl_cons]
    refine ⟨fun k item h => ?_, fun source hne => ?_⟩
    · cases k with
      | zero =>
        obtain rfl : first = item := Option.some.inj h
        have hne : (publishSource m first).path (m.records.size + 1) ≠ [] := by
          rw [hnew]
          exact hnamed first (by simp)
        exact (hkept _ hne).trans hnew
      | succ k =>
        rw [← hlater k item h, hsize]
        congr 1
        omega
    · have hfirst := hold source hne
      rw [← hfirst] at hne ⊢
      exact hkept source hne

end SourceManagerUpdate

/-! ## Ids and paths -/

/-- An image whose sources have paths that find them, as its verification checks, and whose lookup
compares paths. -/
structure Baseline.Indexed (b : Baseline) : Prop where
  named : ∀ source, source ≠ 0 → source ≤ b.sources.sourceCount →
    b.sources.path source ≠ [] ∧ b.sources.find (b.sources.path source) = .ok source
  found : ∀ path source, b.sources.find path = .ok source →
    source ≠ 0 ∧ source ≤ b.sources.sourceCount ∧ b.sources.path source = path

/-- Every id up to `count` has a path, and no two the same. -/
structure Identified (count : Nat) (path : Nat → Bytes) : Prop where
  named : ∀ s, s ≠ 0 → s ≤ count → path s ≠ []
  distinct : ∀ s t, s ≠ 0 → s ≤ count → t ≠ 0 → t ≤ count → path s = path t → s = t

/-- Every id has a path, different ids have different ones, and the index holds the sources added
since the baseline. -/
structure IndexedManager.PathIdentity (i : IndexedManager) : Prop where
  wf : i.manager.Wf
  count : i.manager.records.size ≤ u32Max
  saved : ∀ b, i.manager.baseline = some b → b.Indexed
  ids : Identified i.manager.records.size i.manager.path
  index : i.pathIndex = [] ∧ i.manager.localSources = [] ∨
    IndexOf i.manager.path i.pathIndex i.manager.localSources
  slots : i.manager.pathIndexSlots = i.pathIndex.length

namespace SourceManager

variable {m : SourceManager}

theorem Wf.records_eq (hm : m.Wf) :
    m.records.size = m.baselineSourceCount + m.records.localValues.length := by
  rw [MappedVector.size, hm.recordsBaseline]

theorem mem_localSources (hm : m.Wf) {source : Nat} :
    source ∈ m.localSources ↔ m.baselineSourceCount < source ∧ source ≤ m.records.size := by
  rw [localSources, List.mem_map, hm.records_eq]
  constructor
  · rintro ⟨k, hk, rfl⟩
    rw [List.mem_range] at hk
    omega
  · rintro ⟨h1, h2⟩
    exact ⟨source - m.baselineSourceCount - 1, List.mem_range.mpr (by omega), by omega⟩

theorem Grown.localSources {n : SourceManager} (h : Grown m n) :
    n.localSources = m.localSources := by
  have hlength : n.records.localValues.length = m.records.localValues.length := by
    have hsize := h.records.size
    rw [MappedVector.size, MappedVector.size, h.records.baselineCount] at hsize
    omega
  unfold SourceManager.localSources
  rw [hlength, h.baselineSourceCount]

end SourceManager

namespace IndexedManager
open SourceManager

def savedFind (m : SourceManager) (p : Bytes) : Option Nat :=
  match m.baseline with
  | some b => (b.sources.find p).toOption
  | none => none

section
variable {i : IndexedManager} {p : Bytes} {source : Nat}

theorem PathIdentity.savedFind_iff (h : i.PathIdentity) : savedFind i.manager p = some source ↔
    source ≠ 0 ∧ source ≤ i.manager.baselineSourceCount ∧ i.manager.path source = p := by
  have hpath : ∀ b, i.manager.baseline = some b → ∀ s, s ≠ 0 → s ≤ b.sources.sourceCount →
      i.manager.path s = b.sources.path s := by
    intro b hb s hs hle
    have hsize := h.wf.records_eq
    have hcount : i.manager.baselineSourceCount = b.sources.sourceCount := by
      unfold baselineSourceCount
      rw [hb]
    unfold SourceManager.path
    rw [if_neg (by simp; omega), hb]
    dsimp only
    rw [if_pos hle]
  unfold savedFind baselineSourceCount
  cases hb : i.manager.baseline with
  | none =>
    dsimp only
    constructor
    · intro hnone
      cases hnone
    · rintro ⟨hne, hle, -⟩
      omega
  | some b =>
    dsimp only
    have hindexed := h.saved b hb
    constructor
    · intro hfind
      have hok : b.sources.find p = .ok source := by
        cases hf : b.sources.find p with
        | error code =>
          rw [hf] at hfind
          cases hfind
        | ok s =>
          rw [hf] at hfind
          rw [Option.some.inj hfind]
      obtain ⟨hne, hle, hp⟩ := hindexed.found p source hok
      exact ⟨hne, hle, (hpath b hb source hne hle).trans hp⟩
    · rintro ⟨hne, hle, hp⟩
      rw [hpath b hb source hne hle] at hp
      rw [← hp, (hindexed.named source hne hle).2]
      rfl

theorem PathIdentity.or_iff (h : i.PathIdentity) {added : Option Nat}
    (hadded : ∀ s, added = some s ↔ s ∈ i.manager.localSources ∧ i.manager.path s = p) :
    (savedFind i.manager p).or added = some source ↔
      source ≠ 0 ∧ source ≤ i.manager.records.size ∧ i.manager.path source = p := by
  have hsize := h.wf.records_eq
  rw [Option.or_eq_some_iff, h.savedFind_iff, hadded, mem_localSources h.wf]
  constructor
  · rintro (⟨hne, hle, hp⟩ | ⟨-, ⟨hlt, hle⟩, hp⟩)
    · exact ⟨hne, by omega, hp⟩
    · exact ⟨by omega, hle, hp⟩
  · rintro ⟨hne, hle, hp⟩
    by_cases hsaved : source ≤ i.manager.baselineSourceCount
    · exact .inl ⟨hne, hsaved, hp⟩
    · refine .inr ⟨?_, ⟨by omega, hle⟩, hp⟩
      cases hfind : savedFind i.manager p with
      | none => rfl
      | some t =>
        obtain ⟨ht, htle, htp⟩ := h.savedFind_iff.mp hfind
        have hsame := h.ids.distinct source t hne hle ht (by omega) (hp.trans htp.symm)
        omega

theorem PathIdentity.find_iff (h : i.PathIdentity) : i.find p = some source ↔
    source ≠ 0 ∧ source ≤ i.manager.records.size ∧ i.manager.path source = p := by
  apply h.or_iff
  intro s
  by_cases hp : p = []
  · have hnone : i.manager.findInIndex p i.pathIndex = none := by
      unfold findInIndex
      rw [if_pos (by simp [hp])]
    rw [hnone, hp]
    constructor
    · intro hs
      cases hs
    · rintro ⟨hs, hempty⟩
      obtain ⟨h1, h2⟩ := (mem_localSources h.wf).mp hs
      exact absurd hempty (h.ids.named s (by omega) h2)
  · rcases h.index with ⟨hnil, hempty⟩ | hindex
    · rw [hnil, findInIndex_nil, hempty]
      simp
    · exact findInIndex_iff hindex hp

theorem PathIdentity.find_eq (h : i.PathIdentity) (p : Bytes) : i.manager.find p = i.find p := by
  apply Option.ext
  intro source
  rw [h.find_iff]
  apply h.or_iff
  intro s
  have hlocal : ((List.range i.manager.records.localValues.length).map
      (i.manager.baselineSourceCount + · + 1)) = i.manager.localSources := rfl
  rw [hlocal]
  constructor
  · intro hfind
    have htest := List.find?_some hfind
    simp only [Bool.and_eq_true, decide_eq_true_eq] at htest
    exact ⟨List.mem_of_find?_eq_some hfind, htest.2⟩
  · rintro ⟨hs, hp⟩
    obtain ⟨h1, h2⟩ := (mem_localSources h.wf).mp hs
    have hne : p ≠ [] := by
      rw [← hp]
      exact h.ids.named s (by omega) h2
    cases hfind : i.manager.localSources.find? fun source =>
        decide (p ≠ []) && decide (i.manager.path source = p) with
    | none =>
      have hno := List.find?_eq_none.mp hfind s hs
      simp [hne, hp] at hno
    | some t =>
      have htest := List.find?_some hfind
      simp only [Bool.and_eq_true, decide_eq_true_eq] at htest
      obtain ⟨t1, t2⟩ := (mem_localSources h.wf).mp (List.mem_of_find?_eq_some hfind)
      rw [h.ids.distinct t s (by omega) t2 (by omega) h2 (htest.2.trans hp.symm)]

theorem PathIdentity.grown (h : i.PathIdentity) {m : SourceManager} (hm : Grown i.manager m)
    (hslots : m.pathIndexSlots = i.pathIndex.length) :
    (⟨m, i.pathIndex⟩ : IndexedManager).PathIdentity := by
  have hsize : m.records.size = i.manager.records.size := hm.records.size
  refine ⟨hm.wf h.wf, ?_, fun b hb => ?_, ⟨fun s hs hle => ?_, fun s t hs hsl ht htl hpath => ?_⟩, ?_,
    hslots⟩
  · show m.records.size ≤ u32Max
    rw [hsize]
    exact h.count
  · apply h.saved b
    rw [← hm.baseline]
    exact hb
  · show m.path s ≠ []
    rw [hm.path]
    exact h.ids.named s hs (hsize ▸ hle)
  · have hpath : m.path s = m.path t := hpath
    rw [hm.path, hm.path] at hpath
    exact h.ids.distinct s t hs (hsize ▸ hsl) ht (hsize ▸ htl) hpath
  · show i.pathIndex = [] ∧ m.localSources = [] ∨ IndexOf m.path i.pathIndex m.localSources
    rw [hm.localSources]
    rcases h.index with hempty | hindex
    · exact .inl hempty
    · exact .inr (hindex.congr fun s _ => hm.path s)

end

end IndexedManager

end ServerEngine
