import ServerEngine.Source.PathFrames

/-! # Runs of an update with its index

With its tables an update does what it does by searching paths: lookups agree, every probe loop ends,
and a preparation builds the table of the sources there will be.
-/
namespace ServerEngine
open Transaction ProbedTable

namespace SourceManagerUpdate

/-! ## Capacities -/

theorem nextCapacityLoop_ne {fuel required capacity n : Nat} (hc : capacity ≠ 0) (hfuel : n < fuel)
    (hroom : required ≤ capacity * 2 ^ n) (hmax : capacity * 2 ^ n ≤ sizeMax) :
    nextCapacityLoop fuel required capacity ≠ 0 := by
  induction fuel generalizing capacity n with
  | zero => omega
  | succ fuel ih =>
    rw [nextCapacityLoop]
    by_cases hlt : capacity < required
    · cases n with
      | zero =>
        omega
      | succ n =>
        have hdouble : capacity * 2 ^ (n + 1) = capacity * 2 * 2 ^ n := by
          rw [Nat.pow_succ, Nat.mul_assoc, Nat.mul_comm 2]
        have hpow : 1 ≤ 2 ^ n := Nat.one_le_two_pow
        have hle : capacity * 2 ≤ capacity * 2 * 2 ^ n := Nat.le_mul_of_pos_right _ hpow
        have hover : ¬sizeMax / 2 < capacity := by omega
        rw [if_pos hlt, if_neg hover]
        apply @ih (capacity * 2) n <;> omega
    · rw [if_neg hlt]
      exact hc

theorem nextCapacity_ne {required : Nat} (h : required ≤ u32Max) :
    nextCapacity (required * 2 + 1) ≠ 0 := by
  apply @nextCapacityLoop_ne 64 (required * 2 + 1) 16 29 (by decide) (by decide)
  · have hpow : 16 * 2 ^ 29 = 2 * (u32Max + 1) := by decide
    omega
  · decide

end SourceManagerUpdate

/-! ## New paths -/

/-- New sources have the next ids, and paths that no other source has. -/
structure NewPaths (m : SourceManager) (items : List NewSource) : Prop where
  ids : ∀ k item, items[k]? = some item → item.source = m.records.size + k + 1
  named : ∀ item ∈ items, item.normalizedPath ≠ []
  fresh : ∀ item ∈ items, ∀ s, s ≠ 0 → s ≤ m.records.size → m.path s ≠ item.normalizedPath
  distinct : (items.map (·.normalizedPath)).Nodup

def newPath (m : SourceManager) (items : List NewSource) (source : Nat) : Bytes :=
  SourceManagerUpdate.path { owner := m, newSources := items } source

theorem newPath_old (m : SourceManager) (items : List NewSource) {source : Nat}
    (hle : source ≤ m.records.size) : newPath m items source = m.path source := by
  unfold newPath SourceManagerUpdate.path
  by_cases hz : source = 0
  · rw [if_pos hz]
    unfold SourceManager.path
    rw [if_pos (by simp [hz])]
  · rw [if_neg hz, if_pos hle]

theorem newPath_new {m : SourceManager} {items : List NewSource} {k : Nat} {item : NewSource}
    (h : items[k]? = some item) : newPath m items (m.records.size + k + 1) = item.normalizedPath := by
  unfold newPath SourceManagerUpdate.path
  dsimp only
  have hindex : m.records.size + k + 1 - m.records.size - 1 = k := by omega
  rw [if_neg (by omega), if_neg (by omega), hindex, h]

theorem newPaths_nil (m : SourceManager) : NewPaths m [] := by
  refine ⟨fun k item h => ?_, by simp, by simp, List.nodup_nil⟩
  cases h

namespace NewPaths

variable {m : SourceManager} {items : List NewSource}

theorem append (h : NewPaths m items) {p : Bytes} (hp : p ≠ [])
    (hold : ∀ s, s ≠ 0 → s ≤ m.records.size → m.path s ≠ p)
    (hnew : ∀ item ∈ items, item.normalizedPath ≠ p) :
    NewPaths m (items ++ [⟨m.records.size + items.length + 1, p⟩]) := by
  refine ⟨fun k item hk => ?_, fun item hi => ?_, fun item hi => ?_, ?_⟩
  · by_cases hlt : k < items.length
    · rw [List.getElem?_append_left hlt] at hk
      exact h.ids k item hk
    · rw [List.getElem?_append_right (by omega)] at hk
      have hz : k - items.length = 0 := by
        by_contra hne
        rw [List.getElem?_eq_none (by simp; omega)] at hk
        cases hk
      rw [hz] at hk
      cases hk
      have hlast : k = items.length := by omega
      rw [hlast]
  · cases List.mem_append.mp hi with
    | inl hi => exact h.named item hi
    | inr hi =>
      rw [List.mem_singleton.mp hi]
      exact hp
  · cases List.mem_append.mp hi with
    | inl hi => exact h.fresh item hi
    | inr hi =>
      rw [List.mem_singleton.mp hi]
      exact hold
  · rw [List.map_append, List.nodup_append]
    refine ⟨h.distinct, by simp, fun a ha b hb => ?_⟩
    obtain ⟨item, hi, rfl⟩ := List.mem_map.mp ha
    have hb : b = p := by simpa using hb
    rw [hb]
    exact hnew item hi

theorem get (h : NewPaths m items) {item : NewSource} (hi : item ∈ items) :
    ∃ k < items.length, items[k]? = some item ∧ item.source = m.records.size + k + 1 := by
  obtain ⟨k, hk⟩ := List.mem_iff_getElem?.mp hi
  exact ⟨k, (List.getElem?_eq_some_iff.mp hk).choose, hk, h.ids k item hk⟩

theorem path_item (h : NewPaths m items) {item : NewSource} (hi : item ∈ items) :
    newPath m items item.source = item.normalizedPath := by
  obtain ⟨k, -, hk, hsource⟩ := h.get hi
  rw [hsource]
  exact newPath_new hk

theorem cases_id {source : Nat} (hle : source ≤ m.records.size + items.length)
    (hlt : m.records.size < source) : ∃ k item, items[k]? = some item ∧
      source = m.records.size + k + 1 := by
  have hk : source - m.records.size - 1 < items.length := by omega
  exact ⟨source - m.records.size - 1, items[source - m.records.size - 1],
    List.getElem?_eq_getElem hk, by omega⟩

end NewPaths

theorem NewPaths.identified {m : SourceManager} {items : List NewSource} (h : NewPaths m items)
    (hm : Identified m.records.size m.path) :
    Identified (m.records.size + items.length) (newPath m items) := by
  have hcase : ∀ s, s ≠ 0 → s ≤ m.records.size + items.length →
      (s ≤ m.records.size ∧ newPath m items s = m.path s) ∨
        ∃ k item, items[k]? = some item ∧ s = m.records.size + k + 1 ∧
          newPath m items s = item.normalizedPath := by
    intro s _ hle
    by_cases hold : s ≤ m.records.size
    · exact .inl ⟨hold, newPath_old m items hold⟩
    · obtain ⟨k, item, hk, hs⟩ := NewPaths.cases_id hle (by omega)
      exact .inr ⟨k, item, hk, hs, hs ▸ newPath_new hk⟩
  constructor
  · intro s hs hle
    rcases hcase s hs hle with ⟨hold, hpath⟩ | ⟨k, item, hk, -, hpath⟩
    · rw [hpath]
      exact hm.named s hs hold
    · rw [hpath]
      exact h.named item (List.mem_of_getElem? hk)
  · intro s t hs hsle ht htle heq
    rcases hcase s hs hsle with ⟨hsold, hspath⟩ | ⟨k, item, hk, hsid, hspath⟩ <;>
      rcases hcase t ht htle with ⟨htold, htpath⟩ | ⟨l, other, hl, htid, htpath⟩ <;>
      rw [hspath, htpath] at heq
    · exact hm.distinct s t hs hsold ht htold heq
    · exact absurd heq (h.fresh other (List.mem_of_getElem? hl) s hs hsold)
    · exact absurd heq.symm (h.fresh item (List.mem_of_getElem? hk) t ht htold)
    · have hkl : k = l := by
        have hk' : (items.map (·.normalizedPath))[k]? = some item.normalizedPath := by
          rw [List.getElem?_map, hk]
          rfl
        have hl' : (items.map (·.normalizedPath))[l]? = some item.normalizedPath := by
          rw [List.getElem?_map, hl, heq]
          rfl
        obtain ⟨hklt, hkget⟩ := List.getElem?_eq_some_iff.mp hk'
        obtain ⟨hllt, hlget⟩ := List.getElem?_eq_some_iff.mp hl'
        exact (List.Nodup.getElem_inj_iff h.distinct).mp (hkget.trans hlget.symm)
      rw [hsid, htid, hkl]

/-! ## The invariant -/

namespace IndexedUpdate

/-- An update in progress on `i0` with the tables it should have. -/
structure PathProgress (i0 : IndexedManager) (i : IndexedUpdate) : Prop where
  progress : SourceManagerUpdate.Progress i0.manager i.update
  index : i.pathIndex = i0.pathIndex
  slots : i.update.owner.pathIndexSlots = i.pathIndex.length
  prepared : i.update.preparedPathIndexSlots = i.preparedPathIndex.length
  paths : NewPaths i0.manager i.update.newSources
  localIndex : i.localPathIndex = [] ∧ i.update.newSources = [] ∨
    LocalIndexOf i.update.newSources i.localPathIndex
  untouched : i.update.newSources = [] → i.preparedPathIndex = [] ∧ i.preparedPathInsertions = []
  sparse : (i0.manager.baselineBacked || i0.manager.records.size = 0) = false →
    i0.pathIndex ≠ [] → i.preparedPathIndex = []

/-- What a publication takes over: the index as it is, or with the new sources. -/
def Built (i0 : IndexedManager) (i : IndexedUpdate) : Prop :=
  i.update.newSources = [] ∧ i.publishedIndex = i0.pathIndex ∨
    IndexOf (newPath i0.manager i.update.newSources) i.publishedIndex
      (i0.manager.localSources ++ i.update.newSources.map (·.source))

def failureCode : PathFailure → Option StatusCode
  | .status code => some code
  | .endless => none

section
variable {i0 : IndexedManager} {i : IndexedUpdate}

theorem PathProgress.same (h : PathProgress i0 i) {v : SourceManagerUpdate}
    (hsame : SourceManagerUpdate.SameIndex i.update v)
    (hv : SourceManagerUpdate.Progress i0.manager v) : PathProgress i0 { i with update := v } := by
  refine ⟨hv, h.index, hsame.slots.trans h.slots, hsame.prepared.trans h.prepared, ?_, ?_, ?_,
    h.sparse⟩
  · show NewPaths i0.manager v.newSources
    rw [hsame.newSources]
    exact h.paths
  · show i.localPathIndex = [] ∧ v.newSources = [] ∨ LocalIndexOf v.newSources i.localPathIndex
    rw [hsame.newSources]
    exact h.localIndex
  · show v.newSources = [] → _
    rw [hsame.newSources]
    exact h.untouched

theorem Built.same (h : Built i0 i) {v : SourceManagerUpdate}
    (hsame : SourceManagerUpdate.SameIndex i.update v) : Built i0 { i with update := v } := by
  have hindex : publishedIndex { i with update := v } = i.publishedIndex := rfl
  unfold Built
  show v.newSources = [] ∧ _ ∨ IndexOf (newPath i0.manager v.newSources) _
    (_ ++ v.newSources.map (·.source))
  rw [hsame.newSources]
  exact h

theorem PathProgress.path_eq (h : PathProgress i0 i) (source : Nat) :
    i.path source = newPath i0.manager i.update.newSources source := by
  unfold IndexedUpdate.path newPath SourceManagerUpdate.path
  rw [h.progress.grown.records.size, h.progress.grown.path]

theorem PathProgress.sourceCount_eq (h : PathProgress i0 i) :
    i.sourceCount = i0.manager.records.size + i.update.newSources.length := by
  unfold IndexedUpdate.sourceCount SourceManagerUpdate.sourceCount
  rw [h.progress.grown.records.size]

theorem PathProgress.owner (h : PathProgress i0 i) (h0 : i0.PathIdentity) :
    i.owner.PathIdentity := by
  unfold IndexedUpdate.owner
  rw [h.index]
  apply h0.grown h.progress.grown
  rw [h.slots, h.index]

theorem pathProgress_begin (h0 : i0.PathIdentity) : PathProgress i0 i0.beginUpdate :=
  ⟨SourceManagerUpdate.progress_begin h0.count, rfl, h0.slots, rfl, newPaths_nil _, .inl ⟨rfl, rfl⟩,
    fun _ => ⟨rfl, rfl⟩, fun _ _ => rfl⟩

end

section
variable {i0 : IndexedManager} {α : Type}

theorem onUpdate_simulates {x : UpdateM α} {P : IndexedUpdate → Prop}
    (hx : SourceManagerUpdate.KeepsIndex x)
    (hk : Keeps (SourceManagerUpdate.Progress i0.manager) x)
    (hP : ∀ i v, P i → SourceManagerUpdate.SameIndex i.update v → P { i with update := v }) :
    Simulates (·.update) failureCode (fun i => PathProgress i0 i ∧ P i)
      (fun i => PathProgress i0 i ∧ P i) (PathProgress i0) (onUpdate x) x := by
  rintro i ⟨hi, hp⟩
  have hsame := hx i.update
  have hprogress := hk i.update hi.progress
  unfold onUpdate
  cases h : x i.update with
  | ok a v =>
    rw [h] at hsame hprogress
    exact ⟨rfl, hi.same hsame hprogress, hP i v hp hsame⟩
  | error code v =>
    rw [h] at hsame hprogress
    exact ⟨⟨code, rfl, rfl⟩, hi.same hsame hprogress⟩

end

/-! ## The local index -/

section
variable {i : IndexedUpdate}

theorem localEntries_slots (i : IndexedUpdate) :
    i.localEntries.map (fun entry => localPathSlot entry.1 entry.2) =
      localSlots i.update.newSources := by
  unfold localEntries localSlots
  apply List.ext_getElem
  · simp
  · intro k h1 h2
    simp

theorem ensureLocalPathCapacity_spec (hindex : i.localPathIndex = [] ∧ i.update.newSources = [] ∨
      LocalIndexOf i.update.newSources i.localPathIndex)
    (hkeys : (i.update.newSources.map (·.normalizedPath)).Nodup) {required : Nat}
    (hrequired : i.update.newSources.length ≤ required) :
    (∃ slots, ensureLocalPathCapacity required i = .ok () { i with localPathIndex := slots } ∧
      LocalIndexOf i.update.newSources slots ∧ 2 * required ≤ slots.length) ∨
    (SourceManagerUpdate.nextCapacity (required * 2 + 1) = 0 ∧
      ensureLocalPathCapacity required i = .error (.status .notAvailable) i) := by
  unfold ensureLocalPathCapacity
  by_cases hroom : (decide (required * 2 ≤ i.localPathIndex.length) &&
      decide (i.localPathIndex ≠ [])) = true
  · rw [if_pos hroom]
    have hroom : required * 2 ≤ i.localPathIndex.length ∧ i.localPathIndex ≠ [] := by
      simpa using hroom
    refine .inl ⟨i.localPathIndex, rfl, ?_, by omega⟩
    rcases hindex with ⟨hnil, -⟩ | hindex
    · exact absurd hnil hroom.2
    · exact hindex
  · rw [if_neg hroom]
    by_cases hcapacity : SourceManagerUpdate.nextCapacity (required * 2 + 1) = 0
    · exact .inr ⟨hcapacity, by rw [if_pos hcapacity]⟩
    · obtain ⟨n, hn, hlarge⟩ := SourceManagerUpdate.nextCapacity_spec hcapacity
      have hempty : Table (localFormat i.update.newSources) (List.replicate (2 ^ n) {}) [] :=
        table_replicate (f := localFormat i.update.newSources) rfl n
      have hcount : (localSlots i.update.newSources).length = i.update.newSources.length := by
        simp [localSlots]
      obtain ⟨slots, hrun, hlength, htable⟩ := @Table.insertAll _ _ _ _ _ _
        hempty (localSlots i.update.newSources) (by rw [hcount, List.length_replicate, List.length_nil]; omega)
        (by rw [List.nil_append, localSlots_keys]; exact hkeys) (by
          intro e he
          obtain ⟨k, item, -, rfl⟩ := mem_localSlots.mp he
          rfl)
      have hplaced : i.localEntries.foldlM (fun slots entry => placeLocalPath slots entry.1 entry.2)
          (List.replicate (2 ^ n) {}) = .ok slots := by
        refine @foldlM_place _ _ (localFormat i.update.newSources)
          (fun entry => localPathSlot entry.1 entry.2) _ _ (fun slots entry he => ?_) _ _
          (by rw [localEntries_slots]; exact hrun)
        apply placeLocalPath_eq
        obtain ⟨k, hk, rfl⟩ := List.mem_mapIdx.mp he
        exact localPath_of_get (List.getElem?_eq_getElem hk)
      rw [List.length_replicate] at hlength
      refine .inl ⟨slots, ?_, ⟨htable, by omega⟩, by omega⟩
      rw [if_neg hcapacity, hn, hplaced]

theorem insertLocalPath_spec {items : List NewSource} {item : NewSource}
    (hitems : i.update.newSources = items ++ [item]) (hindex : LocalIndexOf items i.localPathIndex)
    (hroom : 2 * (items.length + 1) ≤ i.localPathIndex.length)
    (hnew : ∀ x ∈ items, x.normalizedPath ≠ item.normalizedPath) :
    ∃ slots, insertLocalPath (items.length + 1) i = .ok () { i with localPathIndex := slots } ∧
      LocalIndexOf (items ++ [item]) slots := by
  have hget : (items ++ [item])[items.length]? = some item := by simp
  have hkey : (localFormat (items ++ [item])).key
      (localPathSlot item.normalizedPath (items.length + 1)) = item.normalizedPath :=
    localPath_of_get hget
  have hcount : (localSlots items).length = items.length := by simp [localSlots]
  obtain ⟨slots, hrun, hlength, htable⟩ := (hindex.widen item).insertFree (by omega) (by
    intro e he
    obtain ⟨k, x, hx, rfl⟩ := mem_localSlots.mp he
    have hlt := (List.getElem?_eq_some_iff.mp hx).choose
    have hwide : (items ++ [item])[k]? = some x := by rw [List.getElem?_append_left hlt, hx]
    have hname : (localFormat (items ++ [item])).key (localPathSlot x.normalizedPath (k + 1)) =
        x.normalizedPath := localPath_of_get hwide
    rw [hkey, hname]
    exact hnew x (List.mem_of_getElem? hx)) (by rfl)
  refine ⟨slots, ?_, ?_, ?_⟩
  · have hne : i.localPathIndex ≠ [] := by
      intro hnil
      rw [hnil, List.length_nil] at hroom
      omega
    unfold insertLocalPath
    rw [if_neg hne, Nat.add_sub_cancel, hitems, hget]
    dsimp only
    rw [placeLocalPath_eq (localPath_of_get hget), hrun]
    rfl
  · rw [localSlots_append]
    exact htable
  · rw [List.length_append, List.length_singleton, hlength]
    exact hroom

theorem PathProgress.findLocal_iff {i0 : IndexedManager} (h : PathProgress i0 i) {p : Bytes}
    (hp : p ≠ []) {source : Nat} : i.findLocalPath p = some source ↔
      ∃ item ∈ i.update.newSources, item.normalizedPath = p ∧ item.source = source := by
  rcases h.localIndex with ⟨hnil, hempty⟩ | hindex
  · unfold findLocalPath
    rw [if_pos hnil, hempty]
    simp
  · exact findLocalPath_iff hindex hp

theorem PathProgress.findLocal_eq {i0 : IndexedManager} (h : PathProgress i0 i) {p : Bytes}
    (hp : p ≠ []) : i.findLocalPath p =
      (i.update.newSources.find? (·.normalizedPath = p)).map (·.source) := by
  apply Option.ext
  intro source
  rw [h.findLocal_iff hp, Option.map_eq_some_iff]
  constructor
  · rintro ⟨item, hi, hpath, hsource⟩
    cases hfind : i.update.newSources.find? (·.normalizedPath = p) with
    | none =>
      have hno := List.find?_eq_none.mp hfind item hi
      simp [hpath] at hno
    | some other =>
      have htest := List.find?_some hfind
      have hsame : item = other := List.inj_on_of_nodup_map h.paths.distinct hi
        (List.mem_of_find?_eq_some hfind) (hpath.trans (of_decide_eq_true htest).symm)
      exact ⟨other, rfl, hsame ▸ hsource⟩
  · rintro ⟨item, hfind, hsource⟩
    have htest := List.find?_some hfind
    exact ⟨item, List.mem_of_find?_eq_some hfind, of_decide_eq_true htest, hsource⟩

end

/-! ## Resolving -/

section
variable {i0 : IndexedManager} {i : IndexedUpdate} {p : Bytes}

theorem addSource_spec (h : PathProgress i0 i) (hp : p ≠ [])
    (hold : ∀ s, s ≠ 0 → s ≤ i0.manager.records.size → i0.manager.path s ≠ p)
    (hnew : ∀ item ∈ i.update.newSources, item.normalizedPath ≠ p)
    (hroom : i.update.sourceCount < u32Max)
    (hprogress : SourceManagerUpdate.Progress i0.manager { i.update with
      newSources := i.update.newSources ++ [⟨i.update.sourceCount + 1, p⟩], prepared := false }) :
    ∃ j, addSource p i = .ok (i.update.sourceCount + 1) j ∧ PathProgress i0 j ∧
      j.update = { i.update with
        newSources := i.update.newSources ++ [⟨i.update.sourceCount + 1, p⟩], prepared := false } := by
  have hcount : i.update.sourceCount = i0.manager.records.size + i.update.newSources.length :=
    h.sourceCount_eq
  rcases ensureLocalPathCapacity_spec h.localIndex h.paths.distinct
    (Nat.le_succ i.update.newSources.length) with ⟨slots, hensure, hindex, hlarge⟩ | ⟨hzero, -⟩
  · obtain ⟨slots', hinsert, hindex'⟩ := @insertLocalPath_spec
      (pushNewSource (i.update.sourceCount + 1) p { i with localPathIndex := slots })
      i.update.newSources ⟨i.update.sourceCount + 1, p⟩ rfl hindex hlarge hnew
    refine ⟨markUnprepared { pushNewSource (i.update.sourceCount + 1) p
      { i with localPathIndex := slots } with localPathIndex := slots' }, ?_, ?_, rfl⟩
    · have hrun : addSource p i = (do
          ensureLocalPathCapacity (i.update.newSources.length + 1)
          modify (pushNewSource (i.update.sourceCount + 1) p)
          insertLocalPath (i.update.newSources.length + 1)
          modify markUnprepared
          return i.update.sourceCount + 1 : IndexedM Nat) i := rfl
      rw [hrun]
      apply bind_ok.mpr
      refine ⟨(), _, hensure, ?_⟩
      apply bind_ok.mpr
      refine ⟨⟨⟩, pushNewSource (i.update.sourceCount + 1) p { i with localPathIndex := slots },
        rfl, ?_⟩
      apply bind_ok.mpr
      exact ⟨(), _, hinsert, rfl⟩
    · refine ⟨hprogress, h.index, h.slots, h.prepared, ?_, .inr hindex', fun hnil => ?_, h.sparse⟩
      · show NewPaths i0.manager (i.update.newSources ++ [⟨i.update.sourceCount + 1, p⟩])
        rw [hcount]
        exact h.paths.append hp hold hnew
      · have hnil : i.update.newSources ++ [⟨i.update.sourceCount + 1, p⟩] = [] := hnil
        simp at hnil
  · exact absurd hzero (SourceManagerUpdate.nextCapacity_ne (by omega))

/-- What `resolve_normalized` does, next to the search by path. -/
theorem resolveNormalized_spec (h0 : i0.PathIdentity) (h : PathProgress i0 i) (p : Bytes) :
    (∃ code, resolveNormalized p i = .error (.status code) i ∧
      SourceManagerUpdate.resolveNormalized p i.update = .error code i.update) ∨
    ∃ source j, resolveNormalized p i = .ok source j ∧
      SourceManagerUpdate.resolveNormalized p i.update = .ok source j.update ∧
      PathProgress i0 j ∧ source ≠ 0 ∧ source ≤ j.sourceCount ∧ j.path source = p ∧
      (j = i ∨ source = i.sourceCount + 1 ∧ j.sourceCount = source ∧ j.update.prepared = false ∧
        ∃ items, j.update.newSources = i.update.newSources ++ items) := by
  have howner := h.owner h0
  have hfind : i.update.owner.find p = i.owner.find p := howner.find_eq p
  have hsize : i.update.owner.records.size = i0.manager.records.size :=
    h.progress.grown.records.size
  unfold resolveNormalized SourceManagerUpdate.resolveNormalized
  by_cases hbad : (i.update.committed || decide (p = [])) = true
  · rw [if_pos hbad, if_pos hbad]
    exact .inl ⟨_, rfl, rfl⟩
  · have hp : p ≠ [] := by
      intro hnil
      simp [hnil] at hbad
    rw [if_neg hbad, if_neg hbad, hfind]
    cases hsaved : i.owner.find p with
    | some source =>
      obtain ⟨hne, hle, hpath⟩ := howner.find_iff.mp hsaved
      have hle : source ≤ i0.manager.records.size := hsize ▸ hle
      refine .inr ⟨source, i, rfl, rfl, h, hne, ?_, ?_, .inl rfl⟩
      · rw [h.sourceCount_eq]
        omega
      · rw [h.path_eq, newPath_old _ _ hle, ← h.progress.grown.path]
        exact hpath
    | none =>
      rw [h.findLocal_eq hp]
      cases hlocal : i.update.newSources.find? (·.normalizedPath = p) with
      | some item =>
        have hi := List.mem_of_find?_eq_some hlocal
        have htest := List.find?_some hlocal
        have hpath : item.normalizedPath = p := of_decide_eq_true htest
        obtain ⟨k, hk, -, hsource⟩ := h.paths.get hi
        refine .inr ⟨item.source, i, rfl, rfl, h, ?_, ?_, ?_, .inl rfl⟩
        · omega
        · rw [h.sourceCount_eq]
          omega
        · rw [h.path_eq, h.paths.path_item hi, hpath]
      | none =>
        by_cases hfull : u32Max ≤ i.update.sourceCount
        · rw [if_pos hfull, if_pos hfull]
          exact .inl ⟨_, rfl, rfl⟩
        · rw [if_neg hfull, if_neg hfull]
          have hbase : SourceManagerUpdate.resolveNormalized p i.update =
              .ok (i.update.sourceCount + 1) { i.update with
                newSources := i.update.newSources ++ [⟨i.update.sourceCount + 1, p⟩]
                prepared := false } := by
            unfold SourceManagerUpdate.resolveNormalized
            rw [if_neg hbad, hfind, hsaved]
            rw [hlocal]
            dsimp only
            rw [if_neg hfull]
          have hkeep := SourceManagerUpdate.resolve_keeps p i.update h.progress
          rw [hbase] at hkeep
          have hold : ∀ s, s ≠ 0 → s ≤ i0.manager.records.size → i0.manager.path s ≠ p := by
            intro s hs hle hpath
            have hsome : i.owner.find p = some s := by
              apply howner.find_iff.mpr
              refine ⟨hs, hsize ▸ hle, ?_⟩
              show i.update.owner.path s = p
              rw [h.progress.grown.path]
              exact hpath
            rw [hsaved] at hsome
            cases hsome
          have hnew : ∀ item ∈ i.update.newSources, item.normalizedPath ≠ p := by
            intro item hi hpath
            have hno := List.find?_eq_none.mp hlocal item hi
            simp [hpath] at hno
          obtain ⟨j, hrun, hj, hupdate⟩ := addSource_spec h hp hold hnew (by omega) hkeep
          have hcount : j.sourceCount = i.update.sourceCount + 1 := by
            show j.update.sourceCount = _
            rw [hupdate]
            unfold SourceManagerUpdate.sourceCount
            rw [List.length_append, List.length_singleton, Nat.add_assoc]
          refine .inr ⟨i.update.sourceCount + 1, j, hrun, by rw [hupdate], hj, by omega, by omega,
            ?_, .inr ⟨rfl, hcount, by rw [hupdate], ⟨_, by rw [hupdate]⟩⟩⟩
          have hlast : j.update.newSources[i.update.newSources.length]? =
              some ⟨i.update.sourceCount + 1, p⟩ := by
            rw [hupdate]
            simp
          have hid : i.update.sourceCount + 1 =
              i0.manager.records.size + i.update.newSources.length + 1 := by
            have hsum : i.update.sourceCount = _ := h.sourceCount_eq
            omega
          rw [hj.path_eq, hid, newPath_new hlast]

end

/-! ## Building the index -/

section
variable {i0 : IndexedManager} {i : IndexedUpdate}

theorem PathProgress.identified (h : PathProgress i0 i) (h0 : i0.PathIdentity) :
    Identified i.sourceCount i.path := by
  have hpath : i.path = newPath i0.manager i.update.newSources := funext h.path_eq
  rw [hpath, h.sourceCount_eq]
  exact h.paths.identified h0.ids

theorem PathProgress.paths_nodup (h : PathProgress i0 i) (h0 : i0.PathIdentity) :
    ((i0.manager.localSources ++ i.update.newSources.map (·.source)).map
      (newPath i0.manager i.update.newSources)).Nodup := by
  have hids := h.paths.identified h0.ids
  have hvalid : ∀ s ∈ i0.manager.localSources ++ i.update.newSources.map (·.source),
      s ≠ 0 ∧ s ≤ i0.manager.records.size + i.update.newSources.length := by
    intro s hs
    cases List.mem_append.mp hs with
    | inl hs =>
      obtain ⟨h1, h2⟩ := (SourceManager.mem_localSources h0.wf).mp hs
      omega
    | inr hs =>
      obtain ⟨item, hi, rfl⟩ := List.mem_map.mp hs
      obtain ⟨k, hk, -, hsource⟩ := h.paths.get hi
      omega
  have hnodup : (i0.manager.localSources ++ i.update.newSources.map (·.source)).Nodup := by
    rw [List.nodup_append]
    refine ⟨?_, ?_, fun s hs t ht heq => ?_⟩
    · apply List.Nodup.map ?_ List.nodup_range
      intro a b hab
      dsimp only at hab
      omega
    · rw [List.nodup_iff_injective_getElem]
      rintro ⟨a, ha⟩ ⟨b, hb⟩ hab
      dsimp only at hab
      rw [List.length_map] at ha hb
      rw [List.getElem_map, List.getElem_map,
        h.paths.ids a _ (List.getElem?_eq_getElem ha), h.paths.ids b _
        (List.getElem?_eq_getElem hb)] at hab
      apply Fin.ext
      show a = b
      omega
    · obtain ⟨-, h2⟩ := (SourceManager.mem_localSources h0.wf).mp hs
      obtain ⟨item, hi, rfl⟩ := List.mem_map.mp ht
      obtain ⟨k, -, -, hsource⟩ := h.paths.get hi
      omega
  apply List.Nodup.map_on ?_ hnodup
  intro s hs t ht hpath
  obtain ⟨hs1, hs2⟩ := hvalid s hs
  obtain ⟨ht1, ht2⟩ := hvalid t ht
  exact hids.distinct s t hs1 hs2 ht1 ht2 hpath

theorem foldlM_placePath {ι : Type} {path : Nat → Bytes} {name : ι → Bytes} {source : ι → Nat}
    {items : List ι} {slots : List PathSlot} {sources : List Nat} (h : IndexOf path slots sources)
    (hname : ∀ x ∈ items, path (source x) = name x) (hvalid : ∀ x ∈ items, source x ≠ 0)
    (hhalf : 2 * (sources.length + items.length) ≤ slots.length)
    (hpaths : ((sources ++ items.map source).map path).Nodup) :
    ∃ slots', items.foldlM (fun slots x => placePath slots (name x) (source x)) slots = .ok slots' ∧
      slots'.length = slots.length ∧ IndexOf path slots' (sources ++ items.map source) := by
  obtain ⟨slots', hrun, hlength, hindex⟩ := @IndexOf.place _ _ _ (items.map source) h
    (by rw [List.length_map]; exact hhalf) hpaths (by
      intro s hs
      obtain ⟨x, hx, rfl⟩ := List.mem_map.mp hs
      exact hvalid x hx)
  refine ⟨slots', ?_, hlength, hindex⟩
  refine @foldlM_place _ _ (pathFormat path) (fun x => pathSlot (name x) (source x)) _ _
    (fun slots x hx => placePath_eq (hname x hx) slots) _ _ ?_
  have hslots : items.map (fun x => pathSlot (name x) (source x)) =
      (items.map source).map fun s => pathSlot (path s) s := by
    rw [List.map_map]
    apply List.map_congr_left
    intro x hx
    show _ = pathSlot (path (source x)) (source x)
    rw [hname x hx]
  rw [hslots]
  exact hrun

/-- The index over the sources added since the baseline, with room for the new ones. -/
theorem rebuildPathIndex_spec (h0 : i0.PathIdentity) (h : PathProgress i0 i) :
    (SourceManagerUpdate.buildPreparedPathIndex i.update = .error .notAvailable i.update ∧
      i.update.owner.rebuildPathIndex i.update.newSources.length =
        .error (.status .notAvailable)) ∨
    ∃ slots, i.update.owner.rebuildPathIndex i.update.newSources.length = .ok slots ∧
      SourceManagerUpdate.buildPreparedPathIndex i.update =
        .ok () { i.update with preparedPathIndexSlots := slots.length } ∧
      IndexOf i0.manager.path slots i0.manager.localSources ∧
      2 * (i0.manager.localSources.length + i.update.newSources.length) ≤ slots.length := by
  have hgrown := h.progress.grown
  have hlocal : i.update.owner.localSources = i0.manager.localSources := hgrown.localSources
  have hlength : ∀ m : SourceManager, m.localSources.length = m.records.localValues.length := by
    intro m
    simp [SourceManager.localSources]
  have hlocals : i.update.owner.records.localValues.length =
      i0.manager.records.localValues.length := by
    rw [← hlength, hlocal, hlength]
  unfold SourceManagerUpdate.buildPreparedPathIndex SourceManager.rebuildPathIndex
  dsimp only
  generalize hcap : SourceManagerUpdate.nextCapacity (if sizeMax / 2 <
    i.update.owner.records.localValues.length + i.update.newSources.length then 0 else
    (i.update.owner.records.localValues.length + i.update.newSources.length) * 2 + 1) = capacity
  by_cases hbad : (decide (sizeMax < i.update.owner.records.localValues.length +
      i.update.newSources.length) || decide (capacity = 0) || decide (u32Max <
      i.update.owner.baselineSourceCount + i.update.owner.records.localValues.length)) = true
  · rw [if_pos hbad, if_pos hbad]
    exact .inl ⟨rfl, rfl⟩
  · rw [if_neg hbad, if_neg hbad]
    have hcount : i0.manager.records.size + i.update.newSources.length ≤ u32Max := by
      rw [← h.sourceCount_eq]
      exact h.progress.count
    have hsize := h0.wf.records_eq
    have hmax : u32Max ≤ sizeMax / 2 := by decide
    have hzero : capacity ≠ 0 := by
      intro hz
      simp [hz] at hbad
    rw [if_neg (by omega)] at hcap
    obtain ⟨n, hn, hlarge⟩ := SourceManagerUpdate.nextCapacity_spec (hcap ▸ hzero)
    rw [hcap] at hn
    obtain ⟨slots, hrun, hslots, hindex⟩ := @foldlM_placePath _ i0.manager.path
      i.update.owner.path id i0.manager.localSources _ _ (indexOf_replicate i0.manager.path n)
      (fun s _ => (hgrown.path s).symm) (fun s hs => by
        obtain ⟨h1, -⟩ := (SourceManager.mem_localSources h0.wf).mp hs
        exact Nat.ne_of_gt (Nat.lt_of_le_of_lt (Nat.zero_le _) h1))
      (by rw [hlength, List.length_replicate, List.length_nil]; omega) (by
        have hall := h.paths_nodup h0
        rw [List.map_append, List.nodup_append] at hall
        have hold : i0.manager.localSources.map (newPath i0.manager i.update.newSources) =
            i0.manager.localSources.map i0.manager.path := by
          apply List.map_congr_left
          intro s hs
          exact newPath_old _ _ ((SourceManager.mem_localSources h0.wf).mp hs).2
        rw [List.map_id, List.nil_append, ← hold]
        exact hall.1)
    rw [List.length_replicate] at hslots
    rw [List.map_id, List.nil_append] at hindex
    refine .inr ⟨slots, ?_, ?_, hindex, ?_⟩
    · rw [hlocal, hn]
      exact hrun
    · rw [hslots, hn]
    · rw [hlength, hslots]
      omega

end

end IndexedUpdate

end ServerEngine
