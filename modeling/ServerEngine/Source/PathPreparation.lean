import ServerEngine.Source.PathRuns

/-! # Preparing the path index

A preparation does to the update what it does without tables, never goes round in one, and once it
succeeds has built the index of the sources there will be.
-/
namespace ServerEngine
open Transaction

namespace IndexedUpdate

variable {i0 : IndexedManager}

abbrev Stage (i0 : IndexedManager) (P Q : IndexedUpdate → Prop) (x : IndexedM Unit)
    (y : UpdateM Unit) : Prop :=
  Simulates (·.update) failureCode (fun i => PathProgress i0 i ∧ P i)
    (fun i => PathProgress i0 i ∧ Q i) (PathProgress i0) x y

/-! ## The index -/

def WholeIndex (i0 : IndexedManager) : Prop :=
  (i0.manager.baselineBacked || i0.manager.records.size = 0) = true ∨ i0.pathIndex = []

theorem buildPreparedPathIndex_simulates (h0 : i0.PathIdentity) (hwhole : WholeIndex i0) :
    Stage i0 (fun i => i.update.newSources ≠ []) (Built i0) buildPreparedPathIndex
      SourceManagerUpdate.buildPreparedPathIndex := by
  rintro i ⟨h, hnew⟩
  unfold buildPreparedPathIndex
  rcases rebuildPathIndex_spec h0 h with ⟨hbase, hrun⟩ | ⟨slots, hrun, hbase, hindex, hhalf⟩
  · rw [hrun]
    exact ⟨⟨_, rfl, hbase⟩, h⟩
  · have hpath : ∀ item ∈ i.update.newSources,
        newPath i0.manager i.update.newSources item.source = item.normalizedPath :=
      fun item hi => h.paths.path_item hi
    have hvalid : ∀ item ∈ i.update.newSources, item.source ≠ 0 := by
      intro item hi
      obtain ⟨k, -, -, hsource⟩ := h.paths.get hi
      omega
    obtain ⟨slots', hplace, hlength, hbuilt⟩ := @foldlM_placePath _
      (newPath i0.manager i.update.newSources) NewSource.normalizedPath NewSource.source
      i.update.newSources slots i0.manager.localSources
      (hindex.congr fun s hs => newPath_old i0.manager i.update.newSources
        ((SourceManager.mem_localSources h0.wf).mp hs).2) hpath hvalid hhalf (h.paths_nodup h0)
    have hne : slots' ≠ [] := by
      intro hnil
      have hpos := hbuilt.table.length_pos
      rw [hnil] at hpos
      cases hpos
    rw [hrun]
    dsimp only
    rw [hplace]
    refine ⟨by rw [hbase, ← hlength], ⟨h.progress.congr (.refl _) rfl rfl rfl, h.index, h.slots, rfl,
      h.paths, h.localIndex, fun hnil => absurd hnil hnew, fun hsparse hfull => ?_⟩, .inr ?_⟩
    · rcases hwhole with hw | hw
      · rw [hsparse] at hw
        cases hw
      · exact absurd hw hfull
    · have hpublished : publishedIndex { i with
          update := { i.update with preparedPathIndexSlots := slots'.length }
          preparedPathIndex := slots' } = slots' := if_pos hne
      rw [hpublished]
      exact hbuilt

theorem buildSparsePathInsertions_simulates (h0 : i0.PathIdentity)
    (hmemory : (i0.manager.baselineBacked || i0.manager.records.size = 0) = false) :
    Stage i0 (fun i => i.update.newSources ≠ []) (Built i0) buildSparsePathInsertions
      SourceManagerUpdate.buildSparsePathInsertions := by
  rintro i ⟨h, hnew⟩
  have hcleared : PathProgress i0 { i with preparedPathInsertions := [] } :=
    ⟨h.progress, h.index, h.slots, h.prepared, h.paths, h.localIndex,
      fun hnil => absurd hnil hnew, h.sparse⟩
  have hnil : i.update.owner.pathIndexSlots = 0 ↔ i.pathIndex = [] := by
    rw [h.slots, List.length_eq_zero_iff]
  unfold buildSparsePathInsertions SourceManagerUpdate.buildSparsePathInsertions
  rw [if_neg hnew]
  by_cases hempty : i.pathIndex = []
  · rw [if_pos hempty, if_pos (hnil.mpr hempty)]
    exact buildPreparedPathIndex_simulates h0 (.inr (h.index ▸ hempty)) _ ⟨hcleared, hnew⟩
  · rw [if_neg hempty, if_neg fun hz => hempty (hnil.mp hz), h.slots]
    by_cases hfull : i.pathIndex.length / 2 <
        i.update.owner.records.localValues.length + i.update.newSources.length
    · rw [if_pos hfull, if_pos hfull]
      exact ⟨⟨_, rfl, rfl⟩, hcleared⟩
    · rw [if_neg hfull, if_neg hfull]
      have hindex : IndexOf i0.manager.path i0.pathIndex i0.manager.localSources := by
        rcases h0.index with ⟨hno, -⟩ | hindex
        · exact absurd (h.index.trans hno) hempty
        · exact hindex
      have hwide : IndexOf (newPath i0.manager i.update.newSources) i0.pathIndex
          i0.manager.localSources := hindex.congr fun s hs =>
        newPath_old _ _ ((SourceManager.mem_localSources h0.wf).mp hs).2
      have hlocal : i0.manager.localSources.length =
          i.update.owner.records.localValues.length := by
        rw [← h.progress.grown.localSources]
        simp [SourceManager.localSources]
      have hvalid : ∀ item ∈ i.update.newSources, item.source ≠ 0 := by
        intro item hi
        obtain ⟨k, -, -, hsource⟩ := h.paths.get hi
        omega
      obtain ⟨slots, hplace, hlength, hbuilt⟩ := @IndexOf.place _ _ _
        (i.update.newSources.map (·.source)) hwide
        (by rw [List.length_map, hlocal, ← h.index]; omega) (h.paths_nodup h0) (by
          intro s hs
          obtain ⟨item, hi, rfl⟩ := List.mem_map.mp hs
          exact hvalid item hi)
      have hslots : ((i.update.newSources.map (·.source)).map fun s =>
          pathSlot (newPath i0.manager i.update.newSources s) s) =
          i.update.newSources.map fun item => pathSlot item.normalizedPath item.source := by
        rw [List.map_map]
        apply List.map_congr_left
        intro item hi
        show pathSlot (newPath i0.manager i.update.newSources item.source) item.source = _
        rw [h.paths.path_item hi]
      rw [hslots, ← h.index] at hplace
      obtain ⟨insertions, hrun, hresult⟩ := @reserveInsertions_ok
        (newPath i0.manager i.update.newSources) _ _ _ _ [] rfl (fun position => by simp)
        (fun item hi => ⟨h.paths.path_item hi, hvalid item hi⟩) hplace
      rw [hrun]
      refine ⟨rfl, ⟨h.progress, h.index, h.slots, h.prepared, h.paths, h.localIndex,
        fun hno => absurd hno hnew, h.sparse⟩, .inr ?_⟩
      have hprepared : i.preparedPathIndex = [] :=
        h.sparse hmemory fun hno => hempty (h.index.trans hno)
      have hpublished : publishedIndex { i with preparedPathInsertions := insertions } = slots := by
        unfold publishedIndex
        rw [if_neg fun hne => hne hprepared]
        exact hresult
      rw [hpublished]
      exact hbuilt

theorem preparePathIndex_simulates (h0 : i0.PathIdentity) :
    Stage i0 (fun i => i.update.newSources ≠ []) (Built i0) preparePathIndex
      SourceManagerUpdate.preparePathIndex := by
  rintro i ⟨h, hnew⟩
  have howner : (i.update.owner.baselineBacked || decide (i.update.owner.records.size = 0)) =
      (i0.manager.baselineBacked || decide (i0.manager.records.size = 0)) := by
    rw [SourceManager.baselineBacked, h.progress.grown.baseline, h.progress.grown.records.size,
      SourceManager.baselineBacked]
  unfold preparePathIndex SourceManagerUpdate.preparePathIndex
  rw [howner]
  cases hcase : (i0.manager.baselineBacked || decide (i0.manager.records.size = 0)) with
  | true =>
    exact buildPreparedPathIndex_simulates h0 (.inl hcase) i ⟨h, hnew⟩
  | false =>
    exact buildSparsePathInsertions_simulates h0 hcase i ⟨h, hnew⟩

/-! ## The stages -/

section
variable {x : UpdateM Unit}

theorem onUpdate_built (hx : SourceManagerUpdate.KeepsIndex x)
    (hk : Keeps (SourceManagerUpdate.Progress i0.manager) x) :
    Stage i0 (Built i0) (Built i0) (onUpdate x) x :=
  onUpdate_simulates hx hk fun _ _ hb hsame => hb.same hsame

theorem keeps_progress (hx : ∀ u0, Keeps (SourceManagerUpdate.Later u0) x) :
    Keeps (SourceManagerUpdate.Progress i0.manager) x :=
  fun u hu => (hx u u (.refl u)).progress hu

end

theorem reserveNewSources_simulates :
    Stage i0 (Built i0) (Built i0) reserveNewSources SourceManagerUpdate.reserveNewSources := by
  rintro i ⟨h, hb⟩
  have hlater := SourceManagerUpdate.reserveNewSources_later i.update (.refl i.update)
  have hprogress := hlater.progress h.progress
  unfold reserveNewSources onUpdate
  rcases SourceManagerUpdate.reserveNewSources_index i.update with ⟨hsame, hcase⟩ | ⟨hcase, hrun⟩
  · cases hrun : SourceManagerUpdate.reserveNewSources i.update with
    | ok a v =>
      rw [hrun] at hsame hprogress
      exact ⟨rfl, h.same hsame hprogress, hb.same hsame⟩
    | error code v =>
      rw [hrun] at hsame hprogress
      have hwhole : (i.update.owner.baselineBacked ||
          decide (i.update.owner.records.size = 0)) = true := by
        rcases hcase with (hbacked | hsize) | ⟨w, hw⟩
        · simp [hbacked]
        · simp [hsize]
        · rw [hrun] at hw
          cases hw
      dsimp only
      rw [if_pos hwhole]
      exact ⟨⟨code, rfl, rfl⟩, h.same hsame hprogress⟩
  · rw [hrun] at hprogress ⊢
    dsimp only
    rw [if_neg (by rw [hcase]; exact Bool.false_ne_true)]
    exact ⟨⟨_, rfl, rfl⟩, ⟨hprogress, h.index, h.slots, rfl, h.paths, h.localIndex,
      fun _ => ⟨rfl, rfl⟩, fun _ _ => rfl⟩⟩

theorem prepareNewSources_simulates (h0 : i0.PathIdentity) :
    Stage i0 (fun _ => True) (Built i0) prepareNewSources SourceManagerUpdate.prepareNewSources := by
  rintro i ⟨h, -⟩
  unfold prepareNewSources SourceManagerUpdate.prepareNewSources
  by_cases hnew : i.update.newSources = []
  · rw [if_pos hnew, if_pos hnew]
    obtain ⟨hprepared, hinsertions⟩ := h.untouched hnew
    refine ⟨rfl, h, .inl ⟨hnew, ?_⟩⟩
    unfold publishedIndex
    rw [if_neg fun hne => hne hprepared, hinsertions, List.foldl_nil]
    exact h.index
  · rw [if_neg hnew, if_neg hnew]
    have hbytes : Stage i0 (Built i0) (Built i0) (onUpdate SourceManagerUpdate.checkPathBytes)
        SourceManagerUpdate.checkPathBytes :=
      onUpdate_built SourceManagerUpdate.checkPathBytes_keepsIndex
        (keeps_progress fun _ => SourceManagerUpdate.checkPathBytes_later)
    exact (preparePathIndex_simulates h0).bind
      (fun _ => hbytes.bind fun _ => reserveNewSources_simulates) i ⟨h, hnew⟩

theorem markPrepared_simulates : Stage i0 (Built i0) (Built i0)
    (onUpdate (modify SourceManagerUpdate.markPrepared))
    (modify SourceManagerUpdate.markPrepared) :=
  onUpdate_built (fun _ => ⟨rfl, rfl, rfl⟩) fun _ hu => hu.congr (.refl _) rfl rfl rfl

theorem preparePublish_simulates (h0 : i0.PathIdentity) :
    Stage i0 (fun i => i.update.prepared = true → Built i0 i) (Built i0) preparePublish
      SourceManagerUpdate.preparePublish := by
  rintro i ⟨h, hready⟩
  unfold preparePublish SourceManagerUpdate.preparePublish
  have hpending : ¬i.update.committed = true := by simp [h.progress.pending]
  rw [if_neg hpending, if_neg hpending]
  by_cases hp : i.update.prepared = true
  · rw [if_pos hp, if_pos hp]
    exact ⟨rfl, h, hready hp⟩
  · rw [if_neg hp, if_neg hp]
    have hpatches : Stage i0 (fun _ => True) (fun _ => True)
        (onUpdate SourceManagerUpdate.prepareDependentPatches)
        SourceManagerUpdate.prepareDependentPatches :=
      onUpdate_simulates SourceManagerUpdate.prepareDependentPatches_keepsIndex
        SourceManagerUpdate.prepareDependentPatches_keeps fun _ _ _ _ => trivial
    refine hpatches.bind (fun _ => (prepareNewSources_simulates h0).bind fun _ => ?_) i
      ⟨h, trivial⟩
    refine (onUpdate_built SourceManagerUpdate.prepareTextBytes_keepsIndex
      (keeps_progress fun _ => SourceManagerUpdate.prepareTextBytes_later)).bind fun _ => ?_
    refine (onUpdate_built SourceManagerUpdate.prepareGeneration_keepsIndex
      (keeps_progress fun _ => SourceManagerUpdate.prepareGeneration_later)).bind fun _ => ?_
    refine (onUpdate_built SourceManagerUpdate.prepareSources_keepsIndex
      (keeps_progress fun _ => SourceManagerUpdate.prepareSources_later)).bind fun _ => ?_
    exact (onUpdate_built SourceManagerUpdate.prepareAbsorb_keepsIndex
      (keeps_progress fun _ => SourceManagerUpdate.prepareAbsorb_later)).bind
      fun _ => markPrepared_simulates

end IndexedUpdate

end ServerEngine
