import ServerEngine.Frontend.CacheSound

/-! # Preparing blocks and summaries

The blocks of a full build show what its interfaces showed before their data were moved, the blocks
of replacements only grow the store of the cache, and the summary is brought up to date source by
source.
-/
namespace ServerEngine
open SourceIndex

/-! ## Interfaces as they are given -/

namespace CachedInterface

def ownRuntime (item : CachedInterface) : InterfaceData :=
  ⟨item.tables.localTypes, item.tables.typeSlots, item.tables.objectSlots, item.tables.memberSlots⟩

def ownShown (item : CachedInterface) : Shown :=
  ⟨item.address, item.ownRuntime, item.tables.imports, item.ownedData⟩

/-- What a full build publishes for an interface: one that was built without compact data has them
taken from its tables. -/
def fullShown (item : CachedInterface) : Option Shown :=
  (if item.tables.persistenceCompactState then some item.ownedData
    else FrontendUpdate.compactData item.ownRuntime).map fun data =>
      ⟨item.address, item.ownRuntime, item.tables.imports, data⟩

variable {blocks blocks' : BlockStore} {item built : CachedInterface}

theorem runtimeDataView_own (h : item.external = none) (blocks : BlockStore) :
    item.runtimeDataView blocks = item.ownRuntime := by
  unfold runtimeDataView localTypes
  rw [h]
  split <;> rfl

theorem shown_own (h : item.external = none) (blocks : BlockStore) :
    item.shown blocks = item.ownShown := by
  unfold shown persistenceDataView
  rw [runtimeDataView_own h, h]
  rfl

structure BuiltFrom (blocks : BlockStore) (item built : CachedInterface) : Prop where
  shown : item.fullShown = some (built.shown blocks)
  sound : built.Sound blocks
  counts : built.persistenceCounts = item.persistenceCounts

theorem BuiltFrom.keeps (h : BuiltFrom blocks item built) (hkeeps : blocks.Keeps blocks') :
    BuiltFrom blocks' item built := by
  refine ⟨?_, h.sound.keeps hkeeps, h.counts⟩
  rw [shown_keeps hkeeps h.sound.bound]
  exact h.shown

theorem BuiltFrom.address (h : BuiltFrom blocks item built) : built.address = item.address := by
  have hshown := h.shown
  unfold fullShown at hshown
  obtain ⟨data, -, heq⟩ := Option.map_eq_some_iff.mp hshown
  exact (congrArg Shown.address heq).symm

theorem BuiltFrom.imports (h : BuiltFrom blocks item built) :
    built.tables.imports = item.tables.imports := by
  have hshown := h.shown
  unfold fullShown at hshown
  obtain ⟨data, -, heq⟩ := Option.map_eq_some_iff.mp hshown
  exact (congrArg Shown.imports heq).symm

end CachedInterface

namespace FrontendUpdate
open CachedInterface
variable {blocks blocks' : BlockStore} {item : CachedInterface}

/-! ## The blocks of a full build -/

variable {data : InterfaceData}

theorem compactData_localTypes {runtime : InterfaceData} (h : compactData runtime = some data) :
    data.localTypes = runtime.localTypes := by
  unfold compactData at h
  obtain ⟨types, -, hdata⟩ := Option.bind_eq_some_iff.mp h
  cases hdata
  rfl

/-- The data that are stored are those the interface had, and an interface that is bound to them
afterwards shows what it showed. -/
theorem generationData_ok {scratchFault : Bool} {released : CachedInterface}
    (hfresh : item.external = none)
    (h : generationData scratchFault blocks item = .ok (data, released)) :
    data.counts = item.persistenceCounts ∧ ∀ view, blocks'.Shows view data →
      BuiltFrom blocks' item (released.bindPersistenceData view) := by
  have hrelease : item.releasePersistenceData.1 = item.ownedData := by
    unfold releasePersistenceData
    rw [hfresh]
    rfl
  have hreleased : item.releasePersistenceData.2 = { item with tables := { item.tables with
      localTypes := if item.tables.runtimeExternalizedState then item.tables.localTypes else []
      persistenceTypeSlots := []
      persistenceObjectSlots := []
      persistenceMemberSlots := [] } } := by
    unfold releasePersistenceData
    rw [hfresh]
    rfl
  -- What is left to show, once the data and their sizes are known.
  have hbuilt : ∀ data : InterfaceData, data.counts = item.persistenceCounts →
      (item.tables.runtimeExternalizedState = false → data.localTypes = item.tables.localTypes) →
      item.fullShown = some ⟨item.address, item.ownRuntime, item.tables.imports, data⟩ →
      ∀ view, blocks'.Shows view data →
        BuiltFrom blocks' item (item.releasePersistenceData.2.bindPersistenceData view) := by
    intro data hcounts hlocal hshown view hshows
    rw [hreleased]
    refine ⟨?_, ⟨?_, ?_⟩, rfl⟩
    · rw [hshown]
      unfold shown runtimeDataView persistenceDataView localTypes bindPersistenceData ownRuntime
      dsimp only
      rw [hshows.read_eq]
      cases hexternalized : item.tables.runtimeExternalizedState with
      | true => rfl
      | false =>
        rw [← hlocal hexternalized]
        rfl
    · intro view' hview
      cases hview
      exact ⟨data, hshows⟩
    · show (blocks'.read view).counts = item.persistenceCounts
      rw [hshows.read_eq]
      exact hcounts
  have hcompact : item.compactPersistenceAvailable = item.tables.persistenceCompactState := by
    unfold compactPersistenceAvailable
    rw [hfresh]
    rfl
  unfold generationData at h
  rw [runtimeDataView_own hfresh] at h
  dsimp only at h
  rw [hrelease, hcompact] at h
  split at h
  · rename_i hstate
    split at h
    · cases h
    · rename_i hcounts
      cases h
      refine ⟨not_not.mp hcounts, hbuilt _ (not_not.mp hcounts) ?_ ?_⟩
      · intro hexternalized
        unfold ownedData localTypeValues
        rw [hexternalized]
        rfl
      · unfold fullShown
        rw [if_pos hstate]
        rfl
  · rename_i hstate
    split at h
    · cases h
    rename_i hsizes
    split at h
    · cases h
    split at h
    · cases h
    rename_i data' hdata
    split at h
    · cases h
    · rename_i hcounts
      cases h
      simp only [Bool.or_eq_true, decide_eq_true_eq, not_or, not_not] at hcounts hsizes
      have hlocal := compactData_localTypes hdata
      have hall : data.counts = item.persistenceCounts := by
        have hlength : data.localTypes.length = item.persistenceCounts.localTypes := by
          rw [hlocal]
          exact hsizes.2
        unfold InterfaceData.counts
        rw [hlength, hcounts.1.1, hcounts.1.2, hcounts.2]
      refine ⟨hall, hbuilt data hall (fun _ => hlocal) ?_⟩
      unfold fullShown
      rw [if_neg hstate, hdata]
      rfl

variable {faults : Nat → EntryFaults} {values items : List (Option CachedInterface)}
variable {refs : List Nat}

theorem buildBlocks_ok (hfresh : ∀ item, some item ∈ values → item.external = none) :
    ∀ {index : Nat} {blocks : BlockStore},
      buildBlocks faults blocks index values = .ok (blocks', refs, items) →
        blocks.Grown blocks' ∧ refs.length = values.length ∧
          List.Forall₂ (Option.Rel (BuiltFrom blocks')) values items := by
  induction values generalizing refs items with
  | nil =>
    intro index blocks h
    cases h
    exact ⟨blocks'.grown_refl, rfl, .nil⟩
  | cons value rest ih =>
    intro index blocks h
    have hrestFresh : ∀ item, some item ∈ rest → item.external = none :=
      fun item hitem => hfresh item (List.mem_cons_of_mem _ hitem)
    cases value with
    | none =>
      rw [buildBlocks] at h
      cases hrest : buildBlocks faults blocks (index + 1) rest with
      | error code =>
        rw [hrest] at h
        cases h
      | ok result =>
        obtain ⟨last, refs', items'⟩ := result
        rw [hrest] at h
        cases h
        obtain ⟨hgrown, hlength, hall⟩ := ih hrestFresh hrest
        exact ⟨hgrown, by simp [hlength], .cons .none hall⟩
    | some item =>
      rw [buildBlocks] at h
      cases hdata : generationData (faults index).scratch blocks item with
      | error code =>
        rw [hdata] at h
        cases h
      | ok result =>
        obtain ⟨data, released⟩ := result
        rw [hdata] at h
        have happend := BlockStore.append_spec (faults index).block blocks (index + 1) data
        rcases hresult : blocks.append (faults index).block (index + 1) data with ⟨grown, appended⟩
        rw [hresult] at happend
        cases appended with
        | error code =>
          simp only [bind, Except.bind, hresult] at h
          cases h
        | ok block =>
          obtain ⟨view, hview, hshows⟩ := happend.2 block rfl
          have hgrown := happend.1
          simp only [bind, Except.bind, hresult, hview] at h
          split at h
          · cases h
          cases hrest : buildBlocks faults grown (index + 1) rest with
          | error code =>
            rw [hrest] at h
            cases h
          | ok result =>
            obtain ⟨last, refs', items'⟩ := result
            rw [hrest] at h
            cases h
            obtain ⟨hgrownRest, hlength, hall⟩ := ih hrestFresh hrest
            refine ⟨hgrown.trans hgrownRest, by simp [hlength], .cons (.some ?_) hall⟩
            exact ((generationData_ok (hfresh item (by simp)) hdata).2 view hshows).keeps
              hgrownRest.keeps

theorem buildGenerationFrontendBlocks_ok {refsFault : Bool} {count : Nat}
    (hfresh : ∀ item, some item ∈ values → item.external = none) (hcount : values.length = count)
    (h : buildGenerationFrontendBlocks refsFault faults blocks values count = .ok (blocks', refs, items)) :
    refs.length = count ∧ List.Forall₂ (Option.Rel (BuiltFrom blocks')) values items := by
  unfold buildGenerationFrontendBlocks at h
  split at h
  · cases h
  split at h
  · cases h
  rw [List.take_of_length_le (by omega), List.drop_eq_nil_of_le (by omega)] at h
  cases hbuild : buildBlocks faults blocks.clear 0 values with
  | error code =>
    rw [hbuild] at h
    cases h
  | ok result =>
    obtain ⟨last, refs', items'⟩ := result
    rw [hbuild] at h
    cases h
    obtain ⟨-, hlength, hall⟩ := buildBlocks_ok hfresh hbuild
    rw [List.append_nil]
    exact ⟨hlength.trans hcount, hall⟩

/-- The loop over the replacements: the store only grows, and at the end every replacement has a
block and data of the sizes it counts. -/
theorem appendBlocks_spec {faults : Nat → EntryFaults} {replacements : List Replacement}
    (hfresh : ∀ r ∈ replacements, ∀ item, r.interface = some item → item.external = none) :
    ∀ (index : Nat) (blocks : BlockStore),
      blocks.Grown (appendBlocks faults blocks index replacements).1 ∧
      ∀ updates, (appendBlocks faults blocks index replacements).2 = .ok updates →
        updates.length = replacements.length ∧
        ∀ r ∈ replacements, ∀ item, r.interface = some item →
          item.ownedData.counts = item.persistenceCounts := by
  induction replacements with
  | nil =>
    intro index blocks
    refine ⟨blocks.grown_refl, fun updates h => ?_⟩
    cases h
    exact ⟨rfl, fun r hr => by cases hr⟩
  | cons r rest ih =>
    intro index blocks
    have hrest := ih fun r' hr' => hfresh r' (List.mem_cons_of_mem _ hr')
    rw [appendBlocks]
    cases hinterface : r.interface with
    | none =>
      obtain ⟨hstore, hok⟩ := hrest (index + 1) blocks
      refine ⟨hstore, fun updates h => ?_⟩
      cases hresult : (appendBlocks faults blocks (index + 1) rest).2 with
      | error code =>
        dsimp only at h
        rw [hresult] at h
        cases h
      | ok updates' =>
        dsimp only at h
        rw [hresult] at h
        cases h
        obtain ⟨hlength, hcounts⟩ := hok updates' hresult
        refine ⟨by simp [hlength], fun r' hr' item hitem => ?_⟩
        rcases List.mem_cons.mp hr' with rfl | hr'
        · rw [hinterface] at hitem
          cases hitem
        · exact hcounts r' hr' item hitem
    | some item =>
      have hexternal := hfresh r (by simp) item hinterface
      have hdata : item.persistenceDataView blocks = item.ownedData := by
        unfold persistenceDataView
        rw [hexternal]
      dsimp only
      rw [hdata]
      split
      · exact ⟨blocks.grown_refl, fun updates h => by cases h⟩
      rename_i hcount
      have happend :=
        BlockStore.append_spec (faults index).block blocks r.source item.ownedData
      rcases hresult : blocks.append (faults index).block r.source item.ownedData with
        ⟨grown, appended⟩
      rw [hresult] at happend
      cases appended with
      | error code =>
        exact ⟨happend.1, fun updates h => by cases h⟩
      | ok block =>
        obtain ⟨hstore, hok⟩ := hrest (index + 1) grown
        refine ⟨happend.1.trans hstore, fun updates h => ?_⟩
        cases hlast : (appendBlocks faults grown (index + 1) rest).2 with
        | error code =>
          dsimp only at h
          rw [hlast] at h
          cases h
        | ok updates' =>
          dsimp only at h
          rw [hlast] at h
          cases h
          obtain ⟨hlength, hcounts⟩ := hok updates' hlast
          refine ⟨by simp [hlength], fun r' hr' item' hitem' => ?_⟩
          rcases List.mem_cons.mp hr' with rfl | hr'
          · rw [hinterface] at hitem'
            cases hitem'
            exact not_not.mp hcount
          · exact hcounts r' hr' item' hitem'

def replacedRecords (record : Nat → PersistenceRecord) (replacements : List Replacement)
    (s : Nat) : PersistenceRecord :=
  match replacements.find? (·.source == s) with
  | some r => persistenceRecordOf r.interface
  | none => record s

theorem foldlM_summarize {account : Account} {cache : FrontendCache} {summary : PersistenceSummary}
    {bound : Nat} (hsound : FrontendCache.CacheSound account cache)
    {replacements : List Replacement} (hnodup : (replacements.map (·.source)).Nodup)
    (hrange : ∀ r ∈ replacements, r.source ≠ 0 ∧ r.source ≤ bound)
    (hstart : Total cache.persistenceSummary (account.record cache.baseline) bound)
    (h : replacements.foldlM (summarize cache) cache.persistenceSummary = .ok summary) :
    Total summary (replacedRecords (account.record cache.baseline) replacements) bound := by
  induction replacements using List.reverseRecOn generalizing summary with
  | nil =>
    cases h
    exact hstart
  | append_singleton replacements r ih =>
    rw [List.foldlM_append] at h
    rw [List.map_append, List.nodup_append] at hnodup
    cases hinit : replacements.foldlM (summarize cache) cache.persistenceSummary with
    | error code =>
      rw [hinit] at h
      cases h
    | ok middle =>
    rw [hinit] at h
    have hlast : summarize cache middle r = .ok summary := by
      have hcons : [r].foldlM (summarize cache) middle = .ok summary := h
      rw [List.foldlM_cons] at hcons
      cases hresult : summarize cache middle r with
      | error code =>
        rw [hresult] at hcons
        cases hcons
      | ok result =>
        rw [hresult] at hcons
        exact hcons
    have hmiddle := ih hnodup.1 (fun r' hr' => hrange r' (List.mem_append_left _ hr')) hinit
    obtain ⟨hne, hle⟩ := hrange r (by simp)
    have hnew : ∀ r' ∈ replacements, ¬(r'.source == r.source) = true := by
      intro r' hr' heq
      exact hnodup.2.2 _ (List.mem_map_of_mem hr') r.source (by simp) (beq_iff_eq.mp heq)
    have hbefore : replacedRecords (account.record cache.baseline) replacements r.source =
        account.record cache.baseline r.source := by
      unfold replacedRecords
      rw [List.find?_eq_none.mpr hnew]
    unfold summarize at hlast
    rw [FrontendCache.previousRecord_eq hsound hne] at hlast
    simp only [bind, Except.bind] at hlast
    split at hlast
    · cases hlast
    rename_i subtracted hsubtract
    split at hlast
    · cases hlast
    rename_i added hadd
    cases hlast
    rw [← hbefore] at hsubtract
    refine (hmiddle.replace hne hle hsubtract hadd).congr fun s _ _ => ?_
    unfold replacedRecords
    rw [List.find?_append]
    by_cases hs : s = r.source
    · rw [hs, Function.update_self, List.find?_eq_none.mpr hnew]
      simp
    · rw [Function.update_of_ne hs]
      have hother : [r].find? (·.source == s) = none := by simp [Ne.symm hs]
      rw [hother, Option.or_none]

end FrontendUpdate
end ServerEngine
