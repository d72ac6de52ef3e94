import ServerEngine.Frontend.CacheMaterialization
import ServerEngine.Frontend.CacheSummary
import ServerEngine.Frontend.FrontendUpdate

/-! # Sound frontend caches

A cache is sound for an account of the publications: it shows what was last published, its records
are those of what it shows, and every interface imports the current ones. Look-ups keep it sound.
-/
namespace ServerEngine
open SourceIndex SourceInterface

/-! ## Interface objects and the block store -/

def BlockStore.Keeps (blocks blocks' : BlockStore) : Prop :=
  ∀ view data, blocks.Shows view data → blocks'.Shows view data

theorem BlockStore.Grown.keeps {blocks blocks' : BlockStore} (h : blocks.Grown blocks') :
    blocks.Keeps blocks' := fun _ _ hshows => hshows.grow h

namespace CachedInterface
variable {blocks blocks' : BlockStore} {item : CachedInterface}

structure Sound (blocks : BlockStore) (item : CachedInterface) : Prop where
  bound : ∀ view, item.external = some view → ∃ data, blocks.Shows view data
  counts : (item.persistenceDataView blocks).counts = item.persistenceCounts

theorem shown_keeps (hkeeps : blocks.Keeps blocks')
    (hbound : ∀ view, item.external = some view → ∃ data, blocks.Shows view data) :
    item.shown blocks' = item.shown blocks := by
  unfold shown runtimeDataView persistenceDataView localTypes
  cases hexternal : item.external with
  | none => rfl
  | some view =>
    obtain ⟨data, hshows⟩ := hbound view hexternal
    dsimp only
    rw [hshows.read_eq, (hkeeps view data hshows).read_eq]

theorem Sound.keeps (h : item.Sound blocks) (hkeeps : blocks.Keeps blocks') :
    item.Sound blocks' := by
  constructor
  · intro view hview
    obtain ⟨data, hshows⟩ := h.bound view hview
    exact ⟨data, hkeeps view data hshows⟩
  · have hsame : (item.shown blocks').data = (item.shown blocks).data := by
      rw [shown_keeps hkeeps h.bound]
    exact (congrArg InterfaceData.counts hsame).trans h.counts

theorem sound_owned (hexternal : item.external = none)
    (hcounts : item.ownedData.counts = item.persistenceCounts) : item.Sound blocks := by
  constructor
  · intro view hview
    rw [hexternal] at hview
    cases hview
  · unfold persistenceDataView
    rw [hexternal]
    exact hcounts

end CachedInterface

def FrontendBaseline.record (baseline : FrontendBaseline) (source : Nat) : PersistenceRecord :=
  match baseline.cache.source source with
  | .error _ => {}
  | .ok persisted => if persisted.frontendPresent then ⟨true, persisted.counts⟩ else {}

def Account.record (account : Account) (baseline : Option FrontendBaseline) (source : Nat) :
    PersistenceRecord :=
  match account.entries source with
  | some none => {}
  | some (some shown) => ⟨true, shown.data.counts⟩
  | none => (baseline.map (·.record source)).getD {}

/-- What the verification of the images has established: every source has a record, includes are
sources, and the header of the build cache counts what the records hold. -/
structure FrontendBaseline.Verified (baseline : FrontendBaseline) : Prop where
  count : baseline.sourceCount ≤ u32Max
  source : ∀ s, s ≠ 0 → s ≤ baseline.sourceCount → ∃ persisted, baseline.cache.source s = .ok persisted
  includes : ∀ s, s ≠ 0 → s ≤ baseline.sourceCount →
    ∀ i ∈ baseline.includes s, i ≠ 0 ∧ i ≤ baseline.sourceCount
  total : Total ⟨baseline.cache.frontendCount, baseline.cache.frontendCounts⟩ baseline.record
    baseline.sourceCount

/-! ## Soundness -/

namespace FrontendCache
variable {baseline : FrontendBaseline} {account : Account} {cache cache' : FrontendCache}
  {source : Nat} {item : CachedInterface}

def held (cache : FrontendCache) (source : Nat) : Option CachedInterface :=
  match cache.baseline with
  | none => if source = 0 then none else cache.nativeInterface source
  | some _ => (cache.findOverlay source).bind fun entry =>
      if entry.resolved then entry.interface else none

def Current (cache : FrontendCache) (sources addresses : List Nat) : Prop :=
  List.Forall₂ (fun i a => (cache.held i).map (·.address) = some a) sources addresses

structure NativeSound (account : Account) (cache : FrontendCache) : Prop where
  shown : ∀ s, s ≠ 0 → s ≤ account.count →
    account.entries s = some ((cache.nativeInterface s).map (·.shown cache.frontendBlocks))
  beyond : ∀ s, account.count < s → cache.nativeInterface s = none
  item : ∀ s item, cache.held s = some item → item.Sound cache.frontendBlocks
  address : ∀ s item, cache.held s = some item →
    item.address < cache.nextAddress ∧ item.address ∉ account.retired
  distinct : ∀ s t item item', cache.held s = some item → cache.held t = some item' →
    item.address = item'.address → s = t
  retired : ∀ a ∈ account.retired, a < cache.nextAddress
  storage : cache.completeState = true → cache.nativeFrontendBlockStorageComplete = true

structure BaselineSound (baseline : FrontendBaseline) (account : Account) (cache : FrontendCache) :
    Prop where
  overlay : OverlaySound baseline account [] cache
  covered : ∀ s value, s ≠ 0 → account.entries s = some value → s ∉ cache.sources →
    baseline.sourceCount < s ∧ value = none
  inside : ∀ e ∈ cache.overlay, e.source ≤ account.count
  untouched : ∀ s, account.entries s = none → s ≠ 0 ∧ s ≤ baseline.sourceCount
  closed : ∀ s data, Readable baseline.cache s data → account.entries s = none →
    ∀ i ∈ baseline.includes s, account.entries i = none
  includes : ∀ s, account.entries s = none → account.includes s = baseline.includes s
  count : baseline.sourceCount ≤ account.count
  verified : baseline.Verified

structure CacheSound (account : Account) (cache : FrontendCache) : Prop where
  count : cache.logicalSourceCount = account.count
  beyond : ∀ s, account.count < s → account.entries s = some none
  summary : Total cache.persistenceSummary (account.record cache.baseline) account.count
  imports : ∀ s item, cache.held s = some item → account.entries s ≠ none →
    cache.Current (account.includes s) item.tables.imports
  native : cache.baseline = none → NativeSound account cache
  backed : ∀ baseline, cache.baseline = some baseline → BaselineSound baseline account cache

theorem held_native (hbaseline : cache.baseline = none) (hne : source ≠ 0) :
    cache.held source = cache.nativeInterface source := by
  unfold held
  rw [hbaseline]
  exact if_neg hne

theorem held_overlay (hbaseline : cache.baseline = some baseline) (hindexed : cache.Indexed) :
    cache.held source = some item ↔
      ∃ e ∈ cache.overlay, e.source = source ∧ e.resolved = true ∧ e.interface = some item := by
  unfold held
  rw [hbaseline]
  rw [Option.bind_eq_some_iff]
  constructor
  · rintro ⟨e, hfind, hresult⟩
    obtain ⟨he, hsource⟩ := (findOverlay_eq hindexed).mp hfind
    split at hresult
    · rename_i hresolved
      exact ⟨e, he, hsource, hresolved, hresult⟩
    · cases hresult
  · rintro ⟨e, he, hsource, hresolved, hinterface⟩
    refine ⟨e, (findOverlay_eq hindexed).mpr ⟨he, hsource⟩, ?_⟩
    rw [if_pos hresolved]
    exact hinterface

theorem OverlaySound.resolved (h : OverlaySound baseline account [] cache) {e : OverlayEntry}
    (he : e ∈ cache.overlay) : e.resolved = true := by
  cases h.sound e he with
  | sentinel hpending => cases hpending
  | published _ hresolved => exact hresolved
  | restored _ hresolved => exact hresolved

theorem resolves_held (hbaseline : cache.baseline = some baseline) (hindexed : cache.Indexed)
    {address : Nat} (h : Resolves cache.overlay source address) :
    (cache.held source).map (·.address) = some address := by
  obtain ⟨e, he, hsource, hresolved, haddress⟩ := h
  obtain ⟨item, hitem, hat⟩ := Option.map_eq_some_iff.mp haddress
  rw [(held_overlay hbaseline hindexed).mpr ⟨e, he, hsource, hresolved, hitem⟩]
  exact congrArg some hat

theorem BaselineSound.restored (h : BaselineSound baseline account cache)
    (hbaseline : cache.baseline = some baseline) (huntouched : account.entries source = none)
    (hheld : cache.held source = some item) :
    Restored baseline cache.overlay source item := by
  obtain ⟨e, he, hsource, -, hinterface⟩ := (held_overlay hbaseline h.overlay.indexed).mp hheld
  subst hsource
  cases h.overlay.sound e he with
  | sentinel hpending => cases hpending
  | published value hresolved hentry =>
    rw [huntouched] at hentry
    cases hentry
  | restored item' hresolved hentry hinterface' hrestored =>
    rw [hinterface] at hinterface'
    cases hinterface'
    exact hrestored

theorem CacheSound.held_imports (h : CacheSound account cache) (hheld : cache.held source = some item) :
    cache.Current (account.includes source) item.tables.imports := by
  cases hentry : account.entries source with
  | some value => exact h.imports source item hheld (by rw [hentry]; simp)
  | none =>
    cases hbaseline : cache.baseline with
    | none =>
      have hnative := h.native hbaseline
      have hne : source ≠ 0 := by
        rintro rfl
        unfold held at hheld
        rw [hbaseline] at hheld
        cases hheld
      rcases Nat.lt_or_ge account.count source with hlt | hge
      · rw [h.beyond source hlt] at hentry
        cases hentry
      · rw [hnative.shown source hne hge] at hentry
        cases hentry
    | some baseline =>
      have hbacked := h.backed baseline hbaseline
      have hrestored := hbacked.restored hbaseline hentry hheld
      rw [hbacked.includes source hentry]
      exact hrestored.imports.imp fun i a hresolves =>
        resolves_held hbaseline hbacked.overlay.indexed hresolves

theorem CacheSound.held_address (h : CacheSound account cache) (hheld : cache.held source = some item) :
    item.address < cache.nextAddress ∧ item.address ∉ account.retired := by
  cases hbaseline : cache.baseline with
  | none => exact (h.native hbaseline).address source item hheld
  | some baseline =>
    have hbacked := h.backed baseline hbaseline
    obtain ⟨e, he, -, -, hinterface⟩ := (held_overlay hbaseline hbacked.overlay.indexed).mp hheld
    exact hbacked.overlay.address e he item hinterface

theorem CacheSound.held_distinct (h : CacheSound account cache) {t : Nat} {item' : CachedInterface}
    (hheld : cache.held source = some item) (hheld' : cache.held t = some item')
    (heq : item.address = item'.address) : source = t := by
  cases hbaseline : cache.baseline with
  | none => exact (h.native hbaseline).distinct source t item item' hheld hheld' heq
  | some baseline =>
    have hbacked := h.backed baseline hbaseline
    obtain ⟨e, he, rfl, -, hinterface⟩ := (held_overlay hbaseline hbacked.overlay.indexed).mp hheld
    obtain ⟨e', he', rfl, -, hinterface'⟩ :=
      (held_overlay hbaseline hbacked.overlay.indexed).mp hheld'
    exact hbacked.overlay.distinct e he e' he' item item' hinterface hinterface' heq

theorem CacheSound.retired_lt (h : CacheSound account cache) :
    ∀ a ∈ account.retired, a < cache.nextAddress := by
  cases hbaseline : cache.baseline with
  | none => exact (h.native hbaseline).retired
  | some baseline => exact (h.backed baseline hbaseline).overlay.retired

/-! ## Look-ups -/

def RoomFails (faults : LookupFaults) (cache : FrontendCache) : Prop :=
  faults.overlay = true ∧ cache.overlayReserved < cache.overlay.length + 1 ∨
    faults.index = true ∧ cache.overlayIndex.length ≤ (cache.overlay.length + 1) * 2

/-- A look-up that can go wrong only before it has entered a sentinel: it has nothing to restore, or
the room for the sentinel fails, or everything it needs can be restored and nothing fails. -/
def LookupClear (faults : Nat → LookupFaults) (cache : FrontendCache) (source : Nat) : Prop :=
  ∀ baseline, cache.baseline = some baseline → source ≠ 0 → source ≤ baseline.sourceCount →
    cache.findOverlay source = none → (baseline.record source).present = true →
      RoomFails (faults source) cache ∨
        (Restorable baseline source ∧ NoFault faults baseline cache source)

theorem prepareOverlayCapacity_fails {faults : LookupFaults} (h : RoomFails faults cache) :
    ∃ code, (cache.prepareOverlayCapacity faults.overlay faults.index 1).2 = .error code := by
  unfold prepareOverlayCapacity
  rw [if_neg (by omega)]
  split
  · exact ⟨_, rfl⟩
  dsimp only
  split
  · exact ⟨_, rfl⟩
  rename_i hreserve
  rcases h with ⟨hfault, hroom⟩ | ⟨hfault, hroom⟩
  · exact absurd (by simp [hfault, hroom]) hreserve
  · rw [if_neg (by simp; omega)]
    split
    · exact ⟨_, rfl⟩
    · exact ⟨_, rfl⟩

theorem baseline_of_rest (h : cache'.rest = cache.rest) : cache'.baseline = cache.baseline := by
  have hfield : cache'.rest.baseline = cache.rest.baseline := by rw [h]
  exact hfield

theorem logicalSourceCount_of_rest (h : cache'.rest = cache.rest) :
    cache'.logicalSourceCount = cache.logicalSourceCount := by
  have hfield : cache'.rest.logicalSourceCount = cache.rest.logicalSourceCount := by rw [h]
  exact hfield

theorem persistenceSummary_of_rest (h : cache'.rest = cache.rest) :
    cache'.persistenceSummary = cache.persistenceSummary := by
  have hfield : cache'.rest.persistenceSummary = cache.rest.persistenceSummary := by rw [h]
  exact hfield

theorem LookedUp.held (h : LookedUp account cache cache') (hbaseline : cache.baseline = some baseline)
    (hindexed : cache.Indexed) (hindexed' : cache'.Indexed)
    (hheld : cache.held source = some item) : cache'.held source = some item := by
  obtain ⟨e, he, hentry⟩ := (held_overlay hbaseline hindexed).mp hheld
  exact (held_overlay ((baseline_of_rest h.rest).trans hbaseline) hindexed').mpr
    ⟨e, h.overlay.subset he, hentry⟩

theorem LookedUp.current (h : LookedUp account cache cache')
    (hbaseline : cache.baseline = some baseline) (hindexed : cache.Indexed)
    (hindexed' : cache'.Indexed) {sources addresses : List Nat}
    (hcurrent : cache.Current sources addresses) : cache'.Current sources addresses := by
  refine List.Forall₂.imp (fun i a ha => ?_) hcurrent
  obtain ⟨item, hitem, haddress⟩ := Option.map_eq_some_iff.mp ha
  rw [h.held hbaseline hindexed hindexed' hitem]
  exact congrArg some haddress

theorem LookedUp.cacheSound (h : LookedUp account cache cache') (hsound : CacheSound account cache)
    (hbaseline : cache.baseline = some baseline)
    (hoverlay : OverlaySound baseline account [] cache') : CacheSound account cache' := by
  have hbacked := hsound.backed baseline hbaseline
  have hbaseline' := (baseline_of_rest h.rest).trans hbaseline
  refine ⟨(logicalSourceCount_of_rest h.rest).trans hsound.count, hsound.beyond, ?_, ?_, ?_, ?_⟩
  · rw [persistenceSummary_of_rest h.rest, baseline_of_rest h.rest]
    exact hsound.summary
  · intro s item hheld hentry
    obtain ⟨e, he, hsource, hresolved, hinterface⟩ :=
      (held_overlay hbaseline' hoverlay.indexed).mp hheld
    have hold : e ∈ cache.overlay := by
      cases h.added e he with
      | inl hold => exact hold
      | inr hadded =>
        rw [hsource] at hadded
        exact absurd hadded.1 hentry
    apply h.current hbaseline hbacked.overlay.indexed hoverlay.indexed
    exact hsound.imports s item ((held_overlay hbaseline hbacked.overlay.indexed).mpr
      ⟨e, hold, hsource, hresolved, hinterface⟩) hentry
  · intro hnone
    rw [hbaseline'] at hnone
    cases hnone
  · intro baseline' heq
    rw [hbaseline'] at heq
    cases heq
    refine ⟨hoverlay, fun s value hne hentry hs => hbacked.covered s value hne hentry
      fun hmem => hs (h.sources hmem), ?_, hbacked.untouched, hbacked.closed, hbacked.includes,
      hbacked.count, hbacked.verified⟩
    intro e he
    cases h.added e he with
    | inl hold => exact hbacked.inside e hold
    | inr hadded => exact Nat.le_trans (hbacked.untouched e.source hadded.1).2 hbacked.count

/-- What a clear look-up does: it finds what is there, it finds nothing and leaves the cache as it
is up to the room of the overlay, or it restores the source. -/
inductive LookupOutcome (baseline : FrontendBaseline) (account : Account) (cache : FrontendCache)
    (source : Nat) : FrontendCache × Option CachedInterface → Prop
  | found : LookupOutcome baseline account cache source (cache, cache.held source)
  | failed (cache' : FrontendCache) (hroom : RoomMade cache cache') (hheld : cache.held source = none) :
      LookupOutcome baseline account cache source (cache', none)
  | restored (result : FrontendCache × Option CachedInterface) (huntouched : account.entries source = none)
      (h : Materializes baseline account [] cache source result) :
      LookupOutcome baseline account cache source result

theorem interface_outcome {faults : Nat → LookupFaults} (hsound : CacheSound account cache)
    (hbaseline : cache.baseline = some baseline) (hclear : LookupClear faults cache source)
    (hne : source ≠ 0) (hle : source ≤ account.count) :
    LookupOutcome baseline account cache source (cache.interface faults source) := by
  have hbacked := hsound.backed baseline hbaseline
  have hin : ¬(source = 0 || source > cache.logicalSourceCount) = true := by
    rw [hsound.count]
    simp [hne]
    omega
  unfold FrontendCache.interface
  rw [if_neg hin, hbaseline]
  cases hfind : cache.findOverlay source with
  | some e =>
    have hheld : cache.held source = if e.resolved then e.interface else none := by
      unfold held
      rw [hbaseline, hfind]
      rfl
    dsimp only
    rw [← hheld]
    exact .found
  | none =>
  have hheld : cache.held source = none := by
    unfold held
    rw [hbaseline, hfind]
    rfl
  have hnothing : LookupOutcome baseline account cache source (cache, none) :=
    .failed cache (roomMade_refl hbacked.overlay.indexed) hheld
  dsimp only
  by_cases hrestore : (baseline.record source).present = true ∧ source ≤ baseline.sourceCount
  · obtain ⟨hpresent, hinside⟩ := hrestore
    have huntouched : account.entries source = none := by
      cases hentry : account.entries source with
      | none => rfl
      | some value =>
        have := (hbacked.covered source value hne hentry
          ((findOverlay_none hbacked.overlay.indexed).mp hfind)).1
        omega
    rcases hclear baseline hbaseline hne hinside hfind hpresent with hfails | ⟨hrestorable, hfaults⟩
    · obtain ⟨code, herror⟩ := prepareOverlayCapacity_fails hfails
      have hroom := prepareOverlayCapacity_room hbacked.overlay.indexed (faults source).overlay
        (faults source).index 1
      have hguard : ¬(source = 0 || source > baseline.sourceCount) = true := by
        simp [hne]
        omega
      obtain ⟨persisted, hpersisted⟩ := hbacked.verified.source source hne hinside
      have hrecorded : persisted.frontendPresent = true := by
        unfold FrontendBaseline.record at hpresent
        rw [hpersisted] at hpresent
        dsimp only at hpresent
        cases hflag : persisted.frontendPresent with
        | true => rfl
        | false =>
          rw [hflag] at hpresent
          cases hpresent
      rcases hprepare : cache.prepareOverlayCapacity (faults source).overlay (faults source).index 1
        with ⟨roomy, result⟩
      rw [hprepare] at herror hroom
      cases herror
      unfold materializeBaseline
      rw [if_neg hguard, hfind, hpersisted]
      dsimp only
      rw [hrecorded, if_neg (by simp), hprepare]
      exact .failed roomy hroom hheld
    · refine .restored _ huntouched ?_
      exact materializeBaseline_ok hbacked.verified.count hrestorable hbacked.closed huntouched _ cache
        [] hbacked.overlay (by omega) hfaults (fun p hp => by cases hp)
  · have hresult : materializeBaseline faults baseline (baseline.sourceCount + 1) cache source =
        (cache, none) := by
      unfold materializeBaseline
      by_cases hinside : source ≤ baseline.sourceCount
      · obtain ⟨persisted, hpersisted⟩ := hbacked.verified.source source hne hinside
        have hrecorded : persisted.frontendPresent = false := by
          cases hflag : persisted.frontendPresent with
          | false => rfl
          | true =>
            refine absurd ⟨?_, hinside⟩ hrestore
            unfold FrontendBaseline.record
            rw [hpersisted]
            dsimp only
            rw [if_pos hflag]
        rw [if_neg (by simp [hne]; omega), hfind, hpersisted]
        dsimp only
        rw [hrecorded]
        rfl
      · rw [if_pos (by simp; omega)]
    rw [hresult]
    exact hnothing

theorem interface_lookedUp {faults : Nat → LookupFaults} (hsound : CacheSound account cache)
    (hclear : LookupClear faults cache source) :
    LookedUp account cache (cache.interface faults source).1 ∧
      (cache.baseline = none → (cache.interface faults source).1 = cache) ∧
      ∀ baseline, cache.baseline = some baseline →
        OverlaySound baseline account [] (cache.interface faults source).1 := by
  by_cases hin : source ≠ 0 ∧ source ≤ account.count
  · cases hbaseline : cache.baseline with
    | none =>
      have hsame : (cache.interface faults source).1 = cache := by
        unfold FrontendCache.interface
        rw [if_neg (by rw [hsound.count]; simp [hin.1]; omega), hbaseline]
      refine ⟨?_, fun _ => hsame, (fun baseline hsome => by cases hsome)⟩
      rw [hsame]
      exact lookedUp_refl account cache
    | some baseline =>
      have hbacked := hsound.backed baseline hbaseline
      have hresult : LookedUp account cache (cache.interface faults source).1 ∧
          OverlaySound baseline account [] (cache.interface faults source).1 := by
        cases houtcome : cache.interface faults source with
        | mk next result =>
        have h := interface_outcome hsound hbaseline hclear hin.1 hin.2
        rw [houtcome] at h
        cases h with
        | found => exact ⟨lookedUp_refl account cache, hbacked.overlay⟩
        | failed _ hroom hheld => exact ⟨hroom.lookedUp, hroom.overlaySound hbacked.overlay⟩
        | restored _ huntouched hmaterializes =>
          obtain ⟨cache', item, hresult, hlooked, hoverlay, -⟩ := hmaterializes
          cases hresult
          exact ⟨hlooked, hoverlay⟩
      refine ⟨hresult.1, (fun hnone => by cases hnone), fun baseline' hsome => ?_⟩
      cases hsome
      exact hresult.2
  · have hsame : (cache.interface faults source).1 = cache := by
      unfold FrontendCache.interface
      rw [if_pos]
      rw [hsound.count]
      simp only [Bool.or_eq_true, decide_eq_true_eq]
      omega
    rw [hsame]
    exact ⟨lookedUp_refl account cache, fun _ => rfl,
      fun baseline hsome => (hsound.backed baseline hsome).overlay⟩

theorem interface_sound {faults : Nat → LookupFaults} (hsound : CacheSound account cache)
    (hclear : LookupClear faults cache source) :
    CacheSound account (cache.interface faults source).1 ∧
      ∀ s item, cache.held s = some item → (cache.interface faults source).1.held s = some item := by
  obtain ⟨hlooked, hnative, hbacked⟩ := interface_lookedUp hsound hclear
  cases hbaseline : cache.baseline with
  | none =>
    rw [hnative hbaseline]
    exact ⟨hsound, fun _ _ h => h⟩
  | some baseline =>
    have hoverlay := hbacked baseline hbaseline
    exact ⟨hlooked.cacheSound hsound hbaseline hoverlay, fun _ _ h =>
      hlooked.held hbaseline (hsound.backed baseline hbaseline).overlay.indexed hoverlay.indexed h⟩

/-! ## Views -/

theorem held_zero (hsound : CacheSound account cache) : cache.held 0 = none := by
  unfold held
  cases hbaseline : cache.baseline with
  | none => rfl
  | some baseline =>
    have hindexed := (hsound.backed baseline hbaseline).overlay.indexed
    have hnone : cache.findOverlay 0 = none :=
      (findOverlay_none hindexed).mpr fun hmem => hindexed.index.ne_zero 0 hmem rfl
    rfl

theorem CacheSound.held_entry (h : CacheSound account cache) {value : Option Shown}
    (hne : source ≠ 0) (hle : source ≤ account.count) (hentry : account.entries source = some value) :
    (cache.held source).map (·.shown cache.frontendBlocks) = value := by
  cases hbaseline : cache.baseline with
  | none =>
    have hshown := (h.native hbaseline).shown source hne hle
    rw [hentry] at hshown
    rw [held_native hbaseline hne]
    exact (Option.some.inj hshown).symm
  | some baseline =>
    have hbacked := h.backed baseline hbaseline
    by_cases hmem : source ∈ cache.sources
    · obtain ⟨e, he, hsource⟩ := List.mem_map.mp hmem
      have hresolved := hbacked.overlay.resolved he
      have hheld : cache.held source = e.interface := by
        unfold held
        rw [hbaseline, (findOverlay_eq hbacked.overlay.indexed).mpr ⟨he, hsource⟩]
        exact if_pos hresolved
      rw [hheld]
      cases hbacked.overlay.sound e he with
      | sentinel hpending => cases hpending
      | published value' _ hentry' hvalue =>
        rw [hsource, hentry] at hentry'
        rw [Option.some.inj hentry']
        exact hvalue
      | restored item _ hentry' =>
        rw [hsource, hentry] at hentry'
        cases hentry'
    · have hheld : cache.held source = none := by
        unfold held
        rw [hbaseline, (findOverlay_none hbacked.overlay.indexed).mpr hmem]
        rfl
      rw [hheld, (hbacked.covered source value hne hentry hmem).2]
      rfl

theorem CacheSound.held_sound (h : CacheSound account cache) (hheld : cache.held source = some item) :
    item.Sound cache.frontendBlocks := by
  cases hbaseline : cache.baseline with
  | none => exact (h.native hbaseline).item source item hheld
  | some baseline =>
    have hbacked := h.backed baseline hbaseline
    obtain ⟨e, he, hsource, -, hinterface⟩ :=
      (held_overlay hbaseline hbacked.overlay.indexed).mp hheld
    cases hbacked.overlay.sound e he with
    | sentinel hpending => cases hpending
    | published value _ _ _ howned =>
      obtain ⟨hexternal, hcounts⟩ := howned item hinterface
      exact CachedInterface.sound_owned hexternal hcounts
    | restored item' _ _ hinterface' hrestored =>
      rw [hinterface] at hinterface'
      cases hinterface'
      obtain ⟨data, -, hholds⟩ := hrestored.tables
      obtain ⟨address, tables, external⟩ := item
      cases hrestored.external
      refine CachedInterface.sound_owned rfl ?_
      rw [CachedInterface.ownedData_holds hholds]
      exact hholds.counts.symm

theorem interfaceView_ok (h : item.Sound cache.frontendBlocks) :
    cache.interfaceView (some item) = .ok ⟨.nativeInterface,
      ⟨true, (item.shown cache.frontendBlocks).data.counts⟩, (item.shown cache.frontendBlocks).data⟩ := by
  have hdata : (item.shown cache.frontendBlocks).data =
      item.persistenceDataView cache.frontendBlocks := rfl
  unfold interfaceView
  dsimp only
  rw [if_neg (not_not.mpr h.counts), hdata, h.counts]

theorem readable_unique {source : Nat} {data data' : InterfaceData} {image : BuildCacheImage}
    (h : Readable image source data) (h' : Readable image source data') : data = data' := by
  have hrecord := h.record.symm.trans h'.record
  have hcounts : data.counts = data'.counts := by
    injection hrecord with hpair
    injection hpair
  have hlist : ∀ {α : Type} {read : Nat → Except StatusCode α} {l l' : List α},
      ReadsAll read l → ReadsAll read l' → l.length = l'.length → l = l' := by
    intro α read l l' hl hl' hlength
    apply List.ext_getElem hlength
    intro i hi hi'
    have := (hl i hi).symm.trans (hl' i hi')
    injection this
  injection hcounts with hlocal htype hobject hmember
  rw [InterfaceData.mk.injEq]
  exact ⟨hlist h.localTypes h'.localTypes hlocal, hlist h.typeSlots h'.typeSlots htype,
    hlist h.objectSlots h'.objectSlots hobject, hlist h.memberSlots h'.memberSlots hmember⟩

/-- The record of a view is that of what was last published, and its data are the published ones; an
untouched source shows what the build cache has for it, in the cache or in the image. -/
structure ViewSound (account : Account) (baseline : Option FrontendBaseline) (source : Nat)
    (view : PersistenceView) : Prop where
  record : view.record = account.record baseline source
  published : ∀ shown, account.entries source = some (some shown) →
    view.storage = .nativeInterface ∧ view.data = shown.data
  untouched : ∀ b data, baseline = some b → account.entries source = none →
    Readable b.cache source data →
      view.storage = .persistedBaseline ∨ (view.storage = .nativeInterface ∧ view.data = data)

theorem persistenceView_ok (hsound : CacheSound account cache) (hne : source ≠ 0)
    (hle : source ≤ account.count) : ∃ view, cache.persistenceView source = .ok view ∧
      ViewSound account cache.baseline source view := by
  have hin : ¬(source = 0 || source > cache.logicalSourceCount) = true := by
    rw [hsound.count]
    simp [hne]
    omega
  -- The view of what the cache holds for a source with a published entry.
  have hpublished : ∀ value, account.entries source = some value →
      ∃ view, cache.interfaceView (cache.held source) = .ok view ∧
        ViewSound account cache.baseline source view := by
    intro value hentry
    have hheldEntry := hsound.held_entry hne hle hentry
    cases hheld : cache.held source with
    | none =>
      rw [hheld] at hheldEntry
      cases hheldEntry
      refine ⟨{}, rfl, ?_, ?_, ?_⟩
      · unfold Account.record
        rw [hentry]
        rfl
      · intro shown h
        rw [hentry] at h
        cases h
      · intro b data _ h
        rw [hentry] at h
        cases h
    | some item =>
      rw [hheld] at hheldEntry
      cases hheldEntry
      refine ⟨_, interfaceView_ok (hsound.held_sound hheld), ?_, ?_, ?_⟩
      · unfold Account.record
        rw [hentry]
        rfl
      · intro shown h
        rw [hentry] at h
        cases h
        exact ⟨rfl, rfl⟩
      · intro b data _ h
        rw [hentry] at h
        cases h
  unfold persistenceView
  rw [if_neg hin]
  cases hbaseline : cache.baseline with
  | none =>
    have hshown := (hsound.native hbaseline).shown source hne hle
    obtain ⟨view, hview, hviewSound⟩ := hpublished _ hshown
    rw [held_native hbaseline hne] at hview
    rw [hbaseline] at hviewSound
    exact ⟨view, hview, hviewSound⟩
  | some baseline =>
    have hbacked := hsound.backed baseline hbaseline
    cases hfind : cache.findOverlay source with
    | some e =>
      obtain ⟨he, hsource⟩ := (findOverlay_eq hbacked.overlay.indexed).mp hfind
      have hresolved := hbacked.overlay.resolved he
      have hheld : cache.held source = e.interface := by
        unfold held
        rw [hbaseline, hfind]
        exact if_pos hresolved
      dsimp only
      rw [hresolved, if_neg (by simp)]
      cases hentry : account.entries source with
      | some value =>
        obtain ⟨view, hview, hviewSound⟩ := hpublished value hentry
        rw [hheld] at hview
        rw [hbaseline] at hviewSound
        exact ⟨view, hview, hviewSound⟩
      | none =>
        cases hbacked.overlay.sound e he with
        | sentinel hpending => cases hpending
        | published value _ hentry' =>
          rw [hsource, hentry] at hentry'
          cases hentry'
        | restored item _ _ hinterface hrestored =>
          obtain ⟨data, hread, hholds⟩ := hrestored.tables
          rw [hinterface] at hheld
          have hitem := hsound.held_sound hheld
          have hdata : (item.shown cache.frontendBlocks).data = data := by
            show item.persistenceDataView cache.frontendBlocks = data
            unfold CachedInterface.persistenceDataView
            obtain ⟨address, tables, external⟩ := item
            cases hrestored.external
            exact CachedInterface.ownedData_holds hholds
          rw [hinterface]
          rw [hsource] at hread
          refine ⟨_, interfaceView_ok hitem, ?_, ?_, ?_⟩
          · unfold Account.record
            rw [hentry, hdata]
            show _ = baseline.record source
            unfold FrontendBaseline.record
            rw [hread.record]
            rfl
          · intro shown h
            rw [hentry] at h
            cases h
          · intro b data' hb _ hread'
            cases hb
            rw [hdata, readable_unique hread hread']
            exact .inr ⟨rfl, rfl⟩
    | none =>
      have habsent := (findOverlay_none hbacked.overlay.indexed).mp hfind
      have hheld : cache.held source = none := by
        unfold held
        rw [hbaseline, hfind]
        rfl
      dsimp only
      by_cases hinside : source ≤ baseline.sourceCount
      · have huntouched : account.entries source = none := by
          cases hentry : account.entries source with
          | none => rfl
          | some value =>
            have := (hbacked.covered source value hne hentry habsent).1
            omega
        obtain ⟨persisted, hpersisted⟩ := hbacked.verified.source source hne hinside
        rw [if_pos hinside, hpersisted]
        dsimp only
        have hrecord : account.record (some baseline) source =
            if persisted.frontendPresent then ⟨true, persisted.counts⟩ else {} := by
          unfold Account.record
          rw [huntouched]
          show baseline.record source = _
          unfold FrontendBaseline.record
          rw [hpersisted]
        cases hflag : persisted.frontendPresent with
        | false =>
          rw [hflag] at hrecord
          refine ⟨{}, rfl, hrecord.symm, ?_, ?_⟩
          · intro shown h
            rw [huntouched] at h
            cases h
          · intro b data hb _ hread
            cases hb
            rw [hread.record] at hpersisted
            cases hpersisted
            cases hflag
        | true =>
          rw [hflag] at hrecord
          refine ⟨_, rfl, hrecord.symm, ?_, ?_⟩
          · intro shown h
            rw [huntouched] at h
            cases h
          · intro b data _ _ _
            exact .inl rfl
      · rw [if_neg hinside]
        cases hentry : account.entries source with
        | none => exact absurd (hbacked.untouched source hentry).2 hinside
        | some value =>
          obtain ⟨view, hview, hviewSound⟩ := hpublished value hentry
          rw [hheld] at hview
          rw [hbaseline] at hviewSound
          exact ⟨view, hview, hviewSound⟩

theorem persistenceView_outside (hsound : CacheSound account cache)
    (hout : source = 0 ∨ account.count < source) : cache.persistenceView source = .error .notFound := by
  unfold persistenceView
  rw [if_pos]
  rw [hsound.count]
  simpa using hout

theorem previousRecord_eq (hsound : CacheSound account cache) (hne : source ≠ 0) :
    FrontendUpdate.previousRecord cache source = .ok (account.record cache.baseline source) := by
  unfold FrontendUpdate.previousRecord persistenceRecord
  rcases Nat.lt_or_ge account.count source with hlt | hge
  · rw [persistenceView_outside hsound (.inr hlt)]
    dsimp only [Except.map]
    rw [if_pos (by rw [hsound.count]; simpa using hlt)]
    unfold Account.record
    rw [hsound.beyond source hlt]
  · obtain ⟨view, hview, hviewSound⟩ := persistenceView_ok hsound hne hge
    rw [hview]
    dsimp only [Except.map]
    rw [hviewSound.record]

end FrontendCache
end ServerEngine
