import ServerEngine.Frontend.CacheUpdates

/-! # Preparing, cancelling and publishing

A preparation that fails leaves the cache showing what it showed, one that succeeds has everything the
publication needs, and a cancelled update leaves nothing behind.
-/
namespace ServerEngine
open SourceIndex SourceInterface

namespace FrontendUpdate
open FrontendCache
variable {account : Account} {cache cache' : FrontendCache} {update : FrontendUpdate} {source : Nat}
  {given : Nat → Option (Option CachedInterface)}

/-! ## Full preparations -/

theorem forall₂_getD {α β : Type} {R : α → β → Prop} {xs : List α} {ys : List β}
    (h : List.Forall₂ R xs ys) {x : α} {y : β} (hdefault : R x y) (i : Nat) :
    R (xs.getD i x) (ys.getD i y) := by
  induction h generalizing i with
  | nil => exact hdefault
  | cons hhead _ ih =>
    cases i with
    | zero => exact hhead
    | succ n => exact ih n

variable {blocks : BlockStore} {values items : List (Option CachedInterface)}

theorem built_prepared {summary : PersistenceSummary}
    (hvalues : ∀ s, s ≠ 0 → (given s).join = values.getD (s - 1) none)
    (htotal : Total summary (recordsOf values) values.length)
    (hall : List.Forall₂ (Option.Rel (CachedInterface.BuiltFrom blocks)) values items) :
    (∀ s, s ≠ 0 → Option.Rel (CachedInterface.BuiltFrom blocks) (given s).join
      (items.getD (s - 1) none)) ∧ items.length = values.length ∧
        Total summary (recordsOf items) values.length := by
  have hat : ∀ i, Option.Rel (CachedInterface.BuiltFrom blocks) (values.getD i none)
      (items.getD i none) := forall₂_getD hall .none
  refine ⟨fun s hne => ?_, hall.length_eq.symm, htotal.congr fun s _ _ => ?_⟩
  · rw [hvalues s hne]
    exact hat (s - 1)
  · exact CachedInterface.rel_record (hat (s - 1))

theorem collected_external (hfresh : GivenSound account cache given)
    (hvalues : ∀ s, s ≠ 0 → (given s).join = values.getD (s - 1) none) :
    ∀ item, some item ∈ values → item.external = none := by
  intro item hitem
  obtain ⟨i, hi⟩ := List.mem_iff_getElem?.mp hitem
  apply hfresh.external (i + 1) item
  rw [← Option.join_eq_some_iff, hvalues (i + 1) (Nat.succ_ne_zero i), Nat.add_sub_cancel,
    List.getD_eq_getElem?_getD, hi]
  rfl

theorem prepared_full {refs : List Nat} {refsFault : Bool} {faults : Nat → EntryFaults}
    {start : BlockStore} (hfresh : GivenSound account cache given)
    (hvalues : ∀ s, s ≠ 0 → (given s).join = values.getD (s - 1) none)
    (htotal : Total update.candidateSummary (recordsOf values) values.length)
    (hbuild : buildGenerationFrontendBlocks refsFault faults start values update.requiredSourceCount = .ok (blocks, refs, items))
    (hlength : values.length = update.requiredSourceCount) {update' : FrontendUpdate}
    (hitems : update'.fullValues = items) (hblocks : update'.fullFrontendBlocks = blocks)
    (hrefs : update'.fullFrontendBlockRefs = refs)
    (hsummary : update'.candidateSummary = update.candidateSummary)
    (hcount : update'.requiredSourceCount = update.requiredSourceCount) :
    update'.FullPrepared given := by
  obtain ⟨hrefsLength, hall⟩ := buildGenerationFrontendBlocks_ok (collected_external hfresh hvalues)
    hlength hbuild
  obtain ⟨hbuilt, hitemsLength, htotalItems⟩ := built_prepared hvalues htotal hall
  refine ⟨?_, ?_, ?_, ?_⟩
  · rw [hitems, hblocks]
    exact hbuilt
  · rw [hitems, hcount, hitemsLength, hlength]
  · rw [hrefs, hcount, hrefsLength]
  · rw [hitems, hcount, hsummary, ← hlength]
    exact htotalItems

theorem prepareFull_sound (h : UpdateSound account cache update given)
    (hprepared : update.prepared = false) (hfull : update.fullReconstruction = true)
    (hroom : update.fullContextCandidate = none →
      update.fullCandidate.length ≤ update.requiredSourceCount) (faults : PrepareFaults) :
    UpdateSound account cache (prepareFull faults cache update).1 given := by
  have hcollecting := h.collecting hfull hprepared
  have hincremental : ∀ {P : Prop}, update.fullReconstruction = false → P := by
    intro P hsparse
    rw [hfull] at hsparse
    cases hsparse
  have hblocks := h.blocks (.inl hfull)
  unfold prepareFull
  split
  · exact h
  rename_i hbaseline
  have hnone : cache.baseline = none := by simpa using hbaseline
  split
  · rename_i values hcontext
    have hvalues : update.fullValues = values := by
      unfold fullValues
      rw [hcontext]
      rfl
    have hcollected := hcollecting.values
    have htotal := hcollecting.total
    rw [hvalues] at hcollected htotal
    split
    · exact h
    rename_i hlength
    have hlength' : values.length = update.requiredSourceCount := not_not.mp hlength
    split
    · exact h.failed _
    · rename_i blocks refs items hbuild
      refine ⟨h.fresh, h.unpublished, hincremental, (fun _ hunprepared => by cases hunprepared),
        fun _ _ => ⟨?_, hnone⟩, hincremental, fun _ => hblocks⟩
      exact prepared_full h.fresh hcollected htotal hbuild hlength' rfl rfl rfl rfl rfl
  · rename_i hcontext
    split
    · exact h.failed _
    have hresized := hcollecting.resized hcontext update.requiredSourceCount
    have hsound : UpdateSound account cache { update with
        fullCandidate := resizeTo update.fullCandidate update.requiredSourceCount } given :=
      unprepared_sound h.fresh h.unpublished hprepared hblocks hincremental fun _ => hresized
    have hvalues : fullValues { update with
        fullCandidate := resizeTo update.fullCandidate update.requiredSourceCount } =
          resizeTo update.fullCandidate update.requiredSourceCount := by
      rw [hcontext]
      rfl
    have hcollected := hresized.values
    have htotal := hresized.total
    rw [hvalues] at hcollected htotal
    have hlength : (resizeTo update.fullCandidate update.requiredSourceCount).length =
        update.requiredSourceCount := by
      rw [resizeTo_length]
      exact Nat.max_eq_right (hroom hcontext)
    dsimp only
    split
    · exact hsound
    split
    · exact hsound.failed _
    · rename_i blocks refs items hbuild
      refine ⟨h.fresh, h.unpublished, hincremental, (fun _ hunprepared => by cases hunprepared),
        fun _ _ => ⟨?_, hnone⟩, hincremental, fun _ => hblocks⟩
      refine prepared_full h.fresh hcollected htotal hbuild hlength ?_ rfl rfl rfl rfl
      unfold fullValues
      rw [hcontext]
      rfl

/-! ## Room -/

structure RoomKept (cache cache' : FrontendCache) : Prop where
  held : cache'.held = cache.held
  nextAddress : cache'.nextAddress = cache.nextAddress
  baseline : cache'.baseline = cache.baseline
  blocks : cache'.frontendBlocks = cache.frontendBlocks
  complete : cache'.completeState = cache.completeState

theorem held_of_roomMade {baseline : FrontendBaseline} (h : RoomMade cache cache')
    (hindexed : cache.Indexed) (hbaseline : cache.baseline = some baseline) :
    cache'.held = cache.held := by
  funext s
  apply Option.ext
  intro item
  rw [held_overlay ((baseline_of_rest h.rest).trans hbaseline) h.indexed,
    held_overlay hbaseline hindexed, h.overlay]

theorem prepareRoom_sound (hsound : CacheSound account cache) (faults : PrepareFaults)
    (update : FrontendUpdate) :
    CacheSound account (prepareRoom faults cache update).1 ∧
      RoomKept cache (prepareRoom faults cache update).1 ∧
      ((prepareRoom faults cache update).2 = .ok () →
        (cache.baseline = none →
          ∀ context, (prepareRoom faults cache update).1.denseContext = some context →
            update.requiredSourceCount ≤ context.length) ∧
        ∀ baseline, cache.baseline = some baseline → update.replacements = [] ∨
          ((prepareRoom faults cache update).1.overlay.length * 2 ≤
              (prepareRoom faults cache update).1.overlayIndex.length ∧
            update.replacements.length * 2 ≤
              (prepareRoom faults cache update).1.overlayIndex.length)) := by
  have hsame : RoomKept cache cache := ⟨rfl, rfl, rfl, rfl, rfl⟩
  unfold prepareRoom
  cases hbaseline : cache.baseline with
  | some baseline =>
    dsimp only
    have hindexed := (hsound.backed baseline hbaseline).overlay.indexed
    split
    · exact ⟨hsound, hsame, fun hok => by cases hok⟩
    · have hroom := prepareOverlayCapacity_room hindexed faults.overlay faults.index
        update.replacements.length
      have hlooked : LookedUp account cache _ := hroom.lookedUp
      have hcomplete : (cache.prepareOverlayCapacity faults.overlay faults.index
          update.replacements.length).1.rest.completeState = cache.rest.completeState := by
        rw [hroom.rest]
      refine ⟨hlooked.cacheSound hsound hbaseline
          (hroom.overlaySound (hsound.backed baseline hbaseline).overlay),
        ⟨held_of_roomMade hroom hindexed hbaseline, hroom.nextAddress, baseline_of_rest hroom.rest,
          blocks_of_rest hroom.rest, hcomplete⟩,
        fun hok => ⟨(fun hnone => by cases hnone), fun baseline' _ => ?_⟩⟩
      by_cases hnil : update.replacements = []
      · exact .inl hnil
      · right
        have hsome := List.length_pos_iff.mpr hnil
        have hmade := (prepareOverlayCapacity_ok hindexed hsome hok).2
        rw [hroom.overlay]
        omega
  | none =>
    cases hcontext : cache.denseContext with
    | some context =>
      dsimp only
      split
      · exact ⟨hsound, hsame, fun hok => by cases hok⟩
      · have hresized := hsound.resized hcontext hbaseline update.requiredSourceCount
        rw [hbaseline] at hresized
        refine ⟨hresized, ⟨?_, rfl, hbaseline.symm, rfl, rfl⟩,
          fun _ => ⟨fun _ context' hcontext' => ?_, fun baseline hsome => by cases hsome⟩⟩
        · apply held_native_congr hbaseline rfl
          intro s
          unfold nativeInterface
          rw [hcontext]
          exact resizeTo_getD context _ (s - 1)
        · cases hcontext'
          rw [resizeTo_length]
          exact Nat.le_max_right _ _
    | none =>
      dsimp only
      split
      · exact ⟨hsound, hsame, fun hok => by cases hok⟩
      · refine ⟨hsound, hsame, fun _ => ⟨fun _ context hsome => ?_, fun baseline hsome => by cases hsome⟩⟩
        rw [hcontext] at hsome
        cases hsome

/-! ## Incremental preparations -/

theorem restored_sound (hsound : CacheSound account cache) {base : BlockStore}
    (hgrown : base.Grown cache.frontendBlocks)
    (hshows : ∀ s item view, cache.held s = some item → item.external = some view →
      ∃ data, base.Shows view data) :
    CacheSound account
      { cache with frontendBlocks := cache.frontendBlocks.restore base.mark } := by
  apply hsound.blocks
  intro s item view hheld hview
  obtain ⟨data, hdata⟩ := hshows s item view hheld hview
  exact ⟨data, hdata.grow hgrown, (BlockStore.restore_samePages hgrown).shows hdata⟩

/-- The blocks of an incremental update, in the store of the cache. -/
theorem prepareBlocks_sound (hsound : CacheSound account cache)
    (h : UpdateSound account cache update given) (hincremental : update.fullReconstruction = false)
    (hprepared : update.prepared = false)
    (hcomplete : cache.completeState = true) (hcount : account.count ≤ update.requiredSourceCount)
    (hrange : update.outOfRange = false)
    (htotal : Total update.candidateSummary
      (replacedRecords (account.record cache.baseline) update.replacements) update.requiredSourceCount)
    (hcontext : cache.baseline = none → ∀ context, cache.denseContext = some context →
      update.requiredSourceCount ≤ context.length)
    (hroom : ∀ baseline, cache.baseline = some baseline → update.replacements = [] ∨
      (cache.overlay.length * 2 ≤ cache.overlayIndex.length ∧
        update.replacements.length * 2 ≤ cache.overlayIndex.length))
    (faults : PrepareFaults) :
    CacheSound account (prepareBlocks faults cache update).1 ∧
      (prepareBlocks faults cache update).1.held = cache.held ∧
      UpdateSound account (prepareBlocks faults cache update).1 (prepareBlocks faults cache update).2.1
        given := by
  have hcollected := h.collected hincremental
  have hbound : ∀ s item view, cache.held s = some item → item.external = some view →
      ∃ data, cache.frontendBlocks.Shows view data :=
    fun s item view hheld hview => (hsound.held_sound hheld).bound view hview
  have hfull : ∀ {P : Prop}, update.fullReconstruction = true → P := by
    intro P hfull
    rw [hincremental] at hfull
    cases hfull
  have hlater : ∀ blocks, GivenSound account { cache with frontendBlocks := blocks } given :=
    fun blocks => h.fresh.later ⟨Nat.le_refl _, fun t old hold => .inl hold⟩
  have hunprepared : ∀ blocks, UpdateSound account { cache with frontendBlocks := blocks }
      { update with
        frontendBlockCheckpoint := cache.frontendBlocks.mark
        frontendBlockUpdates := [] } given := fun blocks =>
    unprepared_sound (hlater blocks) h.unpublished hprepared (h.blocks (.inr hprepared))
      (fun _ => ⟨hcollected.index, hcollected.given⟩) hfull
  -- A complete cache without a baseline has all its blocks.
  have hstored : (cache.baseline.isSome || cache.nativeFrontendBlockStorageComplete) = true := by
    cases hbaseline : cache.baseline with
    | some baseline => rfl
    | none => exact (hsound.native hbaseline).storage hcomplete
  have hexternal : ∀ r ∈ update.replacements, ∀ item, r.interface = some item →
      item.external = none := by
    intro r hr item hitem
    apply h.fresh.external r.source item
    rw [← hitem]
    exact (hcollected.given _ _).mpr hr
  obtain ⟨hgrown, hok⟩ := @appendBlocks_spec faults.entries _ hexternal 0 cache.frontendBlocks
  unfold prepareBlocks
  rw [if_pos hstored]
  dsimp only
  split
  · exact ⟨restored_sound hsound cache.frontendBlocks.grown_refl hbound, rfl, hunprepared _⟩
  · rcases hresult : appendBlocks faults.entries cache.frontendBlocks 0 update.replacements with
      ⟨grown, result⟩
    rw [hresult] at hgrown hok
    cases result with
    | error code =>
      refine ⟨?_, rfl, hunprepared _⟩
      apply hsound.blocks
      intro s item view hheld hview
      obtain ⟨data, hdata⟩ := hbound s item view hheld hview
      exact ⟨data, hdata, (BlockStore.restore_samePages hgrown).shows hdata⟩
    | ok updates =>
      obtain ⟨hlength, hcounts⟩ := hok updates rfl
      refine ⟨?_, rfl, ?_⟩
      · apply hsound.blocks
        intro s item view hheld hview
        obtain ⟨data, hdata⟩ := hbound s item view hheld hview
        exact ⟨data, hdata, hdata.grow hgrown⟩
      · refine ⟨hlater grown, h.unpublished, fun _ => ⟨hcollected.index, hcollected.given⟩, hfull, hfull,
          fun _ _ => ⟨fun s value hvalue => ?_, fun s item hitem => ?_, htotal, rfl, hlength, hcount,
            hcontext, hroom, ⟨cache.frontendBlocks, hgrown, rfl, hbound⟩⟩,
          fun hblocks => ?_⟩
        · have hmem := (hcollected.given s value).mp hvalue
          unfold outOfRange at hrange
          rw [List.any_eq_false] at hrange
          simpa using hrange _ hmem
        · exact hcounts _ ((hcollected.given s (some item)).mp hitem) item rfl
        · cases hblocks with
          | inl hfull' => exact hfull hfull'
          | inr hnot => cases hnot

theorem UpdateSound.required (h : UpdateSound account cache update given)
    (hprepared : update.prepared = false) (required : Nat) :
    UpdateSound account cache { update with requiredSourceCount := required } given :=
  unprepared_sound h.fresh h.unpublished hprepared (h.blocks (.inr hprepared))
    (fun hfull => ⟨(h.collected hfull).index, (h.collected hfull).given⟩)
    (fun hfull => ⟨(h.collecting hfull hprepared).values, (h.collecting hfull hprepared).total⟩)

/-- `prepare_publish` keeps what the cache shows and leaves the update ready or as it was. -/
theorem preparePublish_sound (hsound : CacheSound account cache)
    (h : UpdateSound account cache update given) {required : Nat}
    (hfullRoom : update.fullReconstruction = true → update.fullCandidate.length ≤ required)
    (hcount : update.fullReconstruction = false → account.count ≤ required) (faults : PrepareFaults) :
    CacheSound account (preparePublish faults cache update required).1 ∧
      (preparePublish faults cache update required).1.held = cache.held ∧
      UpdateSound account (preparePublish faults cache update required).1
        (preparePublish faults cache update required).2.1 given := by
  unfold preparePublish
  split
  · exact ⟨hsound, rfl, h⟩
  split
  · exact ⟨hsound, rfl, h⟩
  rename_i hguard
  split
  · exact ⟨hsound, rfl, h⟩
  rename_i hcomplete
  simp only [Bool.or_eq_true, Bool.not_eq_true', not_or, Bool.not_eq_true] at hguard
  obtain ⟨⟨-, hprepared⟩, -⟩ := hguard
  have hrequired := h.required hprepared required
  dsimp only
  split
  · rename_i hfull
    exact ⟨hsound, rfl, prepareFull_sound hrequired hprepared hfull (fun _ => hfullRoom hfull) faults⟩
  rename_i hsparse
  have hincremental : update.fullReconstruction = false := by simpa using hsparse
  have hstate : cache.completeState = true := by
    rw [hincremental] at hcomplete
    simpa using hcomplete
  have hcollected := h.collected hincremental
  split
  · exact ⟨hsound, rfl, hrequired⟩
  rename_i summary hsummary
  obtain ⟨hroomSound, hroomKept, hroomOk⟩ := prepareRoom_sound hsound faults
    { update with requiredSourceCount := required, candidateSummary := summary }
  rcases hroom : prepareRoom faults cache
    { update with requiredSourceCount := required, candidateSummary := summary } with ⟨roomy, result⟩
  rw [hroom] at hroomSound hroomKept hroomOk
  have hroomyFresh : GivenSound account roomy given := by
    refine h.fresh.later ⟨Nat.le_of_eq hroomKept.nextAddress.symm, fun t old hold => ?_⟩
    rw [hroomKept.held] at hold
    exact .inl hold
  have hroomy : UpdateSound account roomy
      { update with requiredSourceCount := required, candidateSummary := summary } given :=
    unprepared_sound hroomyFresh h.unpublished hprepared (h.blocks (.inr hprepared))
      (fun _ => ⟨hcollected.index, hcollected.given⟩) fun hfull => absurd hfull hsparse
  cases result with
  | error code => exact ⟨hroomSound, hroomKept.held, hroomy⟩
  | ok _ =>
    dsimp only
    split
    · exact ⟨hroomSound, hroomKept.held, hroomy⟩
    rename_i hrange
    obtain ⟨hcontext, hplaces⟩ := hroomOk rfl
    have hinside : ∀ r ∈ update.replacements, r.source ≠ 0 ∧ r.source ≤ required := by
      unfold outOfRange at hrange
      rw [Bool.not_eq_true, List.any_eq_false] at hrange
      intro r hr
      simpa using hrange r hr
    have hstart : Total cache.persistenceSummary (account.record cache.baseline) required :=
      hsound.summary.extend (hcount hincremental) fun s hs => by
        unfold Account.record
        rw [hsound.beyond s hs]
    have htotal := foldlM_summarize hsound hcollected.nodup hinside hstart hsummary
    rw [← hroomKept.baseline] at htotal hcontext hplaces
    obtain ⟨hblocksSound, hblocksHeld, hblocksUpdate⟩ := prepareBlocks_sound hroomSound hroomy
      hincremental hprepared (hroomKept.complete.trans hstate) (hcount hincremental)
      (by simpa using hrange) htotal hcontext hplaces faults
    exact ⟨hblocksSound, hblocksHeld.trans hroomKept.held, hblocksUpdate⟩

/-! ## Cancelling and publishing -/

theorem cancel_sound (hsound : CacheSound account cache) (h : UpdateSound account cache update given) :
    CacheSound account (cancel cache update).1 ∧ (cancel cache update).1.held = cache.held := by
  unfold cancel
  split
  · exact ⟨hsound, rfl⟩
  split
  · rename_i hblocks
    have hopen : update.fullReconstruction = false ∧ update.prepared = true := by
      constructor
      · cases hfull : update.fullReconstruction with
        | false => rfl
        | true =>
          rw [h.blocks (.inl hfull)] at hblocks
          cases hblocks
      · cases hprepared : update.prepared with
        | true => rfl
        | false =>
          rw [h.blocks (.inr hprepared)] at hblocks
          cases hblocks
    obtain ⟨base, hgrown, hmark, hshows⟩ := (h.sparse hopen.1 hopen.2).store
    rw [hmark]
    exact ⟨restored_sound hsound hgrown hshows, rfl⟩
  · exact ⟨hsound, rfl⟩

def OverlayRoom (cache : FrontendCache) (update : FrontendUpdate) : Prop :=
  cache.overlay.length + cache.newSources update.replacements ≤ cache.overlayReserved

instance (cache : FrontendCache) (update : FrontendUpdate) : Decidable (OverlayRoom cache update) :=
  inferInstanceAs (Decidable (_ ≤ _))

/-- Publishing a prepared update, where over a baseline every new source has a slot. -/
theorem publishPrepared_sound (hsound : CacheSound account cache)
    (h : UpdateSound account cache update given) (hprepared : update.prepared = true)
    (howner : update.owner = true) {includes : Nat → List Nat}
    (hwired : Wired account cache (replacing update.fullReconstruction given) includes)
    (hroom : update.fullReconstruction = false → cache.baseline ≠ none → OverlayRoom cache update) :
    CacheSound (account.published cache update.fullReconstruction given update.requiredSourceCount
        includes) (publishPrepared cache update).1 ∧
      (publishPrepared cache update).2.published = true ∧
      (publishPrepared cache update).2.owner = false := by
  unfold publishPrepared
  rw [if_neg (by simp [hprepared, howner, h.unpublished])]
  cases hfull : update.fullReconstruction with
  | true =>
    obtain ⟨hbuilt, hnone⟩ := h.full hfull hprepared
    rw [hfull] at hwired
    exact ⟨publishFull_sound hsound h.fresh hbuilt hnone hwired, rfl, rfl⟩
  | false =>
    have hsparse := h.sparse hfull hprepared
    have hcollected := h.collected hfull
    rw [hfull] at hwired
    rw [if_neg (by simp)]
    cases hbaseline : cache.baseline with
    | none =>
      exact ⟨publishNative_sound hsound h.fresh hcollected hsparse hbaseline hwired, rfl, rfl⟩
    | some baseline =>
      have hindexed := (hsound.backed baseline hbaseline).overlay.indexed
      have hitems : (update.replacements.zip (update.frontendBlockUpdates.map (·.2))).map (·.1) =
          update.replacements :=
        List.map_fst_zip (Nat.le_of_eq (by rw [List.length_map, hsparse.updates]))
      have hfits := hroom hfull (by rw [hbaseline]; simp)
      have hnew : cache.newSources update.replacements ≤ update.replacements.length :=
        List.length_filter_le _ _
      obtain ⟨last, hpublish, hentered⟩ := @publishReplacements_ok cache
        update.frontendBlockSparsePrepared
        (update.replacements.zip (update.frontendBlockUpdates.map (·.2))) hindexed
        (by
          have hkeys := hcollected.nodup
          rw [← hitems, List.map_map] at hkeys
          exact hkeys)
        (fun item hitem => (hsparse.range item.1.source item.1.interface
          ((hcollected.given _ _).mpr (List.of_mem_zip hitem).1)).1)
        (by
          rw [hitems]
          exact hfits)
        (by
          rw [hitems]
          cases hsparse.room baseline hbaseline with
          | inl hnil =>
            rw [hnil]
            have hlength := hindexed.index.room
            rw [sources_length] at hlength
            exact hlength
          | inr hplaces => omega)
      rw [hitems] at hentered
      rw [if_pos (by simp), hpublish]
      exact ⟨hentered.cacheSound hsound hbaseline h.fresh hcollected hsparse hwired, rfl, rfl⟩

end FrontendUpdate
end ServerEngine
