import ServerEngine.Frontend.CachePublication

/-! # Publishing over a baseline

The replacements of an update are entered into the overlay one after the other. As long as the overlay
has a slot for each new source, all of them are, and nothing else changes.
-/
namespace ServerEngine
open SourceIndex SourceInterface

namespace FrontendCache
variable {cache cache' cache'' : FrontendCache} {source : Nat} {replacements : List Replacement}

/-! ## Entering replacements -/

def newSources (cache : FrontendCache) (replacements : List Replacement) : Nat :=
  (replacements.filter (·.source ∉ cache.sources)).length

structure Entered (cache cache' : FrontendCache) (replacements : List Replacement) : Prop where
  rest : cache'.rest = cache.rest
  nextAddress : cache'.nextAddress = cache.nextAddress
  reserved : cache'.overlayReserved = cache.overlayReserved
  index : cache'.overlayIndex.length = cache.overlayIndex.length
  indexed : cache'.Indexed
  entry : ∀ e ∈ cache'.overlay, (e.resolved = true ∧ ⟨e.source, e.interface⟩ ∈ replacements) ∨
    (e ∈ cache.overlay ∧ ∀ r ∈ replacements, r.source ≠ e.source)
  kept : ∀ e ∈ cache.overlay, (∀ r ∈ replacements, r.source ≠ e.source) → e ∈ cache'.overlay
  sources : ∀ s, s ∈ cache'.sources ↔ s ∈ cache.sources ∨ ∃ r ∈ replacements, r.source = s
  length : cache'.overlay.length = cache.overlay.length + cache.newSources replacements

theorem entered_nil (h : cache.Indexed) : Entered cache cache [] where
  rest := rfl
  nextAddress := rfl
  reserved := rfl
  index := rfl
  indexed := h
  entry e he := .inr ⟨he, fun r hr => by cases hr⟩
  kept e he _ := he
  sources s := by simp
  length := rfl

theorem Entered.stamp (h : Entered cache cache' replacements) {i : Nat} {old : OverlayEntry}
    (hold : cache'.overlay[i]? = some old) (hresolved : old.resolved = true)
    (hmem : ⟨old.source, old.interface⟩ ∈ replacements) (f : OverlayEntry → OverlayEntry)
    (hf : ∀ e, (f e).source = e.source ∧ (f e).interface = e.interface ∧ (f e).resolved = e.resolved) :
    Entered cache { cache' with overlay := cache'.overlay.modify i f } replacements := by
  have hsources : (cache'.overlay.modify i f).map (·.source) = cache'.sources :=
    map_modify_same _ _ _ (fun e => (hf e).1) i
  refine ⟨h.rest, h.nextAddress, h.reserved, h.index, indexed_modify h.indexed i f fun e => (hf e).1,
    fun e he => ?_, fun e he hkept => ?_, fun s => ?_, ?_⟩
  · cases (mem_modify h.indexed hold f).mp he with
    | inl hnew =>
      obtain ⟨hsource, hinterface, hres⟩ := hf old
      left
      rw [hnew, hsource, hinterface, hres]
      exact ⟨hresolved, hmem⟩
    | inr hother => exact h.entry e hother.1
  · exact (mem_modify h.indexed hold f).mpr (.inr ⟨h.kept e he hkept, (hkept _ hmem).symm⟩)
  · rw [← h.sources]
    show s ∈ (cache'.overlay.modify i f).map (·.source) ↔ _
    rw [hsources]
  · show (cache'.overlay.modify i f).length = _
    rw [List.length_modify]
    exact h.length

theorem Entered.newSources_cons {r : Replacement} (h : Entered cache cache' [r])
    (hnew : ∀ r' ∈ replacements, r'.source ≠ r.source) :
    cache.newSources (r :: replacements) = cache.newSources [r] + cache'.newSources replacements := by
  have hfilter : replacements.filter (·.source ∉ cache.sources) =
      replacements.filter (·.source ∉ cache'.sources) := by
    apply List.filter_congr
    intro r' hr'
    have hsame : r'.source ∈ cache'.sources ↔ r'.source ∈ cache.sources := by
      rw [h.sources]
      simp [(hnew r' hr').symm]
    simp [hsame]
  unfold newSources
  rw [← hfilter, ← List.length_append, ← List.filter_append]
  rfl

theorem Entered.trans {r : Replacement} (h : Entered cache cache' [r])
    (hnext : Entered cache' cache'' replacements) (hnew : ∀ r' ∈ replacements, r'.source ≠ r.source) :
    Entered cache cache'' (r :: replacements) := by
  refine ⟨hnext.rest.trans h.rest, hnext.nextAddress.trans h.nextAddress,
    hnext.reserved.trans h.reserved, hnext.index.trans h.index, hnext.indexed, fun e he => ?_,
    fun e he hkept => ?_, fun s => ?_, ?_⟩
  · cases hnext.entry e he with
    | inl hentered => exact .inl ⟨hentered.1, List.mem_cons_of_mem _ hentered.2⟩
    | inr hkept =>
      cases h.entry e hkept.1 with
      | inl hentered =>
        refine .inl ⟨hentered.1, ?_⟩
        rw [List.mem_singleton.mp hentered.2]
        exact List.mem_cons_self
      | inr hold =>
        refine .inr ⟨hold.1, fun r' hr' => ?_⟩
        rcases List.mem_cons.mp hr' with rfl | hr'
        · exact hold.2 r' (by simp)
        · exact hkept.2 r' hr'
  · apply hnext.kept e (h.kept e he fun r' hr' => ?_) fun r' hr' => ?_
    · exact hkept r' (List.mem_cons.mpr (.inl (List.mem_singleton.mp hr')))
    · exact hkept r' (List.mem_cons_of_mem _ hr')
  · rw [hnext.sources, h.sources]
    simp [or_assoc]
  · rw [hnext.length, h.length, h.newSources_cons hnew, Nat.add_assoc]

/-- `publish_overlay` enters a resolved interface, in the place of an old entry or as a new one. -/
theorem publishOverlay_entered (h : cache.Indexed) (hne : source ≠ 0)
    (interface : Option CachedInterface)
    (hroom : source ∉ cache.sources → cache.overlay.length < cache.overlayReserved ∧
      cache.overlay.length < cache.overlayIndex.length) :
    ∃ cache' position entry, cache.publishOverlay source interface true = (cache', some position) ∧
      Entered cache cache' [⟨source, interface⟩] ∧ cache'.overlay[position]? = some entry ∧
      entry.source = source ∧ entry.interface = interface ∧ entry.resolved = true := by
  by_cases hmem : source ∈ cache.sources
  · obtain ⟨old, hold, hsource⟩ := List.mem_map.mp hmem
    obtain ⟨i, hi⟩ := List.mem_iff_getElem?.mp hold
    let f : OverlayEntry → OverlayEntry := fun entry =>
      { entry with interface := interface, resolved := true }
    have hposition : cache.overlayPosition source = some i :=
      (overlayPosition_eq h).mpr ⟨old, hi, hsource⟩
    have hsources : (cache.overlay.modify i f).map (·.source) = cache.sources :=
      map_modify_same cache.overlay f (·.source) (fun _ => rfl) i
    refine ⟨{ cache with overlay := cache.overlay.modify i f }, i, f old, ?_, ⟨rfl, rfl, rfl, rfl,
      indexed_modify h i f fun _ => rfl, fun e he => ?_, fun e he hkept => ?_, fun s => ?_, ?_⟩, ?_,
      hsource, rfl, rfl⟩
    · unfold publishOverlay
      rw [hposition]
    · cases (mem_modify h hi f).mp he with
      | inl hnew =>
        rw [hnew]
        refine .inl ⟨rfl, ?_⟩
        rw [List.mem_singleton, ← hsource]
      | inr hother =>
        refine .inr ⟨hother.1, fun r hr => ?_⟩
        rw [List.mem_singleton.mp hr]
        exact fun heq => hother.2 (heq.symm.trans hsource.symm)
    · refine (mem_modify h hi f).mpr (.inr ⟨he, ?_⟩)
      rw [hsource]
      exact (hkept ⟨source, interface⟩ (by simp)).symm
    · show s ∈ (cache.overlay.modify i f).map (·.source) ↔ _
      rw [hsources]
      constructor
      · exact .inl
      · rintro (hs | ⟨r, hr, rfl⟩)
        · exact hs
        · rw [List.mem_singleton.mp hr]
          exact hmem
    · show (cache.overlay.modify i f).length = _
      unfold newSources
      simp [hmem]
    · rw [List.getElem?_modify, hi]
      simp
  · obtain ⟨hreserved, hindex⟩ := hroom hmem
    obtain ⟨cache', hpublish, hrest, hnext, hreservedSame, hoverlay, hindexed, hlength⟩ :=
      publishOverlay_new h hmem hne hreserved hindex interface true
    refine ⟨cache', cache.overlay.length, newEntry source interface true, hpublish, ⟨hrest, hnext,
      hreservedSame, hlength, hindexed, fun e he => ?_, fun e he _ => ?_, fun s => ?_, ?_⟩, ?_, rfl, rfl,
      rfl⟩
    · rw [hoverlay] at he
      rcases List.mem_append.mp he with hold | hlast
      · refine .inr ⟨hold, fun r hr heq => hmem ?_⟩
        rw [List.mem_singleton.mp hr] at heq
        exact List.mem_map.mpr ⟨e, hold, heq.symm⟩
      · rw [List.mem_singleton.mp hlast]
        exact .inl ⟨rfl, by simp [newEntry]⟩
    · rw [hoverlay]
      exact List.mem_append_left _ he
    · unfold FrontendCache.sources
      rw [hoverlay]
      simp [newEntry, eq_comm]
    · unfold newSources
      rw [hoverlay]
      simp [hmem]
    · rw [hoverlay]
      simp

/-- The loop over the replacements: every one of them is entered where there is room for the new. -/
theorem publishReplacements_ok (sparse : Bool) {items : List (Replacement × Nat)}
    (h : cache.Indexed) (hnodup : (items.map (·.1.source)).Nodup)
    (hne : ∀ item ∈ items, item.1.source ≠ 0)
    (hreserved : cache.overlay.length + cache.newSources (items.map (·.1)) ≤ cache.overlayReserved)
    (hindex : cache.overlay.length + cache.newSources (items.map (·.1)) ≤ cache.overlayIndex.length) :
    ∃ cache', FrontendUpdate.publishReplacements sparse cache items = (cache', none) ∧
      Entered cache cache' (items.map (·.1)) := by
  induction items generalizing cache with
  | nil => exact ⟨cache, rfl, entered_nil h⟩
  | cons item rest ih =>
    obtain ⟨r, block⟩ := item
    rw [List.map_cons, List.nodup_cons] at hnodup
    have hdistinct : ∀ r' ∈ rest.map (·.1), r'.source ≠ r.source := by
      intro r' hr' heq
      obtain ⟨item, hitem, rfl⟩ := List.mem_map.mp hr'
      exact hnodup.1 (List.mem_map.mpr ⟨item, hitem, heq⟩)
    have hone : r.source ∉ cache.sources →
        1 ≤ cache.newSources ((r, block) :: rest |>.map (·.1)) := by
      intro hmem
      unfold newSources
      rw [List.map_cons, List.filter_cons_of_pos (by simpa using hmem)]
      simp
    obtain ⟨entered, position, entry, hpublish, hentered, hat, hsource, hinterface, hresolved⟩ :=
      publishOverlay_entered h (hne (r, block) (by simp)) r.interface fun hmem => by
        have := hone hmem
        omega
    -- The blocks are noted in the entry.
    obtain ⟨stamped, hstamped, hstampedEntered⟩ : ∃ stamped, stamped = (if sparse then { entered with
          overlay := entered.overlay.modify position fun entry =>
            { entry with nativeBlock := block, nativeBlockOverridesBaseline := true } }
        else entered) ∧ Entered cache stamped [r] := by
      refine ⟨_, rfl, ?_⟩
      split
      · exact hentered.stamp hat hresolved (by rw [hsource, hinterface]; simp) _
          fun e => ⟨rfl, rfl, rfl⟩
      · exact hentered
    have hcount : cache.newSources ((r, block) :: rest |>.map (·.1)) =
        cache.newSources [r] + stamped.newSources (rest.map (·.1)) :=
      hstampedEntered.newSources_cons hdistinct
    have hlength := hstampedEntered.length
    obtain ⟨last, hlast, hlastEntered⟩ := @ih stamped hstampedEntered.indexed hnodup.2
      (fun item hitem => hne item (List.mem_cons_of_mem _ hitem))
      (by rw [hstampedEntered.reserved]; omega) (by rw [hstampedEntered.index]; omega)
    refine ⟨last, ?_, hstampedEntered.trans hlastEntered hdistinct⟩
    unfold FrontendUpdate.publishReplacements
    rw [hpublish]
    dsimp only
    rw [← hstamped, hlast]
    rfl

/-! ## The cache after the publication -/

variable {baseline : FrontendBaseline} {account : Account} {update : FrontendUpdate}
  {given : Nat → Option (Option CachedInterface)} {includes : Nat → List Nat} {e : OverlayEntry}

theorem kept_of_given (hcollected : update.Collected given) {s : Nat} (hnone : given s = none) :
    ∀ r ∈ update.replacements, r.source ≠ s := by
  rintro r hr rfl
  have hsome := (hcollected.given r.source r.interface).mpr hr
  rw [hnone] at hsome
  cases hsome

theorem Entered.entry_given (h : Entered cache cache' update.replacements)
    (hcollected : update.Collected given) (he : e ∈ cache'.overlay) :
    (e.resolved = true ∧ given e.source = some e.interface) ∨
      (given e.source = none ∧ e ∈ cache.overlay) := by
  cases h.entry e he with
  | inl hentered =>
    exact .inl ⟨hentered.1, (hcollected.given _ _).mpr hentered.2⟩
  | inr hkept =>
    refine .inr ⟨?_, hkept.1⟩
    cases hgiven : given e.source with
    | none => rfl
    | some value =>
      exact absurd rfl (hkept.2 _ ((hcollected.given _ _).mp hgiven))

theorem Entered.held (h : Entered cache cache' update.replacements)
    (hcollected : update.Collected given) (hbaseline : cache.baseline = some baseline)
    (hindexed : cache.Indexed) (s : Nat) : cache'.held s = cache.after (replacing false given) s := by
  have hbaseline' : cache'.baseline = some baseline := (baseline_of_rest h.rest).trans hbaseline
  apply Option.ext
  intro item
  rw [held_overlay hbaseline' h.indexed]
  constructor
  · rintro ⟨e, he, rfl, hresolved, hinterface⟩
    unfold after replacing
    rcases h.entry_given hcollected he with ⟨-, hgiven⟩ | ⟨hnone, hold⟩
    · rw [if_neg (by simp), hgiven]
      exact hinterface
    · rw [if_neg (by simp), hnone]
      exact (held_overlay hbaseline hindexed).mpr ⟨e, hold, rfl, hresolved, hinterface⟩
  · intro hafter
    cases after_cases hafter with
    | inl hnew =>
      have hmem := (hcollected.given s (some item)).mp hnew
      obtain ⟨e, he, hsource⟩ := List.mem_map.mp ((h.sources s).mpr (.inr ⟨_, hmem, rfl⟩))
      subst hsource
      rcases h.entry_given hcollected he with ⟨hresolved, hgiven⟩ | ⟨hnone, -⟩
      · rw [hnew] at hgiven
        exact ⟨e, he, rfl, hresolved, (Option.some.inj hgiven).symm⟩
      · rw [hnew] at hnone
        cases hnone
    | inr hkept =>
      obtain ⟨e, he, rfl, hentry⟩ := (held_overlay hbaseline hindexed).mp hkept.2
      exact ⟨e, h.kept e he (kept_of_given hcollected hkept.1), rfl, hentry⟩

/-- The overlay is sound for the account with the publication. -/
theorem Entered.overlaySound (h : Entered cache cache' update.replacements)
    (hsound : CacheSound account cache) (hbaseline : cache.baseline = some baseline)
    (hgiven : GivenSound account cache given) (hcollected : update.Collected given)
    (howned : ∀ s item, given s = some (some item) → item.ownedData.counts = item.persistenceCounts)
    (hwired : Wired account cache (replacing false given) includes) (count : Nat) :
    OverlaySound baseline (account.published cache false given count includes) [] cache' := by
  have hbacked := hsound.backed baseline hbaseline
  have hindexed := hbacked.overlay.indexed
  have hheld := h.held hcollected hbaseline hindexed
  have hbaseline' : cache'.baseline = some baseline := (baseline_of_rest h.rest).trans hbaseline
  have hresolved : ∀ e ∈ cache'.overlay, e.resolved = true := by
    intro e he
    rcases h.entry_given hcollected he with ⟨hresolved, -⟩ | ⟨-, hold⟩
    · exact hresolved
    · exact hbacked.overlay.resolved hold
  have hafter : ∀ e ∈ cache'.overlay, ∀ item, e.interface = some item →
      cache.after (replacing false given) e.source = some item := by
    intro e he item hitem
    rw [← hheld]
    exact (held_overlay hbaseline' h.indexed).mpr ⟨e, he, rfl, hresolved e he, hitem⟩
  refine ⟨h.indexed, fun e he => ?_, fun e he => ?_, (fun s hs => by cases hs),
    fun e he item hitem => ?_, fun e he e' he' item item' hitem hitem' heq => ?_, ?_⟩
  · rcases h.entry_given hcollected he with ⟨-, hvalue⟩ | ⟨-, hold⟩
    · exact hgiven.bound e.source _ hvalue
    · exact hbacked.overlay.bound e hold
  · rw [blocks_of_rest h.rest]
    rcases h.entry_given hcollected he with ⟨-, hvalue⟩ | ⟨hnone, hold⟩
    · refine .published (e.interface.map (·.ownShown)) (hresolved e he) ?_ ?_ fun item hitem => ?_
      · rw [FrontendUpdate.published_entries, hvalue]
      · cases hinterface : e.interface with
        | none => rfl
        | some item =>
          rw [hinterface] at hvalue
          exact congrArg some (CachedInterface.shown_own (hgiven.external _ item hvalue) _)
      · rw [hitem] at hvalue
        exact ⟨hgiven.external _ item hvalue, howned _ item hvalue⟩
    · have hentries : (account.published cache false given count includes).entries e.source =
          account.entries e.source := by
        rw [FrontendUpdate.published_entries, hnone]
      cases hbacked.overlay.sound e hold with
      | sentinel hpending => cases hpending
      | published value hres hentry hvalue howned =>
        exact .published value hres (hentries.trans hentry) hvalue howned
      | restored item hres hentry hinterface hrestored =>
        refine .restored item hres (hentries.trans hentry) hinterface ⟨hrestored.tables,
          hrestored.external, ?_⟩
        -- What the source includes is not replaced, since the source itself is left alone.
        have hpresent : (account.record cache.baseline e.source).present = true := by
          obtain ⟨data, hread, -⟩ := hrestored.tables
          unfold Account.record
          rw [hentry, hbaseline]
          show (baseline.record e.source).present = true
          unfold FrontendBaseline.record
          rw [hread.record]
          rfl
        have hclosed := hwired.closed e.source hnone hpresent
        rw [hbacked.includes e.source hentry] at hclosed
        refine List.forall₂_iff_zip.mpr ⟨hrestored.imports.length_eq, fun {i _} hmem => ?_⟩
        obtain ⟨e', he', hsource, hres', haddress⟩ :=
          (List.forall₂_iff_zip.mp hrestored.imports).2 hmem
        refine ⟨e', h.kept e' he' ?_, hsource, hres', haddress⟩
        rw [hsource]
        exact kept_of_given hcollected (hclosed i (List.of_mem_zip hmem).1)
  · rw [h.nextAddress]
    exact after_address hsound hgiven (hafter e he item hitem)
  · exact after_distinct hsound hgiven (hafter e he item hitem) (hafter e' he' item' hitem') heq
  · rw [h.nextAddress]
    exact published_retired_lt hsound

theorem Entered.cacheSound (h : Entered cache cache' update.replacements)
    (hsound : CacheSound account cache) (hbaseline : cache.baseline = some baseline)
    (hgiven : GivenSound account cache given) (hcollected : update.Collected given)
    (hprepared : FrontendUpdate.SparsePrepared account cache update given)
    (hwired : Wired account cache (replacing false given) includes) :
    CacheSound (account.published cache false given update.requiredSourceCount includes)
      (FrontendUpdate.publishSummary
        { cache' with logicalSourceCount := update.requiredSourceCount } update).1 := by
  let last := (FrontendUpdate.publishSummary
    { cache' with logicalSourceCount := update.requiredSourceCount } update).1
  have hbacked := hsound.backed baseline hbaseline
  have hoverlay := h.overlaySound hsound hbaseline hgiven hcollected hprepared.owned hwired
    update.requiredSourceCount
  have hheld : ∀ s, last.held s = cache.after (replacing false given) s :=
    h.held hcollected hbaseline hbacked.overlay.indexed
  have hfollows : Follows cache last (replacing false given) := fun s => by rw [hheld]
  have hbaseline' : last.baseline = some baseline := (baseline_of_rest h.rest).trans hbaseline
  have hentries : ∀ s, given s = none → (account.published cache false given
      update.requiredSourceCount includes).entries s = account.entries s := by
    intro s hnone
    rw [FrontendUpdate.published_entries, hnone]
  -- A source that is untouched afterwards was untouched before.
  have huntouched : ∀ s, (account.published cache false given update.requiredSourceCount
      includes).entries s = none → given s = none ∧ account.entries s = none := by
    intro s hentry
    rw [FrontendUpdate.published_entries] at hentry
    cases hvalue : given s with
    | some value =>
      rw [hvalue] at hentry
      cases hentry
    | none =>
      rw [hvalue] at hentry
      exact ⟨rfl, hentry⟩
  have hincludes : ∀ s, (account.published cache false given update.requiredSourceCount
      includes).includes s = if (given s).isSome then includes s else account.includes s :=
    fun _ => rfl
  refine ⟨rfl, fun s hlt => ?_, ?_, fun s item hitem hentry => ?_, fun hnone => ?_,
    fun baseline' hsome => ?_⟩
  · have hnone : given s = none := by
      cases hvalue : given s with
      | none => rfl
      | some value => exact absurd (hprepared.range s value hvalue).2 (Nat.not_le.mpr hlt)
    rw [hentries s hnone]
    exact hsound.beyond s (Nat.lt_of_le_of_lt hprepared.count hlt)
  · have hsame : last.baseline = cache.baseline := hbaseline'.trans hbaseline.symm
    show Total update.candidateSummary (Account.record _ last.baseline) _
    rw [hsame]
    exact hprepared.total.congr fun s _ _ =>
      FrontendUpdate.published_record hcollected hprepared.owned cache.baseline s
  · rw [hheld] at hitem
    rw [hincludes]
    cases after_cases hitem with
    | inl hnew =>
      rw [hnew, if_pos (by simp)]
      exact hfollows.current (hwired.imports s item hnew)
    | inr hkept =>
      have hnone : given s = none := hkept.1
      rw [hentries s hnone] at hentry
      rw [hnone, if_neg (by simp)]
      exact hfollows.current_kept hsound hwired hkept.1 hkept.2 hentry
  · rw [hbaseline'] at hnone
    cases hnone
  · rw [hbaseline'] at hsome
    cases hsome
    refine ⟨⟨⟨hoverlay.indexed.index, hoverlay.indexed.reserved⟩, hoverlay.bound, hoverlay.sound,
      hoverlay.pending_absent, hoverlay.address, hoverlay.distinct, hoverlay.retired⟩,
      fun s value hne hentry hmem => ?_, fun e he => ?_, fun s hentry => ?_,
      fun s data hread hentry i hi => ?_, fun s hentry => ?_,
      Nat.le_trans hbacked.count hprepared.count, hbacked.verified⟩
    · have habsent : s ∉ cache.sources ∧ given s = none := by
        refine ⟨fun hold => hmem ((h.sources s).mpr (.inl hold)), ?_⟩
        cases hvalue : given s with
        | none => rfl
        | some value =>
          exact absurd ((h.sources s).mpr (.inr ⟨_, (hcollected.given s value).mp hvalue, rfl⟩)) hmem
      rw [hentries s habsent.2] at hentry
      exact hbacked.covered s value hne hentry habsent.1
    · rcases h.entry_given hcollected he with ⟨-, hvalue⟩ | ⟨-, hold⟩
      · exact (hprepared.range e.source _ hvalue).2
      · exact Nat.le_trans (hbacked.inside e hold) hprepared.count
    · exact hbacked.untouched s (huntouched s hentry).2
    · obtain ⟨hnone, hold⟩ := huntouched s hentry
      have hpresent : (account.record cache.baseline s).present = true := by
        unfold Account.record
        rw [hold, hbaseline]
        show (baseline.record s).present = true
        unfold FrontendBaseline.record
        rw [hread.record]
        rfl
      have hclosed := hwired.closed s hnone hpresent i (by rw [hbacked.includes s hold]; exact hi)
      rw [hentries i hclosed]
      exact hbacked.closed s data hread hold i hi
    · obtain ⟨hnone, hold⟩ := huntouched s hentry
      rw [hincludes, hnone, if_neg (by simp)]
      exact hbacked.includes s hold

end FrontendCache
end ServerEngine
