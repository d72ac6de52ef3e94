import ServerEngine.Frontend.OverlayPublication

/-! # Updates in progress

What an open update of the frontend cache has established at each of its stages, and that collecting,
preparing and cancelling keep it and the cache as they are.
-/
namespace ServerEngine
open SourceIndex SourceInterface

namespace FrontendCache
variable {account : Account} {cache cache' : FrontendCache} {source : Nat}
  {given : Nat → Option (Option CachedInterface)}

def HeldBelow (cache cache' : FrontendCache) : Prop :=
  cache.nextAddress ≤ cache'.nextAddress ∧ ∀ t old, cache'.held t = some old →
    cache.held t = some old ∨ (cache.nextAddress ≤ old.address ∧ old.external = none)

theorem GivenSound.later (h : GivenSound account cache given) (hbelow : HeldBelow cache cache') :
    GivenSound account cache' given := by
  refine ⟨h.zero, h.bound, h.external, fun s item hitem => ?_, fun s item t old hitem hold => ?_,
    h.distinct⟩
  · obtain ⟨hlt, hfresh⟩ := h.address s item hitem
    exact ⟨Nat.lt_of_lt_of_le hlt hbelow.1, hfresh⟩
  · cases hbelow.2 t old hold with
    | inl hheld => exact h.apart s item t old hitem hheld
    | inr hnew =>
      have := (h.address s item hitem).1
      omega

theorem given_nothing (account : Account) (cache : FrontendCache) :
    GivenSound account cache fun _ => none := by
  refine ⟨rfl, ?_, ?_, ?_, ?_, ?_⟩ <;> simp

theorem GivenSound.give (h : GivenSound account cache given) (hsound : CacheSound account cache)
    (hne : source ≠ 0) (hle : source ≤ u32Max) (tables : Option SourceInterface) :
    GivenSound account { cache with nextAddress := cache.nextAddress + 1 }
      (Function.update given source (some (tables.map (⟨cache.nextAddress, ·, none⟩)))) := by
  -- Either it is the new interface or one from before.
  have hcases : ∀ s item, Function.update given source
      (some (tables.map (⟨cache.nextAddress, ·, none⟩))) s = some (some item) →
      (s = source ∧ item.address = cache.nextAddress ∧ item.external = none) ∨
        (s ≠ source ∧ given s = some (some item)) := by
    intro s item hitem
    by_cases hs : s = source
    · rw [hs, Function.update_self] at hitem
      cases tables with
      | none => cases hitem
      | some value =>
        cases hitem
        exact .inl ⟨hs, rfl, rfl⟩
    · rw [Function.update_of_ne hs] at hitem
      exact .inr ⟨hs, hitem⟩
  refine ⟨?_, fun s value hvalue => ?_, fun s item hitem => ?_, fun s item hitem => ?_,
    fun s item t old hitem hold => ?_, fun s t item item' hitem hitem' heq => ?_⟩
  · rw [Function.update_of_ne hne.symm]
    exact h.zero
  · by_cases hs : s = source
    · rw [hs]
      exact hle
    · rw [Function.update_of_ne hs] at hvalue
      exact h.bound s value hvalue
  · rcases hcases s item hitem with ⟨-, -, hexternal⟩ | ⟨-, hold⟩
    · exact hexternal
    · exact h.external s item hold
  · show item.address < cache.nextAddress + 1 ∧ _
    rcases hcases s item hitem with ⟨-, haddress, -⟩ | ⟨-, hold⟩
    · rw [haddress]
      exact ⟨Nat.lt_succ_self _, fun hmem => Nat.lt_irrefl _ (hsound.retired_lt _ hmem)⟩
    · obtain ⟨hlt, hfresh⟩ := h.address s item hold
      exact ⟨Nat.lt_succ_of_lt hlt, hfresh⟩
  · have hheld : cache.held t = some old := hold
    rcases hcases s item hitem with ⟨-, haddress, -⟩ | ⟨-, hbefore⟩
    · have := (hsound.held_address hheld).1
      omega
    · exact h.apart s item t old hbefore hheld
  · rcases hcases s item hitem with ⟨hs, haddress, -⟩ | ⟨-, hbefore⟩
    · rcases hcases t item' hitem' with ⟨ht, -, -⟩ | ⟨-, hbefore'⟩
      · rw [hs, ht]
      · have := (h.address t item' hbefore').1
        omega
    · rcases hcases t item' hitem' with ⟨-, haddress', -⟩ | ⟨-, hbefore'⟩
      · have := (h.address s item hbefore).1
        omega
      · exact h.distinct s t item item' hbefore hbefore' heq

end FrontendCache

namespace FrontendUpdate
open FrontendCache
variable {account : Account} {cache cache' : FrontendCache} {update : FrontendUpdate} {source : Nat}
  {given : Nat → Option (Option CachedInterface)}

/-! ## Open updates -/

structure FullCollected (update : FrontendUpdate) (given : Nat → Option (Option CachedInterface)) :
    Prop where
  values : ∀ s, s ≠ 0 → (given s).join = update.fullValues.getD (s - 1) none
  total : Total update.candidateSummary (recordsOf update.fullValues) update.fullValues.length

/-- An open update: what it has collected, and once it is prepared, what its publication needs. -/
structure UpdateSound (account : Account) (cache : FrontendCache) (update : FrontendUpdate)
    (given : Nat → Option (Option CachedInterface)) : Prop where
  fresh : GivenSound account cache given
  unpublished : update.published = false
  collected : update.fullReconstruction = false → update.Collected given
  collecting : update.fullReconstruction = true → update.prepared = false →
    update.FullCollected given
  full : update.fullReconstruction = true → update.prepared = true →
    update.FullPrepared given ∧ cache.baseline = none
  sparse : update.fullReconstruction = false → update.prepared = true →
    SparsePrepared account cache update given
  blocks : update.fullReconstruction = true ∨ update.prepared = false →
    update.frontendBlockSparsePrepared = false

theorem beginUpdate_sound (account : Account) (cache : FrontendCache) (full storeAllocated : Bool) :
    UpdateSound account cache (beginUpdate full storeAllocated) fun _ => none where
  fresh := given_nothing account cache
  unpublished := rfl
  collected _ := ⟨indexes_nil, fun s value => by simp [beginUpdate]⟩
  collecting _ _ := by
    refine ⟨fun s _ => by simp [fullValues, beginUpdate], fun k => ?_⟩
    cases k <;> rfl
  full _ h := by cases h
  sparse _ h := by cases h
  blocks _ := rfl

theorem UpdateSound.failed (h : UpdateSound account cache update given) (code : Option StatusCode) :
    UpdateSound account cache { update with failure := code } given where
  fresh := h.fresh
  unpublished := h.unpublished
  collected hfull := ⟨(h.collected hfull).index, (h.collected hfull).given⟩
  collecting hfull hprepared :=
    ⟨(h.collecting hfull hprepared).values, (h.collecting hfull hprepared).total⟩
  full hfull hprepared := by
    obtain ⟨hbuilt, hnone⟩ := h.full hfull hprepared
    exact ⟨⟨hbuilt.built, hbuilt.length, hbuilt.refs, hbuilt.total⟩, hnone⟩
  sparse hfull hprepared := by
    have hsparse := h.sparse hfull hprepared
    exact ⟨hsparse.range, hsparse.owned, hsparse.total, hsparse.sparse, hsparse.updates,
      hsparse.count, hsparse.context, hsparse.room, hsparse.store⟩
  blocks := h.blocks

theorem UpdateSound.later (h : UpdateSound account cache update given)
    (hbelow : HeldBelow cache cache') (hrest : cache'.rest = cache.rest)
    (hindex : cache.overlayIndex.length ≤ cache'.overlayIndex.length)
    (hhalf : cache'.overlay.length = cache.overlay.length ∨
      cache'.overlay.length * 2 ≤ cache'.overlayIndex.length) :
    UpdateSound account cache' update given := by
  have hbaseline := baseline_of_rest hrest
  refine ⟨h.fresh.later hbelow, h.unpublished, h.collected, h.collecting, fun hfull hprepared => ?_,
    fun hfull hprepared => ?_, h.blocks⟩
  · obtain ⟨hbuilt, hnone⟩ := h.full hfull hprepared
    exact ⟨hbuilt, hbaseline.trans hnone⟩
  · have hsparse := h.sparse hfull hprepared
    have hcontext : cache'.denseContext = cache.denseContext := by
      have hfield : cache'.rest.denseContext = cache.rest.denseContext := by rw [hrest]
      exact hfield
    refine ⟨hsparse.range, hsparse.owned, ?_, hsparse.sparse, hsparse.updates, hsparse.count, ?_,
      fun baseline hsome => ?_, ?_⟩
    · rw [hbaseline]
      exact hsparse.total
    · rw [hcontext, hbaseline]
      exact hsparse.context
    · cases hsparse.room baseline (hbaseline.symm.trans hsome) with
      | inl hnil => exact .inl hnil
      | inr hroom =>
        right
        omega
    · obtain ⟨base, hgrown, hmark, hshows⟩ := hsparse.store
      refine ⟨base, ?_, hmark, fun s item view hheld hview => ?_⟩
      · rw [blocks_of_rest hrest]
        exact hgrown
      · cases hbelow.2 s item hheld with
        | inl hold => exact hshows s item view hold hview
        | inr hnew =>
          rw [hnew.2] at hview
          cases hview

/-! ## Collecting -/

def accepted (given : Nat → Option (Option CachedInterface)) (source : Nat)
    (value : Option CachedInterface) (result : Except StatusCode Unit) :
    Nat → Option (Option CachedInterface) :=
  match result with
  | .ok () => Function.update given source (some value)
  | .error _ => given

theorem recordsOf_beyond {values : List (Option CachedInterface)} {s : Nat} (h : values.length < s) :
    recordsOf values s = {} := by
  unfold recordsOf
  rw [List.getD_eq_default _ _ (by omega)]
  rfl

theorem resizeTo_length (values : List (Option CachedInterface)) (count : Nat) :
    (resizeTo values count).length = max values.length count := by
  unfold resizeTo
  rw [List.length_append, List.length_replicate]
  omega

theorem FullCollected.resized (h : update.FullCollected given)
    (hcontext : update.fullContextCandidate = none) (count : Nat) :
    FullCollected { update with fullCandidate := resizeTo update.fullCandidate count } given := by
  have hvalues : update.fullValues = update.fullCandidate := by
    unfold fullValues
    rw [hcontext]
    rfl
  have hresized : fullValues { update with fullCandidate := resizeTo update.fullCandidate count } =
      resizeTo update.fullCandidate count := by
    rw [hcontext]
    rfl
  constructor
  · intro s hne
    rw [h.values s hne, hresized, hvalues, resizeTo_getD]
  · have htotal := h.total
    rw [hvalues] at htotal
    rw [hresized, resizeTo_length]
    have hlonger := @Total.extend _ _ _ htotal (max update.fullCandidate.length count)
      (Nat.le_max_left _ _) fun s hs => recordsOf_beyond hs
    refine hlonger.congr fun s _ _ => ?_
    unfold recordsOf
    rw [resizeTo_getD]

theorem FullCollected.replaced (h : update.FullCollected given)
    (hcontext : update.fullContextCandidate = none) (hne : source ≠ 0) {value : Option CachedInterface}
    {summary : PersistenceSummary}
    (hsummary : (subtractPersistenceRecord update.candidateSummary (persistenceRecordOf
      ((resizeTo update.fullCandidate source).getD (source - 1) none))).bind
        (addPersistenceRecord · (persistenceRecordOf value)) = some summary) :
    FullCollected { update with
      fullCandidate := (resizeTo update.fullCandidate source).set (source - 1) value
      candidateSummary := summary } (Function.update given source (some value)) := by
  have hresized := h.resized hcontext source
  have hbefore : fullValues { update with fullCandidate := resizeTo update.fullCandidate source } =
      resizeTo update.fullCandidate source := by
    rw [hcontext]
    rfl
  have hafter : fullValues { update with
      fullCandidate := (resizeTo update.fullCandidate source).set (source - 1) value
      candidateSummary := summary } =
        (resizeTo update.fullCandidate source).set (source - 1) value := by
    unfold fullValues
    rw [hcontext]
    rfl
  have hvalues := hresized.values
  have htotal := hresized.total
  rw [hbefore] at hvalues htotal
  have hlong : source ≤ (resizeTo update.fullCandidate source).length := by
    rw [resizeTo_length]
    exact Nat.le_max_right _ _
  have hget : ∀ s, s ≠ 0 → ((resizeTo update.fullCandidate source).set (source - 1) value).getD
      (s - 1) none = if s = source then value
        else (resizeTo update.fullCandidate source).getD (s - 1) none := by
    intro s hs
    rw [List.getD_eq_getElem?_getD, List.getElem?_set]
    by_cases heq : s = source
    · rw [if_pos (by rw [heq]), if_pos (by omega), if_pos heq]
      rfl
    · rw [if_neg (by omega), if_neg heq, List.getD_eq_getElem?_getD]
  constructor
  · intro s hs
    rw [hafter, hget s hs]
    by_cases heq : s = source
    · rw [heq, Function.update_self, if_pos rfl]
      rfl
    · rw [Function.update_of_ne heq, if_neg heq]
      exact hvalues s hs
  · obtain ⟨middle, hsubtract, hadd⟩ := Option.bind_eq_some_iff.mp hsummary
    rw [hafter, List.length_set]
    refine (htotal.replace hne hlong hsubtract hadd).congr fun s hs _ => ?_
    unfold recordsOf
    rw [hget s hs]
    by_cases heq : s = source
    · rw [heq, Function.update_self, if_pos rfl]
    · rw [Function.update_of_ne heq, if_neg heq]

theorem ensureReplacementIndex_ok {fault : Bool} {update' : FrontendUpdate}
    (hindex : Indexes update.replacementIndex (update.replacements.map (·.source)))
    (h : update.ensureReplacementIndex fault (update.replacements.length + 1) = .ok update') :
    ∃ slots, update' = { update with replacementIndex := slots } ∧
      Indexes slots (update.replacements.map (·.source)) ∧ update.replacements.length < slots.length := by
  unfold ensureReplacementIndex at h
  split at h
  · rename_i hzero
    exact absurd hzero (Nat.succ_ne_zero _)
  split at h
  · rename_i hroom
    cases h
    refine ⟨update.replacementIndex, rfl, hindex, ?_⟩
    simp only [Bool.and_eq_true, decide_eq_true_eq] at hroom
    omega
  split at h
  · cases h
  rename_i hcapacity
  split at h
  · cases h
  cases h
  obtain ⟨hrebuilt, hlength⟩ := @Indexes.rebuild _ _ hindex (update.replacements.length + 1)
    (by rw [List.length_map]; omega) hcapacity
  have hhalf := (overlayCapacity_spec hcapacity).2.1
  exact ⟨_, rfl, hrebuilt, by rw [hlength]; omega⟩

theorem map_source_position {slots : List SourceSlot} {replacements : List Replacement}
    (hindex : Indexes slots (replacements.map (·.source))) {i : Nat}
    (hposition : position slots replacements.length source = some i) :
    ∃ r, replacements[i]? = some r ∧ r.source = source := by
  have hlength : replacements.length = (replacements.map (·.source)).length := by simp
  rw [hlength, hindex.position_eq, List.getElem?_map] at hposition
  exact Option.map_eq_some_iff.mp hposition

theorem Collected.modified (h : update.Collected given) {i : Nat} {r : Replacement}
    (hat : update.replacements[i]? = some r) (value : Option CachedInterface) :
    Collected { update with replacements := update.replacements.modify i fun item =>
      { item with interface := value } } (Function.update given r.source (some value)) := by
  constructor
  · have hsources : (update.replacements.modify i fun item =>
        { item with interface := value }).map (·.source) = update.replacements.map (·.source) :=
      map_modify_same update.replacements (fun item => { item with interface := value }) (·.source)
        (fun _ => rfl) i
    show Indexes _ ((update.replacements.modify i fun item =>
      { item with interface := value }).map (·.source))
    rw [hsources]
    exact h.index
  · intro s v
    show _ ↔ (⟨s, v⟩ : Replacement) ∈ update.replacements.modify i _
    rw [mem_modify_of_nodup h.nodup hat]
    by_cases hs : s = r.source
    · rw [hs, Function.update_self]
      simp [eq_comm]
    · rw [Function.update_of_ne hs, h.given]
      simp [hs]

theorem Collected.added (h : update.Collected given)
    (hroom : update.replacements.length < update.replacementIndex.length) (hne : source ≠ 0)
    (hnew : source ∉ update.replacements.map (·.source)) (value : Option CachedInterface) :
    Collected { update with
      replacements := update.replacements ++ [⟨source, value⟩]
      replacementIndex := place update.replacementIndex source (update.replacements.length + 1) }
      (Function.update given source (some value)) := by
  constructor
  · have hplaced := @Indexes.place _ _ h.index source hnew hne (by rw [List.length_map]; exact hroom)
    rw [List.length_map] at hplaced
    show Indexes _ (List.map (·.source) (update.replacements ++ [⟨source, value⟩] : List Replacement))
    rw [List.map_append]
    exact hplaced
  · intro s v
    show _ ↔ (⟨s, v⟩ : Replacement) ∈ update.replacements ++ [⟨source, value⟩]
    rw [List.mem_append, List.mem_singleton, Replacement.mk.injEq]
    by_cases hs : s = source
    · rw [hs, Function.update_self]
      constructor
      · intro heq
        cases heq
        exact .inr ⟨rfl, rfl⟩
      · rintro (hmem | ⟨-, rfl⟩)
        · exact absurd (List.mem_map_of_mem hmem) hnew
        · rfl
    · rw [Function.update_of_ne hs, h.given]
      simp [hs]

theorem unprepared_sound (hfresh : GivenSound account cache given) (hpublished : update.published = false)
    (hprepared : update.prepared = false) (hblocks : update.frontendBlockSparsePrepared = false)
    (hcollected : update.fullReconstruction = false → update.Collected given)
    (hcollecting : update.fullReconstruction = true → update.FullCollected given) :
    UpdateSound account cache update given := by
  refine ⟨hfresh, hpublished, hcollected, fun hfull _ => hcollecting hfull, fun _ h => ?_,
    fun _ h => ?_, fun _ => hblocks⟩
  · rw [hprepared] at h
    cases h
  · rw [hprepared] at h
    cases h

theorem heldBelow_allocate (cache : FrontendCache) {next : Nat} (hle : cache.nextAddress ≤ next) :
    HeldBelow cache { cache with nextAddress := next } := ⟨hle, fun _ _ h => .inl h⟩

/-- `replace` takes a new interface or leaves what was collected as it is. -/
theorem replace_sound (hsound : CacheSound account cache) (h : UpdateSound account cache update given)
    (hle : source ≤ u32Max)
    (hcontext : update.fullReconstruction = true → update.fullContextCandidate = none)
    (faults : ReplaceFaults) (tables : Option SourceInterface) :
    UpdateSound account { cache with nextAddress := cache.nextAddress + 1 }
      (replace faults cache update source (tables.map (⟨cache.nextAddress, ·, none⟩))).1
      (accepted given source (tables.map (⟨cache.nextAddress, ·, none⟩))
        (replace faults cache update source (tables.map (⟨cache.nextAddress, ·, none⟩))).2) := by
  have hkept : UpdateSound account { cache with nextAddress := cache.nextAddress + 1 } update given :=
    h.later (heldBelow_allocate cache (Nat.le_succ _)) rfl (Nat.le_refl _) (.inl rfl)
  unfold replace
  split
  · exact hkept
  split
  · exact hkept
  rename_i hguard
  simp only [Bool.or_eq_true, Bool.not_eq_true', decide_eq_true_eq, not_or, Bool.not_eq_true] at hguard
  obtain ⟨⟨⟨-, hne⟩, hprepared⟩, hpublished⟩ := hguard
  have hblocks := h.blocks (.inr hprepared)
  have hgive := h.fresh.give hsound hne hle tables
  split
  · rename_i hfull
    have hcollecting := h.collecting hfull hprepared
    have hnoContext := hcontext hfull
    split
    · exact hkept
    split
    · exact hkept.failed _
    dsimp only
    split
    · have hresized := hcollecting.resized hnoContext source
      exact unprepared_sound hkept.fresh hpublished hprepared hblocks
        (fun hsparse => absurd (hfull.symm.trans hsparse) (by simp))
        (fun _ => ⟨hresized.values, hresized.total⟩)
    · rename_i summary hsummary
      exact unprepared_sound hgive hpublished hprepared hblocks
        (fun hsparse => absurd (hfull.symm.trans hsparse) (by simp))
        (fun _ => hcollecting.replaced hnoContext hne hsummary)
  · rename_i hsparse
    have hincremental : update.fullReconstruction = false := by simpa using hsparse
    have hcollected := h.collected hincremental
    split
    · exact hkept.failed _
    rename_i update' hensure
    obtain ⟨slots, rfl, hindex, hroom⟩ := ensureReplacementIndex_ok hcollected.index hensure
    have hindexed : Collected { update with replacementIndex := slots } given :=
      ⟨hindex, hcollected.given⟩
    split
    · rename_i i hposition
      obtain ⟨r, hat, rfl⟩ := map_source_position hindex hposition
      exact unprepared_sound hgive hpublished hprepared hblocks (fun _ => hindexed.modified hat _)
        (fun hfull => absurd hfull hsparse)
    · rename_i hposition
      split
      · exact unprepared_sound hkept.fresh hpublished hprepared hblocks
          (fun _ => ⟨hindex, hcollected.given⟩) (fun hfull => absurd hfull hsparse)
      · have hnew : source ∉ update.replacements.map (·.source) := by
          rw [← hindex.position_none, List.length_map]
          exact hposition
        exact unprepared_sound hgive hpublished hprepared hblocks
          (fun _ => hindexed.added hroom hne hnew _) (fun hfull => absurd hfull hsparse)

/-! ## Full contexts -/

def contextAt (address : Nat) (tables : List (Option SourceInterface)) :
    List (Option CachedInterface) :=
  tables.zipIdx.map fun item => item.1.map (⟨address + item.2, ·, none⟩)

def contextGiven (values : List (Option CachedInterface)) (s : Nat) :
    Option (Option CachedInterface) :=
  if s = 0 then none else values[s - 1]?

def acceptedContext (given : Nat → Option (Option CachedInterface))
    (context : Option (List (Option CachedInterface))) (result : Except StatusCode Unit) :
    Nat → Option (Option CachedInterface) :=
  match context, result with
  | some values, .ok () => contextGiven values
  | _, _ => given

theorem contextGiven_at {address : Nat} {tables : List (Option SourceInterface)} {s : Nat}
    {item : CachedInterface} (h : contextGiven (contextAt address tables) s = some (some item)) :
    s ≠ 0 ∧ s ≤ tables.length ∧ item.address = address + (s - 1) ∧ item.external = none := by
  unfold contextGiven at h
  split at h
  · cases h
  rename_i hne
  unfold contextAt at h
  rw [List.getElem?_map] at h
  obtain ⟨pair, hpair, hvalue⟩ := Option.map_eq_some_iff.mp h
  obtain ⟨value, hat, rfl⟩ := Option.map_eq_some_iff.mp hvalue
  rw [List.getElem?_zipIdx] at hpair
  obtain ⟨entry, hentry, rfl⟩ := Option.map_eq_some_iff.mp hpair
  have hlt := (List.getElem?_eq_some_iff.mp hentry).1
  exact ⟨hne, by omega, by simp, rfl⟩

theorem contextGiven_sound (hsound : CacheSound account cache)
    {tables : List (Option SourceInterface)} (hlength : tables.length ≤ u32Max) :
    GivenSound account { cache with nextAddress := cache.nextAddress + tables.length }
      (contextGiven (contextAt cache.nextAddress tables)) := by
  refine ⟨rfl, fun s value hvalue => ?_, fun s item hitem => (contextGiven_at hitem).2.2.2,
    fun s item hitem => ?_, fun s item t old hitem hold => ?_,
    fun s t item item' hitem hitem' heq => ?_⟩
  · unfold contextGiven at hvalue
    split at hvalue
    · cases hvalue
    · have hlt := (List.getElem?_eq_some_iff.mp hvalue).1
      unfold contextAt at hlt
      rw [List.length_map, List.length_zipIdx] at hlt
      omega
  · obtain ⟨hne, hle, haddress, -⟩ := contextGiven_at hitem
    rw [haddress]
    refine ⟨?_, fun hmem => ?_⟩
    · show cache.nextAddress + (s - 1) < cache.nextAddress + tables.length
      omega
    · have := hsound.retired_lt _ hmem
      omega
  · have hheld : cache.held t = some old := hold
    obtain ⟨-, -, haddress, -⟩ := contextGiven_at hitem
    have := (hsound.held_address hheld).1
    omega
  · obtain ⟨hne, -, haddress, -⟩ := contextGiven_at hitem
    obtain ⟨hne', -, haddress', -⟩ := contextGiven_at hitem'
    omega

theorem replaceFullContext_sound (hsound : CacheSound account cache)
    (h : UpdateSound account cache update given) (tables : Option (List (Option SourceInterface))) :
    UpdateSound account
      { cache with nextAddress := cache.nextAddress + (tables.map (·.length)).getD 0 }
      (replaceFullContext cache update (tables.map (contextAt cache.nextAddress ·))).1
      (acceptedContext given (tables.map (contextAt cache.nextAddress ·))
        (replaceFullContext cache update (tables.map (contextAt cache.nextAddress ·))).2) := by
  have hkept : UpdateSound account
      { cache with nextAddress := cache.nextAddress + (tables.map (·.length)).getD 0 } update given :=
    h.later (heldBelow_allocate cache (Nat.le_add_right _ _)) rfl (Nat.le_refl _) (.inl rfl)
  cases tables with
  | none =>
    unfold replaceFullContext
    split
    · exact hkept
    split
    · exact hkept.failed _
    · exact hkept.failed _
  | some values =>
    unfold replaceFullContext
    split
    · exact hkept
    split
    · exact hkept.failed _
    rename_i hguard
    simp only [Bool.or_eq_true, Bool.not_eq_true', not_or, Bool.not_eq_true, Bool.not_eq_false] at hguard
    obtain ⟨⟨⟨⟨-, hprepared⟩, hpublished⟩, hfull⟩, -⟩ := hguard
    dsimp only [Option.map]
    split
    · exact hkept.failed _
    rename_i hlength
    have hsame : (contextAt cache.nextAddress values).length = values.length := by
      simp [contextAt]
    rw [hsame] at hlength
    split
    · exact hkept.failed _
    · rename_i summary hsummary
      refine unprepared_sound (contextGiven_sound hsound (Nat.le_of_not_lt hlength)) hpublished hprepared
        (h.blocks (.inl hfull)) (fun hsparse => absurd (hfull.symm.trans hsparse) (by simp)) fun _ =>
        ⟨fun s hne => ?_, total_foldlM hsummary⟩
      unfold acceptedContext contextGiven fullValues
      dsimp only [Option.getD]
      rw [if_neg hne, List.getD_eq_getElem?_getD]
      cases (contextAt cache.nextAddress values)[s - 1]? <;> rfl

end FrontendUpdate
end ServerEngine
