import ServerEngine.Frontend.CachePreparation

/-! # Publishing an update of the frontend cache

A publication puts the interfaces that the update was given in the place of those of their sources.
The cache that is left is sound for the account with these publications added.
-/
namespace ServerEngine
open SourceIndex SourceInterface

namespace FrontendCache
variable {baseline : FrontendBaseline} {account : Account} {cache cache' : FrontendCache}
  {source : Nat} {item : CachedInterface}

/-! ## What a sound cache does not read -/

theorem CacheSound.allocate (h : CacheSound account cache) {next : Nat}
    (hle : cache.nextAddress ≤ next) : CacheSound account { cache with nextAddress := next } := by
  refine ⟨h.count, h.beyond, h.summary, h.imports, fun hnone => ?_, fun baseline hsome => ?_⟩
  · have hnative := h.native hnone
    refine ⟨hnative.shown, hnative.beyond, hnative.item, fun s item hheld => ?_, hnative.distinct,
      fun a ha => Nat.lt_of_lt_of_le (hnative.retired a ha) hle, hnative.storage⟩
    obtain ⟨hlt, hfresh⟩ := hnative.address s item hheld
    exact ⟨Nat.lt_of_lt_of_le hlt hle, hfresh⟩
  · have hbacked := h.backed baseline hsome
    have hoverlay := hbacked.overlay
    refine ⟨⟨⟨hoverlay.indexed.index, hoverlay.indexed.reserved⟩, hoverlay.bound, hoverlay.sound,
      hoverlay.pending_absent, fun e he item hitem => ?_, hoverlay.distinct,
      fun a ha => Nat.lt_of_lt_of_le (hoverlay.retired a ha) hle⟩, hbacked.covered, hbacked.inside,
      hbacked.untouched, hbacked.closed, hbacked.includes, hbacked.count, hbacked.verified⟩
    obtain ⟨hlt, hfresh⟩ := hoverlay.address e he item hitem
    exact ⟨Nat.lt_of_lt_of_le hlt hle, hfresh⟩

/-- Another block store, which shows what the interfaces in the cache are bound to. -/
theorem CacheSound.blocks (h : CacheSound account cache) {blocks : BlockStore}
    (hshows : ∀ s item view, cache.held s = some item → item.external = some view →
      ∃ data, cache.frontendBlocks.Shows view data ∧ blocks.Shows view data) :
    CacheSound account { cache with frontendBlocks := blocks } := by
  have hshown : ∀ s item, cache.held s = some item →
      item.shown blocks = item.shown cache.frontendBlocks := by
    intro s item hheld
    unfold CachedInterface.shown CachedInterface.runtimeDataView CachedInterface.persistenceDataView
      CachedInterface.localTypes
    cases hexternal : item.external with
    | none => rfl
    | some view =>
      obtain ⟨data, hold, hnew⟩ := hshows s item view hheld hexternal
      dsimp only
      rw [hold.read_eq, hnew.read_eq]
  refine ⟨h.count, h.beyond, h.summary, h.imports, fun hnone => ?_, fun baseline hsome => ?_⟩
  · have hnative := h.native hnone
    refine ⟨fun s hne hle => ?_, hnative.beyond, fun s item hheld => ?_, hnative.address,
      hnative.distinct, hnative.retired, hnative.storage⟩
    · rw [hnative.shown s hne hle]
      show some ((cache.nativeInterface s).map _) = some ((cache.nativeInterface s).map _)
      cases hinterface : cache.nativeInterface s with
      | none => rfl
      | some item =>
        have hheld : cache.held s = some item := (held_native hnone hne).trans hinterface
        exact congrArg some (congrArg some (hshown s item hheld).symm)
    · have hitem := hnative.item s item hheld
      constructor
      · intro view hview
        obtain ⟨data, -, hnew⟩ := hshows s item view hheld hview
        exact ⟨data, hnew⟩
      · exact (congrArg (fun shown => shown.data.counts) (hshown s item hheld)).trans hitem.counts
  · have hbacked := h.backed baseline hsome
    have hoverlay := hbacked.overlay
    refine ⟨⟨⟨hoverlay.indexed.index, hoverlay.indexed.reserved⟩, hoverlay.bound, fun e he => ?_,
      hoverlay.pending_absent, hoverlay.address, hoverlay.distinct, hoverlay.retired⟩,
      hbacked.covered, hbacked.inside, hbacked.untouched, hbacked.closed, hbacked.includes,
      hbacked.count, hbacked.verified⟩
    cases hoverlay.sound e he with
    | sentinel hpending => cases hpending
    | published value hresolved hentry hvalue howned =>
      refine .published value hresolved hentry ?_ howned
      rw [← hvalue]
      cases hinterface : e.interface with
      | none => rfl
      | some item =>
        have hheld := (@held_overlay baseline cache e.source item hsome hoverlay.indexed).mpr
          ⟨e, he, rfl, hresolved, hinterface⟩
        exact congrArg some (hshown e.source item hheld)
    | restored item hresolved hentry hinterface hrestored =>
      exact .restored item hresolved hentry hinterface hrestored

theorem resizeTo_getD (values : List (Option CachedInterface)) (count i : Nat) :
    (resizeTo values count).getD i none = values.getD i none := by
  unfold resizeTo
  rcases Nat.lt_or_ge i values.length with hlt | hge
  · rw [List.getD_append _ _ _ _ hlt]
  · rw [List.getD_append_right _ _ _ _ hge, List.getD_eq_default _ _ hge, List.getD_eq_getElem?_getD,
      List.getElem?_replicate]
    split <;> rfl

theorem held_native_congr (hnone : cache.baseline = none) (hnone' : cache'.baseline = none)
    (hsame : ∀ s, cache'.nativeInterface s = cache.nativeInterface s) : cache'.held = cache.held := by
  funext s
  unfold held
  rw [hnone, hnone']
  rw [hsame]

theorem CacheSound.resized (h : CacheSound account cache) {context : List (Option CachedInterface)}
    (hcontext : cache.denseContext = some context) (hnone : cache.baseline = none) (count : Nat) :
    CacheSound account { cache with denseContext := some (resizeTo context count) } := by
  let resized : FrontendCache := { cache with denseContext := some (resizeTo context count) }
  have hsame : ∀ s, resized.nativeInterface s = cache.nativeInterface s := by
    intro s
    unfold nativeInterface
    rw [hcontext]
    exact resizeTo_getD context count (s - 1)
  have hheld : resized.held = cache.held := held_native_congr hnone hnone hsame
  show CacheSound account resized
  have hnative := h.native hnone
  refine ⟨h.count, h.beyond, h.summary, fun s item hitem hentry => ?_, fun _ => ?_,
    fun baseline hsome => ?_⟩
  · unfold Current
    rw [hheld] at hitem ⊢
    exact h.imports s item hitem hentry
  · refine ⟨fun s hne hle => ?_, fun s hlt => ?_, fun s item hitem => ?_, fun s item hitem => ?_,
      fun s t item item' hitem hitem' heq => ?_, hnative.retired, hnative.storage⟩
    · rw [hsame]
      exact hnative.shown s hne hle
    · rw [hsame]
      exact hnative.beyond s hlt
    · rw [hheld] at hitem
      exact hnative.item s item hitem
    · rw [hheld] at hitem
      exact hnative.address s item hitem
    · rw [hheld] at hitem hitem'
      exact hnative.distinct s t item item' hitem hitem' heq
  · rw [hnone] at hsome
    cases hsome

/-! ## What an update is given -/

/-- What a publication puts in the place of the interface of each source; a full one replaces all. -/
def replacing (full : Bool) (given : Nat → Option (Option CachedInterface)) (s : Nat) :
    Option (Option CachedInterface) :=
  if full then some (given s).join else given s

def after (cache : FrontendCache) (replaced : Nat → Option (Option CachedInterface)) (s : Nat) :
    Option CachedInterface :=
  (replaced s).getD (cache.held s)

def replacedAddresses (cache : FrontendCache) (replaced : Nat → Option (Option CachedInterface))
    (count : Nat) : List Nat :=
  (List.range (count + 1)).filterMap fun s =>
    if (replaced s).isSome then (cache.held s).map (·.address) else none

structure GivenSound (account : Account) (cache : FrontendCache)
    (given : Nat → Option (Option CachedInterface)) : Prop where
  zero : given 0 = none
  bound : ∀ s value, given s = some value → s ≤ u32Max
  external : ∀ s item, given s = some (some item) → item.external = none
  address : ∀ s item, given s = some (some item) →
    item.address < cache.nextAddress ∧ item.address ∉ account.retired
  apart : ∀ s item t old, given s = some (some item) → cache.held t = some old →
    item.address ≠ old.address
  distinct : ∀ s t item item', given s = some (some item) → given t = some (some item') →
    item.address = item'.address → s = t

/-- What whoever makes the update sees to: each new interface imports the interfaces its includes
will have, and a source that is left alone includes no source that is replaced. -/
structure Wired (account : Account) (cache : FrontendCache)
    (replaced : Nat → Option (Option CachedInterface)) (includes : Nat → List Nat) : Prop where
  imports : ∀ s item, replaced s = some (some item) →
    List.Forall₂ (fun i a => (cache.after replaced i).map (·.address) = some a) (includes s)
      item.tables.imports
  closed : ∀ s, replaced s = none → (account.record cache.baseline s).present = true →
    ∀ i ∈ account.includes s, replaced i = none

variable {full : Bool} {given : Nat → Option (Option CachedInterface)} {count : Nat}
  {includes : Nat → List Nat}

theorem after_cases {s : Nat} (h : cache.after (replacing full given) s = some item) :
    given s = some (some item) ∨ (replacing full given s = none ∧ cache.held s = some item) := by
  unfold after at h
  cases hreplacing : replacing full given s with
  | none =>
    rw [hreplacing] at h
    exact .inr ⟨rfl, h⟩
  | some value =>
    rw [hreplacing] at h
    obtain rfl : value = some item := h
    unfold replacing at hreplacing
    split at hreplacing
    · exact .inl (Option.join_eq_some_iff.mp (Option.some.inj hreplacing))
    · exact .inl hreplacing

theorem CacheSound.held_range (h : CacheSound account cache) (hheld : cache.held source = some item) :
    source ≠ 0 ∧ source ≤ account.count := by
  constructor
  · rintro rfl
    rw [held_zero h] at hheld
    cases hheld
  cases hbaseline : cache.baseline with
  | none =>
    apply Nat.le_of_not_lt
    intro hlt
    have hne : source ≠ 0 := by omega
    rw [held_native hbaseline hne, (h.native hbaseline).beyond source hlt] at hheld
    cases hheld
  | some baseline =>
    have hbacked := h.backed baseline hbaseline
    obtain ⟨e, he, rfl, -⟩ := (held_overlay hbaseline hbacked.overlay.indexed).mp hheld
    exact hbacked.inside e he

theorem CacheSound.held_present (h : CacheSound account cache)
    (hheld : cache.held source = some item) (hentry : account.entries source ≠ none) :
    (account.record cache.baseline source).present = true := by
  obtain ⟨hne, hle⟩ := h.held_range hheld
  obtain ⟨value, hvalue⟩ := Option.ne_none_iff_exists'.mp hentry
  have hshown := h.held_entry hne hle hvalue
  rw [hheld] at hshown
  unfold Account.record
  rw [hvalue, ← hshown]
  rfl

theorem mem_replacedAddresses {replaced : Nat → Option (Option CachedInterface)} {a : Nat} :
    a ∈ cache.replacedAddresses replaced count ↔
      ∃ s old, s ≤ count ∧ replaced s ≠ none ∧ cache.held s = some old ∧ old.address = a := by
  unfold replacedAddresses
  rw [List.mem_filterMap]
  constructor
  · rintro ⟨s, hs, hresult⟩
    split at hresult
    · rename_i hreplaced
      obtain ⟨old, hheld, haddress⟩ := Option.map_eq_some_iff.mp hresult
      rw [List.mem_range] at hs
      exact ⟨s, old, by omega, Option.isSome_iff_ne_none.mp hreplaced, hheld, haddress⟩
    · cases hresult
  · rintro ⟨s, old, hle, hreplaced, hheld, haddress⟩
    refine ⟨s, List.mem_range.mpr (by omega), ?_⟩
    rw [if_pos (Option.isSome_iff_ne_none.mpr hreplaced), hheld]
    exact congrArg some haddress

end FrontendCache

/-! ## The account of a publication -/

/-- The account with the publication of what an update was given. -/
def Account.published (account : Account) (cache : FrontendCache) (full : Bool)
    (given : Nat → Option (Option CachedInterface)) (count : Nat) (includes : Nat → List Nat) :
    Account where
  count := count
  entries s := match FrontendCache.replacing full given s with
    | some value => some (if full then value.bind (·.fullShown) else value.map (·.ownShown))
    | none => account.entries s
  includes s :=
    if (FrontendCache.replacing full given s).isSome then includes s else account.includes s
  retired := account.retired ++
    cache.replacedAddresses (FrontendCache.replacing full given) account.count

namespace FrontendCache
variable {account : Account} {cache cache' : FrontendCache} {source : Nat} {item : CachedInterface}
  {full : Bool} {given : Nat → Option (Option CachedInterface)} {count : Nat}
  {includes : Nat → List Nat}

theorem after_address (hsound : CacheSound account cache) (hgiven : GivenSound account cache given)
    (h : cache.after (replacing full given) source = some item) :
    item.address < cache.nextAddress ∧
      item.address ∉ (account.published cache full given count includes).retired := by
  have hlt : item.address < cache.nextAddress := by
    cases after_cases h with
    | inl hnew => exact (hgiven.address source item hnew).1
    | inr hold => exact (hsound.held_address hold.2).1
  refine ⟨hlt, fun hmem => ?_⟩
  rcases List.mem_append.mp hmem with hretired | hreplaced
  · cases after_cases h with
    | inl hnew => exact (hgiven.address source item hnew).2 hretired
    | inr hold => exact (hsound.held_address hold.2).2 hretired
  · obtain ⟨t, old, -, ht, hheld, haddress⟩ := mem_replacedAddresses.mp hreplaced
    cases after_cases h with
    | inl hnew => exact hgiven.apart source item t old hnew hheld haddress.symm
    | inr hold =>
      obtain rfl := hsound.held_distinct hheld hold.2 haddress
      exact ht hold.1

theorem after_distinct (hsound : CacheSound account cache) (hgiven : GivenSound account cache given)
    {t : Nat} {item' : CachedInterface} (h : cache.after (replacing full given) source = some item)
    (h' : cache.after (replacing full given) t = some item') (heq : item.address = item'.address) :
    source = t := by
  cases after_cases h with
  | inl hnew =>
    cases after_cases h' with
    | inl hnew' => exact hgiven.distinct source t item item' hnew hnew' heq
    | inr hold' => exact absurd heq (hgiven.apart source item t item' hnew hold'.2)
  | inr hold =>
    cases after_cases h' with
    | inl hnew' => exact absurd heq.symm (hgiven.apart t item' source item hnew' hold.2)
    | inr hold' => exact hsound.held_distinct hold.2 hold'.2 heq

theorem published_retired_lt (hsound : CacheSound account cache) :
    ∀ a ∈ (account.published cache full given count includes).retired, a < cache.nextAddress := by
  intro a ha
  rcases List.mem_append.mp ha with hretired | hreplaced
  · exact hsound.retired_lt a hretired
  · obtain ⟨t, old, -, -, hheld, rfl⟩ := mem_replacedAddresses.mp hreplaced
    exact (hsound.held_address hheld).1

def Follows (cache cache' : FrontendCache) (replaced : Nat → Option (Option CachedInterface)) :
    Prop :=
  ∀ s, (cache'.held s).map (·.address) = (cache.after replaced s).map (·.address)

theorem Follows.current {replaced : Nat → Option (Option CachedInterface)}
    (h : Follows cache cache' replaced) {sources addresses : List Nat}
    (hwired : List.Forall₂ (fun i a => (cache.after replaced i).map (·.address) = some a) sources
      addresses) : cache'.Current sources addresses :=
  hwired.imp fun i _ ha => (h i).trans ha

theorem Follows.current_kept {replaced : Nat → Option (Option CachedInterface)}
    (h : Follows cache cache' replaced) (hsound : CacheSound account cache)
    (hwired : Wired account cache replaced includes) (hkept : replaced source = none)
    (hheld : cache.held source = some item) (hentry : account.entries source ≠ none) :
    cache'.Current (account.includes source) item.tables.imports := by
  have hclosed := hwired.closed source hkept (hsound.held_present hheld hentry)
  have hold := hsound.imports source item hheld hentry
  apply h.current
  refine List.forall₂_iff_zip.mpr ⟨hold.length_eq, fun {i _} hmem => ?_⟩
  have hi := hclosed i (List.of_mem_zip hmem).1
  unfold after
  rw [hi]
  exact (List.forall₂_iff_zip.mp hold).2 hmem

theorem published_native (hsound : CacheSound account cache) (hgiven : GivenSound account cache given)
    (hbaseline : cache'.baseline = none) (hcount : cache'.logicalSourceCount = count)
    (hnext : cache'.nextAddress = cache.nextAddress)
    (hfollows : Follows cache cache' (replacing full given))
    (hshown : ∀ s, s ≠ 0 → s ≤ count → (account.published cache full given count includes).entries s =
      some ((cache'.nativeInterface s).map (·.shown cache'.frontendBlocks)))
    (hbeyond : ∀ s, count < s → cache'.nativeInterface s = none ∧
      (account.published cache full given count includes).entries s = some none)
    (hitem : ∀ s item, cache'.held s = some item → item.Sound cache'.frontendBlocks)
    (himports : ∀ s item, cache'.held s = some item → cache'.Current
      ((account.published cache full given count includes).includes s) item.tables.imports)
    (hsummary : Total cache'.persistenceSummary
      ((account.published cache full given count includes).record none) count)
    (hstorage : cache'.nativeFrontendBlockStorageComplete = true) :
    CacheSound (account.published cache full given count includes) cache' := by
  -- Every interface that is held now has the address of one that follows.
  have hafter : ∀ s item, cache'.held s = some item → ∃ item', item'.address = item.address ∧
      cache.after (replacing full given) s = some item' := by
    intro s item hheld
    have haddress := hfollows s
    rw [hheld] at haddress
    obtain ⟨item', hitem', heq⟩ := Option.map_eq_some_iff.mp haddress.symm
    exact ⟨item', heq, hitem'⟩
  refine ⟨hcount, fun s hlt => (hbeyond s hlt).2, ?_, fun s item hheld _ => himports s item hheld,
    fun _ => ?_, fun baseline hsome => ?_⟩
  · rw [hbaseline]
    exact hsummary
  · refine ⟨hshown, fun s hlt => (hbeyond s hlt).1, hitem, fun s item hheld => ?_,
      fun s t item item' hheld hheld' heq => ?_, ?_, fun _ => hstorage⟩
    · obtain ⟨item', haddress, hitem'⟩ := hafter s item hheld
      rw [← haddress, hnext]
      exact after_address hsound hgiven hitem'
    · obtain ⟨new, haddress, hnew⟩ := hafter s item hheld
      obtain ⟨new', haddress', hnew'⟩ := hafter t item' hheld'
      exact after_distinct hsound hgiven hnew hnew' (by rw [haddress, haddress', heq])
    · rw [hnext]
      exact published_retired_lt hsound
  · rw [hbaseline] at hsome
    cases hsome

end FrontendCache

namespace CachedInterface
variable {blocks : BlockStore} {value built : Option CachedInterface}

theorem rel_shown (h : Option.Rel (BuiltFrom blocks) value built) :
    value.bind (·.fullShown) = built.map (·.shown blocks) := by
  cases h with
  | none => rfl
  | some hbuilt => exact hbuilt.shown

theorem rel_address (h : Option.Rel (BuiltFrom blocks) value built) :
    built.map (·.address) = value.map (·.address) := by
  cases h with
  | none => rfl
  | some hbuilt => exact congrArg some hbuilt.address

theorem rel_record (h : Option.Rel (BuiltFrom blocks) value built) :
    persistenceRecordOf built = persistenceRecordOf value := by
  cases h with
  | none => rfl
  | some hbuilt => exact congrArg (PersistenceRecord.mk true) hbuilt.counts

end CachedInterface

namespace FrontendUpdate
open FrontendCache
variable {account : Account} {cache : FrontendCache} {update : FrontendUpdate} {count : Nat}
  {given : Nat → Option (Option CachedInterface)} {includes : Nat → List Nat}

/-! ## Full updates -/

def fullValues (update : FrontendUpdate) : List (Option CachedInterface) :=
  update.fullContextCandidate.getD update.fullCandidate

/-- A prepared full update: its interfaces are bound to the blocks of its store. -/
structure FullPrepared (update : FrontendUpdate) (given : Nat → Option (Option CachedInterface)) :
    Prop where
  built : ∀ s, s ≠ 0 → Option.Rel (CachedInterface.BuiltFrom update.fullFrontendBlocks)
    (given s).join (update.fullValues.getD (s - 1) none)
  length : update.fullValues.length = update.requiredSourceCount
  refs : update.fullFrontendBlockRefs.length = update.requiredSourceCount
  total : Total update.candidateSummary (recordsOf update.fullValues) update.requiredSourceCount

theorem publishFull_nativeInterface (cache : FrontendCache) (update : FrontendUpdate) (s : Nat) :
    (publishFull cache update).nativeInterface s = update.fullValues.getD (s - 1) none := by
  unfold publishFull nativeInterface fullValues
  cases update.fullContextCandidate <;> rfl

theorem publishFull_same (cache : FrontendCache) (update : FrontendUpdate) :
    (publishFull cache update).baseline = cache.baseline ∧
      (publishFull cache update).nextAddress = cache.nextAddress := by
  unfold publishFull
  cases update.fullContextCandidate <;> exact ⟨rfl, rfl⟩

theorem publishFull_sound (hsound : CacheSound account cache) (hgiven : GivenSound account cache given)
    (hprepared : update.FullPrepared given) (hbaseline : cache.baseline = none)
    (hwired : Wired account cache (replacing true given) includes) :
    CacheSound (account.published cache true given update.requiredSourceCount includes)
      (publishSummary (publishFull cache update) update).1 := by
  let cache' := (publishSummary (publishFull cache update) update).1
  have hnative : ∀ s, cache'.nativeInterface s = update.fullValues.getD (s - 1) none :=
    publishFull_nativeInterface cache update
  obtain ⟨hbaselineSame, hnext⟩ := publishFull_same cache update
  have hbaseline' : cache'.baseline = none := hbaselineSame.trans hbaseline
  have hblocks : cache'.frontendBlocks = update.fullFrontendBlocks := rfl
  -- What is held for a source was built from what the update was given for it.
  have hbuilt : ∀ s, s ≠ 0 → Option.Rel (CachedInterface.BuiltFrom cache'.frontendBlocks)
      (given s).join (cache'.nativeInterface s) := by
    intro s hne
    rw [hnative, hblocks]
    exact hprepared.built s hne
  have hheldBuilt : ∀ s item, cache'.held s = some item → ∃ item', given s = some (some item') ∧
      CachedInterface.BuiltFrom cache'.frontendBlocks item' item := by
    intro s item hheld
    have hne : s ≠ 0 := by
      rintro rfl
      unfold held at hheld
      rw [hbaseline'] at hheld
      cases hheld
    rw [held_native hbaseline' hne] at hheld
    have hrel := hbuilt s hne
    rw [hheld] at hrel
    cases hjoin : (given s).join with
    | none =>
      rw [hjoin] at hrel
      cases hrel
    | some item' =>
      rw [hjoin] at hrel
      cases hrel with
      | some h => exact ⟨item', Option.join_eq_some_iff.mp hjoin, h⟩
  have hentries : ∀ s, (account.published cache true given update.requiredSourceCount includes).entries s =
      some ((given s).join.bind (·.fullShown)) := fun s => rfl
  have hshown : ∀ s, s ≠ 0 → (given s).join.bind (·.fullShown) =
      (cache'.nativeInterface s).map (·.shown cache'.frontendBlocks) := by
    intro s hne
    exact CachedInterface.rel_shown (hbuilt s hne)
  have hbeyond : ∀ s, update.requiredSourceCount < s → cache'.nativeInterface s = none := by
    intro s hlt
    rw [hnative]
    apply List.getD_eq_default
    rw [hprepared.length]
    omega
  have hfollows : Follows cache cache' (replacing true given) := by
    intro s
    by_cases hzero : s = 0
    · subst hzero
      unfold held after replacing
      rw [hbaseline', hgiven.zero]
      rfl
    · rw [held_native hbaseline' hzero]
      exact CachedInterface.rel_address (hbuilt s hzero)
  apply published_native hsound hgiven hbaseline'
    (show cache'.logicalSourceCount = update.requiredSourceCount from rfl) hnext hfollows
  · intro s hne _
    rw [hentries, hshown s hne]
  · intro s hlt
    refine ⟨hbeyond s hlt, ?_⟩
    rw [hentries, hshown s (by omega), hbeyond s hlt]
    rfl
  · intro s item hheld
    obtain ⟨item', -, h⟩ := hheldBuilt s item hheld
    exact h.sound
  · intro s item hheld
    obtain ⟨item', hitem', h⟩ := hheldBuilt s item hheld
    rw [h.imports]
    apply hfollows.current
    apply hwired.imports s item'
    unfold replacing
    rw [hitem']
    rfl
  · refine hprepared.total.congr fun s hne _ => ?_
    unfold Account.record recordsOf
    rw [hentries, hshown s hne, ← hnative]
    cases hitem : cache'.nativeInterface s with
    | none => rfl
    | some item =>
      have hheld : cache'.held s = some item := (held_native hbaseline' hne).trans hitem
      obtain ⟨item', -, h⟩ := hheldBuilt s item hheld
      exact congrArg (PersistenceRecord.mk true) h.sound.counts
  · unfold nativeFrontendBlockStorageComplete
    show (true && update.fullFrontendBlockRefs.length == update.requiredSourceCount) = true
    rw [hprepared.refs]
    simp

/-! ## Incremental updates -/

structure Collected (update : FrontendUpdate) (given : Nat → Option (Option CachedInterface)) :
    Prop where
  index : Indexes update.replacementIndex (update.replacements.map (·.source))
  given : ∀ s value, given s = some value ↔ ⟨s, value⟩ ∈ update.replacements

/-- A prepared incremental update: its sources are in the range it was prepared for, its summary is
that of the sources after it, and there is room for it in the cache. -/
structure SparsePrepared (account : Account) (cache : FrontendCache) (update : FrontendUpdate)
    (given : Nat → Option (Option CachedInterface)) : Prop where
  range : ∀ s value, given s = some value → s ≠ 0 ∧ s ≤ update.requiredSourceCount
  owned : ∀ s item, given s = some (some item) → item.ownedData.counts = item.persistenceCounts
  total : Total update.candidateSummary
    (replacedRecords (account.record cache.baseline) update.replacements) update.requiredSourceCount
  sparse : update.frontendBlockSparsePrepared = true
  updates : update.frontendBlockUpdates.length = update.replacements.length
  count : account.count ≤ update.requiredSourceCount
  context : cache.baseline = none → ∀ context, cache.denseContext = some context →
    update.requiredSourceCount ≤ context.length
  room : ∀ baseline, cache.baseline = some baseline → update.replacements = [] ∨
    (cache.overlay.length * 2 ≤ cache.overlayIndex.length ∧
      update.replacements.length * 2 ≤ cache.overlayIndex.length)
  store : ∃ base : BlockStore, base.Grown cache.frontendBlocks ∧
    update.frontendBlockCheckpoint = base.mark ∧
    ∀ s item view, cache.held s = some item → item.external = some view →
      ∃ data, base.Shows view data

theorem Collected.find (h : update.Collected given) (s : Nat) :
    (update.replacements.find? (·.source == s)).map (·.interface) = given s := by
  cases hfind : update.replacements.find? (·.source == s) with
  | some r =>
    have hmem := List.mem_of_find?_eq_some hfind
    have hsource : r.source = s := by simpa using List.find?_some hfind
    refine ((h.given s r.interface).mpr ?_).symm
    rw [← hsource]
    exact hmem
  | none =>
    cases hgiven : given s with
    | none => rfl
    | some value =>
      have hmem := (h.given s value).mp hgiven
      exact absurd (beq_self_eq_true s) (by simpa using List.find?_eq_none.mp hfind _ hmem)

theorem Collected.nodup (h : update.Collected given) :
    (update.replacements.map (·.source)).Nodup := h.index.nodup

theorem Collected.records (h : update.Collected given) (record : Nat → PersistenceRecord) (s : Nat) :
    replacedRecords record update.replacements s =
      match given s with
      | some value => persistenceRecordOf value
      | none => record s := by
  have hfind := h.find s
  unfold replacedRecords
  cases hresult : update.replacements.find? (·.source == s) with
  | none =>
    rw [hresult] at hfind
    rw [← hfind]
    rfl
  | some r =>
    rw [hresult] at hfind
    rw [← hfind]
    rfl

theorem foldl_storeAt {replacements : List Replacement} {values : List (Option CachedInterface)}
    (hnodup : (replacements.map (·.source)).Nodup)
    (hrange : ∀ r ∈ replacements, r.source ≠ 0 ∧ r.source ≤ values.length) :
    (replacements.foldl storeAt values).length = values.length ∧
      ∀ s, s ≠ 0 → (replacements.foldl storeAt values).getD (s - 1) none =
        ((replacements.find? (·.source == s)).map (·.interface)).getD
          (values.getD (s - 1) none) := by
  induction replacements using List.reverseRecOn with
  | nil => exact ⟨rfl, fun s _ => rfl⟩
  | append_singleton replacements r ih =>
    rw [List.map_append, List.nodup_append] at hnodup
    obtain ⟨hlength, hget⟩ := ih hnodup.1 fun r' hr' => hrange r' (List.mem_append_left _ hr')
    obtain ⟨hne, hle⟩ := hrange r (by simp)
    have hfold : (replacements ++ [r]).foldl storeAt values =
        (replacements.foldl storeAt values).set (r.source - 1) r.interface := by
      rw [List.foldl_append]
      rfl
    rw [hfold]
    refine ⟨by rw [List.length_set, hlength], fun s hs => ?_⟩
    rw [List.getD_eq_getElem?_getD, List.getElem?_set, List.find?_append]
    by_cases hsource : s = r.source
    · have hnone : replacements.find? (·.source == s) = none := by
        rw [List.find?_eq_none]
        intro r' hr' heq
        exact hnodup.2.2 _ (List.mem_map_of_mem hr') r.source (by simp)
          ((beq_iff_eq.mp heq).trans hsource)
      rw [if_pos (by rw [hsource]), if_pos (by rw [hlength]; omega), hnone, hsource]
      simp
    · have hother : [r].find? (·.source == s) = none := by simp [Ne.symm hsource]
      rw [if_neg (by omega), hother, Option.or_none, ← List.getD_eq_getElem?_getD]
      exact hget s hs

theorem publishNative_nativeInterface (hcollected : update.Collected given)
    (hprepared : SparsePrepared account cache update given) (hbaseline : cache.baseline = none)
    {s : Nat} (hne : s ≠ 0) :
    (publishNative cache update).nativeInterface s = (given s).getD (cache.nativeInterface s) := by
  have hrange : ∀ r ∈ update.replacements, r.source ≠ 0 ∧ r.source ≤ update.requiredSourceCount :=
    fun r hr => hprepared.range r.source r.interface ((hcollected.given _ _).mpr hr)
  have hstored : ∀ values : List (Option CachedInterface), update.requiredSourceCount ≤ values.length →
      (update.replacements.foldl storeAt values).getD (s - 1) none =
        (given s).getD (values.getD (s - 1) none) := by
    intro values hlength
    rw [(foldl_storeAt hcollected.nodup fun r hr =>
      ⟨(hrange r hr).1, Nat.le_trans (hrange r hr).2 hlength⟩).2 s hne, hcollected.find s]
  have hcontext : ∀ cache' : FrontendCache,
      cache'.denseContext = cache.denseContext.map (update.replacements.foldl storeAt ·) →
      (cache.denseContext = none → cache'.interfaces = update.replacements.foldl storeAt
        (resizeTo cache.interfaces update.requiredSourceCount)) →
      cache'.nativeInterface s = (given s).getD (cache.nativeInterface s) := by
    intro cache' hdense hinterfaces
    unfold nativeInterface
    rw [hdense]
    cases hold : cache.denseContext with
    | some context => exact hstored context (hprepared.context hbaseline context hold)
    | none =>
      show cache'.interfaces.getD (s - 1) none = _
      rw [hinterfaces hold, hstored _ (by unfold resizeTo; simp; omega), resizeTo_getD]
  unfold publishNative
  rw [if_pos hprepared.sparse]
  cases hold : cache.denseContext with
  | some context =>
    apply hcontext
    · rw [hold]
      split <;> rfl
    · intro hnone
      rw [hold] at hnone
      cases hnone
  | none =>
    apply hcontext
    · rw [hold]
      split <;> rfl
    · intro _
      split <;> rfl

theorem publishNative_same (cache : FrontendCache) (update : FrontendUpdate) :
    (publishNative cache update).baseline = cache.baseline ∧
      (publishNative cache update).nextAddress = cache.nextAddress ∧
      (publishNative cache update).frontendBlocks = cache.frontendBlocks ∧
      (publishNative cache update).logicalSourceCount = update.requiredSourceCount := by
  unfold publishNative
  cases cache.denseContext <;> dsimp only <;> split <;> split <;> exact ⟨rfl, rfl, rfl, rfl⟩

theorem foldl_storeRef_length (updates : List (Nat × Nat)) (refs : List Nat) :
    (updates.foldl storeRef refs).length = refs.length := by
  induction updates generalizing refs with
  | nil => rfl
  | cons item rest ih =>
    rw [List.foldl_cons, ih]
    exact List.length_set

theorem publishNative_storage (hsparse : update.frontendBlockSparsePrepared = true) :
    (publishNative cache update).nativeFrontendBlockStorageComplete = true := by
  have hlength : (update.frontendBlockUpdates.foldl storeRef ((cache.frontendBlockRefs ++ List.replicate
        (update.requiredSourceCount - cache.frontendBlockRefs.length) 0).take
          update.requiredSourceCount)).length = update.requiredSourceCount := by
    rw [foldl_storeRef_length, List.length_take, List.length_append, List.length_replicate]
    omega
  unfold nativeFrontendBlockStorageComplete publishNative
  rw [if_pos hsparse]
  simp only [Bool.true_and, beq_iff_eq]
  cases hold : cache.denseContext <;> split <;> exact hlength

theorem published_entries (account : Account) (cache : FrontendCache)
    (given : Nat → Option (Option CachedInterface)) (count : Nat) (includes : Nat → List Nat) (s : Nat) :
    (account.published cache false given count includes).entries s =
      match given s with
      | some value => some (value.map (·.ownShown))
      | none => account.entries s := rfl

theorem published_record (hcollected : update.Collected given)
    (howned : ∀ s item, given s = some (some item) → item.ownedData.counts = item.persistenceCounts)
    (baseline : Option FrontendBaseline) (s : Nat) :
    (account.published cache false given count includes).record baseline s =
      replacedRecords (account.record baseline) update.replacements s := by
  rw [hcollected.records]
  unfold Account.record
  rw [published_entries]
  cases hgiven : given s with
  | none => rfl
  | some value =>
    cases value with
    | none => rfl
    | some item => exact congrArg (PersistenceRecord.mk true) (howned s item hgiven)

/-- Publishing an incremental update of a cache without a baseline. -/
theorem publishNative_sound (hsound : CacheSound account cache)
    (hgiven : GivenSound account cache given) (hcollected : update.Collected given)
    (hprepared : SparsePrepared account cache update given) (hbaseline : cache.baseline = none)
    (hwired : Wired account cache (replacing false given) includes) :
    CacheSound (account.published cache false given update.requiredSourceCount includes)
      (publishSummary (publishNative cache update) update).1 := by
  let cache' := (publishSummary (publishNative cache update) update).1
  obtain ⟨hbaselineSame, hnext, hblocks, hcount⟩ := publishNative_same cache update
  have hbaseline' : cache'.baseline = none := hbaselineSame.trans hbaseline
  have hnative : ∀ s, s ≠ 0 → cache'.nativeInterface s = (given s).getD (cache.nativeInterface s) :=
    fun s hne => publishNative_nativeInterface hcollected hprepared hbaseline hne
  have hsame : cache'.frontendBlocks = cache.frontendBlocks := hblocks
  have hold := hsound.native hbaseline
  have hafter : ∀ s, cache'.held s = cache.after (replacing false given) s := by
    intro s
    unfold after replacing
    by_cases hzero : s = 0
    · subst hzero
      unfold held
      rw [hbaseline', hbaseline, hgiven.zero]
      rfl
    · rw [held_native hbaseline' hzero, hnative s hzero, held_native hbaseline hzero]
      rfl
  have hfollows : Follows cache cache' (replacing false given) := fun s => by rw [hafter]
  have hbeyond : ∀ s, update.requiredSourceCount < s → given s = none ∧
      cache.nativeInterface s = none := by
    intro s hlt
    refine ⟨?_, hold.beyond s (Nat.lt_of_le_of_lt hprepared.count hlt)⟩
    cases hvalue : given s with
    | none => rfl
    | some value =>
      have := (hprepared.range s value hvalue).2
      omega
  have hcases : ∀ s item, cache'.held s = some item → given s = some (some item) ∨
      (given s = none ∧ cache.held s = some item) := by
    intro s item hheld
    rw [hafter] at hheld
    exact after_cases hheld
  apply published_native hsound hgiven hbaseline'
    (show cache'.logicalSourceCount = update.requiredSourceCount from hcount) hnext hfollows
  · intro s hne hle
    rw [published_entries, hnative s hne, hsame]
    cases hvalue : given s with
    | some value =>
      cases value with
      | none => rfl
      | some item =>
        exact congrArg (fun shown => some (some shown))
          (CachedInterface.shown_own (hgiven.external s item hvalue) cache.frontendBlocks).symm
    | none =>
      rcases Nat.lt_or_ge account.count s with hlt | hge
      · rw [hsound.beyond s hlt, hold.beyond s hlt]
        rfl
      · exact hold.shown s hne hge
  · intro s hlt
    obtain ⟨hnone, habsent⟩ := hbeyond s hlt
    rw [hnative s (by omega), published_entries, hnone, habsent]
    exact ⟨rfl, hsound.beyond s (Nat.lt_of_le_of_lt hprepared.count hlt)⟩
  · intro s item hheld
    rw [hsame]
    cases hcases s item hheld with
    | inl hnew =>
      exact CachedInterface.sound_owned (hgiven.external s item hnew) (hprepared.owned s item hnew)
    | inr hkept => exact hold.item s item hkept.2
  · intro s item hheld
    cases hcases s item hheld with
    | inl hnew =>
      have hincludes : (account.published cache false given update.requiredSourceCount
          includes).includes s = includes s := if_pos (by rw [replacing]; simp [hnew])
      rw [hincludes]
      exact hfollows.current (hwired.imports s item hnew)
    | inr hkept =>
      have hincludes : (account.published cache false given update.requiredSourceCount
          includes).includes s = account.includes s := if_neg (by rw [replacing]; simp [hkept.1])
      obtain ⟨hne, hle⟩ := hsound.held_range hkept.2
      rw [hincludes]
      apply hfollows.current_kept hsound hwired hkept.1 hkept.2
      rw [hold.shown s hne hle]
      simp
  · rw [← hbaseline]
    exact hprepared.total.congr fun s _ _ =>
      published_record hcollected hprepared.owned cache.baseline s
  · exact publishNative_storage hprepared.sparse

end FrontendUpdate
end ServerEngine
