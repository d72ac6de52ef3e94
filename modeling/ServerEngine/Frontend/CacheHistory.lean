import ServerEngine.Frontend.PreparedUpdates

/-! # Histories of the frontend cache

Every history of updates and look-ups leaves a cache that shows what was last published. The
exceptions are a look-up that fails behind its sentinel, and look-ups that take the slots reserved
for a prepared publication.
-/
namespace ServerEngine
open SourceIndex SourceInterface FrontendCache FrontendUpdate

/-! ## Histories -/

/-- The cache with an update, open or not, what the update has been given, and the account of all
publications. -/
structure CacheMachine where
  cache : FrontendCache
  update : FrontendUpdate := { owner := false }
  given : Nat → Option (Option CachedInterface) := fun _ => none
  account : Account

/-- What can happen to the cache. The includes of a publication are those of the sources it replaces,
which the source manager publishes with it. -/
inductive CacheAction
  | begin (full storeAllocated : Bool)
  | replace (faults : ReplaceFaults) (source : Nat) (tables : Option SourceInterface)
  | replaceFullContext (tables : Option (List (Option SourceInterface)))
  | prepare (faults : PrepareFaults) (required : Nat)
  | publish (includes : Nat → List Nat)
  | cancel
  | lookup (faults : Nat → LookupFaults) (source : Nat)

namespace CacheMachine

def step (m : CacheMachine) : CacheAction → CacheMachine
  | .begin full storeAllocated => { m with
      cache := (FrontendUpdate.cancel m.cache m.update).1
      update := beginUpdate full storeAllocated
      given := fun _ => none }
  | .replace faults source tables =>
    let value := tables.map (⟨m.cache.nextAddress, ·, none⟩)
    let (update, result) := FrontendUpdate.replace faults m.cache m.update source value
    { m with
      cache := { m.cache with nextAddress := m.cache.nextAddress + 1 }
      update := update
      given := accepted m.given source value result }
  | .replaceFullContext tables =>
    let context := tables.map (contextAt m.cache.nextAddress ·)
    let (update, result) := FrontendUpdate.replaceFullContext m.cache m.update context
    { m with
      cache := { m.cache with
        nextAddress := m.cache.nextAddress + (tables.map (·.length)).getD 0 }
      update := update
      given := acceptedContext m.given context result }
  | .prepare faults required =>
    let (cache, update, _) := preparePublish faults m.cache m.update required
    { m with cache := cache, update := update }
  | .publish includes =>
    let (cache, update) := publishPrepared m.cache m.update
    { m with
      cache := cache
      update := update
      account := if update.published && !m.update.published then
          m.account.published m.cache m.update.fullReconstruction m.given
            m.update.requiredSourceCount includes
        else m.account }
  | .cancel =>
    let (cache, update) := FrontendUpdate.cancel m.cache m.update
    { m with cache := cache, update := update }
  | .lookup faults source => { m with cache := (m.cache.interface faults source).1 }

def run (m : CacheMachine) (actions : List CacheAction) : CacheMachine := actions.foldl step m

def baselineAccount (baseline : FrontendBaseline) : Account where
  count := baseline.sourceCount
  entries s := if s = 0 || s > baseline.sourceCount then some none else none
  includes := baseline.includes

inductive Starts : CacheMachine → Prop
  | construction : Starts { cache := {}, account := {} }
  | backed (baseline : FrontendBaseline) (hverified : baseline.Verified) :
      Starts { cache := .ofBaseline baseline, account := baselineAccount baseline }

/-- What the callers see to: a context is not mixed with single replacements, the count covers what
there is, and the interfaces that are published are wired to the current ones. -/
def Promised (m : CacheMachine) : CacheAction → Prop
  | .replace _ source _ => source ≤ u32Max ∧ (m.update.owner = true →
      m.update.fullReconstruction = true → m.update.fullContextCandidate = none)
  | .prepare _ required => m.update.owner = true →
      (m.update.fullReconstruction = true → m.update.fullCandidate.length ≤ required) ∧
      (m.update.fullReconstruction = false → m.account.count ≤ required)
  | .publish includes => m.update.owner = true → m.update.prepared = true →
      Wired m.account m.cache (replacing m.update.fullReconstruction m.given) includes
  | _ => True

/-- The steps that do not run into a fault of the cache: a look-up that cannot fail behind its
sentinel, and a publication that has a slot for every new source. -/
def Clear (m : CacheMachine) : CacheAction → Prop
  | .publish _ => m.update.owner = true → m.update.prepared = true →
      m.update.fullReconstruction = false → m.cache.baseline ≠ none → OverlayRoom m.cache m.update
  | .lookup faults source => LookupClear faults m.cache source
  | _ => True

def Each (condition : CacheMachine → CacheAction → Prop) : CacheMachine → List CacheAction → Prop
  | _, [] => True
  | m, action :: rest => condition m action ∧ Each condition (m.step action) rest

def Publishes (m : CacheMachine) : CacheAction → Prop
  | .publish _ => m.update.owner = true ∧ m.update.prepared = true
  | _ => False

/-! ## The invariant -/

structure Sound (m : CacheMachine) : Prop where
  cache : CacheSound m.account m.cache
  update : m.update.owner = true → UpdateSound m.account m.cache m.update m.given

variable {m : CacheMachine}

theorem starts_sound (h : m.Starts) : m.Sound := by
  cases h with
  | construction =>
    have hnothing : ∀ s, FrontendCache.held {} s = none := by
      intro s
      show (if s = 0 then none else nativeInterface {} s) = none
      split
      · rfl
      · exact List.getD_nil
    refine ⟨⟨rfl, fun _ _ => rfl, fun k => by cases k <;> rfl, fun s item hheld => ?_, fun _ => ?_,
      fun baseline hsome => by cases hsome⟩, fun howner => by cases howner⟩
    · rw [hnothing] at hheld
      cases hheld
    · refine ⟨fun s hne hle => absurd (Nat.le_zero.mp hle) hne, fun s _ => by simp [nativeInterface],
        fun s item hheld => ?_, fun s item hheld => ?_, fun s t item item' hheld => ?_,
        (fun a ha => by cases ha), fun hcomplete => by cases hcomplete⟩
      · rw [hnothing] at hheld
        cases hheld
      · rw [hnothing] at hheld
        cases hheld
      · rw [hnothing] at hheld
        cases hheld
  | backed baseline hverified =>
    have hempty : ∀ e, e ∉ (FrontendCache.ofBaseline baseline).overlay := by
      intro e he
      cases he
    have hindexed : (FrontendCache.ofBaseline baseline).Indexed := ⟨indexes_nil, Nat.zero_le _⟩
    have huntouched : ∀ s, (baselineAccount baseline).entries s = none →
        s ≠ 0 ∧ s ≤ baseline.sourceCount := by
      intro s hentry
      unfold baselineAccount at hentry
      dsimp only at hentry
      split at hentry
      · cases hentry
      · rename_i hin
        simpa using hin
    refine ⟨⟨rfl, fun s hlt => ?_, ?_, fun s item hheld => ?_, (fun hnone => by cases hnone),
      fun baseline' hsome => ?_⟩, fun howner => by cases howner⟩
    · exact if_pos (by simpa using .inr hlt)
    · refine hverified.total.congr fun s hne hle => ?_
      have hentry : (baselineAccount baseline).entries s = none :=
        if_neg (by simpa [hne] using hle)
      unfold Account.record
      rw [hentry]
      rfl
    · obtain ⟨e, he, -⟩ := (held_overlay rfl hindexed).mp hheld
      exact absurd he (hempty e)
    · cases hsome
      refine ⟨⟨hindexed, fun e he => absurd he (hempty e), fun e he => absurd he (hempty e),
        (fun s hs => by cases hs), fun e he => absurd he (hempty e),
        fun e he => absurd he (hempty e), (fun a ha => by cases ha)⟩, fun s value hne hentry _ => ?_, fun e he => absurd he (hempty e),
        huntouched, fun s data _ hentry i hi => ?_, fun _ _ => rfl, Nat.le_refl _, hverified⟩
      · unfold baselineAccount at hentry
        dsimp only at hentry
        split at hentry
        · rename_i hout
          cases hentry
          refine ⟨?_, rfl⟩
          simpa [hne] using hout
        · cases hentry
      · obtain ⟨hne, hle⟩ := huntouched s hentry
        obtain ⟨hne', hle'⟩ := hverified.includes s hne hle i hi
        exact if_neg (by simpa [hne'] using hle')

theorem closed_update {update : FrontendUpdate} (h : update.owner = false) (cache : FrontendCache) :
    (∀ faults source value, (FrontendUpdate.replace faults cache update source value).1 = update) ∧
    (∀ context, (FrontendUpdate.replaceFullContext cache update context).1.owner = false) ∧
    (∀ faults required, preparePublish faults cache update required =
      (cache, update, (preparePublish faults cache update required).2.2)) := by
  refine ⟨fun faults source value => ?_, fun context => ?_, fun faults required => ?_⟩
  · unfold FrontendUpdate.replace
    cases update.failure with
    | some code => rfl
    | none => rw [h]; rfl
  · unfold FrontendUpdate.replaceFullContext
    cases update.failure with
    | some code => exact h
    | none => rw [h]; exact h
  · unfold preparePublish
    cases update.failure with
    | some code => rfl
    | none => rw [h]; rfl

theorem cancel_closed (cache : FrontendCache) {update : FrontendUpdate}
    (h : update.owner = true → update.published = false) :
    (FrontendUpdate.cancel cache update).2.owner = false := by
  unfold FrontendUpdate.cancel
  split
  · rename_i hclosed
    cases howner : update.owner with
    | false => rfl
    | true =>
      rw [howner, h howner] at hclosed
      cases hclosed
  · split <;> rfl

theorem Sound.cancelled (h : m.Sound) :
    CacheSound m.account (FrontendUpdate.cancel m.cache m.update).1 ∧
      (FrontendUpdate.cancel m.cache m.update).1.held = m.cache.held := by
  cases howner : m.update.owner with
  | true => exact cancel_sound h.cache (h.update howner)
  | false =>
    unfold FrontendUpdate.cancel
    rw [howner]
    exact ⟨h.cache, rfl⟩

/-- One step keeps the cache sound; one that publishes nothing keeps the account and every interface
that is in the cache. -/
theorem Sound.step (h : m.Sound) {action : CacheAction} (hpromised : m.Promised action)
    (hclear : m.Clear action) : (m.step action).Sound ∧ (¬m.Publishes action →
      (m.step action).account = m.account ∧
        ∀ s item, m.cache.held s = some item → (m.step action).cache.held s = some item) := by
  cases action with
  | begin full storeAllocated =>
    obtain ⟨hsound, hheld⟩ := h.cancelled
    refine ⟨⟨hsound, fun _ => beginUpdate_sound _ _ full storeAllocated⟩, fun _ => ⟨rfl, ?_⟩⟩
    intro s item hold
    show (FrontendUpdate.cancel m.cache m.update).1.held s = some item
    rw [hheld]
    exact hold
  | replace faults source tables =>
    refine ⟨⟨h.cache.allocate (Nat.le_succ _), fun howner => ?_⟩, fun _ => ⟨rfl, fun s item hold => hold⟩⟩
    cases hopen : m.update.owner with
    | true =>
      exact replace_sound h.cache (h.update hopen) hpromised.1 (hpromised.2 hopen) faults tables
    | false =>
      have hsame := (closed_update hopen m.cache).1 faults source
        (tables.map (⟨m.cache.nextAddress, ·, none⟩))
      have hstays : (m.step (.replace faults source tables)).update.owner = false := by
        show (FrontendUpdate.replace faults m.cache m.update source _).1.owner = false
        rw [hsame, hopen]
      rw [hstays] at howner
      cases howner
  | replaceFullContext tables =>
    refine ⟨⟨h.cache.allocate (Nat.le_add_right _ _), fun howner => ?_⟩,
      fun _ => ⟨rfl, fun s item hold => hold⟩⟩
    cases hopen : m.update.owner with
    | true => exact replaceFullContext_sound h.cache (h.update hopen) tables
    | false =>
      have hstays : (m.step (.replaceFullContext tables)).update.owner = false :=
        (closed_update hopen m.cache).2.1 _
      rw [hstays] at howner
      cases howner
  | prepare faults required =>
    cases hopen : m.update.owner with
    | true =>
      obtain ⟨hfull, hcount⟩ := hpromised hopen
      obtain ⟨hsound, hheld, hupdate⟩ := preparePublish_sound h.cache (h.update hopen) hfull hcount faults
      refine ⟨⟨hsound, fun _ => hupdate⟩, fun _ => ⟨rfl, fun s item hold => ?_⟩⟩
      show (preparePublish faults m.cache m.update required).1.held s = some item
      rw [hheld]
      exact hold
    | false =>
      have hsame := (closed_update hopen m.cache).2.2 faults required
      have hstep : m.step (.prepare faults required) = m := by
        unfold CacheMachine.step
        dsimp only
        rw [hsame]
      rw [hstep]
      exact ⟨h, fun _ => ⟨rfl, fun s item hold => hold⟩⟩
  | publish includes =>
    by_cases hready : m.update.owner = true ∧ m.update.prepared = true
    · obtain ⟨howner, hprepared⟩ := hready
      have hupdate := h.update howner
      obtain ⟨hsound, hpublished, hclosed⟩ := publishPrepared_sound h.cache hupdate hprepared howner
        (hpromised howner hprepared) (hclear howner hprepared)
      refine ⟨⟨?_, fun hopen => ?_⟩, fun hnot => absurd ⟨howner, hprepared⟩ hnot⟩
      · unfold CacheMachine.step
        dsimp only
        rw [hpublished, hupdate.unpublished]
        exact hsound
      · have : (publishPrepared m.cache m.update).2.owner = true := hopen
        rw [hclosed] at this
        cases this
    · have hsame : publishPrepared m.cache m.update = (m.cache, m.update) := by
        unfold publishPrepared
        cases howner : m.update.owner with
        | false => simp
        | true =>
          cases hprepared : m.update.prepared with
          | false => simp
          | true => exact absurd ⟨howner, hprepared⟩ hready
      have hstep : m.step (.publish includes) = m := by
        unfold CacheMachine.step
        rw [hsame]
        simp
      rw [hstep]
      exact ⟨h, fun _ => ⟨rfl, fun s item hold => hold⟩⟩
  | cancel =>
    obtain ⟨hsound, hheld⟩ := h.cancelled
    refine ⟨⟨hsound, fun hopen => ?_⟩, fun _ => ⟨rfl, fun s item hold => ?_⟩⟩
    · have hclosed := cancel_closed m.cache fun howner => (h.update howner).unpublished
      rw [show (FrontendUpdate.cancel m.cache m.update).2.owner = true from hopen] at hclosed
      cases hclosed
    · show (FrontendUpdate.cancel m.cache m.update).1.held s = some item
      rw [hheld]
      exact hold
  | lookup faults source =>
    obtain ⟨hsound, hheld⟩ := interface_sound h.cache hclear
    obtain ⟨hlooked, hnative, hbacked⟩ := interface_lookedUp h.cache hclear
    refine ⟨⟨hsound, fun howner => ?_⟩, fun _ => ⟨rfl, hheld⟩⟩
    refine (h.update howner).later ⟨hlooked.nextAddress, fun t old hold => ?_⟩ hlooked.rest hlooked.index
      hlooked.half
    -- What is in the cache now was there before, or it was restored.
    cases hbaseline : m.cache.baseline with
    | none =>
      have hsame : (m.step (.lookup faults source)).cache = m.cache := hnative hbaseline
      rw [hsame] at hold
      exact .inl hold
    | some baseline =>
      have hoverlay := hbacked baseline hbaseline
      have hindexed := (h.cache.backed baseline hbaseline).overlay.indexed
      obtain ⟨e, he, hsource, hresolved, hinterface⟩ :=
        (held_overlay ((baseline_of_rest hlooked.rest).trans hbaseline) hoverlay.indexed).mp hold
      cases hlooked.added e he with
      | inl hbefore =>
        exact .inl ((held_overlay hbaseline hindexed).mpr ⟨e, hbefore, hsource, hresolved, hinterface⟩)
      | inr hadded => exact .inr (hadded.2 old hinterface)

theorem Sound.run (h : m.Sound) {actions : List CacheAction} (hpromised : Each Promised m actions)
    (hclear : Each Clear m actions) : (m.run actions).Sound := by
  induction actions generalizing m with
  | nil => exact h
  | cons action rest ih => exact ih (h.step hpromised.1 hclear.1).1 hpromised.2 hclear.2

/-! ## What the cache shows -/

/-- Everything that can be observed of a cache is what the account says. -/
structure Faithful (account : Account) (cache : FrontendCache) : Prop where
  published : ∀ faults s value, s ≠ 0 → s ≤ account.count → account.entries s = some value →
    (cache.interface faults s).2.map (·.shown cache.frontendBlocks) = value
  restored : ∀ faults s baseline data, cache.baseline = some baseline → account.entries s = none →
    Readable baseline.cache s data → LookupClear faults cache s → ¬RoomFails (faults s) cache →
      ∃ item, (cache.interface faults s).2 = some item ∧ item.external = none ∧
        Holds item.tables data
  outside : ∀ faults s, (s = 0 ∨ account.count < s) →
    (cache.interface faults s).2 = none ∧ cache.persistenceView s = .error .notFound
  imports : ∀ faults s item, LookupClear faults cache s → (cache.interface faults s).2 = some item →
    item.address ∉ account.retired ∧ List.Forall₂ (fun i a => a ∉ account.retired ∧ ∀ faults',
      ((cache.interface faults s).1.interface faults' i).2.map (·.address) = some a)
      (account.includes s) item.tables.imports
  view : ∀ s, s ≠ 0 → s ≤ account.count → ∃ view, cache.persistenceView s = .ok view ∧
    ViewSound account cache.baseline s view
  record : ∀ s, s ≠ 0 → s ≤ account.count →
    cache.persistenceRecord s = .ok (account.record cache.baseline s)
  overlay : ∀ baseline i, cache.baseline = some baseline → i < cache.overlay.length →
    ∃ s view, cache.persistenceOverlay i = .ok (s, view) ∧ ViewSound account cache.baseline s view
  summary : Total cache.persistenceSummary (account.record cache.baseline) account.count

variable {account : Account} {cache : FrontendCache} {s : Nat} {item : CachedInterface}
  {baseline : FrontendBaseline}

theorem interface_inside (hsound : CacheSound account cache) (hne : s ≠ 0) (hle : s ≤ account.count) :
    ¬(s = 0 || s > cache.logicalSourceCount) = true := by
  rw [hsound.count]
  simp [hne]
  omega

theorem interface_held (hsound : CacheSound account cache) (hheld : cache.held s = some item)
    (faults : Nat → LookupFaults) : cache.interface faults s = (cache, some item) := by
  obtain ⟨hne, hle⟩ := hsound.held_range hheld
  unfold FrontendCache.interface
  rw [if_neg (interface_inside hsound hne hle)]
  cases hbaseline : cache.baseline with
  | none =>
    rw [← held_native hbaseline hne, hheld]
  | some baseline =>
    have hindexed := (hsound.backed baseline hbaseline).overlay.indexed
    obtain ⟨e, he, hsource, hresolved, hinterface⟩ := (held_overlay hbaseline hindexed).mp hheld
    dsimp only
    rw [(findOverlay_eq hindexed).mpr ⟨he, hsource⟩]
    dsimp only
    rw [if_pos hresolved, hinterface]

theorem interface_published (hsound : CacheSound account cache) (hne : s ≠ 0) (hle : s ≤ account.count)
    {value : Option Shown} (hentry : account.entries s = some value) (faults : Nat → LookupFaults) :
    cache.interface faults s = (cache, cache.held s) := by
  unfold FrontendCache.interface
  rw [if_neg (interface_inside hsound hne hle)]
  cases hbaseline : cache.baseline with
  | none =>
    rw [held_native hbaseline hne]
  | some baseline =>
    have hbacked := hsound.backed baseline hbaseline
    have hheld : cache.held s = (cache.findOverlay s).bind fun entry =>
        if entry.resolved then entry.interface else none := by
      unfold held
      rw [hbaseline]
    dsimp only
    cases hfind : cache.findOverlay s with
    | some e =>
      rw [hheld, hfind]
      rfl
    | none =>
      have habsent := (findOverlay_none hbacked.overlay.indexed).mp hfind
      have hbeyond := (hbacked.covered s value hne hentry habsent).1
      rw [hheld, hfind]
      dsimp only [Option.bind]
      unfold materializeBaseline
      rw [if_pos (by simp; omega)]

theorem interface_gives (hsound : CacheSound account cache) {faults : Nat → LookupFaults}
    (hclear : LookupClear faults cache s) (hresult : (cache.interface faults s).2 = some item) :
    (cache.interface faults s).1.held s = some item := by
  have hin : s ≠ 0 ∧ s ≤ account.count := by
    apply by_contra
    intro hout
    unfold FrontendCache.interface at hresult
    rw [if_pos] at hresult
    · cases hresult
    · rw [hsound.count]
      simp only [Bool.or_eq_true, decide_eq_true_eq]
      omega
  cases hbaseline : cache.baseline with
  | none =>
    unfold FrontendCache.interface at hresult ⊢
    rw [if_neg (interface_inside hsound hin.1 hin.2), hbaseline] at hresult ⊢
    rw [held_native hbaseline hin.1]
    exact hresult
  | some baseline =>
    have houtcome := interface_outcome hsound hbaseline hclear hin.1 hin.2
    rcases hlookup : cache.interface faults s with ⟨next, result⟩
    rw [hlookup] at houtcome hresult
    cases houtcome with
    | found => exact hresult
    | failed _ hroom hheld => cases hresult
    | restored _ huntouched h =>
      obtain ⟨cache', item', heq, hlooked, hoverlay, e, he⟩ := h
      cases heq
      cases hresult
      exact (held_overlay ((baseline_of_rest hlooked.rest).trans hbaseline) hoverlay.indexed).mpr ⟨e, he⟩

theorem interface_restores (hsound : CacheSound account cache) (hbaseline : cache.baseline = some baseline)
    (hentry : account.entries s = none) {data : InterfaceData} (hread : Readable baseline.cache s data)
    {faults : Nat → LookupFaults} (hclear : LookupClear faults cache s)
    (hroom : ¬RoomFails (faults s) cache) : ∃ item, (cache.interface faults s).2 = some item := by
  have hbacked := hsound.backed baseline hbaseline
  obtain ⟨hne, hinside⟩ := hbacked.untouched s hentry
  have hindexed := hbacked.overlay.indexed
  cases hfind : cache.findOverlay s with
  | some e =>
    obtain ⟨he, hsource⟩ := (findOverlay_eq hindexed).mp hfind
    cases hbacked.overlay.sound e he with
    | sentinel hpending => cases hpending
    | published value _ hentry' =>
      rw [hsource, hentry] at hentry'
      cases hentry'
    | restored item hresolved _ hinterface _ =>
      have hheld := (held_overlay hbaseline hindexed).mpr ⟨e, he, hsource, hresolved, hinterface⟩
      exact ⟨item, by rw [interface_held hsound hheld faults]⟩
  | none =>
    have hpresent : (baseline.record s).present = true := by
      unfold FrontendBaseline.record
      rw [hread.record]
      rfl
    obtain ⟨hrestorable, hfaults⟩ :=
      (hclear baseline hbaseline hne hinside hfind hpresent).resolve_left hroom
    obtain ⟨next, item, hresult, -⟩ := materializeBaseline_ok hbacked.verified.count hrestorable
      hbacked.closed hentry (baseline.sourceCount + 1) cache [] hbacked.overlay (by omega) hfaults
      (fun p hp => by cases hp)
    refine ⟨item, ?_⟩
    unfold FrontendCache.interface
    rw [if_neg (interface_inside hsound hne (Nat.le_trans hinside hbacked.count)), hbaseline]
    rw [hfind]
    dsimp only
    rw [hresult]

theorem Sound.faithful (h : m.Sound) : Faithful m.account m.cache := by
  have hsound := h.cache
  refine ⟨fun faults s value hne hle hentry => ?_,
    fun faults s baseline data hbaseline hentry hread hclear hroom => ?_, fun faults s hout => ?_,
    fun faults s item hclear hresult => ?_, fun s hne hle => persistenceView_ok hsound hne hle,
    fun s hne hle => ?_, fun baseline i hbaseline hi => ?_, hsound.summary⟩
  · rw [interface_published hsound hne hle hentry faults]
    exact hsound.held_entry hne hle hentry
  · obtain ⟨item, hresult⟩ := interface_restores hsound hbaseline hentry hread hclear hroom
    have hlooked := (interface_lookedUp hsound hclear).1
    have hsoundNext := (interface_sound hsound hclear).1
    have hbaselineNext := (baseline_of_rest hlooked.rest).trans hbaseline
    have hitem := (hsoundNext.backed baseline hbaselineNext).restored hbaselineNext hentry
      (interface_gives hsound hclear hresult)
    obtain ⟨data', hread', hholds⟩ := hitem.tables
    rw [readable_unique hread hread']
    exact ⟨item, hresult, hitem.external, hholds⟩
  · refine ⟨?_, persistenceView_outside hsound hout⟩
    unfold FrontendCache.interface
    rw [if_pos]
    rw [hsound.count]
    simpa using hout
  · have hsoundNext := (interface_sound hsound hclear).1
    have hheld := interface_gives hsound hclear hresult
    refine ⟨(hsoundNext.held_address hheld).2, (hsoundNext.held_imports hheld).imp fun i a ha => ?_⟩
    obtain ⟨imported, himported, rfl⟩ := Option.map_eq_some_iff.mp ha
    refine ⟨(hsoundNext.held_address himported).2, fun faults' => ?_⟩
    rw [interface_held hsoundNext himported faults']
    rfl
  · obtain ⟨view, hview, hviewSound⟩ := persistenceView_ok hsound hne hle
    unfold persistenceRecord
    rw [hview, ← hviewSound.record]
    rfl
  · have hbacked := hsound.backed baseline hbaseline
    have hmem : m.cache.overlay[i] ∈ m.cache.overlay := List.getElem_mem hi
    have hne := hbacked.overlay.indexed.index.ne_zero _ (List.mem_map_of_mem hmem)
    obtain ⟨view, hview, hviewSound⟩ := persistenceView_ok hsound hne (hbacked.inside _ hmem)
    refine ⟨m.cache.overlay[i].source, view, ?_, hviewSound⟩
    have hresolved := hbacked.overlay.resolved hmem
    unfold persistenceOverlay
    rw [hbaseline, List.getElem?_eq_getElem hi]
    dsimp only
    rw [if_neg (by simp), if_neg (by simp [hne, hresolved]), hview]
    rfl

def oneSource : FrontendBaseline where
  cache := {
    sourceCount := 1
    frontendComplete := true
    frontendCount := 1
    frontendCounts := {}
    source := fun s => if s = 1 then .ok ⟨true, {}⟩ else .error .notFound
    frontendLocalType := fun _ _ => .error .notFound
    frontendTypeSlot := fun _ _ => .error .notFound
    frontendObjectSlot := fun _ _ => .error .notFound
    frontendMemberSlot := fun _ _ => .error .notFound }
  sourceCount := 1
  includes := fun _ => []

theorem oneSource_verified : oneSource.Verified where
  count := by decide
  source s hne hle := by
    have hone : s = 1 := Nat.le_antisymm hle (Nat.one_le_iff_ne_zero.mpr hne)
    exact ⟨⟨true, {}⟩, by rw [hone]; rfl⟩
  includes s _ _ i hi := by cases hi
  total k := by cases k <;> rfl

theorem oneSource_restorable : Restorable oneSource 1 := by
  refine .intro 1 {} (Nat.le_refl 1) ⟨by decide, rfl, by decide, by decide, by decide, ?_, ?_, ?_, ?_, ?_,
    ?_, ?_, ?_, List.nodup_nil, List.nodup_nil, List.nodup_nil⟩ (fun i hi => by cases hi)
  all_goals intro i hi; cases hi

def oneSourceMachine : CacheMachine where
  cache := .ofBaseline oneSource
  account := baselineAccount oneSource

end CacheMachine
end ServerEngine
