import ServerEngine.Source.Patching

/-! # What a successful preparation provides

Room for everything the publication appends, cached records wherever it writes one, and an overlay
for every dependents list whose edges changed. Nothing the update takes afterwards but a new
preparation loses these.
-/
namespace ServerEngine
open Transaction

namespace SourceManagerUpdate

/-! ## The parts -/

structure RoomForSources (u : SourceManagerUpdate) : Prop where
  records : u.owner.records.size + u.newSources.length ≤ u.owner.records.capacity
  states : u.owner.states.size + u.newSources.length ≤ u.owner.states.capacity
  paths : u.owner.pathStorage.size + u.addedPathBytes ≤ u.owner.pathStorage.capacity

structure RoomForEdges (u : SourceManagerUpdate) : Prop where
  records : u.owner.generationStorage.records.size + u.newSources.length ≤
    u.owner.generationStorage.records.capacity
  physicalRecords : u.owner.generationStorage.physicalRecords.size + u.newSources.length ≤
    u.owner.generationStorage.physicalRecords.capacity
  forward : u.owner.generationStorage.forwardEdges.size + additionalForwardEdges u.candidates ≤
    u.owner.generationStorage.forwardEdges.capacity
  reverse : u.owner.generationStorage.reverseEdges.size + additionalReverseEdges u.candidates ≤
    u.owner.generationStorage.reverseEdges.capacity

structure RoomForPages (u : SourceManagerUpdate) : Prop where
  paths : u.owner.snapshotStorage.pathPages.size + u.candidateSnapshots.pathPages.size ≤
    u.owner.snapshotStorage.pathPages.capacity
  texts : u.owner.snapshotStorage.textPages.size + u.candidateSnapshots.textPages.size ≤
    u.owner.snapshotStorage.textPages.capacity

def Cached (u : SourceManagerUpdate) : Prop :=
  ∀ c ∈ u.candidates, c.changed = true →
    u.owner.generationStorage.records.held (c.source - 1) = true ∧
      u.owner.generationStorage.physicalRecords.held (c.source - 1) = true

/-- The edge from `a` to `t` is not the committed one. -/
def Differs (u : SourceManagerUpdate) (a t : Nat) : Prop :=
  ¬(t ∈ u.edges .includes a ↔ t ∈ u.owner.edges .includes a)

def Reversed (u : SourceManagerUpdate) : Prop :=
  ∀ a t, u.Differs a t → (a ∈ u.edges .dependents t ↔ t ∈ u.edges .includes a)

structure Ready (u : SourceManagerUpdate) : Prop where
  sources : RoomForSources u
  storage : RoomForEdges u
  pages : RoomForPages u
  cached : Cached u

variable {u v : SourceManagerUpdate}

theorem RoomForSources.later (h : RoomForSources u) (hv : Later u v) : RoomForSources v := by
  have hrecords := hv.owner.records.capacity
  have hstates := hv.owner.states.capacity
  have hpaths := hv.owner.pathStorage.capacity
  have hadded : v.addedPathBytes = u.addedPathBytes := by
    rw [addedPathBytes, hv.newSources, addedPathBytes]
  refine ⟨?_, ?_, ?_⟩
  · rw [hv.owner.records.size, hv.newSources]
    exact Nat.le_trans h.records hrecords
  · rw [hv.owner.states.size, hv.newSources]
    exact Nat.le_trans h.states hstates
  · rw [hv.owner.pathStorage.size, hadded]
    exact Nat.le_trans h.paths hpaths

theorem RoomForEdges.later (h : RoomForEdges u) (hv : Later u v) : RoomForEdges v := by
  have hs := hv.owner.storage
  refine ⟨?_, ?_, ?_, ?_⟩
  · rw [hs.records.size, hv.newSources]
    exact Nat.le_trans h.records hs.records.capacity
  · rw [hs.physicalRecords.size, hv.newSources]
    exact Nat.le_trans h.physicalRecords hs.physicalRecords.capacity
  · rw [hs.forwardEdges.size, hv.candidates]
    exact Nat.le_trans h.forward hs.forwardEdges.capacity
  · rw [hs.reverseEdges.size, hv.candidates]
    exact Nat.le_trans h.reverse hs.reverseEdges.capacity

theorem RoomForPages.later (h : RoomForPages u) (hv : Later u v) : RoomForPages v := by
  refine ⟨?_, ?_⟩
  · rw [hv.owner.pathPages.size, hv.snapshots]
    exact Nat.le_trans h.paths hv.owner.pathPages.capacity
  · rw [hv.owner.textPages.size, hv.snapshots]
    exact Nat.le_trans h.texts hv.owner.textPages.capacity

theorem Cached.later (h : Cached u) (hv : Later u v) : Cached v := by
  intro c hc hchanged
  rw [hv.candidates] at hc
  obtain ⟨hrecord, hphysical⟩ := h c hc hchanged
  exact ⟨hv.owner.storage.records.held _ hrecord, hv.owner.storage.physicalRecords.held _ hphysical⟩

theorem Ready.later (h : Ready u) (hv : Later u v) : Ready v :=
  ⟨h.sources.later hv, h.storage.later hv, h.pages.later hv, h.cached.later hv⟩

theorem Later.edges (hv : Later u v) (hu : u.owner.Wf) (kind : SourceGenerationEdgeKind) (x : Nat) :
    v.edges kind x = u.edges kind x := by
  have hover : v.overlay kind x = u.overlay kind x := by
    rw [overlay, candidate, hv.candidates, overlay, candidate]
  rw [SourceManagerUpdate.edges, hover, hv.owner.edges hu, SourceManagerUpdate.edges]

theorem Reversed.later (h : Reversed u) (hv : Later u v) (hu : u.owner.Wf) : Reversed v := by
  intro a t hd
  unfold Differs at hd
  rw [hv.edges hu, hv.owner.edges hu] at hd
  rw [hv.edges hu, hv.edges hu]
  exact h a t hd

/-! ## The stages -/

variable {m : SourceManager}

theorem materializeCandidates_held {items : List CandidateSource}
    (hf : (materializeCandidates m items).states.readFailure = none) :
    ∀ item ∈ items, item.source - 1 < m.baselineSourceCount →
      (materializeCandidates m items).states.held (item.source - 1) = true := by
  unfold materializeCandidates at hf ⊢
  generalize m.states = states at hf ⊢
  have hkeep : ∀ (items : List CandidateSource) (states : MappedVector CommittedSource),
      (items.foldl (fun states item => if item.source - 1 < m.baselineSourceCount then
        states.materialize (item.source - 1) else states) states).readFailure = none →
      states.readFailure = none ∧ ∀ i, states.held i = true →
        (items.foldl (fun states item => if item.source - 1 < m.baselineSourceCount then
          states.materialize (item.source - 1) else states) states).held i = true := by
    intro items
    induction items with
    | nil => exact fun states h => ⟨h, fun _ hi => hi⟩
    | cons item rest ih =>
      intro states h
      rw [List.foldl_cons] at h ⊢
      obtain ⟨hfail, hheld⟩ := ih _ h
      by_cases hb : item.source - 1 < m.baselineSourceCount
      · rw [if_pos hb] at hfail hheld ⊢
        exact ⟨MappedVector.readFailure_materialize hfail,
          fun i hi => hheld i (MappedVector.held_materialize_of_held hi)⟩
      · rw [if_neg hb] at hfail hheld ⊢
        exact ⟨hfail, hheld⟩
  induction items generalizing states with
  | nil => simp
  | cons item rest ih =>
    rw [List.foldl_cons] at hf ⊢
    obtain ⟨hfail, hheld⟩ := hkeep rest _ hf
    rw [List.forall_mem_cons]
    refine ⟨fun hb => ?_, ih _ hf⟩
    rw [if_pos hb] at hfail hheld ⊢
    exact hheld _ ((MappedVector.held_materialize hfail).mpr (.inr rfl))

theorem incrementalHeadroom_le {size extra n : Nat} (h : incrementalHeadroom size extra = some n) :
    size ≤ n := by
  unfold incrementalHeadroom at h
  dsimp only at h
  split at h
  · cases h
  · cases h
    omega

def StatesCached (u : SourceManagerUpdate) : Prop :=
  u.newSources ≠ [] → u.owner.baselineBacked = true → ∀ c ∈ u.candidates,
    c.source - 1 < u.owner.baselineSourceCount → u.owner.states.held (c.source - 1) = true

theorem reserveNewSources_ok (hu : u.owner.Wf) (h : reserveNewSources u = .ok () v) :
    RoomForSources v ∧ StatesCached v := by
  unfold reserveNewSources at h
  dsimp only at h
  by_cases hb : u.owner.baselineBacked = true
  · rw [if_pos hb] at h
    split at h
    · cases h
    · rename_i hfail
      obtain rfl := (EStateM.Result.ok.inj h).2
      have hgrown := materializeCandidates_grown (u.owner.reserveSources
        (u.owner.records.size + u.newSources.length) (u.owner.pathStorage.size + u.addedPathBytes))
        u.candidates
      refine ⟨⟨?_, ?_, ?_⟩, ?_⟩
      · have hcap := hgrown.records.capacity
        exact Nat.le_trans (MappedVector.le_capacity_reserve u.owner.records _) hcap
      · have hcap := hgrown.states.capacity
        rw [hgrown.states.size]
        have hle : u.owner.states.size + u.newSources.length ≤
            (u.owner.states.reserve (u.owner.records.size + u.newSources.length)).capacity := by
          rw [hu.statesSize]
          exact MappedVector.le_capacity_reserve u.owner.states _
        exact Nat.le_trans hle hcap
      · have hcap := hgrown.pathStorage.capacity
        exact Nat.le_trans (GrowVector.le_capacity_reserve u.owner.pathStorage _) hcap
      · intro _ _ c hc hlt
        exact materializeCandidates_held hfail c hc hlt
  · rw [if_neg hb] at h
    have hno : ∀ w : SourceManagerUpdate, w.owner.baseline = u.owner.baseline → StatesCached w := by
      intro w hw _ hback
      rw [SourceManager.baselineBacked, hw] at hback
      exact absurd hback hb
    split at h
    · rename_i hempty
      split at h
      · rename_i sources paths hsources hpaths
        obtain rfl := (EStateM.Result.ok.inj h).2
        have hs := incrementalHeadroom_le hsources
        have hp := incrementalHeadroom_le hpaths
        have hrecords : u.owner.records.size + u.newSources.length ≤ sources := by omega
        refine ⟨⟨?_, ?_, ?_⟩, hno _ rfl⟩
        · exact Nat.le_trans hrecords (MappedVector.le_capacity_reserve u.owner.records _)
        · have hstates : u.owner.states.size + u.newSources.length ≤ sources := by
            rw [hu.statesSize]
            exact hrecords
          exact Nat.le_trans hstates (MappedVector.le_capacity_reserve u.owner.states _)
        · exact Nat.le_trans hp (GrowVector.le_capacity_reserve u.owner.pathStorage _)
      · cases h
    · split at h
      · cases h
      · rename_i hroom
        obtain rfl := (EStateM.Result.ok.inj h).2
        simp only [Bool.or_eq_true, decide_eq_true_eq, not_or, Nat.not_lt] at hroom
        exact ⟨⟨hroom.1.1, hroom.1.2, hroom.2⟩, hno _ rfl⟩

theorem prepareNewSources_ok (hu : u.owner.Wf) (h : prepareNewSources u = .ok () v) :
    RoomForSources v ∧ StatesCached v ∧ (u.newSources = [] → v = u) := by
  unfold prepareNewSources at h
  split at h
  · rename_i hnew
    obtain rfl := (EStateM.Result.ok.inj h).2
    refine ⟨⟨?_, ?_, ?_⟩, fun hne => absurd hnew hne, fun _ => rfl⟩
    · simpa [hnew] using u.owner.records.size_le_capacity
    · simpa [hnew] using u.owner.states.size_le_capacity
    · simpa [addedPathBytes, hnew] using u.owner.pathStorage.size_le_capacity
  · rename_i hnew
    obtain ⟨⟨⟩, u1, h1, hrest⟩ := bind_ok.mp h
    obtain ⟨⟨⟩, u2, h2, h3⟩ := bind_ok.mp hrest
    have hlater := checkPathBytes_later.ok (preparePathIndex_later.ok (.refl u) h1) h2
    obtain ⟨hroom, hcached⟩ := reserveNewSources_ok (hlater.owner.wf hu) h3
    exact ⟨hroom, hcached, fun hempty => absurd hempty hnew⟩

theorem prepareGeneration_ok (h : prepareGeneration u = .ok () v) :
    RoomForEdges v ∧ v.owner.states = u.owner.states := by
  unfold prepareGeneration at h
  dsimp only at h
  split at h
  · cases h
  · split at h
    · rename_i s hok
      obtain rfl := (EStateM.Result.ok.inj h).2
      obtain ⟨hgrown, hr, hp, hf, hb⟩ := storage_preparePublish_grown hok
      refine ⟨⟨?_, ?_, ?_, ?_⟩, rfl⟩
      · rw [hgrown.records.size]
        exact hr
      · rw [hgrown.physicalRecords.size]
        exact hp
      · rw [hgrown.forwardEdges.size]
        exact hf
      · rw [hgrown.reverseEdges.size]
        exact hb
    · cases h

theorem prepareSource_ok {n : SourceManager} {item : CandidateSource} (hm : m.Wf)
    (h : prepareSource item m = .ok ⟨⟩ n) : n.states = m.states ∧ (item.changed = true →
      n.generationStorage.records.held (item.source - 1) = true ∧
        n.generationStorage.physicalRecords.held (item.source - 1) = true) := by
  unfold prepareSource at h
  split at h
  · rename_i hsame
    obtain rfl := (EStateM.Result.ok.inj h).2
    refine ⟨rfl, fun hchanged => ?_⟩
    simp [hchanged] at hsame
  · split at h
    · rename_i hnew
      obtain rfl := (EStateM.Result.ok.inj h).2
      -- a source the storage does not know yet gets a local record
      rw [SourceGenerationStorage.sourceCount, hm.storageSize] at hnew
      have hrec : m.generationStorage.records.baselineCount ≤ m.generationStorage.records.size := by
        simp [MappedVector.size]
      have hphy : m.generationStorage.physicalRecords.baselineCount ≤
          m.generationStorage.physicalRecords.size := by
        simp [MappedVector.size]
      rw [hm.storageSize] at hrec
      rw [hm.physicalSize] at hphy
      refine ⟨rfl, fun _ => ⟨?_, ?_⟩⟩
      · exact MappedVector.held_iff.mpr (.inl (by omega))
      · exact MappedVector.held_iff.mpr (.inl (by omega))
    · split at h
      · cases h
      · dsimp only at h
        split at h
        · rename_i hstatus
          obtain rfl := (EStateM.Result.ok.inj h).2
          rw [SourceGenerationStorage.readStatus, Option.or_eq_none_iff] at hstatus
          refine ⟨rfl, fun _ => ⟨?_, ?_⟩⟩
          · exact (MappedVector.held_materialize hstatus.1).mpr (.inr rfl)
          · exact (MappedVector.held_materialize hstatus.2).mpr (.inr rfl)
        · cases h

theorem prepareSources_ok (hu : u.owner.Wf) (h : prepareSources u = .ok () v) :
    Cached v ∧ v.owner.states = u.owner.states := by
  unfold prepareSources onOwner at h
  cases hrun : (forM u.candidates prepareSource : EStateM StatusCode SourceManager PUnit)
      u.owner with
  | error code n =>
    rw [hrun] at h
    cases h
  | ok a n =>
    rw [hrun] at h
    obtain rfl := (EStateM.Result.ok.inj h).2
    have hall := forM_ok_rec (fun pre n => SourceManager.Grown u.owner n ∧
        n.states = u.owner.states ∧ ∀ item ∈ pre, item.changed = true →
          n.generationStorage.records.held (item.source - 1) = true ∧
            n.generationStorage.physicalRecords.held (item.source - 1) = true) hrun
      ⟨.refl _, rfl, fun item hitem => by cases hitem⟩ ?_
    · exact ⟨hall.2.2, hall.2.1⟩
    · rintro pre item m n _ ⟨hm, hstates, hpre⟩ hstep
      obtain ⟨hsame, hnew⟩ := prepareSource_ok (hm.wf hu) hstep
      have hn : SourceManager.Grown m n := by
        have hkeep := (prepareSource_grown m item).ok (.refl m) hstep
        exact hkeep
      refine ⟨hm.trans hn, hsame.trans hstates, fun c hc hchanged => ?_⟩
      rcases List.mem_append.mp hc with hc | hc
      · obtain ⟨hrecord, hphysical⟩ := hpre c hc hchanged
        exact ⟨hn.storage.records.held _ hrecord, hn.storage.physicalRecords.held _ hphysical⟩
      · rw [List.mem_singleton] at hc
        subst hc
        exact hnew hchanged

theorem prepareAbsorb_ok (h : prepareAbsorb u = .ok () v) :
    RoomForPages v ∧ v.owner.states = u.owner.states := by
  unfold prepareAbsorb at h
  split at h
  · rename_i pages hok
    obtain rfl := (EStateM.Result.ok.inj h).2
    obtain ⟨hpath, htext, hp, ht⟩ := pages_prepareAbsorb_grown hok
    refine ⟨⟨?_, ?_⟩, rfl⟩
    · rw [hpath.size]
      exact hp
    · rw [htext.size]
      exact ht
  · cases h

theorem prepareTextBytes_ok (h : prepareTextBytes u = .ok () v) : v.owner = u.owner := by
  unfold prepareTextBytes at h
  split at h
  · obtain rfl := (EStateM.Result.ok.inj h).2
    rfl
  · cases h

/-! ## The preparation -/

/-- A preparation that runs: the patches, then the stages that only grow the owner. -/
structure Prepares (u v : SourceManagerUpdate) (mid : SourceManagerUpdate) : Prop where
  patches : prepareDependentPatches u = .ok () mid
  later : Later mid v
  ready : Ready v
  prepared : v.prepared = true
  statesCached : StatesCached v
  statesSame : u.newSources = [] → v.owner.states = mid.owner.states

theorem preparePublish_ok (hu : u.owner.Wf) (hp : u.prepared = false)
    (h : preparePublish u = .ok () v) : ∃ mid, Prepares u v mid := by
  unfold preparePublish at h
  split at h
  · cases h
  · rw [if_neg (by simp [hp])] at h
    obtain ⟨⟨⟩, mid, hmid, h⟩ := bind_ok.mp h
    obtain ⟨⟨⟩, u1, h1, h⟩ := bind_ok.mp h
    obtain ⟨⟨⟩, u2, h2, h⟩ := bind_ok.mp h
    obtain ⟨⟨⟩, u3, h3, h⟩ := bind_ok.mp h
    obtain ⟨⟨⟩, u4, h4, h⟩ := bind_ok.mp h
    obtain ⟨⟨⟩, u5, h5, h6⟩ := bind_ok.mp h
    obtain ⟨t, hgrown, ht, -, hpatched⟩ := prepareDependentPatches_ok hu hmid
    have hmidWf : mid.owner.Wf := hpatched.owner.wf (hgrown.wf hu)
    have l1 : Later mid u1 := prepareNewSources_later.ok (.refl mid) h1
    have l2 : Later u1 u2 := prepareTextBytes_later.ok (.refl u1) h2
    have l3 : Later u2 u3 := prepareGeneration_later.ok (.refl u2) h3
    have l4 : Later u3 u4 := prepareSources_later.ok (.refl u3) h4
    have l5 : Later u4 u5 := prepareAbsorb_later.ok (.refl u4) h5
    obtain rfl : v = markPrepared u5 := by
      cases h6
      rfl
    have l6 : Later u5 (markPrepared u5) := ⟨.refl _, rfl, rfl, rfl, rfl⟩
    obtain ⟨hsources, hstates, hsame⟩ := prepareNewSources_ok hmidWf h1
    obtain ⟨hedges, s3⟩ := prepareGeneration_ok h3
    have hwf3 : u3.owner.Wf := l3.owner.wf (l2.owner.wf (l1.owner.wf hmidWf))
    obtain ⟨hcached, s4⟩ := prepareSources_ok hwf3 h4
    obtain ⟨hpages, s5⟩ := prepareAbsorb_ok h5
    have s2 := prepareTextBytes_ok h2
    have hstatesEq : (markPrepared u5).owner.states = u1.owner.states := by
      show u5.owner.states = _
      rw [s5, s4, s3, s2]
    have hnew : mid.newSources = u.newSources := by
      rw [hpatched.newSources, ht]
    have ltail : Later u1 (markPrepared u5) := (l2.trans l3).trans ((l4.trans l5).trans l6)
    refine ⟨mid, hmid, l1.trans ltail, ⟨?_, ?_, ?_, ?_⟩, rfl, ?_, ?_⟩
    · exact hsources.later ltail
    · exact hedges.later ((l4.trans l5).trans l6)
    · exact hpages.later l6
    · exact hcached.later (l5.trans l6)
    · intro hne hback c hc hlt
      rw [hstatesEq]
      rw [ltail.newSources] at hne
      rw [SourceManager.baselineBacked, ltail.owner.baseline] at hback
      rw [ltail.candidates] at hc
      rw [ltail.owner.baselineSourceCount] at hlt
      exact hstates hne hback c hc hlt
    · intro hempty
      rw [hstatesEq, hsame (hnew.trans hempty)]

/-- The patches record every edge that differs from the committed one. -/
theorem mem_dependentPatches (hu : Progress m u) (hm : m.Wf) : ∀ p, p ∈ u.dependentPatches ↔
      u.Differs p.dependent p.target ∧ (p.add = true ↔ p.target ∈ u.edges .includes p.dependent) := by
  have hwf := hu.grown.wf hm
  have hold : ∀ source, oldIncludes u.owner source = u.owner.edges .includes source := by
    intro source
    unfold oldIncludes
    split
    · rfl
    · exact (hwf.edges_of_size_lt .includes (by omega)).symm
  have hedge : ∀ c ∈ u.candidates, u.edges .includes c.source =
      if c.hasIncludes then c.includes else u.owner.edges .includes c.source := by
    intro c hc
    rw [edges, overlay, candidate_of_mem hu.distinct hc]
    cases h : c.hasIncludes <;> simp [CandidateSource.has, CandidateSource.edges, h]
  intro p
  rw [dependentPatches, List.mem_flatMap]
  constructor
  · rintro ⟨c, hc, hp⟩
    have hlist := hedge c hc
    unfold patchesOf at hp
    by_cases hinc : c.hasIncludes = true
    · rw [if_pos hinc] at hlist
      rw [if_pos hinc, edgePatches, List.mem_append, List.mem_map, List.mem_map] at hp
      rcases hp with ⟨t, ht, rfl⟩ | ⟨t, ht, rfl⟩
      · rw [List.mem_filter, hold] at ht
        have hnew : t ∉ c.includes := by simpa using ht.2
        unfold Differs
        rw [hlist]
        exact ⟨fun hiff => hnew (hiff.mpr ht.1), by simp [hnew]⟩
      · rw [List.mem_filter, hold] at ht
        have hgone : t ∉ u.owner.edges .includes c.source := by simpa using ht.2
        unfold Differs
        dsimp only
        rw [hlist]
        exact ⟨fun hiff => hgone (hiff.mp ht.1), by simp [ht.1]⟩
    · rw [if_neg hinc] at hp
      cases hp
  · rintro ⟨hdiff, hadd⟩
    unfold Differs at hdiff
    -- only a candidate with its own includes differs from the committed list
    have hcand : ∃ c ∈ u.candidates, c.source = p.dependent ∧ c.hasIncludes = true := by
      by_contra hno
      apply hdiff
      have hsame : u.edges .includes p.dependent = u.owner.edges .includes p.dependent := by
        rw [edges, overlay]
        cases hfind : u.candidate p.dependent with
        | none => rfl
        | some c =>
          obtain ⟨hc, hs⟩ := candidate_some hfind
          have hnot : c.hasIncludes = false := by
            by_contra hyes
            exact hno ⟨c, hc, hs, by simpa using hyes⟩
          simp [CandidateSource.has, hnot]
      rw [hsame]
    obtain ⟨c, hc, hs, hinc⟩ := hcand
    have hlist := hedge c hc
    rw [if_pos hinc] at hlist
    rw [← hs, hlist] at hdiff hadd
    refine ⟨c, hc, ?_⟩
    rw [patchesOf, if_pos hinc, edgePatches, List.mem_append, List.mem_map, List.mem_map, hold]
    by_cases hnew : p.target ∈ c.includes
    · right
      refine ⟨p.target, ?_, ?_⟩
      · rw [List.mem_filter]
        exact ⟨hnew, by simpa [hnew] using hdiff⟩
      · obtain ⟨target, dependent, add⟩ := p
        have hadd' : add = true := hadd.mpr hnew
        rw [hadd', hs]
    · left
      refine ⟨p.target, ?_, ?_⟩
      · rw [List.mem_filter]
        have hcommitted : p.target ∈ u.owner.edges .includes c.source := by
          by_contra hgone
          exact hdiff (iff_of_false hnew hgone)
        exact ⟨hcommitted, by simpa using hnew⟩
      · obtain ⟨target, dependent, add⟩ := p
        have hadd' : add = false := by
          by_contra hyes
          exact hnew (hadd.mp (by simpa using hyes))
        simp only at hs
        rw [hadd', hs]

end SourceManagerUpdate

end ServerEngine
