import ServerEngine.Source.Runs

/-! # When source publication is no-fail

A publication needs the baseline state of every source whose snapshot it replaces. The preparation
caches those states when the update discovers new sources; otherwise only reading committed edges
for the reverse edge patches does.
-/
namespace ServerEngine
open Transaction

namespace SourceManager

def reads (m : SourceManager) : Nat :=
  m.records.reads + m.states.reads + m.generationStorage.records.reads +
    m.generationStorage.physicalRecords.reads

def sizes (m : SourceManager) : List Nat :=
  [m.records.size, m.states.size, m.pathStorage.size, m.generationStorage.records.size,
    m.generationStorage.physicalRecords.size, m.generationStorage.forwardEdges.size,
    m.generationStorage.reverseEdges.size, m.snapshotStorage.pathPages.size,
    m.snapshotStorage.textPages.size]

def capacities (m : SourceManager) : List Nat :=
  [m.records.capacity, m.states.capacity, m.pathStorage.capacity,
    m.generationStorage.records.capacity, m.generationStorage.physicalRecords.capacity,
    m.generationStorage.forwardEdges.capacity, m.generationStorage.reverseEdges.capacity,
    m.snapshotStorage.pathPages.capacity, m.snapshotStorage.textPages.capacity]

/-- Managers that construction and updates lead to, abandoned updates included. -/
inductive Reached : SourceManager → Prop
  | fresh : Reached {}
  | saved (b : Baseline) : Reached (ofBaseline b)
  | abandoned {m : SourceManager} (h : Reached m) (calls : List SourceManagerUpdate.Call) :
      Reached (m.beginUpdate.run calls).owner
  | published {m : SourceManager} (h : Reached m) (calls : List SourceManagerUpdate.Call)
      {u : SourceManagerUpdate}
      (hprepare : SourceManagerUpdate.preparePublish (m.beginUpdate.run calls) = .ok () u) :
      Reached (SourceManagerUpdate.publishPrepared u).owner

theorem Reached.wf {m : SourceManager} (h : Reached m) : m.Wf ∧ m.records.size ≤ u32Max := by
  induction h with
  | fresh => exact ⟨wf_fresh, Nat.zero_le _⟩
  | saved b => exact ⟨wf_ofBaseline b, b.sources.sourceCount_le⟩
  | abandoned _ calls ih =>
    have hsound := SourceManagerUpdate.run_sound ih.1 (SourceManagerUpdate.sound_begin ih.2) calls
    have hgrown := hsound.progress.grown
    refine ⟨hgrown.wf ih.1, ?_⟩
    rw [hgrown.records.size]
    exact ih.2
  | published _ calls hprepare ih =>
    have hsound := SourceManagerUpdate.run_sound ih.1 (SourceManagerUpdate.sound_begin ih.2) calls
    obtain ⟨hready, hp⟩ := SourceManagerUpdate.preparePublish_sound ih.1 hsound hprepare
    exact SourceManagerUpdate.publishPrepared_wf ih.1 hready hp

end SourceManager

namespace SourceManagerUpdate

/-! ## The two sides -/

/-- Publishing reads no baseline record, outgrows no capacity, writes only slots that are
materialized, and stores what every candidate carries. -/
structure NoFail (u : SourceManagerUpdate) : Prop where
  reads : (publishPrepared u).owner.reads = u.owner.reads
  room : List.Forall₂ (· ≤ ·) (publishPrepared u).owner.sizes u.owner.capacities
  slots : ∀ c ∈ u.candidates,
    (c.hasSnapshot = true → u.owner.states.held (c.source - 1) = true ∧
      u.owner.generationStorage.physicalRecords.held (c.source - 1) = true) ∧
    (c.hasIncludes = true ∨ c.hasDependents = true →
      u.owner.generationStorage.records.held (c.source - 1) = true)
  snapshots : ∀ c ∈ u.candidates, c.hasSnapshot = true →
    (publishPrepared u).owner.current c.source = c.snapshot ∧
      (publishPrepared u).owner.generationStorage.physicalRecords.value (c.source - 1) =
        physicalRecordOf c.snapshot
  includes : ∀ c ∈ u.candidates, c.hasIncludes = true →
    (publishPrepared u).owner.includes c.source = c.includes
  dependents : ∀ c ∈ u.candidates, c.hasDependents = true →
    (publishPrepared u).owner.dependents c.source = c.dependents

/-- Preparing the patches reads the baseline state of a source: its committed includes are compared
with new ones, or it is the first patch at it and its committed dependents are copied. -/
def PatchesRead (u : SourceManagerUpdate) (source : Nat) : Prop :=
  (u.owner.readsState .includes source = true ∧
    ∃ c ∈ u.candidates, c.source = source ∧ c.hasIncludes = true) ∨
  (u.owner.readsState .dependents source = true ∧ u.overlay .dependents source = none ∧
    ∃ p ∈ u.dependentPatches, p.target = source)

/-- The state of a source is cached already, or the preparation is still to come and caches it. -/
def StateCovered (u : SourceManagerUpdate) (source : Nat) : Prop :=
  u.owner.states.held (source - 1) = true ∨
  (u.prepared = false ∧ (u.newSources ≠ [] ∨
    ((u.owner.states.reader (source - 1)).isOk = true ∧ u.PatchesRead source)))

/-- Every baseline source with a snapshot to publish has its state covered. -/
def SnapshotsCovered (u : SourceManagerUpdate) : Prop :=
  ∀ c ∈ u.candidates, c.hasSnapshot = true → c.source ≤ u.owner.baselineSourceCount →
    u.StateCovered c.source

def ListsFit (u : SourceManagerUpdate) : Prop :=
  ∀ c ∈ u.candidates, (c.hasIncludes = true → c.includes.length ≤ u32Max) ∧
    (c.hasDependents = true → c.dependents.length ≤ u32Max)

/-! ## Publishing a prepared update -/

variable {m : SourceManager} {source : Nat}

theorem current_of_held (hs : source ≠ 0) (hsize : source ≤ m.states.size)
    (hheld : m.states.held (source - 1) = true) :
    m.current source = (m.states.value (source - 1)).snapshot := by
  obtain ⟨x, hx⟩ := MappedVector.materialized_of_held hheld (by omega : source - 1 < m.states.size)
  unfold SourceManager.current
  rw [if_neg (by simp [hs]; omega), hx, MappedVector.value, MappedVector.read_of_materialized hx]

variable {u : SourceManagerUpdate} {c : CandidateSource}

theorem overlay_of_mem (hu : Progress m u) (hc : c ∈ u.candidates)
    {kind : SourceGenerationEdgeKind} (hhas : c.has kind = true) :
    u.overlay kind c.source = some (c.edges kind) := by
  rw [overlay, candidate_of_mem hu.distinct hc]
  simp [hhas]

theorem publishPrepared_reads (hm : m.Wf) (hu : Sound m u) (hp : u.prepared = true) :
    (publishPrepared u).owner.reads = u.owner.reads ↔
      ∀ c ∈ u.candidates, c.hasSnapshot = true → u.owner.states.held (c.source - 1) = true := by
  have hsources := publishedSources_spec hm hu.progress
  have hcandidates := publishedCandidates_spec hm hu hp
  obtain ⟨hrecords, hstates, hstorage, hphysical⟩ := hsources.reads
  have held : u.publishedSources.states.held = u.owner.states.held := hsources.statesHeld
  rw [← held, ← hcandidates.reads.2, publishPrepared_owner hp hu.progress.pending]
  have h1 := hcandidates.storageReads.1
  have h2 := hcandidates.storageReads.2
  have h3 : (u.candidates.foldl publishCandidate u.publishedSources).records.reads =
      u.publishedSources.records.reads := congrArg _ hcandidates.records
  simp only [SourceManager.reads] at hrecords hstates hstorage hphysical ⊢
  omega

theorem sum_additionalEdges (cs : List CandidateSource) :
    (cs.map fun c => additionalEdges c .includes).sum = additionalForwardEdges cs ∧
      (cs.map fun c => additionalEdges c .dependents).sum = additionalReverseEdges cs := ⟨rfl, rfl⟩

theorem publishPrepared_room (hm : m.Wf) (hu : Sound m u) (hp : u.prepared = true) :
    List.Forall₂ (· ≤ ·) (publishPrepared u).owner.sizes u.owner.capacities := by
  have hsources := publishedSources_spec hm hu.progress
  have hcandidates := publishedCandidates_spec hm hu hp
  have hready := hu.ready hp
  have hwf := hu.progress.grown.wf hm
  rw [publishPrepared_owner hp hu.progress.pending]
  generalize u.candidates.foldl publishCandidate u.publishedSources = n at hcandidates
  have hrecords : n.records.size = u.owner.records.size + u.newSources.length := by
    rw [hcandidates.records]
    exact hsources.records
  have hpaths : n.pathStorage.size = u.owner.pathStorage.size + u.addedPathBytes := by
    rw [hcandidates.pathStorage]
    exact hsources.paths
  have hpages : n.snapshotStorage =
      u.owner.snapshotStorage.absorbPrepared u.candidateSnapshots :=
    hcandidates.snapshots.trans hsources.snapshots
  have hforward : n.generationStorage.forwardEdges.size ≤
      u.owner.generationStorage.forwardEdges.size + additionalForwardEdges u.candidates := by
    have harena := hcandidates.arena .includes
    rw [(sum_additionalEdges u.candidates).1, hsources.arenas] at harena
    exact harena
  have hreverse : n.generationStorage.reverseEdges.size ≤
      u.owner.generationStorage.reverseEdges.size + additionalReverseEdges u.candidates := by
    have harena := hcandidates.arena .dependents
    rw [(sum_additionalEdges u.candidates).2, hsources.arenas] at harena
    exact harena
  have hpathPages : n.snapshotStorage.pathPages.size =
      u.owner.snapshotStorage.pathPages.size + u.candidateSnapshots.pathPages.size := by
    rw [hpages]
    exact GrowVector.append_size _ _
  have htextPages : n.snapshotStorage.textPages.size =
      u.owner.snapshotStorage.textPages.size + u.candidateSnapshots.textPages.size := by
    rw [hpages]
    exact GrowVector.append_size _ _
  have hroom := hready.sources
  have hedges := hready.storage
  refine .cons ?_ (.cons ?_ (.cons ?_ (.cons ?_ (.cons ?_ (.cons ?_ (.cons ?_ (.cons ?_ (.cons ?_
    .nil))))))))
  · exact Nat.le_trans (Nat.le_of_eq hrecords) hroom.records
  · have hstates : n.states.size = u.owner.states.size + u.newSources.length := by
      rw [hcandidates.wf.statesSize, hrecords, hwf.statesSize]
    exact Nat.le_trans (Nat.le_of_eq hstates) hroom.states
  · exact Nat.le_trans (Nat.le_of_eq hpaths) hroom.paths
  · have hstorage : n.generationStorage.records.size =
        u.owner.generationStorage.records.size + u.newSources.length := by
      rw [hcandidates.wf.storageSize, hrecords, hwf.storageSize]
    exact Nat.le_trans (Nat.le_of_eq hstorage) hedges.records
  · have hphysical : n.generationStorage.physicalRecords.size =
        u.owner.generationStorage.physicalRecords.size + u.newSources.length := by
      rw [hcandidates.wf.physicalSize, hrecords, hwf.physicalSize]
    exact Nat.le_trans (Nat.le_of_eq hphysical) hedges.physicalRecords
  · exact Nat.le_trans hforward hedges.forward
  · exact Nat.le_trans hreverse hedges.reverse
  · exact Nat.le_trans (Nat.le_of_eq hpathPages) hready.pages.paths
  · exact Nat.le_trans (Nat.le_of_eq htextPages) hready.pages.texts

theorem publishPrepared_stored (hm : m.Wf) (hu : Sound m u) (hp : u.prepared = true)
    (hc : c ∈ u.candidates) (kind : SourceGenerationEdgeKind) (hhas : c.has kind = true) :
    (publishPrepared u).owner.edges kind c.source = c.edges kind ↔
      (c.edges kind).length ≤ u32Max := by
  have hover := overlay_of_mem hu.progress hc hhas
  rw [publishPrepared_edges hm hu hp, edges, hover]
  by_cases hlen : (c.edges kind).length ≤ u32Max
  · simp [hlen]
  · have hshort := (hu.progress.grown.wf hm).edges_length_le kind c.source
    simp only [Option.getD_some, if_neg hlen]
    constructor
    · intro heq
      rw [heq] at hshort
      exact hshort
    · intro hyes
      exact absurd hyes hlen

theorem noFail_iff (hm : m.Wf) (hu : Sound m u) (hp : u.prepared = true) : u.NoFail ↔
      (∀ c ∈ u.candidates, c.hasSnapshot = true → u.owner.states.held (c.source - 1) = true) ∧
        u.ListsFit := by
  constructor
  · intro h
    refine ⟨(publishPrepared_reads hm hu hp).mp h.reads, fun c hc => ⟨fun hhas => ?_, fun hhas => ?_⟩⟩
    · exact (publishPrepared_stored hm hu hp hc .includes hhas).mp (h.includes c hc hhas)
    · exact (publishPrepared_stored hm hu hp hc .dependents hhas).mp
        (h.dependents c hc hhas)
  · rintro ⟨hheld, hfit⟩
    have hcached := (hu.ready hp).cached
    have hsources := publishedSources_spec hm hu.progress
    have hcandidates := publishedCandidates_spec hm hu hp
    refine ⟨(publishPrepared_reads hm hu hp).mpr hheld, publishPrepared_room hm hu hp,
      fun c hc => ⟨fun hsnap => ⟨hheld c hc hsnap, ?_⟩, fun hhas => ?_⟩, fun c hc hsnap => ?_,
      fun c hc hhas => ?_, fun c hc hhas => ?_⟩
    · exact (hcached c hc (by simp [CandidateSource.changed, hsnap])).2
    · apply (hcached c hc _).1
      rcases hhas with hhas | hhas <;> simp [CandidateSource.changed, hhas]
    · have hstate : u.publishedSources.states.held (c.source - 1) = true := by
        rw [hsources.statesHeld]
        exact hheld c hc hsnap
      obtain ⟨hslot, hvalue, hphysical⟩ := hcandidates.snapshotStored c hc hsnap hstate
      have hvalid := validSource_iff.mp (hu.progress.valid c hc)
      have hsize : c.source ≤
          (u.candidates.foldl publishCandidate u.publishedSources).states.size := by
        rw [hcandidates.wf.statesSize, hcandidates.records, hsources.records]
        exact hvalid.2
      rw [publishPrepared_owner hp hu.progress.pending]
      refine ⟨?_, hphysical⟩
      rw [← hvalue]
      exact current_of_held hvalid.1 hsize hslot
    · exact (publishPrepared_stored hm hu hp hc .includes hhas).mpr ((hfit c hc).1 hhas)
    · exact (publishPrepared_stored hm hu hp hc .dependents hhas).mpr ((hfit c hc).2 hhas)

/-! ## What the preparation caches -/

theorem collectReads_iff {items : List CandidateSource} (hs : source ≠ 0) :
    collectReads m items (source - 1) ↔
      m.readsState .includes source = true ∧
        ∃ c ∈ items, c.source = source ∧ c.hasIncludes = true := by
  constructor
  · rintro ⟨c, hc, hinc, hreads, hi⟩
    have hne : c.source ≠ 0 := by
      intro hzero
      rw [hzero] at hreads
      simp [SourceManager.readsState] at hreads
    obtain rfl : c.source = source := by omega
    exact ⟨hreads, c, hc, rfl, hinc⟩
  · rintro ⟨hreads, c, hc, rfl, hinc⟩
    exact ⟨c, hc, hinc, hreads, rfl⟩

variable {v mid : SourceManagerUpdate}

theorem prepares_held (hm : m.Wf) (hu : Progress m u) (h : Prepares u v mid)
    (hnew : u.newSources = []) (hs : source ≠ 0) : v.owner.states.held (source - 1) = true ↔
      u.owner.states.held (source - 1) = true ∨
        ((u.owner.states.reader (source - 1)).isOk = true ∧ u.PatchesRead source) := by
  have hwf := hu.grown.wf hm
  obtain ⟨t, hgrown, ht, hheld, hpatched⟩ := prepareDependentPatches_ok hwf h.patches
  have hover : ∀ x, t.overlay .dependents x = u.overlay .dependents x := by
    intro x
    rw [ht]
    rfl
  rw [h.statesSame hnew, hpatched.held, hheld, collectReads_iff hs, hgrown.states.reader]
  simp only [hover, readsState_grown hgrown hwf]
  have htarget : (∃ p ∈ u.dependentPatches, (u.overlay .dependents p.target).isSome = false ∧
      u.owner.readsState .dependents p.target = true ∧ p.target - 1 = source - 1) ↔
      u.owner.readsState .dependents source = true ∧ u.overlay .dependents source = none ∧
        ∃ p ∈ u.dependentPatches, p.target = source := by
    constructor
    · rintro ⟨p, hp, hnone, hreads, hi⟩
      have hne : p.target ≠ 0 := by
        intro hzero
        rw [hzero] at hreads
        simp [SourceManager.readsState] at hreads
      obtain heq : p.target = source := by omega
      rw [heq] at hnone hreads
      exact ⟨hreads, by simpa using hnone, p, hp, heq⟩
    · rintro ⟨hreads, hnone, p, hp, heq⟩
      refine ⟨p, hp, ?_, ?_, ?_⟩
      · rw [heq, hnone]
        rfl
      · rw [heq]
        exact hreads
      · rw [heq]
  rw [htarget]
  rw [or_assoc, ← or_and_right]
  exact or_congr_right and_comm

theorem prepares_snapshots (hm : m.Wf) (hu : Progress m u) (h : Prepares u v mid) (source : Nat) :
    (∃ c ∈ v.candidates, c.source = source ∧ c.hasSnapshot = true) ↔
      ∃ c ∈ u.candidates, c.source = source ∧ c.hasSnapshot = true := by
  have hwf := hu.grown.wf hm
  obtain ⟨t, -, ht, -, hpatched⟩ := prepareDependentPatches_ok hwf h.patches
  have hsame : v.snapshotOverlay source = u.snapshotOverlay source := by
    have hmid := hpatched.snapshots source
    have htu : t.snapshotOverlay source = u.snapshotOverlay source := by
      rw [ht]
      rfl
    have hv : v.snapshotOverlay source = mid.snapshotOverlay source := by
      rw [snapshotOverlay, candidate, h.later.candidates, snapshotOverlay, candidate]
    exact hv.trans (hmid.trans htu)
  have hmidProgress : Progress m mid := prepareDependentPatches_keeps.ok hu h.patches
  have hvProgress := h.later.progress hmidProgress
  have hiff : ∀ {w : SourceManagerUpdate}, Progress m w →
      ((∃ c ∈ w.candidates, c.source = source ∧ c.hasSnapshot = true) ↔
        (w.snapshotOverlay source).isSome = true) := by
    intro w hw
    constructor
    · rintro ⟨c, hc, rfl, hsnap⟩
      rw [snapshotOverlay, candidate_of_mem hw.distinct hc]
      simp [hsnap]
    · intro hsome
      unfold snapshotOverlay at hsome
      cases hfind : w.candidate source with
      | none => simp [hfind] at hsome
      | some c =>
        obtain ⟨hc, hsource⟩ := candidate_some hfind
        refine ⟨c, hc, hsource, ?_⟩
        by_contra hno
        simp [hfind, hno] at hsome
  rw [hiff hvProgress, hiff hu, hsame]

/-- The states a successful preparation leaves cached are the covered ones. -/
theorem covered_iff (hm : m.Wf) (hu : Sound m u) (h : preparePublish u = .ok () v) :
    u.SnapshotsCovered ↔
      ∀ c ∈ v.candidates, c.hasSnapshot = true → v.owner.states.held (c.source - 1) = true := by
  have hlocal : ∀ {w : SourceManagerUpdate} {source : Nat}, Progress m w →
      w.owner.baselineSourceCount < source → w.owner.states.held (source - 1) = true := by
    intro w source hw hlt
    have hcount := (hw.grown.wf hm).statesBaseline
    exact MappedVector.held_iff.mpr (.inl (by omega))
  by_cases hp : u.prepared = true
  · unfold preparePublish at h
    rw [if_neg (by simp [hu.progress.pending]), if_pos hp] at h
    cases h
    constructor
    · intro hcovered c hc hsnap
      by_cases hle : c.source ≤ u.owner.baselineSourceCount
      · rcases hcovered c hc hsnap hle with hheld | ⟨hno, -⟩
        · exact hheld
        · rw [hp] at hno
          cases hno
      · exact hlocal hu.progress (by omega)
    · exact fun hall c hc hsnap _ => .inl (hall c hc hsnap)
  · have hp : u.prepared = false := by simpa using hp
    have hwf := hu.progress.grown.wf hm
    obtain ⟨mid, hprep⟩ := preparePublish_ok hwf hp h
    have hmid : Progress m mid := prepareDependentPatches_keeps.ok hu.progress hprep.patches
    have hv := hprep.later.progress hmid
    have hsnapshots := prepares_snapshots hm hu.progress hprep
    obtain ⟨t, hgrown, ht, -, hpatched⟩ := prepareDependentPatches_ok hwf hprep.patches
    have hcount : v.owner.baselineSourceCount = u.owner.baselineSourceCount := by
      rw [hprep.later.owner.baselineSourceCount, hpatched.owner.baselineSourceCount,
        hgrown.baselineSourceCount]
    have hnewSources : v.newSources = u.newSources := by
      rw [hprep.later.newSources, hpatched.newSources, ht]
    constructor
    · intro hcovered c hc hsnap
      by_cases hle : c.source ≤ v.owner.baselineSourceCount
      · obtain ⟨d, hd, hsource, hdsnap⟩ := (hsnapshots c.source).mp ⟨c, hc, rfl, hsnap⟩
        have hne : c.source ≠ 0 := (validSource_iff.mp (hv.valid c hc)).1
        by_cases hnew : u.newSources = []
        · rw [hcount, ← hsource] at hle
          have hstate := hcovered d hd hdsnap hle
          rw [hsource] at hstate
          apply (prepares_held hm hu.progress hprep hnew hne).mpr
          rcases hstate with hheld | ⟨-, hne' | hread⟩
          · exact .inl hheld
          · exact absurd hnew hne'
          · exact .inr hread
        · have hback : v.owner.baselineBacked = true := by
            by_contra hno
            have hnone : v.owner.baseline = none := by
              simpa [SourceManager.baselineBacked] using hno
            rw [SourceManager.baselineSourceCount, hnone] at hle
            exact hne (Nat.le_zero.mp hle)
          rw [← hnewSources] at hnew
          exact hprep.statesCached hnew hback c hc (by omega)
      · exact hlocal hv (by omega)
    · intro hall d hd hdsnap hle
      obtain ⟨c, hc, hsource, hsnap⟩ := (hsnapshots d.source).mpr ⟨d, hd, rfl, hdsnap⟩
      by_cases hnew : u.newSources = []
      · have hheld := hall c hc hsnap
        have hne : c.source ≠ 0 := (validSource_iff.mp (hv.valid c hc)).1
        rw [prepares_held hm hu.progress hprep hnew hne, hsource] at hheld
        rcases hheld with hheld | hread
        · exact .inl hheld
        · exact .inr ⟨hp, .inr hread⟩
      · exact .inr ⟨hp, .inl hnew⟩

/-- Publishing after any calls on any manager is no-fail exactly when the state of every baseline
source with a new snapshot is cached by then and the lists have 32-bit lengths. -/
theorem sourcePublication_noFail_iff {m : SourceManager} (hm : m.Reached) (calls : List Call)
    {u : SourceManagerUpdate} (h : preparePublish (m.beginUpdate.run calls) = .ok () u) :
    u.NoFail ↔ (m.beginUpdate.run calls).SnapshotsCovered ∧ u.ListsFit := by
  obtain ⟨hwf, hcount⟩ := hm.wf
  have hsound := run_sound hwf (sound_begin hcount) calls
  obtain ⟨hready, hp⟩ := preparePublish_sound hwf hsound h
  rw [noFail_iff hwf hready hp, covered_iff hwf hsound h]

def savedSource : Baseline where
  sources :=
    { sourceCount := 1
      physical := fun _ => .ok ⟨true, 1, 1, 7⟩
      path := fun _ => [97]
      includes := fun _ => []
      dependents := fun _ => []
      find := fun path => if path = [97] then .ok 1 else .error .notFound
      sourceCount_le := by decide
      includes_le := fun _ => by decide
      dependents_le := fun _ => by decide }
  cache := { sourceBytesCount := 1, sourceText := fun _ => [120] }

def touchedFile : List Call := [.applyAcquire 1 (.present [120] ⟨2, 1⟩ 7 0)]

def parsedFile : List Call := touchedFile ++ [.setIncludes 1 []]

/-- The preparation after `calls` succeeds with an update that passes `check`. -/
def preparesTo (m : SourceManager) (calls : List Call) (check : SourceManagerUpdate → Bool) : Bool :=
  match preparePublish (m.beginUpdate.run calls) with
  | .ok _ u => check u
  | .error _ _ => false

theorem exists_of_preparesTo {calls : List Call} {check : SourceManagerUpdate → Bool}
    (h : preparesTo m calls check = true) :
    ∃ u, preparePublish (m.beginUpdate.run calls) = .ok () u ∧ check u = true := by
  unfold preparesTo at h
  split at h
  · exact ⟨_, by assumption, h⟩
  · cases h

instance (u : SourceManagerUpdate) : Decidable u.ListsFit :=
  inferInstanceAs (Decidable (∀ c ∈ u.candidates,
    (c.hasIncludes = true → c.includes.length ≤ u32Max) ∧
      (c.hasDependents = true → c.dependents.length ≤ u32Max)))

/-- Setting the includes makes the preparation read the state, and publishing is no-fail. -/
theorem sourcePublication_noFail_iff_parsed : ∃ u,
    preparePublish ((SourceManager.ofBaseline savedSource).beginUpdate.run parsedFile) = .ok () u ∧
      u.NoFail := by
  have hrun : preparesTo (.ofBaseline savedSource) parsedFile (fun u => decide u.ListsFit) = true := by
    decide +kernel
  obtain ⟨u, hprepare, hfit⟩ := exists_of_preparesTo hrun
  refine ⟨u, hprepare, (sourcePublication_noFail_iff (.saved savedSource) parsedFile hprepare).mpr
    ⟨?_, of_decide_eq_true hfit⟩⟩
  have hall : ∀ c ∈ ((SourceManager.ofBaseline savedSource).beginUpdate.run parsedFile).candidates,
      c.source = 1 ∧ c.hasIncludes = true := by
    decide +kernel
  intro c hc _ _
  obtain ⟨hsource, hinc⟩ := hall c hc
  rw [hsource]
  exact .inr ⟨by decide +kernel, .inr ⟨by decide +kernel, .inl ⟨by decide +kernel, c, hc, hsource, hinc⟩⟩⟩

/-- The touched file's state was cached by nothing: publishing it reads the baseline. -/
theorem publication_reads_state : ¬∀ (m : SourceManager), m.Reached → m.baselineBacked = true →
    ∀ (calls : List Call) (u : SourceManagerUpdate),
      preparePublish (m.beginUpdate.run calls) = .ok () u → u.NoFail := by
  intro h
  have hrun : preparesTo (.ofBaseline savedSource) touchedFile
      (fun u => decide (u.owner.reads < (publishPrepared u).owner.reads)) = true := by
    decide +kernel
  obtain ⟨u, hprepare, hmore⟩ := exists_of_preparesTo hrun
  have hnoFail := (h _ (.saved savedSource) rfl touchedFile u hprepare).reads
  have hlt := of_decide_eq_true hmore
  omega

end SourceManagerUpdate

end ServerEngine
