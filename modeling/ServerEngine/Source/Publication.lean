import ServerEngine.Source.Readiness

/-! # What publishing does

New sources get empty records, then each candidate replaces what it carries. One lemma a step says
what every list of edges, every state and every cached slot is afterwards.
-/
namespace ServerEngine

/-! ## Replacing edges in the manager -/

namespace SourceGenerationStorage

/-- Publishing edges touches no slot of the physical records and keeps the shape of the records. -/
structure SameShape (s t : SourceGenerationStorage) : Prop where
  size : t.records.size = s.records.size
  baselineCount : t.records.baselineCount = s.records.baselineCount
  held : t.records.held = s.records.held
  reads : t.records.reads = s.records.reads
  physicalRecords : t.physicalRecords = s.physicalRecords

theorem publishEdges_shape (s : SourceGenerationStorage) (kind : SourceGenerationEdgeKind)
    (source : Nat) (values : List Nat) : SameShape s (s.publishEdges kind source values) := by
  unfold publishEdges
  split
  · exact ⟨rfl, rfl, rfl, rfl, rfl⟩
  · split
    · exact ⟨rfl, rfl, rfl, rfl, rfl⟩
    · rename_i record hrecord
      have hheld : s.records.held (source - 1) = true := by
        unfold materialized at hrecord
        split at hrecord
        · cases hrecord
        · exact MappedVector.held_of_materialized hrecord
      dsimp only
      refine ⟨?_, ?_, ?_, ?_, ?_⟩
      · rw [records_appendEdges, MappedVector.assign_size]
      · rw [records_appendEdges, MappedVector.assign_baselineCount]
      · funext i
        rw [records_appendEdges, MappedVector.assign_held hheld]
      · rw [records_appendEdges, MappedVector.assign_reads]
      · rw [physicalRecords_appendEdges]

theorem publishEdges_arena_le (s : SourceGenerationStorage) (kind : SourceGenerationEdgeKind)
    (source : Nat) (values : List Nat) (k : SourceGenerationEdgeKind) :
    ((s.publishEdges kind source values).arena k).size ≤
      (s.arena k).size + if k = kind then values.length else 0 := by
  have hkeep : (s.arena k).size ≤ (s.arena k).size + if k = kind then values.length else 0 :=
    Nat.le_add_right _ _
  unfold publishEdges
  split
  · exact hkeep
  · split
    · exact hkeep
    · have harena : ∀ r, ({ s.appendEdges kind values with records := r } :
          SourceGenerationStorage).arena k = (s.appendEdges kind values).arena k := by
        intro r
        cases k <;> rfl
      rw [harena, arena_appendEdges]
      by_cases hk : k = kind
      · simp [hk]
      · simp [hk]

end SourceGenerationStorage

namespace SourceManager

variable {m : SourceManager} {t : SourceGenerationStorage}

theorem Wf.withStorage (h : m.Wf) (ht : t.Wf)
    (hs : SourceGenerationStorage.SameShape m.generationStorage t) :
    ({ m with generationStorage := t } : SourceManager).Wf := by
  refine ⟨ht, h.statesSize, ?_, ?_, h.recordsBaseline, h.statesBaseline, ?_, ?_, ?_, h.bounded⟩
  · exact hs.size.trans h.storageSize
  · exact (congrArg MappedVector.size hs.physicalRecords).trans h.physicalSize
  · exact hs.baselineCount.trans h.storageBaseline
  · exact (congrArg MappedVector.baselineCount hs.physicalRecords).trans h.physicalBaseline
  · show ∀ i < t.physicalRecords.baselineCount, t.physicalRecords.reader i = .ok {}
    rw [hs.physicalRecords]
    exact h.physicalOverlay

theorem edges_withStorage {kind : SourceGenerationEdgeKind} {source : Nat} {values : List Nat}
    (hsource : source ≠ 0)
    (h : SourceGenerationStorage.Replaced m.generationStorage t kind source values)
    (k : SourceGenerationEdgeKind) (x : Nat) :
    ({ m with generationStorage := t } : SourceManager).edges k x =
      if k = kind ∧ x = source then values else m.edges k x := by
  by_cases hx : x = 0
  · subst hx
    rw [if_neg (fun hand => hsource hand.2.symm)]
    rfl
  · have hkeep : ({ m with generationStorage := t } : SourceManager).baselineSourceCount =
        m.baselineSourceCount := rfl
    rw [edges_of_ne _ k hx, edges_of_ne m k hx, hkeep]
    simp only [h.edges, h.hasEdges]
    by_cases hk : k = kind ∧ x = source
    · simp [hk]
    · simp [hk]

end SourceManager

namespace SourceManagerUpdate

/-! ## A new source -/

/-- A new source changes no edge, no state and no cached slot. -/
structure SourcePublished (m n : SourceManager) (item : NewSource) : Prop where
  wf : n.Wf
  baseline : n.baseline = m.baseline
  edges : ∀ kind x, n.edges kind x = m.edges kind x
  records : n.records.size = m.records.size + 1
  paths : n.pathStorage.size = m.pathStorage.size + item.normalizedPath.length
  snapshots : n.snapshotStorage = m.snapshotStorage
  arenas : ∀ kind, n.generationStorage.arena kind = m.generationStorage.arena kind
  statesHeld : n.states.held = m.states.held
  recordsHeld : n.generationStorage.records.held = m.generationStorage.records.held
  physicalHeld : n.generationStorage.physicalRecords.held = m.generationStorage.physicalRecords.held
  reads : n.records.reads = m.records.reads ∧ n.states.reads = m.states.reads ∧
    n.generationStorage.records.reads = m.generationStorage.records.reads ∧
    n.generationStorage.physicalRecords.reads = m.generationStorage.physicalRecords.reads

variable {m : SourceManager}

theorem publishSource_spec (h : m.Wf) (item : NewSource) :
    SourcePublished m (publishSource m item) item := by
  have hwf : (publishSource m item).Wf := by
    have hsize : ∀ {α : Type} (v : MappedVector α) (x : α), (v.pushBack x).size = v.size + 1 :=
      fun v x => v.pushBack_size x
    refine ⟨h.storage.publishSource, ?_, ?_, ?_, h.recordsBaseline, h.statesBaseline,
      h.storageBaseline, h.physicalBaseline, h.physicalOverlay, fun kind i => ?_⟩
    · exact (hsize _ _).trans ((congrArg (· + 1) h.statesSize).trans (hsize _ _).symm)
    · exact (hsize _ _).trans ((congrArg (· + 1) h.storageSize).trans (hsize _ _).symm)
    · exact (hsize _ _).trans ((congrArg (· + 1) h.physicalSize).trans (hsize _ _).symm)
    · have hvalue : (publishSource m item).states.value i =
          if i = m.states.size then {} else m.states.value i := m.states.pushBack_value {} i
      rw [hvalue]
      split
      · cases kind <;> exact Nat.zero_le _
      · exact h.bounded kind i
  refine ⟨hwf, rfl, fun kind x => ?_, m.records.pushBack_size _, GrowVector.append_size _ _, rfl,
    SourceGenerationStorage.publishSource_arena _, rfl, rfl, rfl, rfl, rfl, rfl, rfl⟩
  by_cases hx : x = 0
  · subst hx
    rfl
  · have hlists := SourceGenerationStorage.edges_congr h.storage h.storage.publishSource
      (SourceGenerationStorage.publishSource_value _)
      (SourceGenerationStorage.publishSource_arena _) kind x
    have hbase := h.baseline_le
    have hcount : (publishSource m item).baselineSourceCount = m.baselineSourceCount := rfl
    have hsize : (publishSource m item).states.size = m.states.size + 1 := m.states.pushBack_size {}
    have hstorage : (publishSource m item).generationStorage = m.generationStorage.publishSource :=
      rfl
    have hold : (publishSource m item).baseline = m.baseline := rfl
    rw [SourceManager.edges_of_ne _ kind hx, SourceManager.edges_of_ne m kind hx, hstorage, hlists.1,
      hlists.2, hcount, hsize, hold]
    by_cases hp : m.generationStorage.hasEdges kind x = true
    · rw [if_pos hp, if_pos hp]
    · rw [if_neg hp, if_neg hp]
      by_cases hb : m.baseline.isSome ∧ x ≤ m.baselineSourceCount ∧ x ≤ m.states.size
      · have hvalue : (publishSource m item).states.value (x - 1) = m.states.value (x - 1) := by
          refine (m.states.pushBack_value {} (x - 1)).trans (if_neg ?_)
          omega
        rw [if_pos hb, if_pos ⟨hb.1, hb.2.1, by omega⟩, hvalue]
      · rw [if_neg hb, if_neg]
        rintro ⟨hsome, hle, -⟩
        exact hb ⟨hsome, hle, by omega⟩

structure SourcesPublished (m n : SourceManager) (items : List NewSource) : Prop where
  wf : n.Wf
  baseline : n.baseline = m.baseline
  edges : ∀ kind x, n.edges kind x = m.edges kind x
  records : n.records.size = m.records.size + items.length
  paths : n.pathStorage.size =
    m.pathStorage.size + (items.map fun item => item.normalizedPath.length).sum
  snapshots : n.snapshotStorage = m.snapshotStorage
  arenas : ∀ kind, n.generationStorage.arena kind = m.generationStorage.arena kind
  statesHeld : n.states.held = m.states.held
  recordsHeld : n.generationStorage.records.held = m.generationStorage.records.held
  physicalHeld : n.generationStorage.physicalRecords.held = m.generationStorage.physicalRecords.held
  reads : n.records.reads = m.records.reads ∧ n.states.reads = m.states.reads ∧
    n.generationStorage.records.reads = m.generationStorage.records.reads ∧
    n.generationStorage.physicalRecords.reads = m.generationStorage.physicalRecords.reads

theorem publishSources_spec (h : m.Wf) (items : List NewSource) :
    SourcesPublished m (items.foldl publishSource m) items := by
  induction items generalizing m with
  | nil => exact ⟨h, rfl, fun _ _ => rfl, rfl, rfl, rfl, fun _ => rfl, rfl, rfl, rfl, rfl, rfl, rfl, rfl⟩
  | cons item rest ih =>
    have hone := publishSource_spec h item
    have hrest := ih hone.wf
    rw [List.foldl_cons]
    refine ⟨hrest.wf, hrest.baseline.trans hone.baseline,
      fun kind x => (hrest.edges kind x).trans (hone.edges kind x), ?_, ?_,
      hrest.snapshots.trans hone.snapshots, fun kind => (hrest.arenas kind).trans (hone.arenas kind),
      hrest.statesHeld.trans hone.statesHeld, hrest.recordsHeld.trans hone.recordsHeld,
      hrest.physicalHeld.trans hone.physicalHeld, ?_⟩
    · rw [hrest.records, hone.records, List.length_cons]
      omega
    · rw [hrest.paths, hone.paths, List.map_cons, List.sum_cons]
      omega
    · obtain ⟨h1, h2, h3, h4⟩ := hrest.reads
      obtain ⟨g1, g2, g3, g4⟩ := hone.reads
      exact ⟨h1.trans g1, h2.trans g2, h3.trans g3, h4.trans g4⟩

/-! ## A candidate's snapshot -/

def physicalRecordOf : Option SourceSnapshot → SourceGenerationPhysicalRecord
  | none => {}
  | some snapshot =>
    { present := true
      writeTimeTicks := snapshot.observation.writeTimeTicks
      size := snapshot.observation.size
      hash := snapshot.hash }

variable {source : Nat}

theorem publishSnapshot_physical {s : SourceGenerationStorage} (hs : source ≠ 0)
    (hsize : source ≤ s.physicalRecords.size) (snapshot : Option SourceSnapshot) :
    (s.publishSnapshot source snapshot).physicalRecords =
      s.physicalRecords.set (source - 1) (physicalRecordOf snapshot) := by
  unfold SourceGenerationStorage.publishSnapshot
  rw [if_neg (by simp [hs]; omega)]
  cases snapshot <;> rfl

theorem publishSnapshot_states (m : SourceManager) (source : Nat)
    (snapshot : Option SourceSnapshot) : (publishSnapshot m source snapshot).states =
      (m.states.set (source - 1) { m.states.value (source - 1) with snapshot }).materialize
        (source - 1) := rfl

/-- Publishing a snapshot changes one state's snapshot and one physical record. -/
structure SnapshotPublished (m n : SourceManager) (source : Nat) (snapshot : Option SourceSnapshot) :
    Prop where
  wf : n.Wf
  baseline : n.baseline = m.baseline
  edges : ∀ kind x, n.edges kind x = m.edges kind x
  records : n.records = m.records
  pathStorage : n.pathStorage = m.pathStorage
  snapshots : n.snapshotStorage = m.snapshotStorage
  storageRecords : n.generationStorage.records = m.generationStorage.records
  arenas : ∀ kind, n.generationStorage.arena kind = m.generationStorage.arena kind
  physicalHeld : n.generationStorage.physicalRecords.held = m.generationStorage.physicalRecords.held
  others : ∀ i, i ≠ source - 1 → n.states.held i = m.states.held i ∧
    n.states.value i = m.states.value i ∧ n.generationStorage.physicalRecords.value i =
      m.generationStorage.physicalRecords.value i
  stored : m.states.held (source - 1) = true → n.states.held (source - 1) = true ∧
    (n.states.value (source - 1)).snapshot = snapshot ∧
    n.generationStorage.physicalRecords.value (source - 1) = physicalRecordOf snapshot
  physicalReads : n.generationStorage.physicalRecords.reads =
    m.generationStorage.physicalRecords.reads
  reads : m.states.reads ≤ n.states.reads ∧
    (n.states.reads = m.states.reads ↔ m.states.held (source - 1) = true)

theorem publishSnapshot_spec (h : m.Wf) (hs : source ≠ 0) (hsize : source ≤ m.states.size)
    (hheld : m.generationStorage.physicalRecords.held (source - 1) = true)
    (snapshot : Option SourceSnapshot) :
    SnapshotPublished m (publishSnapshot m source snapshot) source snapshot := by
  have hlt : source - 1 < m.states.size := by omega
  have hphysicalSize : source ≤ m.generationStorage.physicalRecords.size := by
    rw [h.physicalSize, ← h.statesSize]
    exact hsize
  generalize hn : publishSnapshot m source snapshot = n
  have hstates : n.states =
      (m.states.set (source - 1) { m.states.value (source - 1) with snapshot }).materialize
        (source - 1) := by
    rw [← hn, publishSnapshot_states]
  have hvalue : ∀ i, n.states.value i =
      if i = source - 1 ∧ (m.states.materialize (source - 1)).held (source - 1) = true then
        { m.states.value (source - 1) with snapshot } else m.states.value i := by
    intro i
    rw [hstates, MappedVector.materialize_value, MappedVector.set_value _ hlt]
  have hstorage : ∃ snap, n.generationStorage = m.generationStorage.publishSnapshot source snap ∧
      snap = (n.states.value (source - 1)).snapshot := by
    refine ⟨(n.states.value (source - 1)).snapshot, ?_, rfl⟩
    rw [← hn]
    rfl
  obtain ⟨snap, hstorage, hsnap⟩ := hstorage
  have hphysical : n.generationStorage.physicalRecords =
      m.generationStorage.physicalRecords.set (source - 1) (physicalRecordOf snap) := by
    rw [hstorage, publishSnapshot_physical hs hphysicalSize]
  have hrecords : n.generationStorage.records = m.generationStorage.records := by
    rw [hstorage, SourceGenerationStorage.publishSnapshot_records]
  have harena : ∀ kind, n.generationStorage.arena kind = m.generationStorage.arena kind := by
    intro kind
    rw [hstorage, SourceGenerationStorage.publishSnapshot_arena]
  have hrest : n.baseline = m.baseline ∧ n.records = m.records ∧ n.pathStorage = m.pathStorage ∧
      n.snapshotStorage = m.snapshotStorage := by
    rw [← hn]
    exact ⟨rfl, rfl, rfl, rfl⟩
  have hcount : n.baselineSourceCount = m.baselineSourceCount := by
    rw [SourceManager.baselineSourceCount, hrest.1, SourceManager.baselineSourceCount]
  have hbaselineEdges : ∀ kind i,
      (n.states.value i).baselineEdges kind = (m.states.value i).baselineEdges kind := by
    intro kind i
    rw [hvalue]
    split
    · rename_i hi
      rw [hi.1]
      cases kind <;> rfl
    · rfl
  have hstorageWf : n.generationStorage.Wf := by
    rw [hstorage]
    exact h.storage.publishSnapshot source snap
  have hstatesSize : n.states.size = m.states.size := by
    rw [hstates, MappedVector.materialize_size, MappedVector.set_size]
  have hwf : n.Wf := by
    refine ⟨hstorageWf, ?_, ?_, ?_, ?_, ?_, ?_, ?_, ?_, ?_⟩
    · rw [hstatesSize, hrest.2.1, h.statesSize]
    · rw [hrecords, hrest.2.1, h.storageSize]
    · rw [hphysical, MappedVector.set_size, hrest.2.1, h.physicalSize]
    · rw [hrest.2.1, hcount, h.recordsBaseline]
    · rw [hstates, MappedVector.materialize_baselineCount, MappedVector.set_baselineCount, hcount,
        h.statesBaseline]
    · rw [hrecords, hcount, h.storageBaseline]
    · rw [hphysical, MappedVector.set_baselineCount, hcount, h.physicalBaseline]
    · rw [hphysical, MappedVector.set_baselineCount, MappedVector.set_reader]
      exact h.physicalOverlay
    · intro kind i
      rw [hbaselineEdges]
      exact h.bounded kind i
  refine ⟨hwf, hrest.1, fun kind x => ?_, hrest.2.1, hrest.2.2.1, hrest.2.2.2, hrecords, harena, ?_,
    fun i hi => ⟨?_, ?_, ?_⟩, fun hstate => ⟨?_, ?_, ?_⟩, ?_, ?_⟩
  · by_cases hx : x = 0
    · subst hx
      rfl
    · obtain ⟨hlist, hhas⟩ := SourceGenerationStorage.edges_congr h.storage hstorageWf
        (by rw [hrecords]) harena kind x
      rw [SourceManager.edges_of_ne n kind hx, SourceManager.edges_of_ne m kind hx, hlist, hhas,
        hrest.1, hcount, hstatesSize, hbaselineEdges]
  · funext i
    rw [hphysical, MappedVector.set_held hheld]
  · rw [hstates]
    apply Bool.eq_iff_iff.mpr
    rw [MappedVector.held_materialize_iff]
    have hset : (m.states.set (source - 1) { m.states.value (source - 1) with snapshot }).held i =
        m.states.held i := by
      rw [MappedVector.set]
      have hmat : (m.states.materialize (source - 1)).held i = m.states.held i := by
        apply Bool.eq_iff_iff.mpr
        rw [MappedVector.held_materialize_iff]
        simp [hi]
      by_cases hk : (m.states.materialize (source - 1)).held (source - 1) = true
      · rw [MappedVector.assign_held hk, hmat]
      · rw [MappedVector.assign_of_not_held (by simpa using hk), hmat]
    rw [hset]
    simp [hi]
  · rw [hvalue, if_neg (fun hand => hi hand.1)]
  · rw [hphysical, MappedVector.set_value _ (by omega), if_neg (fun hand => hi hand.1)]
  · rw [hstates]
    exact MappedVector.held_materialize_of_held ((MappedVector.set_held hstate).trans hstate)
  · rw [hvalue, if_pos ⟨rfl, MappedVector.held_materialize_of_held hstate⟩]
  · rw [hphysical, MappedVector.set_value _ (by omega),
      if_pos ⟨rfl, MappedVector.held_materialize_of_held hheld⟩, hsnap, hvalue,
      if_pos ⟨rfl, MappedVector.held_materialize_of_held hstate⟩]
  · rw [hphysical, MappedVector.set_reads, if_pos hheld]
  · rw [hstates, MappedVector.materialize_reads, MappedVector.set_reads]
    by_cases hstate : m.states.held (source - 1) = true
    · rw [MappedVector.set_held hstate, if_pos hstate, if_pos hstate]
      exact ⟨Nat.le_refl _, by simp [hstate]⟩
    · rw [if_neg hstate]
      refine ⟨by split <;> omega, ?_⟩
      constructor
      · intro heq
        split at heq <;> omega
      · exact fun hyes => absurd hyes hstate

/-! ## A candidate -/

def publishList (has : Bool) (kind : SourceGenerationEdgeKind) (source : Nat) (values : List Nat)
    (m : SourceManager) : SourceManager :=
  if has then { m with generationStorage := m.generationStorage.publishEdges kind source values }
  else m

/-- Publishing one list: it is stored when its length is a 32-bit word. -/
structure ListPublished (m n : SourceManager) (has : Bool) (kind : SourceGenerationEdgeKind)
    (source : Nat) (values : List Nat) : Prop where
  wf : n.Wf
  rest : n = { m with generationStorage := n.generationStorage }
  shape : SourceGenerationStorage.SameShape m.generationStorage n.generationStorage
  edges : ∀ k x, n.edges k x =
    if k = kind ∧ x = source ∧ has = true ∧ values.length ≤ u32Max then values else m.edges k x
  arena : ∀ k, (n.generationStorage.arena k).size ≤ (m.generationStorage.arena k).size +
    if k = kind ∧ has = true then values.length else 0

theorem publishList_spec (h : m.Wf) (has : Bool) (kind : SourceGenerationEdgeKind)
    (hs : source ≠ 0) (hsize : source ≤ m.states.size)
    (hheld : has = true → m.generationStorage.records.held (source - 1) = true)
    (values : List Nat) :
    ListPublished m (publishList has kind source values m) has kind source values := by
  cases has with
  | false =>
    refine ⟨h, rfl, ⟨rfl, rfl, rfl, rfl, rfl⟩, fun k x => ?_, fun k => ?_⟩
    · rw [if_neg]
      · rfl
      · rintro ⟨-, -, hfalse, -⟩
        cases hfalse
    · simp [publishList]
  | true =>
    have hshape := m.generationStorage.publishEdges_shape kind source values
    have harena := m.generationStorage.publishEdges_arena_le kind source values
    by_cases hlen : values.length ≤ u32Max
    · have hrecords : source ≤ m.generationStorage.records.size := by
        rw [h.storageSize, ← h.statesSize]
        exact hsize
      have hreplaced := SourceGenerationStorage.publishEdges_replaced h.storage kind hs
        hrecords (hheld rfl) hlen
      refine ⟨h.withStorage hreplaced.wf hshape, rfl, hshape, fun k x => ?_, fun k => ?_⟩
      · refine (SourceManager.edges_withStorage hs hreplaced k x).trans ?_
        simp [hlen]
      · simpa [publishList] using harena k
    · have hsame := SourceGenerationStorage.publishEdges_long m.generationStorage kind source
        (Nat.lt_of_not_le hlen)
      have heq : publishList true kind source values m = m := by
        rw [publishList, if_pos rfl, hsame]
      rw [heq]
      refine ⟨h, rfl, ⟨rfl, rfl, rfl, rfl, rfl⟩, fun k x => ?_, fun k => Nat.le_add_right _ _⟩
      rw [if_neg (fun hand => hlen hand.2.2.2)]

def additionalEdges (c : CandidateSource) (kind : SourceGenerationEdgeKind) : Nat :=
  if c.has kind then (c.edges kind).length else 0

variable {c : CandidateSource}

theorem publishCandidate_eq (hs : c.source ≠ 0) (hsize : c.source ≤ m.states.size) :
    publishCandidate m c =
      publishList c.hasDependents .dependents c.source c.dependents
        (publishList c.hasIncludes .includes c.source c.includes
          (if c.hasSnapshot then publishSnapshot m c.source c.snapshot else m)) := by
  unfold publishCandidate
  rw [if_neg (by simp [hs]; omega)]
  cases c.hasIncludes <;> cases c.hasDependents <;> rfl

structure CandidatePublished (m n : SourceManager) (c : CandidateSource) : Prop where
  wf : n.Wf
  baseline : n.baseline = m.baseline
  records : n.records = m.records
  pathStorage : n.pathStorage = m.pathStorage
  snapshots : n.snapshotStorage = m.snapshotStorage
  edges : ∀ kind x, n.edges kind x =
    if x = c.source ∧ c.has kind = true ∧ (c.edges kind).length ≤ u32Max then c.edges kind
    else m.edges kind x
  arena : ∀ kind, (n.generationStorage.arena kind).size ≤
    (m.generationStorage.arena kind).size + additionalEdges c kind
  recordsHeld : n.generationStorage.records.held = m.generationStorage.records.held
  physicalHeld : n.generationStorage.physicalRecords.held = m.generationStorage.physicalRecords.held
  others : ∀ i, i ≠ c.source - 1 → n.states.held i = m.states.held i ∧
    n.states.value i = m.states.value i ∧ n.generationStorage.physicalRecords.value i =
      m.generationStorage.physicalRecords.value i
  stored : c.hasSnapshot = true → m.states.held (c.source - 1) = true →
    n.states.held (c.source - 1) = true ∧ (n.states.value (c.source - 1)).snapshot = c.snapshot ∧
      n.generationStorage.physicalRecords.value (c.source - 1) = physicalRecordOf c.snapshot
  storageReads : n.generationStorage.records.reads = m.generationStorage.records.reads ∧
    n.generationStorage.physicalRecords.reads = m.generationStorage.physicalRecords.reads
  reads : m.states.reads ≤ n.states.reads ∧ (n.states.reads = m.states.reads ↔
    (c.hasSnapshot = true → m.states.held (c.source - 1) = true))

theorem publishCandidate_spec (h : m.Wf) (hs : c.source ≠ 0) (hsize : c.source ≤ m.states.size)
    (hheld : c.changed = true → m.generationStorage.records.held (c.source - 1) = true ∧ m.generationStorage.physicalRecords.held (c.source - 1) = true) :
    CandidatePublished m (publishCandidate m c) c := by
  rw [publishCandidate_eq hs hsize]
  -- the snapshot, which no later step looks at
  have hsnap : ∃ n, (if c.hasSnapshot then publishSnapshot m c.source c.snapshot else m) = n ∧
      n.Wf ∧ n.baseline = m.baseline ∧ (∀ kind x, n.edges kind x = m.edges kind x) ∧
      n.records = m.records ∧ n.pathStorage = m.pathStorage ∧
      n.snapshotStorage = m.snapshotStorage ∧
      n.generationStorage.records = m.generationStorage.records ∧
      (∀ kind, n.generationStorage.arena kind = m.generationStorage.arena kind) ∧
      n.generationStorage.physicalRecords.held = m.generationStorage.physicalRecords.held ∧
      (∀ i, i ≠ c.source - 1 → n.states.held i = m.states.held i ∧
        n.states.value i = m.states.value i ∧ n.generationStorage.physicalRecords.value i =
          m.generationStorage.physicalRecords.value i) ∧
      (c.hasSnapshot = true → m.states.held (c.source - 1) = true →
        n.states.held (c.source - 1) = true ∧
        (n.states.value (c.source - 1)).snapshot = c.snapshot ∧
        n.generationStorage.physicalRecords.value (c.source - 1) = physicalRecordOf c.snapshot) ∧
      n.generationStorage.physicalRecords.reads = m.generationStorage.physicalRecords.reads ∧
      m.states.reads ≤ n.states.reads ∧ (n.states.reads = m.states.reads ↔
        (c.hasSnapshot = true → m.states.held (c.source - 1) = true)) := by
    refine ⟨_, rfl, ?_⟩
    by_cases hc : c.hasSnapshot = true
    · rw [if_pos hc]
      have hphysical := (hheld (by simp [CandidateSource.changed, hc])).2
      have hspec := publishSnapshot_spec h hs hsize hphysical c.snapshot
      exact ⟨hspec.wf, hspec.baseline, hspec.edges, hspec.records, hspec.pathStorage,
        hspec.snapshots, hspec.storageRecords, hspec.arenas, hspec.physicalHeld, hspec.others,
        fun _ => hspec.stored, hspec.physicalReads, hspec.reads.1, by simp [hspec.reads.2, hc]⟩
    · rw [if_neg hc]
      exact ⟨h, rfl, fun _ _ => rfl, rfl, rfl, rfl, rfl, fun _ => rfl, rfl,
        fun _ _ => ⟨rfl, rfl, rfl⟩, fun hyes => absurd hyes hc, rfl, Nat.le_refl _, by simp [hc]⟩
  obtain ⟨n, hn, hwf, hbase, hedges, hrec, hpath, hpages, hstorage, harena, hphys, hothers, hstored,
    hphysReads, hle, hreads⟩ := hsnap
  rw [hn]
  have hnsize : c.source ≤ n.states.size := by
    rw [hwf.statesSize, hrec, ← h.statesSize]
    exact hsize
  have hinc := publishList_spec hwf c.hasIncludes .includes hs hnsize (fun hyes => by
    rw [hstorage]
    exact (hheld (by simp [CandidateSource.changed, hyes])).1) c.includes
  generalize publishList c.hasIncludes .includes c.source c.includes n = n1 at hinc
  have hstates1 : n1.states = n.states := by
    rw [hinc.rest]
  have hdep := publishList_spec hinc.wf c.hasDependents .dependents hs (by
    rw [hstates1]
    exact hnsize) (fun hyes => by
    rw [hinc.shape.held, hstorage]
    exact (hheld (by simp [CandidateSource.changed, hyes])).1) c.dependents
  generalize publishList c.hasDependents .dependents c.source c.dependents n1 = n2 at hdep
  have hstates : n2.states = n.states := by
    rw [hdep.rest]
    exact hstates1
  have hphysical : n2.generationStorage.physicalRecords = n.generationStorage.physicalRecords := by
    rw [hdep.shape.physicalRecords, hinc.shape.physicalRecords]
  refine ⟨hdep.wf, ?_, ?_, ?_, ?_, fun kind x => ?_, fun kind => ?_, ?_, ?_, fun i hi => ?_,
    fun hc hi => ?_, ⟨?_, ?_⟩, ?_⟩
  · rw [hdep.rest, hinc.rest]
    exact hbase
  · rw [hdep.rest, hinc.rest]
    exact hrec
  · rw [hdep.rest, hinc.rest]
    exact hpath
  · rw [hdep.rest, hinc.rest]
    exact hpages
  · rw [hdep.edges, hinc.edges, hedges]
    cases kind with
    | includes =>
      simp only [reduceCtorEq, false_and, if_false, true_and]
      rfl
    | dependents =>
      simp only [reduceCtorEq, false_and, if_false, true_and]
      rfl
  · have h2 := hdep.arena kind
    have h1 := hinc.arena kind
    rw [harena] at h1
    cases kind with
    | includes =>
      have hsum : additionalEdges c .includes =
        if c.hasIncludes = true then c.includes.length else 0 := rfl
      simp only [reduceCtorEq, false_and, if_false, true_and] at h1 h2
      omega
    | dependents =>
      have hsum : additionalEdges c .dependents =
        if c.hasDependents = true then c.dependents.length else 0 := rfl
      simp only [reduceCtorEq, false_and, if_false, true_and] at h1 h2
      omega
  · rw [hdep.shape.held, hinc.shape.held, hstorage]
  · rw [hphysical, hphys]
  · rw [hstates, hphysical]
    exact hothers i hi
  · rw [hstates, hphysical]
    exact hstored hc hi
  · rw [hdep.shape.reads, hinc.shape.reads, hstorage]
  · rw [hphysical, hphysReads]
  · rw [hstates]
    exact ⟨hle, hreads⟩

/-! ## All candidates -/

structure CandidatesPublished (m n : SourceManager) (cs : List CandidateSource) : Prop where
  wf : n.Wf
  baseline : n.baseline = m.baseline
  records : n.records = m.records
  pathStorage : n.pathStorage = m.pathStorage
  snapshots : n.snapshotStorage = m.snapshotStorage
  kept : ∀ kind x, (∀ c ∈ cs, c.source = x → ¬(c.has kind = true ∧
    (c.edges kind).length ≤ u32Max)) → n.edges kind x = m.edges kind x
  stored : ∀ kind, ∀ c ∈ cs, c.has kind = true → (c.edges kind).length ≤ u32Max →
    n.edges kind c.source = c.edges kind
  arena : ∀ kind, (n.generationStorage.arena kind).size ≤
    (m.generationStorage.arena kind).size + (cs.map fun c => additionalEdges c kind).sum
  others : ∀ i, (∀ c ∈ cs, i ≠ c.source - 1) → n.states.held i = m.states.held i ∧
    n.states.value i = m.states.value i ∧ n.generationStorage.physicalRecords.value i =
      m.generationStorage.physicalRecords.value i
  snapshotStored : ∀ c ∈ cs, c.hasSnapshot = true → m.states.held (c.source - 1) = true →
    n.states.held (c.source - 1) = true ∧ (n.states.value (c.source - 1)).snapshot = c.snapshot ∧
      n.generationStorage.physicalRecords.value (c.source - 1) = physicalRecordOf c.snapshot
  storageReads : n.generationStorage.records.reads = m.generationStorage.records.reads ∧
    n.generationStorage.physicalRecords.reads = m.generationStorage.physicalRecords.reads
  reads : m.states.reads ≤ n.states.reads ∧ (n.states.reads = m.states.reads ↔
    ∀ c ∈ cs, c.hasSnapshot = true → m.states.held (c.source - 1) = true)

theorem publishCandidates_spec (h : m.Wf) {cs : List CandidateSource}
    (hd : (cs.map (·.source)).Nodup) (hs : ∀ c ∈ cs, c.source ≠ 0 ∧ c.source ≤ m.states.size)
    (hheld : ∀ c ∈ cs, c.changed = true → m.generationStorage.records.held (c.source - 1) = true ∧ m.generationStorage.physicalRecords.held (c.source - 1) = true) :
    CandidatesPublished m (cs.foldl publishCandidate m) cs := by
  induction cs generalizing m with
  | nil =>
    exact ⟨h, rfl, rfl, rfl, rfl, fun _ _ _ => rfl, by simp, by simp, fun _ _ => ⟨rfl, rfl, rfl⟩,
      by simp, ⟨rfl, rfl⟩, Nat.le_refl _, by simp⟩
  | cons c cs ih =>
    rw [List.map_cons, List.nodup_cons] at hd
    rw [List.foldl_cons]
    obtain ⟨hne, hle⟩ := hs c (by simp)
    have hone := publishCandidate_spec h hne hle (hheld c (by simp))
    generalize publishCandidate m c = m1 at hone
    have hsizes : m1.states.size = m.states.size := by
      rw [hone.wf.statesSize, hone.records, h.statesSize]
    -- the candidates after `c` are about other sources
    have hother : ∀ d ∈ cs, d.source ≠ 0 ∧ d.source - 1 ≠ c.source - 1 ∧ d.source ≠ c.source := by
      intro d hd'
      have hdne := (hs d (by simp [hd'])).1
      have hsource : d.source ≠ c.source := by
        intro heq
        exact hd.1 (List.mem_map.mpr ⟨d, hd', heq⟩)
      exact ⟨hdne, by omega, hsource⟩
    have hrest := ih hone.wf hd.2 (fun d hd' => by
        rw [hsizes]
        exact hs d (by simp [hd'])) (fun d hd' hchanged => by
        rw [hone.recordsHeld, hone.physicalHeld]
        exact hheld d (by simp [hd']) hchanged)
    generalize cs.foldl publishCandidate m1 = n at hrest
    refine ⟨hrest.wf, hrest.baseline.trans hone.baseline, hrest.records.trans hone.records,
      hrest.pathStorage.trans hone.pathStorage, hrest.snapshots.trans hone.snapshots,
      fun kind x hno => ?_, fun kind d hd' hhas hlen => ?_, fun kind => ?_, fun i hi => ?_,
      fun d hd' hsnap hstate => ?_, ?_, ?_⟩
    · rw [hrest.kept kind x fun d hd' => hno d (by simp [hd']), hone.edges, if_neg]
      rintro ⟨rfl, hstores⟩
      exact hno c (by simp) rfl hstores
    · rcases List.mem_cons.mp hd' with rfl | hd'
      · rw [hrest.kept kind d.source fun e he heq => absurd heq (hother e he).2.2, hone.edges,
          if_pos ⟨rfl, hhas, hlen⟩]
      · exact hrest.stored kind d hd' hhas hlen
    · have h1 := hone.arena kind
      have h2 := hrest.arena kind
      rw [List.map_cons, List.sum_cons]
      omega
    · obtain ⟨hr1, hr2, hr3⟩ := hrest.others i fun d hd' => hi d (by simp [hd'])
      obtain ⟨ho1, ho2, ho3⟩ := hone.others i (hi c (by simp))
      exact ⟨hr1.trans ho1, hr2.trans ho2, hr3.trans ho3⟩
    · rcases List.mem_cons.mp hd' with rfl | hd'
      · obtain ⟨hk1, hk2, hk3⟩ := hone.stored hsnap hstate
        obtain ⟨hr1, hr2, hr3⟩ := hrest.others (d.source - 1) fun e he heq =>
          (hother e he).2.1 heq.symm
        exact ⟨hr1.trans hk1, (congrArg _ hr2).trans hk2, hr3.trans hk3⟩
      · apply hrest.snapshotStored d hd' hsnap
        rw [(hone.others _ (hother d hd').2.1).1]
        exact hstate
    · exact ⟨hrest.storageReads.1.trans hone.storageReads.1,
        hrest.storageReads.2.trans hone.storageReads.2⟩
    · have hmid : ∀ d ∈ cs, m1.states.held (d.source - 1) = m.states.held (d.source - 1) :=
        fun d hd' => (hone.others _ (hother d hd').2.1).1
      refine ⟨Nat.le_trans hone.reads.1 hrest.reads.1, ?_⟩
      rw [List.forall_mem_cons, ← hone.reads.2]
      have hle1 := hone.reads.1
      have hle2 := hrest.reads.1
      constructor
      · intro heq
        have hfirst : m1.states.reads = m.states.reads := by omega
        have hsecond : n.states.reads = m1.states.reads := by omega
        refine ⟨hfirst, fun d hd' hsnap => ?_⟩
        rw [← hmid d hd']
        exact hrest.reads.2.mp hsecond d hd' hsnap
      · rintro ⟨hfirst, hall⟩
        have hsecond : n.states.reads = m1.states.reads := hrest.reads.2.mpr fun d hd' hsnap => by
          rw [hmid d hd']
          exact hall d hd' hsnap
        omega

end SourceManagerUpdate

end ServerEngine
