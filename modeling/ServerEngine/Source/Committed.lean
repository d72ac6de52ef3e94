import ServerEngine.Source.Update

/-! # Committed edges

The edges of a source are read from its current range or from the baseline. What preparing an update
does to the owner (caching baseline states, reserving room) changes none of them.
-/
namespace ServerEngine
open Slice

/-! ## Generation storage -/

namespace SourceGenerationStorage

/-- Untouched records read as empty overlays, and selected ranges lie inside their arenas. -/
structure Wf (s : SourceGenerationStorage) : Prop where
  overlay : ∀ i < s.records.baselineCount, s.records.reader i = .ok {}
  inside : ∀ kind i, (s.records.value i).present kind = true →
    ((s.records.value i).range kind).offset + ((s.records.value i).range kind).count ≤
        (s.arena kind).size ∧ ((s.records.value i).range kind).count ≤ u32Max

def selected (s : SourceGenerationStorage) (kind : SourceGenerationEdgeKind)
    (record : SourceGenerationRecord) : List Nat :=
  if record.present kind then range (s.arena kind) (record.range kind) else []

variable {s : SourceGenerationStorage} {i : Nat}

theorem Wf.value_of_none (h : s.Wf) (hnone : s.records.materialized i = none) :
    s.records.value i = {} := by
  by_cases hi : i < s.records.size
  · have hheld : s.records.held i = false := by
      by_contra hheld
      obtain ⟨x, hx⟩ := MappedVector.materialized_of_held (by simpa using hheld) hi
      rw [hx] at hnone
      cases hnone
    obtain ⟨hlt, hread⟩ := MappedVector.read_of_not_held hheld
    rw [MappedVector.value, hread, h.overlay i hlt]
  · exact MappedVector.value_of_size_le (by omega)

theorem value_of_some {record : SourceGenerationRecord}
    (h : s.records.materialized i = some record) : s.records.value i = record := by
  rw [MappedVector.value, MappedVector.read_of_materialized h]

variable {source : Nat}

theorem Wf.hasEdges_eq (h : s.Wf) (kind : SourceGenerationEdgeKind) (hs : source ≠ 0) :
    s.hasEdges kind source = (s.records.value (source - 1)).present kind := by
  unfold hasEdges materialized
  rw [if_neg hs]
  cases hm : s.records.materialized (source - 1) with
  | none =>
    rw [h.value_of_none hm]
    cases kind <;> rfl
  | some record =>
    rw [value_of_some hm]
    rfl

theorem Wf.edges_eq (h : s.Wf) (kind : SourceGenerationEdgeKind) (hs : source ≠ 0) :
    s.edges kind source = s.selected kind (s.records.value (source - 1)) := by
  unfold edges materialized
  rw [if_neg hs]
  cases hm : s.records.materialized (source - 1) with
  | none =>
    rw [h.value_of_none hm]
    cases kind <;> rfl
  | some record =>
    rw [value_of_some hm]
    rfl

theorem range_length_le (arena : GrowVector Nat) (r : SourceEdgeRange) :
    (range arena r).length ≤ r.count := by
  unfold range
  split
  · simp
  · simp only [slice, List.length_take, List.length_drop]
    omega

/-- Growing the owner's storage: more records cached, more room. -/
structure Grown (s t : SourceGenerationStorage) : Prop where
  records : MappedVector.Grown s.records t.records
  physicalRecords : MappedVector.Grown s.physicalRecords t.physicalRecords
  forwardEdges : GrowVector.Grown s.forwardEdges t.forwardEdges
  reverseEdges : GrowVector.Grown s.reverseEdges t.reverseEdges

theorem Grown.refl (s : SourceGenerationStorage) : Grown s s := ⟨.refl _, .refl _, .refl _, .refl _⟩

variable {t : SourceGenerationStorage}

theorem Grown.trans {x : SourceGenerationStorage} (h : Grown s t) (h' : Grown t x) : Grown s x :=
  ⟨h.records.trans h'.records, h.physicalRecords.trans h'.physicalRecords,
    h.forwardEdges.trans h'.forwardEdges, h.reverseEdges.trans h'.reverseEdges⟩

theorem Grown.arena (h : Grown s t) (kind : SourceGenerationEdgeKind) :
    GrowVector.Grown (s.arena kind) (t.arena kind) := by
  cases kind
  · exact h.forwardEdges
  · exact h.reverseEdges

theorem Grown.wf (h : Grown s t) (hs : s.Wf) : t.Wf := by
  refine ⟨fun i hi => ?_, fun kind i hp => ?_⟩
  · rw [h.records.baselineCount] at hi
    rw [h.records.reader]
    exact hs.overlay i hi
  · rw [h.records.value] at hp ⊢
    rw [(h.arena kind).size]
    exact hs.inside kind i hp

theorem Grown.selected (h : Grown s t) (kind : SourceGenerationEdgeKind)
    (record : SourceGenerationRecord) : t.selected kind record = s.selected kind record := by
  unfold SourceGenerationStorage.selected range
  rw [(h.arena kind).size, (h.arena kind).values]

/-! ## Replacing edges -/

theorem arena_appendEdges (s : SourceGenerationStorage) (kind k : SourceGenerationEdgeKind)
    (values : List Nat) :
    (s.appendEdges kind values).arena k =
      if k = kind then (s.arena k).append values else s.arena k := by
  cases kind <;> cases k <;> rfl

theorem records_appendEdges (s : SourceGenerationStorage) (kind : SourceGenerationEdgeKind)
    (values : List Nat) : (s.appendEdges kind values).records = s.records := by
  cases kind <;> rfl

theorem physicalRecords_appendEdges (s : SourceGenerationStorage) (kind : SourceGenerationEdgeKind)
    (values : List Nat) : (s.appendEdges kind values).physicalRecords = s.physicalRecords := by
  cases kind <;> rfl

variable {values : List Nat}

theorem range_append {arena : GrowVector Nat} {r : SourceEdgeRange}
    (h : r.offset + r.count ≤ arena.size) : range (arena.append values) r = range arena r := by
  unfold range
  rw [if_neg (by simp; omega), if_neg (by simp; omega)]
  exact slice_append_left h

theorem range_append_new (arena : GrowVector Nat) (values : List Nat) :
    range (arena.append values) ⟨arena.size, values.length⟩ = values := by
  unfold range
  rw [if_neg (by simp)]
  exact slice_append_self

theorem present_replace (record : SourceGenerationRecord) (kind k : SourceGenerationEdgeKind)
    (r : SourceEdgeRange) :
    (record.replace kind r).present k = (decide (k = kind) || record.present k) := by
  cases kind <;> cases k <;> rfl

theorem range_replace (record : SourceGenerationRecord) (kind k : SourceGenerationEdgeKind)
    (r : SourceEdgeRange) :
    (record.replace kind r).range k = if k = kind then r else record.range k := by
  cases kind <;> cases k <;> rfl

/-- What replacing the edges of a cached record does to every list. -/
structure Replaced (s t : SourceGenerationStorage) (kind : SourceGenerationEdgeKind) (source : Nat)
    (values : List Nat) : Prop where
  wf : t.Wf
  edges : ∀ k x, t.edges k x = if k = kind ∧ x = source then values else s.edges k x
  hasEdges : ∀ k x, t.hasEdges k x = (decide (k = kind ∧ x = source) || s.hasEdges k x)

theorem publishEdges_replaced (h : s.Wf) (kind : SourceGenerationEdgeKind) (hs : source ≠ 0)
    (hsize : source ≤ s.records.size) (hheld : s.records.held (source - 1) = true)
    (hlen : values.length ≤ u32Max) :
    Replaced s (s.publishEdges kind source values) kind source values := by
  have hlt : source - 1 < s.records.size := by omega
  obtain ⟨record, hrecord⟩ := MappedVector.materialized_of_held hheld hlt
  have hcurrent : s.records.value (source - 1) = record := value_of_some hrecord
  have heq : s.publishEdges kind source values =
      { s.appendEdges kind values with
        records := s.records.assign (source - 1)
          (record.replace kind ⟨(s.arena kind).size, values.length⟩) } := by
    unfold publishEdges materialized
    rw [if_neg (by omega), if_neg hs, hrecord]
    simp only [records_appendEdges]
  generalize s.publishEdges kind source values = t at heq
  have harena : ∀ k, t.arena k = if k = kind then (s.arena k).append values else s.arena k := by
    intro k
    rw [← arena_appendEdges, heq]
    cases k <;> rfl
  have hvalue : ∀ i, t.records.value i = if i = source - 1 then
      record.replace kind ⟨(s.arena kind).size, values.length⟩ else s.records.value i := by
    intro i
    rw [heq]
    exact MappedVector.assign_value hheld hlt
  have hselected : ∀ k i, t.selected k (t.records.value i) =
      if k = kind ∧ i = source - 1 then values else s.selected k (s.records.value i) := by
    intro k i
    rw [hvalue]
    by_cases hi : i = source - 1
    · subst hi
      rw [if_pos rfl]
      by_cases hk : k = kind
      · subst hk
        rw [if_pos ⟨rfl, rfl⟩, selected, present_replace, range_replace, harena]
        simp [range_append_new]
      · rw [if_neg (fun hand => hk hand.1), selected, selected, present_replace, range_replace,
          harena, if_neg hk, if_neg hk, hcurrent]
        simp [hk]
    · rw [if_neg hi, if_neg (fun hand => hi hand.2), selected, selected, harena]
      by_cases hp : (s.records.value i).present k = true
      · rw [if_pos hp, if_pos hp]
        by_cases hk : k = kind
        · rw [if_pos hk, range_append (h.inside k i hp).1]
        · rw [if_neg hk]
      · rw [if_neg hp, if_neg hp]
  have hpresent : ∀ k i, (t.records.value i).present k =
      (decide (k = kind ∧ i = source - 1) || (s.records.value i).present k) := by
    intro k i
    rw [hvalue]
    by_cases hi : i = source - 1
    · subst hi
      rw [if_pos rfl, present_replace, hcurrent]
      simp
    · simp [hi]
  have hwf : t.Wf := by
    refine ⟨fun i hi => ?_, fun k i hp => ?_⟩
    · rw [heq] at hi ⊢
      simp only [MappedVector.assign_baselineCount] at hi
      simp only [MappedVector.assign_reader]
      exact h.overlay i hi
    · rw [harena]
      by_cases hi : i = source - 1
      · rw [hvalue, if_pos hi, range_replace]
        by_cases hk : k = kind
        · subst hk
          rw [if_pos rfl, if_pos rfl]
          simp only [GrowVector.append_size]
          omega
        · have hold : (s.records.value i).present k = true := by
            rw [hpresent] at hp
            simpa [hk] using hp
          rw [if_neg hk, if_neg hk]
          have hin := h.inside k i hold
          rw [hi, hcurrent] at hin
          exact hin
      · have hold : (s.records.value i).present k = true := by
          rw [hpresent] at hp
          simpa [hi] using hp
        have hin := h.inside k i hold
        rw [hvalue, if_neg hi]
        by_cases hk : k = kind
        · rw [if_pos hk, GrowVector.append_size]
          omega
        · rw [if_neg hk]
          exact hin
  refine ⟨hwf, fun k x => ?_, fun k x => ?_⟩
  · by_cases hx : x = 0
    · subst hx
      have hne : ¬(k = kind ∧ 0 = source) := fun hand => hs hand.2.symm
      rw [if_neg hne]
      rfl
    · have hiff : x - 1 = source - 1 ↔ x = source := by omega
      rw [hwf.edges_eq k hx, h.edges_eq k hx, hselected]
      simp only [hiff]
  · by_cases hx : x = 0
    · subst hx
      have hne : ¬(k = kind ∧ 0 = source) := fun hand => hs hand.2.symm
      rw [decide_eq_false hne]
      rfl
    · have hiff : x - 1 = source - 1 ↔ x = source := by omega
      rw [hwf.hasEdges_eq k hx, h.hasEdges_eq k hx, hpresent]
      simp only [hiff]

theorem publishEdges_long (s : SourceGenerationStorage) (kind : SourceGenerationEdgeKind)
    (source : Nat) (h : u32Max < values.length) : s.publishEdges kind source values = s := by
  rw [publishEdges, if_pos h]

theorem publishSource_value (s : SourceGenerationStorage) :
    s.publishSource.records.value = s.records.value := by
  funext i
  have hpush : s.publishSource.records = s.records.pushBack {} := rfl
  rw [hpush, MappedVector.pushBack_value]
  by_cases hi : i = s.records.size
  · rw [if_pos hi, MappedVector.value_of_size_le (by omega)]
    rfl
  · rw [if_neg hi]

theorem publishSource_arena (s : SourceGenerationStorage) (kind : SourceGenerationEdgeKind) :
    s.publishSource.arena kind = s.arena kind := by
  cases kind <;> rfl

theorem Wf.publishSource (h : s.Wf) : s.publishSource.Wf := by
  refine ⟨h.overlay, fun kind i hp => ?_⟩
  rw [publishSource_value] at hp ⊢
  exact h.inside kind i hp

theorem publishSnapshot_records (s : SourceGenerationStorage) (source : Nat)
    (snapshot : Option SourceSnapshot) :
    (s.publishSnapshot source snapshot).records = s.records := by
  unfold publishSnapshot
  split <;> rfl

theorem publishSnapshot_arena (s : SourceGenerationStorage) (source : Nat)
    (snapshot : Option SourceSnapshot) (kind : SourceGenerationEdgeKind) :
    (s.publishSnapshot source snapshot).arena kind = s.arena kind := by
  unfold publishSnapshot
  split
  · rfl
  · cases kind <;> rfl

theorem Wf.publishSnapshot (h : s.Wf) (source : Nat) (snapshot : Option SourceSnapshot) :
    (s.publishSnapshot source snapshot).Wf := by
  refine ⟨?_, fun kind i hp => ?_⟩
  · rw [publishSnapshot_records]
    exact h.overlay
  · rw [publishSnapshot_records] at hp ⊢
    rw [publishSnapshot_arena]
    exact h.inside kind i hp

theorem edges_congr (hs : s.Wf) (ht : t.Wf) (hvalue : t.records.value = s.records.value)
    (harena : ∀ kind, t.arena kind = s.arena kind) (kind : SourceGenerationEdgeKind) (x : Nat) :
    t.edges kind x = s.edges kind x ∧ t.hasEdges kind x = s.hasEdges kind x := by
  by_cases hx : x = 0
  · subst hx
    exact ⟨rfl, rfl⟩
  · rw [ht.edges_eq kind hx, hs.edges_eq kind hx, ht.hasEdges_eq kind hx, hs.hasEdges_eq kind hx,
      hvalue, selected, selected, harena]
    exact ⟨rfl, rfl⟩

end SourceGenerationStorage

/-! ## The manager -/

namespace SourceManager

/-- The counts agree and untouched records read as empty overlays. -/
structure Wf (m : SourceManager) : Prop where
  storage : m.generationStorage.Wf
  statesSize : m.states.size = m.records.size
  storageSize : m.generationStorage.records.size = m.records.size
  physicalSize : m.generationStorage.physicalRecords.size = m.records.size
  recordsBaseline : m.records.baselineCount = m.baselineSourceCount
  statesBaseline : m.states.baselineCount = m.baselineSourceCount
  storageBaseline : m.generationStorage.records.baselineCount = m.baselineSourceCount
  physicalBaseline : m.generationStorage.physicalRecords.baselineCount = m.baselineSourceCount
  physicalOverlay : ∀ i < m.generationStorage.physicalRecords.baselineCount,
    m.generationStorage.physicalRecords.reader i = .ok {}
  bounded : ∀ kind i, ((m.states.value i).baselineEdges kind).length ≤ u32Max

theorem wf_fresh : ({} : SourceManager).Wf := by
  refine ⟨⟨fun i hi => ?_, fun kind i hp => ?_⟩, rfl, rfl, rfl, rfl, rfl, rfl, rfl,
    fun i hi => ?_, fun kind i => ?_⟩
  · cases hi
  · cases kind <;> cases hp
  · cases hi
  · cases kind <;> exact Nat.zero_le _

theorem readState_le {b : Baseline} {i : Nat} {state : CommittedSource}
    (h : b.readState i = .ok state) (kind : SourceGenerationEdgeKind) :
    (state.baselineEdges kind).length ≤ u32Max := by
  have hsaved : ∀ snapshot, state = { snapshot, baselineIncludes := b.sources.includes (i + 1)
                                      baselineDependents := b.sources.dependents (i + 1) } →
      (state.baselineEdges kind).length ≤ u32Max := by
    rintro snapshot rfl
    cases kind
    · exact b.sources.includes_le _
    · exact b.sources.dependents_le _
  unfold Baseline.readState at h
  split at h
  · cases h
  · dsimp only at h
    split at h
    · cases h
    · split at h
      · exact hsaved none (Except.ok.inj h).symm
      · split at h
        · cases h
        · exact hsaved _ (Except.ok.inj h).symm

theorem wf_ofBaseline (b : Baseline) : (ofBaseline b).Wf := by
  refine ⟨⟨fun i hi => rfl, fun kind i hp => ?_⟩, rfl, rfl, rfl, rfl, rfl, rfl, rfl,
    fun i hi => rfl, fun kind i => ?_⟩
  · have hvalue : (ofBaseline b).generationStorage.records.value i = {} := by
      unfold MappedVector.value MappedVector.read
      split
      · rename_i x hx
        split at hx
        · exact (Except.ok.inj hx).symm
        · cases hx
      · rfl
    rw [hvalue] at hp
    cases kind <;> cases hp
  · unfold MappedVector.value MappedVector.read
    split
    · rename_i x hx
      split at hx
      · exact readState_le hx kind
      · cases hx
    · cases kind <;> exact Nat.zero_le _

variable {m : SourceManager}

theorem Wf.baseline_le (h : m.Wf) : m.baselineSourceCount ≤ m.states.size := by
  rw [← h.statesBaseline]
  simp [MappedVector.size]

variable {source : Nat}

theorem edges_of_ne (m : SourceManager) (kind : SourceGenerationEdgeKind) (hs : source ≠ 0) :
    m.edges kind source =
      if m.generationStorage.hasEdges kind source then m.generationStorage.edges kind source
      else if m.baseline.isSome ∧ source ≤ m.baselineSourceCount ∧ source ≤ m.states.size then
        (m.states.value (source - 1)).baselineEdges kind
      else [] := by
  rw [edges, if_neg hs]
  by_cases hp : m.generationStorage.hasEdges kind source = true
  · rw [if_pos hp, if_pos hp]
  · rw [if_neg hp, if_neg hp]
    have hreads : m.readsState kind source = true ↔
        m.baseline.isSome ∧ source ≤ m.baselineSourceCount ∧ source ≤ m.states.size := by
      simp [readsState, hs, hp, and_assoc]
    simp only [hreads]

theorem Wf.edges_of_size_lt (h : m.Wf) (kind : SourceGenerationEdgeKind)
    (hsize : m.states.size < source) : m.edges kind source = [] := by
  have hs : source ≠ 0 := by omega
  have hvalue : m.generationStorage.records.value (source - 1) = {} := by
    apply MappedVector.value_of_size_le
    rw [h.storageSize, ← h.statesSize]
    omega
  have hnone : m.generationStorage.hasEdges kind source = false := by
    rw [h.storage.hasEdges_eq kind hs, hvalue]
    cases kind <;> rfl
  rw [edges_of_ne m kind hs, hnone, if_neg (by simp), if_neg (by omega)]

theorem Wf.edges_length_le (h : m.Wf) (kind : SourceGenerationEdgeKind) (source : Nat) :
    (m.edges kind source).length ≤ u32Max := by
  by_cases hs : source = 0
  · subst hs
    exact Nat.zero_le _
  · rw [edges_of_ne m kind hs]
    split
    · rename_i hp
      rw [h.storage.hasEdges_eq kind hs] at hp
      rw [h.storage.edges_eq kind hs, SourceGenerationStorage.selected, if_pos hp]
      exact Nat.le_trans (SourceGenerationStorage.range_length_le _ _) (h.storage.inside kind _ hp).2
    · split
      · exact h.bounded kind _
      · exact Nat.zero_le _

structure Grown (m n : SourceManager) : Prop where
  baseline : n.baseline = m.baseline
  records : MappedVector.Grown m.records n.records
  pathStorage : GrowVector.Grown m.pathStorage n.pathStorage
  states : MappedVector.Grown m.states n.states
  storage : SourceGenerationStorage.Grown m.generationStorage n.generationStorage
  pathPages : GrowVector.Grown m.snapshotStorage.pathPages n.snapshotStorage.pathPages
  textPages : GrowVector.Grown m.snapshotStorage.textPages n.snapshotStorage.textPages
  textBytes : n.persistenceTextBytes = m.persistenceTextBytes

theorem Grown.refl (m : SourceManager) : Grown m m :=
  ⟨rfl, .refl _, .refl _, .refl _, .refl _, .refl _, .refl _, rfl⟩

variable {n : SourceManager}

theorem Grown.trans {p : SourceManager} (h : Grown m n) (h' : Grown n p) : Grown m p :=
  ⟨h'.baseline.trans h.baseline, h.records.trans h'.records, h.pathStorage.trans h'.pathStorage,
    h.states.trans h'.states, h.storage.trans h'.storage, h.pathPages.trans h'.pathPages,
    h.textPages.trans h'.textPages, h'.textBytes.trans h.textBytes⟩

theorem Grown.baselineSourceCount (h : Grown m n) :
    n.baselineSourceCount = m.baselineSourceCount := by
  rw [SourceManager.baselineSourceCount, h.baseline, SourceManager.baselineSourceCount]

theorem Grown.wf (h : Grown m n) (hm : m.Wf) : n.Wf := by
  refine ⟨h.storage.wf hm.storage, ?_, ?_, ?_, ?_, ?_, ?_, ?_, ?_, ?_⟩
  · rw [h.states.size, h.records.size, hm.statesSize]
  · rw [h.storage.records.size, h.records.size, hm.storageSize]
  · rw [h.storage.physicalRecords.size, h.records.size, hm.physicalSize]
  · rw [h.records.baselineCount, h.baselineSourceCount, hm.recordsBaseline]
  · rw [h.states.baselineCount, h.baselineSourceCount, hm.statesBaseline]
  · rw [h.storage.records.baselineCount, h.baselineSourceCount, hm.storageBaseline]
  · rw [h.storage.physicalRecords.baselineCount, h.baselineSourceCount, hm.physicalBaseline]
  · rw [h.storage.physicalRecords.baselineCount, h.storage.physicalRecords.reader]
    exact hm.physicalOverlay
  · rw [h.states.value]
    exact hm.bounded

theorem Grown.hasEdges (h : Grown m n) (hm : m.Wf) (kind : SourceGenerationEdgeKind) (x : Nat) :
    n.generationStorage.hasEdges kind x = m.generationStorage.hasEdges kind x := by
  by_cases hx : x = 0
  · subst hx
    rfl
  · rw [(h.wf hm).storage.hasEdges_eq kind hx, hm.storage.hasEdges_eq kind hx,
      h.storage.records.value]

theorem Grown.edges (h : Grown m n) (hm : m.Wf) (kind : SourceGenerationEdgeKind) (x : Nat) :
    n.edges kind x = m.edges kind x := by
  by_cases hx : x = 0
  · subst hx
    rfl
  · have hn := h.wf hm
    have hlist : n.generationStorage.edges kind x = m.generationStorage.edges kind x := by
      rw [hn.storage.edges_eq kind hx, hm.storage.edges_eq kind hx, h.storage.records.value,
        h.storage.selected]
    rw [edges_of_ne n kind hx, edges_of_ne m kind hx, h.hasEdges hm, hlist, h.baseline,
      h.baselineSourceCount, h.states.size, h.states.value]

theorem cacheEdges_grown (m : SourceManager) (kind : SourceGenerationEdgeKind) (source : Nat) :
    Grown m (m.cacheEdges kind source) := by
  unfold cacheEdges
  split
  · exact ⟨rfl, .refl _, .refl _, MappedVector.materialize_grown _ _, .refl _, .refl _, .refl _, rfl⟩
  · exact .refl m

end SourceManager

end ServerEngine
