import ServerEngine.Source.Publication

/-! # Runs of an update

Any sequence of calls keeps the update sound: distinct valid candidates on an owner that has only
grown, and everything a publication needs whenever the update says it is prepared.
-/
namespace ServerEngine
open Transaction

namespace SourceManagerUpdate

/-! ## Calls that ask for a new preparation -/

def Unprepares {α : Type} (x : UpdateM α) : Prop :=
  ∀ u, left (x u) = u ∨ (left (x u)).prepared = false

theorem touch_unprepares (source : Nat) : Unprepares (touch source) := by
  intro u
  unfold touch
  split
  · exact .inl rfl
  · split
    · exact .inl rfl
    · exact .inr rfl

variable {α : Type} {x : UpdateM α}

theorem unprepares_bind {β : Type} {f : α → UpdateM β} (hx : Unprepares x)
    (hf : ∀ a, Unprepares (f a)) : Unprepares (x >>= f) := by
  intro u
  rw [bind_eq]
  have hfirst := hx u
  cases h : x u with
  | error code v =>
    rw [h] at hfirst
    exact hfirst
  | ok a v =>
    rw [h] at hfirst
    rcases hfirst with heq | hno
    · obtain rfl : v = u := heq
      exact hf a v
    · rcases hf a v with heq | hno'
      · right
        show (left (f a v)).prepared = false
        rw [heq]
        exact hno
      · exact .inr hno'

theorem resolve_unprepares (normalized : Bytes) : Unprepares (resolveNormalized normalized) := by
  intro u
  unfold resolveNormalized
  split
  · exact .inl rfl
  · split
    · exact .inl rfl
    · split
      · exact .inl rfl
      · split
        · exact .inl rfl
        · exact .inr rfl

theorem acquireTouched_unprepares (source : Nat) (kind : SourceAcquireKind)
    (previous : Option SourceSnapshot) : Unprepares (acquireTouched source kind previous) := by
  intro u
  unfold acquireTouched
  cases kind with
  | unchanged => exact .inl rfl
  | missing =>
    dsimp only
    split
    · exact .inl rfl
    · exact .inr rfl
  | present bytes observation hash identity =>
    dsimp only
    split
    · exact .inl rfl
    · split
      · exact .inl rfl
      · exact .inr rfl

theorem applyAcquire_unprepares (source : Nat) (kind : SourceAcquireKind) :
    Unprepares (applyAcquire source kind) := by
  intro u
  unfold applyAcquire
  split
  · exact .inl rfl
  · split
    · exact .inl rfl
    · exact unprepares_bind (touch_unprepares source)
        (fun _ => acquireTouched_unprepares source kind _) u

theorem setIncludes_unprepares (source : Nat) (dependencies : List Nat) :
    Unprepares (setIncludes source dependencies) := by
  intro u
  unfold setIncludes
  split
  · exact .inl rfl
  · split
    · exact .inl rfl
    · exact unprepares_bind (touch_unprepares source) (fun _ _ => .inr rfl) u

/-! ## Failed preparations -/

def StaysUnprepared {α : Type} (x : UpdateM α) : Prop := Keeps (fun u => u.prepared = false) x

theorem onOwner_unprepared (x : EStateM StatusCode SourceManager α) :
    StaysUnprepared (onOwner x) := by
  intro u hu
  unfold onOwner
  split <;> exact hu

theorem applyPatch_unprepared (p : EdgePatch) : StaysUnprepared (applyPatch p) := by
  apply keeps_bind
  · intro u hu
    unfold touch
    split
    · exact hu
    · split
      · exact hu
      · rfl
  · intro _ u hu
    have hload : (u.loadDependents p.target).prepared = false := by
      unfold loadDependents
      split <;> exact hu
    exact hload

theorem prepareDependentPatches_unprepared : StaysUnprepared prepareDependentPatches := by
  intro u hu
  exact keeps_bind (onOwner_unprepared _)
    (fun _ => keeps_forM fun p _ => applyPatch_unprepared p) u hu

theorem buildPreparedPathIndex_unprepared : StaysUnprepared buildPreparedPathIndex := by
  intro u hu
  unfold buildPreparedPathIndex
  dsimp only
  generalize nextCapacity _ = capacity
  split <;> exact hu

theorem preparePathIndex_unprepared : StaysUnprepared preparePathIndex := by
  intro u hu
  unfold preparePathIndex
  split
  · exact buildPreparedPathIndex_unprepared u hu
  · unfold buildSparsePathInsertions
    split
    · exact buildPreparedPathIndex_unprepared u hu
    · split <;> exact hu

theorem checkPathBytes_unprepared : StaysUnprepared checkPathBytes := by
  intro u hu
  unfold checkPathBytes
  dsimp only
  split <;> exact hu

theorem reserveNewSources_unprepared : StaysUnprepared reserveNewSources := by
  intro u hu
  unfold reserveNewSources
  dsimp only
  split
  · split <;> exact hu
  · split
    · split <;> exact hu
    · split <;> exact hu

theorem prepareNewSources_unprepared : StaysUnprepared prepareNewSources := by
  intro u hu
  unfold prepareNewSources
  split
  · exact hu
  · exact keeps_bind preparePathIndex_unprepared (fun _ => keeps_bind checkPathBytes_unprepared
      fun _ => reserveNewSources_unprepared) u hu

variable {u : SourceManagerUpdate} {code : StatusCode} {v : SourceManagerUpdate}

theorem preparePublish_unprepared (hu : u.prepared = false) (h : preparePublish u = .error code v) :
    v.prepared = false := by
  unfold preparePublish at h
  split at h
  · cases h
    exact hu
  · rw [if_neg (by simp [hu])] at h
    refine failsIn_bind prepareDependentPatches_unprepared (fun _ =>
      failsIn_bind prepareNewSources_unprepared fun _ => failsIn_bind ?_ fun _ =>
      failsIn_bind ?_ fun _ => failsIn_bind ?_ fun _ => failsIn_bind ?_ fun _ =>
      failsIn_modify _ markPrepared) u hu code v h
    · intro u hu
      unfold prepareTextBytes
      split <;> exact hu
    · intro u hu
      unfold prepareGeneration
      dsimp only
      split
      · exact hu
      · split <;> exact hu
    · exact fun u hu => onOwner_unprepared _ u hu
    · intro u hu
      unfold prepareAbsorb
      split <;> exact hu

/-! ## Sound updates -/

variable {m : SourceManager}

theorem prepareStages_progress (hu : Progress m u) (h : preparePublish u = .error code v) :
    Progress m v := by
  unfold preparePublish at h
  split at h
  · cases h
    exact hu
  · split at h
    · cases h
    · have hlater : ∀ {x : UpdateM Unit}, (∀ u0 : SourceManagerUpdate, Keeps (Later u0) x) →
          Keeps (Progress m) x := fun hx u hu => (hx u u (.refl u)).progress hu
      exact failsIn_bind prepareDependentPatches_keeps (fun _ =>
        failsIn_bind (hlater fun _ => prepareNewSources_later) fun _ =>
        failsIn_bind (hlater fun _ => prepareTextBytes_later) fun _ =>
        failsIn_bind (hlater fun _ => prepareGeneration_later) fun _ =>
        failsIn_bind (hlater fun _ => prepareSources_later) fun _ =>
        failsIn_bind (hlater fun _ => prepareAbsorb_later) fun _ =>
        failsIn_modify _ markPrepared) u hu code v h

/-- An update on `m` that any calls may have led to. -/
structure Sound (m : SourceManager) (u : SourceManagerUpdate) : Prop where
  progress : Progress m u
  ready : u.prepared = true → Ready u

theorem sound_begin (hcount : m.records.size ≤ u32Max) : Sound m m.beginUpdate := by
  refine ⟨progress_begin hcount, fun h => ?_⟩
  cases h

theorem Sound.unprepares (hu : Sound m u) (hx : Unprepares x) (hkeep : Keeps (Progress m) x) :
    Sound m (left (x u)) := by
  refine ⟨hkeep u hu.progress, fun hp => ?_⟩
  rcases hx u with heq | hno
  · rw [heq] at hp ⊢
    exact hu.ready hp
  · rw [hno] at hp
    cases hp

theorem preparePublish_sound (hm : m.Wf) (hu : Sound m u) (h : preparePublish u = .ok () v) :
    Sound m v ∧ v.prepared = true := by
  by_cases hp : u.prepared = true
  · unfold preparePublish at h
    rw [if_neg (by simp [hu.progress.pending]), if_pos hp] at h
    cases h
    exact ⟨hu, hp⟩
  · have hwf := hu.progress.grown.wf hm
    obtain ⟨mid, hprep⟩ := preparePublish_ok hwf (by simpa using hp) h
    have hmid : Progress m mid := prepareDependentPatches_keeps.ok hu.progress hprep.patches
    exact ⟨⟨hprep.later.progress hmid, fun _ => hprep.ready⟩, hprep.prepared⟩

theorem call_sound (hm : m.Wf) (hu : Sound m u) (c : Call) : Sound m (u.call c) := by
  cases c with
  | resolve normalized => exact hu.unprepares (resolve_unprepares _) (resolve_keeps _)
  | applyAcquire source kind =>
    exact hu.unprepares (applyAcquire_unprepares _ _) (applyAcquire_keeps _ _)
  | setIncludes source dependencies =>
    exact hu.unprepares (setIncludes_unprepares _ _) (setIncludes_keeps _ _)
  | preparePublish =>
    show Sound m (left (SourceManagerUpdate.preparePublish u))
    cases h : SourceManagerUpdate.preparePublish u with
    | ok a v => exact (preparePublish_sound hm hu h).1
    | error code v =>
      refine ⟨prepareStages_progress hu.progress h, fun hp => ?_⟩
      by_cases hprep : u.prepared = true
      · unfold SourceManagerUpdate.preparePublish at h
        rw [if_neg (by simp [hu.progress.pending]), if_pos hprep] at h
        cases h
      · have hno := preparePublish_unprepared (by simpa using hprep) h
        rw [left_error, hno] at hp
        cases hp
  | readEdges kind source =>
    have hlater : Later u { u with owner := u.owner.cacheEdges kind source } :=
      ⟨SourceManager.cacheEdges_grown _ _ _, rfl, rfl, rfl, rfl⟩
    exact ⟨hlater.progress hu.progress, fun hp => (hu.ready hp).later hlater⟩

theorem run_sound (hm : m.Wf) (hu : Sound m u) (calls : List Call) : Sound m (u.run calls) := by
  induction calls generalizing u with
  | nil => exact hu
  | cons c calls ih => exact ih (call_sound hm hu c)

/-! ## Publishing a sound update -/

def publishedSources (u : SourceManagerUpdate) : SourceManager :=
  u.newSources.foldl publishSource { u.owner with
    snapshotStorage := u.owner.snapshotStorage.absorbPrepared u.candidateSnapshots }

theorem absorbed_wf (hm : m.Wf) (snapshotStorage : SnapshotPageStore) :
    ({ m with snapshotStorage } : SourceManager).Wf :=
  ⟨hm.storage, hm.statesSize, hm.storageSize, hm.physicalSize, hm.recordsBaseline,
    hm.statesBaseline, hm.storageBaseline, hm.physicalBaseline, hm.physicalOverlay, hm.bounded⟩

theorem publishedSources_spec (hm : m.Wf) (hu : Progress m u) : SourcesPublished { u.owner with
      snapshotStorage := u.owner.snapshotStorage.absorbPrepared u.candidateSnapshots }
      u.publishedSources u.newSources :=
  publishSources_spec (absorbed_wf (hu.grown.wf hm) _) u.newSources

theorem publishedCandidates_spec (hm : m.Wf) (hu : Sound m u) (hp : u.prepared = true) :
    CandidatesPublished u.publishedSources
      (u.candidates.foldl publishCandidate u.publishedSources) u.candidates := by
  have hsources := publishedSources_spec hm hu.progress
  apply publishCandidates_spec hsources.wf hu.progress.distinct
  · intro c hc
    have hvalid := validSource_iff.mp (hu.progress.valid c hc)
    refine ⟨hvalid.1, ?_⟩
    rw [hsources.wf.statesSize, hsources.records]
    exact hvalid.2
  · intro c hc hchanged
    rw [hsources.recordsHeld, hsources.physicalHeld]
    exact (hu.ready hp).cached c hc hchanged

theorem publishPrepared_owner (hp : u.prepared = true) (hc : u.committed = false) :
    (publishPrepared u).owner =
      { u.candidates.foldl publishCandidate u.publishedSources with
        pathIndexSlots := if u.preparedPathIndexSlots ≠ 0 then u.preparedPathIndexSlots
          else (u.candidates.foldl publishCandidate u.publishedSources).pathIndexSlots
        persistenceTextBytes := u.preparedTextBytes } := by
  unfold publishPrepared
  rw [if_neg (by simp [hp, hc])]
  rfl

/-- The edges after a publication are the update's, where their length is a 32-bit word. -/
theorem publishPrepared_edges (hm : m.Wf) (hu : Sound m u) (hp : u.prepared = true)
    (kind : SourceGenerationEdgeKind) (x : Nat) : (publishPrepared u).owner.edges kind x =
      if ((u.overlay kind x).getD []).length ≤ u32Max then u.edges kind x
      else u.owner.edges kind x := by
  have hsources := publishedSources_spec hm hu.progress
  have hcandidates := publishedCandidates_spec hm hu hp
  have howner : (publishPrepared u).owner.edges kind x =
      (u.candidates.foldl publishCandidate u.publishedSources).edges kind x := by
    rw [publishPrepared_owner hp hu.progress.pending]
    rfl
  have hkept : u.publishedSources.edges kind x = u.owner.edges kind x := hsources.edges kind x
  rw [howner, edges]
  cases hover : u.overlay kind x with
  | none =>
    have hno : ∀ c ∈ u.candidates, c.source = x →
        ¬(c.has kind = true ∧ (c.edges kind).length ≤ u32Max) := by
      rintro c hc rfl ⟨hhas, -⟩
      rw [overlay, candidate_of_mem hu.progress.distinct hc] at hover
      simp [hhas] at hover
    rw [hcandidates.kept kind x hno, hkept]
    simp
  | some l =>
    obtain ⟨c, hc, hsource, hhas, hl⟩ : ∃ c ∈ u.candidates, c.source = x ∧ c.has kind = true ∧
        c.edges kind = l := by
      unfold overlay at hover
      obtain ⟨c, hfind, hl⟩ := Option.bind_eq_some_iff.mp hover
      obtain ⟨hc, hsource⟩ := candidate_some hfind
      by_cases hhas : c.has kind = true
      · rw [if_pos hhas] at hl
        exact ⟨c, hc, hsource, hhas, Option.some.inj hl⟩
      · rw [if_neg hhas] at hl
        cases hl
    subst hl
    by_cases hlen : (c.edges kind).length ≤ u32Max
    · rw [← hsource, hcandidates.stored kind c hc hhas hlen]
      simp [hlen]
    · have hno : ∀ d ∈ u.candidates, d.source = x →
          ¬(d.has kind = true ∧ (d.edges kind).length ≤ u32Max) := by
        rintro d hd hdx ⟨-, hdlen⟩
        have hsame : d = c := by
          have h1 := candidate_of_mem hu.progress.distinct hd
          have h2 := candidate_of_mem hu.progress.distinct hc
          rw [hdx, ← hsource, h2] at h1
          exact (Option.some.inj h1).symm
        exact hlen (hsame ▸ hdlen)
      rw [hcandidates.kept kind x hno, hkept]
      simp [hlen]

theorem publishPrepared_wf (hm : m.Wf) (hu : Sound m u) (hp : u.prepared = true) :
    (publishPrepared u).owner.Wf ∧
      (publishPrepared u).owner.records.size ≤ u32Max := by
  have hsources := publishedSources_spec hm hu.progress
  have hcandidates := publishedCandidates_spec hm hu hp
  have hwf := hcandidates.wf
  rw [publishPrepared_owner hp hu.progress.pending]
  refine ⟨⟨hwf.storage, hwf.statesSize, hwf.storageSize, hwf.physicalSize, hwf.recordsBaseline,
    hwf.statesBaseline, hwf.storageBaseline, hwf.physicalBaseline, hwf.physicalOverlay,
    hwf.bounded⟩, ?_⟩
  show (u.candidates.foldl publishCandidate u.publishedSources).records.size ≤ u32Max
  rw [hcandidates.records, hsources.records]
  exact hu.progress.count

end SourceManagerUpdate

end ServerEngine
