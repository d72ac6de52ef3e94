import ServerEngine.Source.Committed

/-! # What an update keeps

Every call keeps the candidates distinct and valid and only grows the owner. A successful
preparation leaves the update ready: there is room for all it appends, and the records it replaces
are cached.
-/
namespace ServerEngine
open Transaction

namespace CandidateSource

def has (c : CandidateSource) : SourceGenerationEdgeKind → Bool
  | .includes => c.hasIncludes
  | .dependents => c.hasDependents

def edges (c : CandidateSource) : SourceGenerationEdgeKind → List Nat
  | .includes => c.includes
  | .dependents => c.dependents

end CandidateSource

namespace SourceManagerUpdate

/-! ## Overlays -/

def overlay (u : SourceManagerUpdate) (kind : SourceGenerationEdgeKind) (source : Nat) :
    Option (List Nat) :=
  (u.candidate source).bind fun c => if c.has kind then some (c.edges kind) else none

/-- `includes` and `dependents` of the update. -/
def edges (u : SourceManagerUpdate) (kind : SourceGenerationEdgeKind) (source : Nat) : List Nat :=
  (u.overlay kind source).getD (u.owner.edges kind source)

theorem includes_eq (u : SourceManagerUpdate) (source : Nat) :
    u.includes source = u.edges .includes source := by
  unfold includes edges overlay
  cases u.candidate source with
  | none => rfl
  | some c =>
    cases hc : c.hasIncludes with
    | false => simp [CandidateSource.has, hc, SourceManager.includes, Option.filter]
    | true => simp [CandidateSource.has, hc, CandidateSource.edges, Option.filter]

theorem dependents_eq (u : SourceManagerUpdate) (source : Nat) :
    u.dependents source = u.edges .dependents source := by
  unfold dependents edges overlay
  cases u.candidate source with
  | none => rfl
  | some c =>
    cases hc : c.hasDependents with
    | false => simp [CandidateSource.has, hc, SourceManager.dependents, Option.filter]
    | true => simp [CandidateSource.has, hc, CandidateSource.edges, Option.filter]

/-! ## Looking candidates up -/

variable {u : SourceManagerUpdate} {source : Nat} {c : CandidateSource}

theorem candidate_some (h : u.candidate source = some c) :
    c ∈ u.candidates ∧ c.source = source := by
  refine ⟨List.mem_of_find?_eq_some h, ?_⟩
  simpa using List.find?_some h

theorem candidate_none (h : u.candidate source = none) : ∀ c ∈ u.candidates, c.source ≠ source := by
  simpa [candidate] using h

theorem candidate_of_mem (hd : (u.candidates.map (·.source)).Nodup) (hc : c ∈ u.candidates) :
    u.candidate c.source = some c := by
  unfold candidate
  revert hd hc
  generalize u.candidates = cs
  intro hd hc
  induction cs with
  | nil => cases hc
  | cons x xs ih =>
    rw [List.map_cons, List.nodup_cons] at hd
    by_cases hx : x.source = c.source
    · rcases List.mem_cons.mp hc with rfl | hc
      · simp
      · exact absurd (List.mem_map.mpr ⟨c, hc, hx.symm⟩) hd.1
    · rcases List.mem_cons.mp hc with rfl | hc
      · exact absurd rfl hx
      · rw [List.find?_cons_of_neg (by simpa using hx)]
        exact ih hd.2 hc

theorem candidates_updateCandidate (u : SourceManagerUpdate) (source : Nat)
    (f : CandidateSource → CandidateSource) : (u.updateCandidate source f).candidates =
      u.candidates.map fun c => if c.source = source then f c else c := rfl

variable {f : CandidateSource → CandidateSource}

theorem sources_updateCandidate (u : SourceManagerUpdate) (source : Nat)
    (hf : ∀ c, (f c).source = c.source) :
    (u.updateCandidate source f).candidates.map (·.source) = u.candidates.map (·.source) := by
  rw [candidates_updateCandidate, List.map_map]
  apply List.map_congr_left
  intro c _
  simp only [Function.comp]
  split
  · exact hf c
  · rfl

theorem candidate_updateCandidate (u : SourceManagerUpdate) (source : Nat)
    (hf : ∀ c, (f c).source = c.source) (x : Nat) : (u.updateCandidate source f).candidate x =
      if x = source then (u.candidate x).map f else u.candidate x := by
  unfold candidate
  rw [candidates_updateCandidate]
  generalize u.candidates = cs
  induction cs with
  | nil => simp
  | cons c cs ih =>
    have hsource : (if c.source = source then f c else c).source = c.source := by
      split
      · exact hf c
      · rfl
    rw [List.map_cons, List.find?_cons, List.find?_cons, hsource]
    by_cases hc : c.source = x
    · by_cases hx : x = source
      · simp [hc, hx]
      · simp [hc, hx]
    · simpa [hc] using ih

/-- What `touch` leaves: a candidate for the source, and every other as it was. -/
structure Touched (u v : SourceManagerUpdate) (source : Nat) : Prop where
  rest : v = { u with candidates := v.candidates, prepared := v.prepared }
  candidates : v.candidates = u.candidates ∨
    (u.candidate source = none ∧
      v.candidates = u.candidates ++ [({ source := source } : CandidateSource)])
  valid : u.validSource source = true ∨ (u.candidate source).isSome
  prepared : v.prepared = true → u.prepared = true ∧ v.candidates = u.candidates
  found : v.candidate source = some ((u.candidate source).getD { source := source })
  others : ∀ x, x ≠ source → v.candidate x = u.candidate x

variable {v : SourceManagerUpdate}

theorem touch_ok (h : touch source u = .ok () v) : Touched u v source := by
  unfold touch at h
  split at h
  · rename_i hsome
    cases h
    obtain ⟨c, hc⟩ := Option.isSome_iff_exists.mp hsome
    refine ⟨rfl, .inl rfl, .inr hsome, fun hp => ⟨hp, rfl⟩, ?_, fun _ _ => rfl⟩
    rw [hc]
    rfl
  · split at h
    · cases h
    · rename_i hnone hvalid
      cases h
      have hnone : u.candidate source = none := by simpa using hnone
      refine ⟨rfl, .inr ⟨hnone, rfl⟩, .inl (by simpa using hvalid), ?_, ?_, ?_⟩
      · intro hp
        cases hp
      · rw [hnone]
        unfold candidate at hnone ⊢
        rw [List.find?_append, hnone]
        simp
      · intro x hx
        unfold candidate
        have hne : ¬source = x := fun heq => hx heq.symm
        simp [hne]

theorem Touched.owner (h : Touched u v source) : v.owner = u.owner := by
  rw [h.rest]

theorem Touched.newSources (h : Touched u v source) : v.newSources = u.newSources := by
  rw [h.rest]

theorem Touched.overlay (h : Touched u v source) (kind : SourceGenerationEdgeKind) (x : Nat) :
    v.overlay kind x = u.overlay kind x := by
  unfold SourceManagerUpdate.overlay
  by_cases hx : x = source
  · subst hx
    rw [h.found]
    cases u.candidate x with
    | none => cases kind <;> rfl
    | some c => rfl
  · rw [h.others x hx]

theorem overlay_updateCandidate (u : SourceManagerUpdate) (source : Nat)
    (hf : ∀ c, (f c).source = c.source) (kind : SourceGenerationEdgeKind) (x : Nat) :
    (u.updateCandidate source f).overlay kind x =
      if x = source then (u.candidate source).bind fun c =>
        if (f c).has kind then some ((f c).edges kind) else none
      else u.overlay kind x := by
  unfold overlay
  rw [candidate_updateCandidate u source hf]
  by_cases hx : x = source
  · subst hx
    rw [if_pos rfl, if_pos rfl]
    cases u.candidate x <;> rfl
  · rw [if_neg hx, if_neg hx]

/-! ## The invariant -/

/-- An update in progress on `m`. -/
structure Progress (m : SourceManager) (u : SourceManagerUpdate) : Prop where
  grown : SourceManager.Grown m u.owner
  count : u.sourceCount ≤ u32Max
  distinct : (u.candidates.map (·.source)).Nodup
  valid : ∀ c ∈ u.candidates, u.validSource c.source = true
  targets : ∀ c ∈ u.candidates, c.hasIncludes = true → ∀ d ∈ c.includes, u.validSource d = true
  pending : u.committed = false

theorem validSource_iff : u.validSource source = true ↔ source ≠ 0 ∧ source ≤ u.sourceCount := by
  simp [validSource]

variable {m : SourceManager}

theorem progress_begin (hcount : m.records.size ≤ u32Max) : Progress m m.beginUpdate := by
  refine ⟨.refl m, hcount, List.nodup_nil, ?_, ?_, rfl⟩
  · intro c hc
    cases hc
  · intro c hc
    cases hc

theorem Progress.touched (hu : Progress m u) (h : Touched u v source) : Progress m v := by
  have hcount : v.sourceCount = u.sourceCount := by
    rw [sourceCount, h.owner, h.newSources, sourceCount]
  have hvalid : ∀ x, v.validSource x = u.validSource x := by
    intro x
    rw [validSource, hcount, validSource]
  have hcommitted : v.committed = u.committed := by
    rw [h.rest]
  have hmem : ∀ c ∈ v.candidates, c ∈ u.candidates ∨
      (c = { source := source } ∧ u.candidate source = none) := by
    intro c hc
    rcases h.candidates with heq | ⟨hnone, heq⟩
    · rw [heq] at hc
      exact .inl hc
    · rw [heq, List.mem_append, List.mem_singleton] at hc
      rcases hc with hc | hc
      · exact .inl hc
      · exact .inr ⟨hc, hnone⟩
  refine ⟨?_, ?_, ?_, ?_, ?_, ?_⟩
  · rw [h.owner]
    exact hu.grown
  · rw [hcount]
    exact hu.count
  · rcases h.candidates with heq | ⟨hnone, heq⟩
    · rw [heq]
      exact hu.distinct
    · rw [heq, List.map_append, List.nodup_append]
      refine ⟨hu.distinct, by simp, ?_⟩
      rintro a ha b hb rfl
      obtain ⟨c, hc, rfl⟩ := List.mem_map.mp ha
      have hsource : c.source = source := by simpa using hb
      exact candidate_none hnone c hc hsource
  · intro c hc
    rw [hvalid]
    rcases hmem c hc with hc | ⟨rfl, hnone⟩
    · exact hu.valid c hc
    · rcases h.valid with hok | hsome
      · exact hok
      · rw [hnone] at hsome
        cases hsome
  · intro c hc hi d hd
    rw [hvalid]
    rcases hmem c hc with hc | ⟨rfl, -⟩
    · exact hu.targets c hc hi d hd
    · cases hi
  · rw [hcommitted]
    exact hu.pending

theorem touch_keeps (source : Nat) : Keeps (Progress m) (touch source) := by
  intro u hu
  cases h : touch source u with
  | ok a v => exact hu.touched (touch_ok h)
  | error code v =>
    unfold touch at h
    split at h
    · cases h
    · split at h
      · cases h
        exact hu
      · cases h

theorem Progress.updateCandidate (hu : Progress m u) (hf : ∀ c, (f c).source = c.source)
    (hi : ∀ c ∈ u.candidates, c.source = source → (f c).hasIncludes = true → ∀ d ∈ (f c).includes, u.validSource d = true) :
    Progress m (u.updateCandidate source f) := by
  have hmem : ∀ c' ∈ (u.updateCandidate source f).candidates, ∃ c ∈ u.candidates,
      c' = if c.source = source then f c else c := by
    intro c' hc'
    rw [candidates_updateCandidate, List.mem_map] at hc'
    obtain ⟨c, hc, rfl⟩ := hc'
    exact ⟨c, hc, rfl⟩
  refine ⟨hu.grown, hu.count, ?_, ?_, ?_, hu.pending⟩
  · rw [sources_updateCandidate u source hf]
    exact hu.distinct
  · intro c' hc'
    obtain ⟨c, hc, rfl⟩ := hmem c' hc'
    have hsource : (if c.source = source then f c else c).source = c.source := by
      split
      · exact hf c
      · rfl
    rw [hsource]
    exact hu.valid c hc
  · intro c' hc' hinc d hd
    obtain ⟨c, hc, rfl⟩ := hmem c' hc'
    by_cases hs : c.source = source
    · rw [if_pos hs] at hinc hd
      exact hi c hc hs hinc d hd
    · rw [if_neg hs] at hinc hd
      exact hu.targets c hc hinc d hd

theorem Progress.congr {m : SourceManager} {u v : SourceManagerUpdate} (hu : Progress m u)
    (howner : SourceManager.Grown u.owner v.owner) (hnew : v.newSources = u.newSources)
    (hcandidates : v.candidates = u.candidates) (hcommitted : v.committed = u.committed) :
    Progress m v := by
  have hcount : v.sourceCount = u.sourceCount := by
    rw [sourceCount, howner.records.size, hnew, sourceCount]
  have hvalid : ∀ x, v.validSource x = u.validSource x := by
    intro x
    rw [validSource, hcount, validSource]
  refine ⟨hu.grown.trans howner, ?_, ?_, ?_, ?_, ?_⟩
  · rw [hcount]
    exact hu.count
  · rw [hcandidates]
    exact hu.distinct
  · intro c hc
    rw [hvalid]
    rw [hcandidates] at hc
    exact hu.valid c hc
  · intro c hc hi d hd
    rw [hvalid]
    rw [hcandidates] at hc
    exact hu.targets c hc hi d hd
  · rw [hcommitted]
    exact hu.pending

/-! ## The calls -/

theorem resolve_keeps (normalized : Bytes) : Keeps (Progress m) (resolveNormalized normalized) := by
  intro u hu
  unfold resolveNormalized
  split
  · exact hu
  · split
    · exact hu
    · split
      · exact hu
      · split
        · exact hu
        · rename_i hroom
          have hmore : ∀ x, u.validSource x = true →
              validSource { u with
                newSources := u.newSources ++ [⟨u.sourceCount + 1, normalized⟩]
                prepared := false } x = true := by
            intro x hx
            rw [validSource_iff] at hx ⊢
            simp only [sourceCount, List.length_append, List.length_singleton] at hx ⊢
            omega
          refine ⟨hu.grown, ?_, hu.distinct, fun c hc => hmore _ (hu.valid c hc),
            fun c hc hi d hd => hmore _ (hu.targets c hc hi d hd), hu.pending⟩
          simp only [left_ok, sourceCount, List.length_append, List.length_singleton] at hroom ⊢
          omega

theorem setSnapshot_progress (hu : Progress m u) (source : Nat) (snapshot : Option SourceSnapshot)
    (semantic physical : Bool) : Progress m (setSnapshot source snapshot semantic physical u) := by
  have hmid : Progress m (u.updateCandidate source
      fun c => { c with snapshot := snapshot, hasSnapshot := true }) := by
    refine Progress.updateCandidate hu ?_ ?_
    · exact fun _ => rfl
    intro c hc _ hi d hd
    exact hu.targets c hc hi d hd
  exact hmid.congr (.refl _) rfl rfl rfl

theorem acquireTouched_keeps (source : Nat) (kind : SourceAcquireKind)
    (previous : Option SourceSnapshot) :
    Keeps (Progress m) (acquireTouched source kind previous) := by
  intro u hu
  unfold acquireTouched
  cases kind with
  | unchanged => exact hu
  | missing =>
    dsimp only
    split
    · exact hu
    · exact setSnapshot_progress hu _ _ _ _
  | present bytes observation hash identity =>
    dsimp only
    split
    · exact hu
    · split
      · exact hu
      · apply setSnapshot_progress
        exact hu.congr (.refl _) rfl rfl rfl

theorem applyAcquire_keeps (source : Nat) (kind : SourceAcquireKind) :
    Keeps (Progress m) (applyAcquire source kind) := by
  intro u hu
  unfold applyAcquire
  split
  · exact hu
  · split
    · exact hu
    · exact keeps_bind (touch_keeps source) (fun _ => acquireTouched_keeps source kind _) u hu

theorem setIncludes_keeps (source : Nat) (dependencies : List Nat) :
    Keeps (Progress m) (setIncludes source dependencies) := by
  intro u hu
  unfold setIncludes
  split
  · exact hu
  · split
    · exact hu
    · rename_i hvalid
      have hdeps : ∀ d ∈ dependencies, u.validSource d = true := by
        intro d hd
        by_contra hbad
        exact hvalid (List.any_eq_true.mpr ⟨d, hd, by simp [hbad]⟩)
      rw [bind_eq]
      have hkeep := touch_keeps source u hu
      cases ht : touch source u with
      | error code v =>
        rw [ht] at hkeep
        exact hkeep
      | ok a v =>
        rw [ht] at hkeep
        have htouched := touch_ok ht
        have hcount : ∀ x, v.validSource x = u.validSource x := by
          intro x
          rw [validSource, sourceCount, htouched.owner, htouched.newSources, validSource, sourceCount]
        have hmid : Progress m (v.updateCandidate source
            fun c => { c with includes := dependencies, hasIncludes := true }) := by
          refine Progress.updateCandidate hkeep ?_ ?_
          · exact fun _ => rfl
          intro c _ _ _ d hd
          exact (hcount d).trans (hdeps d hd)
        exact hmid.congr (.refl _) rfl rfl rfl

theorem collectPatches_grown (items : List CandidateSource) (m n : SourceManager)
    (h : SourceManager.Grown m n) : SourceManager.Grown m (left (collectPatches items n)) := by
  induction items generalizing n with
  | nil => exact h
  | cons item rest ih =>
    rw [collectPatches]
    split
    · exact ih n h
    · dsimp only
      have hcache : SourceManager.Grown m
          (if item.source ≤ n.states.size then n.cacheEdges .includes item.source else n) := by
        split
        · exact h.trans (SourceManager.cacheEdges_grown _ _ _)
        · exact h
      split
      · exact hcache
      · exact keeps_bind (fun n hn => ih n hn) (fun _ => keeps_pure _) _ hcache

theorem loadDependents_progress (hu : Progress m u) (target : Nat) :
    Progress m (u.loadDependents target) := by
  unfold loadDependents
  split
  · exact hu
  · have hmid : Progress m (u.updateCandidate target fun c =>
        { c with dependents := u.owner.dependents target, hasDependents := true }) := by
      refine Progress.updateCandidate hu ?_ ?_
      · exact fun _ => rfl
      intro c hc _ hi d hd
      exact hu.targets c hc hi d hd
    exact hmid.congr (SourceManager.cacheEdges_grown _ _ _) rfl rfl rfl

theorem applyPatch_keeps (patch : EdgePatch) : Keeps (Progress m) (applyPatch patch) := by
  apply keeps_bind (touch_keeps patch.target)
  intro _ u hu
  have hload := loadDependents_progress hu patch.target
  show Progress m ((u.loadDependents patch.target).updateCandidate patch.target _)
  refine Progress.updateCandidate hload ?_ ?_
  · exact fun _ => rfl
  intro c hc _ hi d hd
  exact hload.targets c hc hi d hd

theorem onOwner_progress {α : Type} {x : EStateM StatusCode SourceManager α}
    (hx : ∀ n, SourceManager.Grown n (left (x n))) : Keeps (Progress m) (onOwner x) := by
  intro u hu
  have hgrown := hx u.owner
  unfold onOwner
  cases h : x u.owner with
  | ok a n =>
    rw [h] at hgrown
    exact hu.congr hgrown rfl rfl rfl
  | error code n =>
    rw [h] at hgrown
    exact hu.congr hgrown rfl rfl rfl

theorem prepareDependentPatches_keeps : Keeps (Progress m) prepareDependentPatches := by
  intro u hu
  have hcollect := onOwner_progress (m := m) (fun n => collectPatches_grown u.candidates n n (.refl n))
  exact keeps_bind hcollect (fun patches => keeps_forM fun p _ => applyPatch_keeps p) u hu

/-! ## After the patches -/

structure Later (u v : SourceManagerUpdate) : Prop where
  owner : SourceManager.Grown u.owner v.owner
  newSources : v.newSources = u.newSources
  candidates : v.candidates = u.candidates
  snapshots : v.candidateSnapshots = u.candidateSnapshots
  committed : v.committed = u.committed

theorem Later.refl (u : SourceManagerUpdate) : Later u u := ⟨.refl _, rfl, rfl, rfl, rfl⟩

theorem Later.trans {w : SourceManagerUpdate} (h : Later u v) (h' : Later v w) : Later u w :=
  ⟨h.owner.trans h'.owner, h'.newSources.trans h.newSources, h'.candidates.trans h.candidates,
    h'.snapshots.trans h.snapshots, h'.committed.trans h.committed⟩

theorem Later.progress (h : Later u v) (hu : Progress m u) :
    Progress m v := hu.congr h.owner h.newSources h.candidates h.committed

theorem materializeCandidates_grown (m : SourceManager) (items : List CandidateSource) :
    SourceManager.Grown m (materializeCandidates m items) := by
  refine ⟨rfl, .refl _, .refl _, ?_, .refl _, .refl _, .refl _, rfl⟩
  unfold materializeCandidates
  generalize m.states = states
  induction items generalizing states with
  | nil => exact .refl states
  | cons item rest ih =>
    rw [List.foldl_cons]
    split
    · exact (MappedVector.materialize_grown states _).trans (ih _)
    · exact ih states

theorem reserveSources_grown (m : SourceManager) (sources paths : Nat) :
    SourceManager.Grown m (m.reserveSources sources paths) :=
  ⟨rfl, MappedVector.reserve_grown _ _, GrowVector.reserve_grown _ _, MappedVector.reserve_grown _ _,
    .refl _, .refl _, .refl _, rfl⟩

variable {u0 : SourceManagerUpdate}

theorem buildPreparedPathIndex_later : Keeps (Later u0) buildPreparedPathIndex := by
  intro u hu
  unfold buildPreparedPathIndex
  dsimp only
  generalize nextCapacity _ = capacity
  split
  · exact hu
  · exact hu.trans ⟨.refl _, rfl, rfl, rfl, rfl⟩

theorem buildSparsePathInsertions_later : Keeps (Later u0) buildSparsePathInsertions := by
  intro u hu
  unfold buildSparsePathInsertions
  split
  · exact buildPreparedPathIndex_later u hu
  · split <;> exact hu

theorem preparePathIndex_later : Keeps (Later u0) preparePathIndex := by
  intro u hu
  unfold preparePathIndex
  split
  · exact buildPreparedPathIndex_later u hu
  · exact buildSparsePathInsertions_later u hu

theorem checkPathBytes_later : Keeps (Later u0) checkPathBytes := by
  intro u hu
  unfold checkPathBytes
  dsimp only
  split <;> exact hu

theorem reserveNewSources_later : Keeps (Later u0) reserveNewSources := by
  intro u hu
  have hgrown : ∀ owner size slots, SourceManager.Grown u.owner owner →
      Later u0 { u with
        owner, preparedPathStorageSize := size, preparedPathIndexSlots := slots } :=
    fun owner size slots h => hu.trans ⟨h, rfl, rfl, rfl, rfl⟩
  unfold reserveNewSources
  dsimp only
  split
  · have hmat := (reserveSources_grown u.owner (u.owner.records.size + u.newSources.length)
      (u.owner.pathStorage.size + u.addedPathBytes)).trans
      (materializeCandidates_grown _ u.candidates)
    split
    · exact hgrown _ _ _ hmat
    · exact hgrown _ _ _ hmat
  · split
    · split
      · exact hgrown _ _ _ (reserveSources_grown _ _ _)
      · exact hgrown _ _ _ (.refl _)
    · split
      · exact hgrown _ _ _ (.refl _)
      · exact hgrown _ _ _ (.refl _)

theorem prepareNewSources_later : Keeps (Later u0) prepareNewSources := by
  intro u hu
  unfold prepareNewSources
  split
  · exact hu
  · exact keeps_bind preparePathIndex_later (fun _ => keeps_bind checkPathBytes_later fun _ =>
      reserveNewSources_later) u hu

theorem prepareTextBytes_later : Keeps (Later u0) prepareTextBytes := by
  intro u hu
  unfold prepareTextBytes
  split
  · exact hu.trans ⟨.refl _, rfl, rfl, rfl, rfl⟩
  · exact hu

variable {s : SourceGenerationStorage}

theorem storage_preparePublish_grown {t : SourceGenerationStorage} {a f r : Nat}
    (h : s.preparePublish a f r = .ok t) : SourceGenerationStorage.Grown s t ∧
      s.records.size + a ≤ t.records.capacity ∧
      s.physicalRecords.size + a ≤ t.physicalRecords.capacity ∧
      s.forwardEdges.size + f ≤ t.forwardEdges.capacity ∧
      s.reverseEdges.size + r ≤ t.reverseEdges.capacity := by
  unfold SourceGenerationStorage.preparePublish at h
  split at h
  · cases h
  · cases h
    exact ⟨⟨MappedVector.reserve_grown _ _, MappedVector.reserve_grown _ _,
      GrowVector.reserve_grown _ _, GrowVector.reserve_grown _ _⟩,
      MappedVector.le_capacity_reserve _ _, MappedVector.le_capacity_reserve _ _,
      GrowVector.le_capacity_reserve _ _, GrowVector.le_capacity_reserve _ _⟩

theorem storage_later (hu : Later u0 u)
    (h : SourceGenerationStorage.Grown u.owner.generationStorage s) :
    Later u0 { u with owner := { u.owner with generationStorage := s } } :=
  hu.trans ⟨⟨rfl, .refl _, .refl _, .refl _, h, .refl _, .refl _, rfl⟩, rfl, rfl, rfl, rfl⟩

theorem prepareGeneration_later : Keeps (Later u0) prepareGeneration := by
  intro u hu
  unfold prepareGeneration
  dsimp only
  split
  · exact hu
  · split
    · rename_i hok
      exact storage_later hu (storage_preparePublish_grown hok).1
    · exact hu

theorem materializeSource_grown (s : SourceGenerationStorage) (source : Nat) :
    SourceGenerationStorage.Grown s (s.materializeSource source) :=
  ⟨MappedVector.materialize_grown _ _, MappedVector.materialize_grown _ _, .refl _, .refl _⟩

theorem prepareSource_grown (m : SourceManager) (item : CandidateSource) :
    Keeps (SourceManager.Grown m) (prepareSource item) := by
  intro n hn
  have hstorage : SourceManager.Grown m
      { n with generationStorage := n.generationStorage.materializeSource item.source } :=
    hn.trans ⟨rfl, .refl _, .refl _, .refl _, materializeSource_grown _ _, .refl _, .refl _, rfl⟩
  unfold prepareSource
  split
  · exact hn
  · split
    · exact hn
    · split
      · exact hn
      · dsimp only
        split <;> exact hstorage

theorem prepareSources_later : Keeps (Later u0) prepareSources := by
  intro u hu
  have hgrown : SourceManager.Grown u.owner
      (left ((forM u.candidates prepareSource : EStateM StatusCode SourceManager PUnit) u.owner)) :=
    keeps_forM (fun item _ => prepareSource_grown u.owner item) u.owner (.refl _)
  unfold prepareSources onOwner
  cases h : (forM u.candidates prepareSource : EStateM StatusCode SourceManager PUnit) u.owner with
  | ok a n =>
    rw [h] at hgrown
    exact hu.trans ⟨hgrown, rfl, rfl, rfl, rfl⟩
  | error code n =>
    rw [h] at hgrown
    exact hu.trans ⟨hgrown, rfl, rfl, rfl, rfl⟩

theorem pages_prepareAbsorb_grown {s t other : SnapshotPageStore}
    (h : s.prepareAbsorb other = .ok t) : GrowVector.Grown s.pathPages t.pathPages ∧
      GrowVector.Grown s.textPages t.textPages ∧
      s.pathPages.size + other.pathPages.size ≤ t.pathPages.capacity ∧
      s.textPages.size + other.textPages.size ≤ t.textPages.capacity := by
  unfold SnapshotPageStore.prepareAbsorb at h
  split at h
  · rename_i hempty
    cases h
    have hpath := s.pathPages.size_le_capacity
    have htext := s.textPages.size_le_capacity
    simp only [Bool.and_eq_true, decide_eq_true_eq] at hempty
    exact ⟨.refl _, .refl _, by omega, by omega⟩
  · split at h
    · cases h
    · cases h
      exact ⟨GrowVector.reserve_grown _ _, GrowVector.reserve_grown _ _,
        GrowVector.le_capacity_reserve _ _, GrowVector.le_capacity_reserve _ _⟩

theorem prepareAbsorb_later : Keeps (Later u0) prepareAbsorb := by
  intro u hu
  unfold prepareAbsorb
  split
  · rename_i pages hok
    obtain ⟨hpath, htext, -⟩ := pages_prepareAbsorb_grown hok
    exact hu.trans ⟨⟨rfl, .refl _, .refl _, .refl _, .refl _, hpath, htext, rfl⟩, rfl, rfl, rfl, rfl⟩
  · exact hu

end SourceManagerUpdate

end ServerEngine
