import ServerEngine.Source.NoFail

/-! # Reverse edges

Committed dependents are the inverse of committed includes in every run that prepares no stale edge:
one that a preparation added or removed, and that is back to its committed status at a later
preparation of the same update.
-/
namespace ServerEngine
open Transaction

namespace SourceManager

/-- Dependents are the inverse of includes, without duplicates. -/
structure Linked (m : SourceManager) : Prop where
  inverse : ∀ a b, b ∈ m.includes a ↔ a ∈ m.dependents b
  nodup : ∀ b, (m.dependents b).Nodup

def TransIncludes (m : SourceManager) : Nat → Nat → Prop :=
  Relation.TransGen fun a b => b ∈ m.includes a

def Acyclic (m : SourceManager) : Prop := ∀ a, ¬m.TransIncludes a a

theorem linked_fresh : ({} : SourceManager).Linked := by
  have hnone : ∀ kind x, ({} : SourceManager).edges kind x = [] := by
    intro kind x
    by_cases hx : x = 0
    · subst hx
      rfl
    · exact wf_fresh.edges_of_size_lt kind (by simp [MappedVector.size]; omega)
  refine ⟨fun a b => ?_, fun b => ?_⟩
  · rw [includes, dependents, hnone, hnone]
    simp
  · rw [dependents, hnone]
    exact List.nodup_nil

variable {m : SourceManager}

theorem Linked.valid (h : m.Linked) (hm : m.Wf) {a b : Nat} (hmem : a ∈ m.dependents b) :
    a ≠ 0 ∧ a ≤ m.records.size := by
  have hinc := (h.inverse a b).mpr hmem
  constructor
  · rintro rfl
    cases hinc
  · by_contra hlt
    have hempty : m.includes a = [] := hm.edges_of_size_lt .includes (by
      rw [hm.statesSize]
      omega)
    rw [hempty] at hinc
    cases hinc

theorem Linked.grown {n : SourceManager} (h : m.Linked) (hm : m.Wf) (hn : Grown m n) :
    n.Linked := by
  have hedges := hn.edges hm
  refine ⟨fun a b => ?_, fun b => ?_⟩
  · rw [includes, dependents, hedges, hedges]
    exact h.inverse a b
  · rw [dependents, hedges]
    exact h.nodup b

/-! ## Collecting -/

theorem Linked.collect (h : m.Linked) (hm : m.Wf) {source : Nat} (hs : source ≠ 0)
    (hsize : source ≤ m.states.size) : ∃ output,
      m.collectDependents source = some (.ok output) ∧ output.Nodup ∧
        ∀ x, x ∈ output ↔ x ≠ source ∧ m.TransIncludes x source := by
  have hmarked := Traversal.marked_start m.dependents source
  have hwithin : ∀ x y, y ∈ m.dependents x → y ∈ (List.range m.states.size).map (· + 1) := by
    intro x y hy
    obtain ⟨hne, hle⟩ := h.valid hm hy
    rw [hm.statesSize]
    exact List.mem_map.mpr ⟨y - 1, List.mem_range.mpr (by omega), by omega⟩
  have hfuel : ((List.range m.states.size).map (· + 1)).length ≤
      m.states.size + ([] : List Nat).length := by simp
  have hsome := Traversal.loop_isSome hwithin hmarked hfuel
  obtain ⟨output, hout⟩ := Option.isSome_iff_exists.mp hsome
  obtain ⟨marks, hend⟩ := Traversal.loop_spec hmarked hout
  rw [List.nil_append] at hend
  have hzero : ((source :: output).any fun current => decide (0 ∈ m.dependents current)) = false := by
    rw [List.any_eq_false]
    intro x _
    have hno : 0 ∉ m.dependents x := fun hmem => (h.valid hm hmem).1 rfl
    simp [hno]
  refine ⟨output, ?_, by simpa using hend.nodup, fun x => ?_⟩
  · unfold collectDependents
    rw [if_neg (by simp [hs]; omega)]
    dsimp only
    rw [hout]
    dsimp only
    rw [hzero, if_neg (by simp)]
  · have hswap : Relation.TransGen (fun a b => b ∈ m.dependents a) source x ↔
        m.TransIncludes x source := by
      unfold TransIncludes
      rw [← Relation.transGen_swap]
      have hrel : (fun a b => b ∈ m.dependents a) = Function.swap fun a b => b ∈ m.includes a := by
        funext a b
        exact propext (h.inverse b a).symm
      rw [hrel]
    rw [hend.mem_iff, hswap]

end SourceManager

namespace SourceManagerUpdate

def NoStaleEdge (u : SourceManagerUpdate) : Prop :=
  ∀ a t, (a ∈ u.dependents t ↔ a ∈ u.owner.dependents t) ∨
    (a ∈ u.dependents t ↔ t ∈ u.includes a)

def IncludesFit (u : SourceManagerUpdate) : Prop :=
  ∀ c ∈ u.candidates, c.hasIncludes = true → c.includes.length ≤ u32Max

variable {u : SourceManagerUpdate}

theorem noStaleEdge_of_first (h : ∀ c ∈ u.candidates, c.hasDependents = false) : u.NoStaleEdge := by
  intro a t
  left
  have hnone : u.overlay .dependents t = none := by
    unfold overlay
    cases hfind : u.candidate t with
    | none => rfl
    | some c => simp [CandidateSource.has, h c (candidate_some hfind).1]
  rw [dependents_eq, edges, hnone]
  rfl

/-! ## The overlay along a run -/

/-- The dependents lists of an update on `k` sources hold distinct sources. -/
structure Distinct (k : Nat) (u : SourceManagerUpdate) : Prop where
  count : u.sourceCount = k
  nodup : ∀ t, (u.edges .dependents t).Nodup
  valid : ∀ t, ∀ a ∈ u.edges .dependents t, a ≠ 0 ∧ a ≤ k

variable {k : Nat} {v : SourceManagerUpdate}

theorem Distinct.later (h : Distinct k u) (hv : Later u v) (hu : u.owner.Wf) : Distinct k v := by
  refine ⟨?_, fun t => ?_, fun t => ?_⟩
  · rw [sourceCount, hv.owner.records.size, hv.newSources]
    exact h.count
  · rw [hv.edges hu]
    exact h.nodup t
  · rw [hv.edges hu]
    exact h.valid t

variable {p : EdgePatch}

theorem edges_patched (hu : u.owner.Wf) (h : Patched u v p) (t : Nat) : v.edges .dependents t =
      if t = p.target then p.apply (u.edges .dependents p.target) else u.edges .dependents t := by
  have hgrown : SourceManager.Grown u.owner v.owner := by
    rw [h.owner, patchedOwner]
    split
    · exact .refl _
    · exact SourceManager.cacheEdges_grown _ _ _
  rw [edges, h.dependents]
  by_cases ht : t = p.target
  · rw [if_pos ht, if_pos ht]
    rfl
  · rw [if_neg ht, if_neg ht, hgrown.edges hu, edges]

variable {source : Nat} {code : StatusCode}

theorem touch_error (h : touch source u = .error code v) : v = u := by
  unfold touch at h
  split at h
  · cases h
  · split at h
    · exact (EStateM.Result.error.inj h).2.symm
    · cases h

theorem applyPatch_error (h : applyPatch p u = .error code v) : v = u := by
  unfold applyPatch at h
  rw [bind_eq] at h
  cases ht : touch p.target u with
  | ok a w =>
    rw [ht] at h
    cases h
  | error e w =>
    rw [ht] at h
    rw [← (EStateM.Result.error.inj h).2]
    exact touch_error ht

variable {m : SourceManager}

theorem applyPatch_distinct (hm : m.Wf) (hp : p.dependent ≠ 0 ∧ p.dependent ≤ k) :
    Keeps (fun u => Progress m u ∧ Distinct k u) (applyPatch p) := by
  rintro u ⟨hu, hd⟩
  refine ⟨applyPatch_keeps p u hu, ?_⟩
  have hwf := hu.grown.wf hm
  cases h : applyPatch p u with
  | error code v =>
    rw [left_error, applyPatch_error h]
    exact hd
  | ok a v =>
    have hpatched := applyPatch_ok h
    have hedges := edges_patched hwf hpatched
    have hgrown := (applyPatch_keeps p).ok hu h
    refine ⟨?_, fun t => ?_, fun t => ?_⟩
    · have hcount : v.sourceCount = u.sourceCount := by
        rw [sourceCount, hgrown.grown.records.size, ← hu.grown.records.size, hpatched.newSources,
          sourceCount]
      exact hcount.trans hd.count
    · show (v.edges .dependents t).Nodup
      rw [hedges]
      split
      · exact apply_nodup p (hd.nodup _)
      · exact hd.nodup t
    · show ∀ a ∈ v.edges .dependents t, a ≠ 0 ∧ a ≤ k
      rw [hedges]
      split
      · intro a ha
        rw [apply_mem p (hd.nodup _)] at ha
        by_cases heq : a = p.dependent
        · rw [heq]
          exact hp
        · rw [if_neg heq] at ha
          exact hd.valid _ a ha
      · exact hd.valid t

theorem collectPatches_dependent {items : List CandidateSource} {n : SourceManager}
    {ps : List EdgePatch} (h : collectPatches items m = .ok ps n) :
    ∀ p ∈ ps, ∃ c ∈ items, c.source = p.dependent := by
  induction items generalizing m ps with
  | nil =>
    cases h
    simp
  | cons item rest ih =>
    rw [collectPatches] at h
    beta_reduce at h
    split at h
    · intro p hp
      obtain ⟨c, hc, hsource⟩ := ih h p hp
      exact ⟨c, by simp [hc], hsource⟩
    · dsimp only at h
      split at h
      · cases h
      · obtain ⟨more, n', hrest, hps⟩ := bind_ok.mp h
        obtain ⟨rfl, rfl⟩ := EStateM.Result.ok.inj hps
        intro p hp
        rcases List.mem_append.mp hp with hp | hp
        · refine ⟨item, by simp, ?_⟩
          rw [edgePatches, List.mem_append, List.mem_map, List.mem_map] at hp
          rcases hp with ⟨t, -, rfl⟩ | ⟨t, -, rfl⟩ <;> rfl
        · obtain ⟨c, hc, hsource⟩ := ih hrest p hp
          exact ⟨c, by simp [hc], hsource⟩

theorem prepareDependentPatches_distinct (hm : m.Wf) :
    Keeps (fun u => Progress m u ∧ Distinct k u) prepareDependentPatches := by
  rintro u ⟨hu, hd⟩
  have hgrown := collectPatches_grown u.candidates u.owner u.owner (.refl _)
  have hcollected : ∀ n, SourceManager.Grown u.owner n →
      Progress m { u with owner := n } ∧ Distinct k { u with owner := n } := by
    intro n hn
    have hlater : Later u { u with owner := n } := ⟨hn, rfl, rfl, rfl, rfl⟩
    exact ⟨hlater.progress hu, hd.later hlater (hu.grown.wf hm)⟩
  have hrun : prepareDependentPatches u = match collectPatches u.candidates u.owner with
    | .ok ps n => (forM ps applyPatch : UpdateM PUnit) { u with owner := n }
    | .error code n => .error code { u with owner := n } := by
    unfold prepareDependentPatches
    rw [bind_eq, onOwner]
    cases collectPatches u.candidates u.owner <;> rfl
  rw [hrun]
  cases hc : collectPatches u.candidates u.owner with
  | error code n =>
    rw [hc] at hgrown
    exact hcollected n hgrown
  | ok ps n =>
    rw [hc] at hgrown
    refine keeps_forM (fun p hp => applyPatch_distinct hm ?_) _ (hcollected n hgrown)
    obtain ⟨c, hcand, hsource⟩ := collectPatches_dependent hc p hp
    rw [← hsource, ← hd.count]
    exact validSource_iff.mp (hu.valid c hcand)

theorem preparePublish_distinct (hm : m.Wf) (hu : Progress m u) (hd : Distinct k u) :
    Distinct k (left (preparePublish u)) := by
  unfold preparePublish
  split
  · exact hd
  · split
    · exact hd
    · have hlater : ∀ {x : UpdateM Unit}, (∀ u0 : SourceManagerUpdate, Keeps (Later u0) x) →
          Keeps (fun u => Progress m u ∧ Distinct k u) x := by
        rintro x hx u ⟨hu, hd⟩
        have hv := hx u u (.refl u)
        exact ⟨hv.progress hu, hd.later hv (hu.grown.wf hm)⟩
      refine (keeps_bind (prepareDependentPatches_distinct hm) (fun _ =>
        keeps_bind (hlater fun _ => prepareNewSources_later) fun _ =>
        keeps_bind (hlater fun _ => prepareTextBytes_later) fun _ =>
        keeps_bind (hlater fun _ => prepareGeneration_later) fun _ =>
        keeps_bind (hlater fun _ => prepareSources_later) fun _ =>
        keeps_bind (hlater fun _ => prepareAbsorb_later) fun _ => ?_) u ⟨hu, hd⟩).2
      intro u hu
      exact ⟨(⟨.refl _, rfl, rfl, rfl, rfl⟩ : Later u (markPrepared u)).progress hu.1,
        hu.2.later ⟨.refl _, rfl, rfl, rfl, rfl⟩ (hu.1.grown.wf hm)⟩

/-! ## The edges a preparation leads to -/

/-- After a successful preparation, the changed edges follow the includes and the others stand. -/
structure Reversal (u v : SourceManagerUpdate) : Prop where
  includes : ∀ x, v.edges .includes x = u.edges .includes x
  changed : ∀ a t, u.Differs a t →
    (a ∈ v.edges .dependents t ↔ t ∈ u.edges .includes a)
  kept : ∀ a t, ¬u.Differs a t →
    (a ∈ v.edges .dependents t ↔ a ∈ u.edges .dependents t)

theorem prepares_reversal (hm : m.Wf) {mid : SourceManagerUpdate} (hu : Progress m u)
    (hnodup : ∀ t, (u.edges .dependents t).Nodup) (h : Prepares u v mid) : Reversal u v := by
  have hwf := hu.grown.wf hm
  obtain ⟨t, hgrown, ht, -, hpatched⟩ := prepareDependentPatches_ok hwf h.patches
  have htWf := hgrown.wf hwf
  have hstart : ∀ kind x, t.edges kind x = u.edges kind x := by
    intro kind x
    have hover : t.overlay kind x = u.overlay kind x := by
      rw [ht]
      rfl
    rw [edges, hover, hgrown.edges hwf, edges]
  have hfinal : ∀ kind x, v.edges kind x = mid.edges kind x := h.later.edges (hpatched.owner.wf htWf)
  have hpatches := mem_dependentPatches hu hm
  have hmem := hpatched.mem (fun x => by
    rw [hstart]
    exact hnodup x) (fun a x => x ∈ u.edges .includes a) fun p hp => ((hpatches p).mp hp).2
  have hexists : ∀ a x, (∃ p ∈ u.dependentPatches, p.target = x ∧ p.dependent = a) ↔
      u.Differs a x := by
    intro a x
    constructor
    · rintro ⟨p, hp, rfl, rfl⟩
      exact ((hpatches p).mp hp).1
    · intro hd
      by_cases hin : x ∈ u.edges .includes a
      · exact ⟨⟨x, a, true⟩, (hpatches _).mpr ⟨hd, by simp [hin]⟩, rfl, rfl⟩
      · exact ⟨⟨x, a, false⟩, (hpatches _).mpr ⟨hd, by simp [hin]⟩, rfl, rfl⟩
  refine ⟨fun x => ?_, fun a x hd => ?_, fun a x hd => ?_⟩
  · rw [hfinal, edges, hpatched.includes, hpatched.owner.edges htWf, ← edges, hstart]
  · rw [hfinal]
    exact (hmem a x).1 ((hexists a x).mpr hd)
  · rw [hfinal, ← hstart]
    exact (hmem a x).2 fun hex => hd ((hexists a x).mp hex)

theorem Reversal.reversed (hm : m.Wf) (hu : Progress m u) (hv : Progress m v) (h : Reversal u v) :
    Reversed v := by
  intro a t hd
  unfold Differs at hd
  rw [h.includes, hv.grown.edges hm, ← hu.grown.edges hm] at hd
  rw [h.includes]
  exact h.changed a t hd

structure Tracked (m : SourceManager) (u : SourceManagerUpdate) : Prop where
  sound : Sound m u
  distinct : Distinct u.sourceCount u
  reversed : u.prepared = true → Reversed u

theorem tracked_begin (hm : m.Wf) (hcount : m.records.size ≤ u32Max) (hl : m.Linked) :
    Tracked m m.beginUpdate := by
  refine ⟨sound_begin hcount, ⟨rfl, hl.nodup, fun t a ha => ?_⟩, fun hp => ?_⟩
  · exact hl.valid hm ha
  · cases hp

theorem preparePublish_reversal (hm : m.Wf) (hu : Tracked m u) (h : preparePublish u = .ok () v) :
    Reversal u v := by
  by_cases hp : u.prepared = true
  · unfold preparePublish at h
    rw [if_neg (by simp [hu.sound.progress.pending]), if_pos hp] at h
    cases h
    exact ⟨fun _ => rfl, hu.reversed hp, fun _ _ _ => Iff.rfl⟩
  · obtain ⟨mid, hprep⟩ := preparePublish_ok (hu.sound.progress.grown.wf hm) (by simpa using hp) h
    exact prepares_reversal hm hu.sound.progress hu.distinct.nodup hprep

theorem preparePublish_tracked (hm : m.Wf) (hu : Tracked m u) (h : preparePublish u = .ok () v) :
    Tracked m v := by
  obtain ⟨hsound, hp⟩ := preparePublish_sound hm hu.sound h
  have hdistinct := preparePublish_distinct hm hu.sound.progress hu.distinct
  rw [h] at hdistinct
  have hcount : v.sourceCount = u.sourceCount := hdistinct.count
  refine ⟨hsound, ?_, fun _ => (preparePublish_reversal hm hu h).reversed hm hu.sound.progress
    hsound.progress⟩
  rw [hcount]
  exact hdistinct

variable {α : Type}

theorem Tracked.unprepares (hu : Tracked m u) {x : UpdateM α} (hx : Unprepares x)
    (hsound : Sound m (left (x u))) (hcount : u.sourceCount ≤ (left (x u)).sourceCount)
    (hedges : ∀ t, (left (x u)).edges .dependents t = u.edges .dependents t) :
    Tracked m (left (x u)) := by
  refine ⟨hsound, ⟨rfl, fun t => ?_, fun t => ?_⟩, fun hp => ?_⟩
  · rw [hedges]
    exact hu.distinct.nodup t
  · rw [hedges]
    intro a ha
    obtain ⟨hne, hle⟩ := hu.distinct.valid t a ha
    exact ⟨hne, Nat.le_trans hle hcount⟩
  · rcases hx u with heq | hno
    · rw [heq] at hp ⊢
      exact hu.reversed hp
    · rw [hno] at hp
      cases hp

variable {kind : SourceGenerationEdgeKind}

theorem edges_congr (howner : v.owner = u.owner)
    (hover : ∀ x, v.overlay kind x = u.overlay kind x) (x : Nat) :
    v.edges kind x = u.edges kind x := by
  rw [edges, hover, howner, edges]

variable {f : Unit → UpdateM α}

theorem touched_overlay
    (hf : ∀ v, (left (f () v)).owner = v.owner ∧ (left (f () v)).newSources = v.newSources ∧ ∀ x, (left (f () v)).overlay kind x = v.overlay kind x) :
    (left ((touch source >>= f) u)).owner = u.owner ∧
      (left ((touch source >>= f) u)).newSources = u.newSources ∧
      ∀ x, (left ((touch source >>= f) u)).overlay kind x = u.overlay kind x := by
  rw [bind_eq]
  cases h : touch source u with
  | error code v =>
    obtain rfl := touch_error h
    exact ⟨rfl, rfl, fun _ => rfl⟩
  | ok a v =>
    have htouch := touch_ok h
    obtain ⟨howner, hnew, hover⟩ := hf v
    exact ⟨howner.trans htouch.owner, hnew.trans htouch.newSources,
      fun x => (hover x).trans (htouch.overlay kind x)⟩

theorem touched_edges
    (hf : ∀ v, (left (f () v)).owner = v.owner ∧ (left (f () v)).newSources = v.newSources ∧ ∀ x, (left (f () v)).overlay .dependents x = v.overlay .dependents x) :
    (left ((touch source >>= f) u)).sourceCount = u.sourceCount ∧
      ∀ t, (left ((touch source >>= f) u)).edges .dependents t = u.edges .dependents t := by
  obtain ⟨howner, hnew, hover⟩ := touched_overlay hf
  refine ⟨?_, fun t => edges_congr howner hover t⟩
  rw [sourceCount, howner, hnew, sourceCount]

theorem overlay_setSnapshot (u : SourceManagerUpdate) (source : Nat)
    (snapshot : Option SourceSnapshot) (semantic physical : Bool)
    (kind : SourceGenerationEdgeKind) (x : Nat) :
    (setSnapshot source snapshot semantic physical u).overlay kind x = u.overlay kind x := by
  have hf : ∀ c : CandidateSource, ({ c with snapshot := snapshot, hasSnapshot := true } :
      CandidateSource).source = c.source := fun _ => rfl
  refine (overlay_updateCandidate u source hf kind x).trans ?_
  by_cases hx : x = source
  · subst hx
    rw [if_pos rfl, overlay]
    cases kind <;> rfl
  · rw [if_neg hx]

theorem acquireTouched_frame (source : Nat) (kind : SourceAcquireKind)
    (previous : Option SourceSnapshot) (v : SourceManagerUpdate)
    (edges : SourceGenerationEdgeKind) :
    (left (acquireTouched source kind previous v)).owner = v.owner ∧
      (left (acquireTouched source kind previous v)).newSources = v.newSources ∧
      ∀ x, (left (acquireTouched source kind previous v)).overlay edges x = v.overlay edges x := by
  unfold acquireTouched
  cases kind with
  | unchanged => exact ⟨rfl, rfl, fun _ => rfl⟩
  | missing =>
    dsimp only
    split
    · exact ⟨rfl, rfl, fun _ => rfl⟩
    · exact ⟨rfl, rfl, overlay_setSnapshot v source _ _ _ _⟩
  | present bytes observation hash identity =>
    dsimp only
    split
    · exact ⟨rfl, rfl, fun _ => rfl⟩
    · split
      · exact ⟨rfl, rfl, fun _ => rfl⟩
      · exact ⟨rfl, rfl, fun x => overlay_setSnapshot _ source _ _ _ _ x⟩

theorem storeIncludes_frame (source : Nat) (dependencies : List Nat) (v : SourceManagerUpdate) :
    (storeIncludes source dependencies v).owner = v.owner ∧
      (storeIncludes source dependencies v).newSources = v.newSources ∧
      ∀ x, (storeIncludes source dependencies v).overlay .dependents x =
        v.overlay .dependents x := by
  refine ⟨rfl, rfl, fun x => ?_⟩
  have hf : ∀ c : CandidateSource, ({ c with includes := dependencies, hasIncludes := true } :
      CandidateSource).source = c.source := fun _ => rfl
  refine (overlay_updateCandidate v source hf .dependents x).trans ?_
  by_cases hx : x = source
  · subst hx
    rw [if_pos rfl, overlay]
    rfl
  · rw [if_neg hx]

theorem call_tracked (hm : m.Wf) (hu : Tracked m u) (c : Call) : Tracked m (u.call c) := by
  have hsound := call_sound hm hu.sound c
  cases c with
  | resolve normalized =>
    have hframe : u.sourceCount ≤ (left (resolveNormalized normalized u)).sourceCount ∧
        ∀ t, (left (resolveNormalized normalized u)).edges .dependents t =
          u.edges .dependents t := by
      unfold resolveNormalized
      split
      · exact ⟨Nat.le_refl _, fun _ => rfl⟩
      · split
        · exact ⟨Nat.le_refl _, fun _ => rfl⟩
        · split
          · exact ⟨Nat.le_refl _, fun _ => rfl⟩
          · split
            · exact ⟨Nat.le_refl _, fun _ => rfl⟩
            · refine ⟨?_, fun _ => rfl⟩
              simp only [left_ok, sourceCount, List.length_append]
              omega
    exact hu.unprepares (resolve_unprepares _) hsound hframe.1 hframe.2
  | applyAcquire source kind =>
    have hframe : (left (SourceManagerUpdate.applyAcquire source kind u)).sourceCount =
        u.sourceCount ∧ ∀ t, (left (SourceManagerUpdate.applyAcquire source kind u)).edges
          .dependents t = u.edges .dependents t := by
      unfold SourceManagerUpdate.applyAcquire
      split
      · exact ⟨rfl, fun _ => rfl⟩
      · split
        · exact ⟨rfl, fun _ => rfl⟩
        · exact touched_edges fun v => acquireTouched_frame source kind _ v _
    exact hu.unprepares (applyAcquire_unprepares _ _) hsound (Nat.le_of_eq hframe.1.symm) hframe.2
  | setIncludes source dependencies =>
    have hframe : (left (SourceManagerUpdate.setIncludes source dependencies u)).sourceCount =
        u.sourceCount ∧ ∀ t, (left (SourceManagerUpdate.setIncludes source dependencies u)).edges
          .dependents t = u.edges .dependents t := by
      unfold SourceManagerUpdate.setIncludes
      split
      · exact ⟨rfl, fun _ => rfl⟩
      · split
        · exact ⟨rfl, fun _ => rfl⟩
        · exact touched_edges fun v => storeIncludes_frame source dependencies v
    exact hu.unprepares (setIncludes_unprepares _ _) hsound (Nat.le_of_eq hframe.1.symm) hframe.2
  | preparePublish =>
    have hdistinct := preparePublish_distinct hm hu.sound.progress hu.distinct
    change Tracked m (left (SourceManagerUpdate.preparePublish u))
    cases h : SourceManagerUpdate.preparePublish u with
    | ok a v => exact preparePublish_tracked hm hu h
    | error code v =>
      rw [h] at hdistinct
      have hcount : v.sourceCount = u.sourceCount := hdistinct.count
      have hfailed : Sound m v := by
        change Sound m (left (SourceManagerUpdate.preparePublish u)) at hsound
        rw [h] at hsound
        exact hsound
      refine ⟨hfailed, ?_, fun hp => ?_⟩
      · rw [left_error, hcount]
        exact hdistinct
      · by_cases hprep : u.prepared = true
        · unfold SourceManagerUpdate.preparePublish at h
          rw [if_neg (by simp [hu.sound.progress.pending]), if_pos hprep] at h
          cases h
        · have hno := preparePublish_unprepared (by simpa using hprep) h
          rw [left_error, hno] at hp
          cases hp
  | readEdges kind source =>
    have hlater : Later u { u with owner := u.owner.cacheEdges kind source } :=
      ⟨SourceManager.cacheEdges_grown _ _ _, rfl, rfl, rfl, rfl⟩
    have hwf := hu.sound.progress.grown.wf hm
    have hdistinct := hu.distinct.later hlater hwf
    refine ⟨hsound, ?_, fun hp => (hu.reversed hp).later hlater hwf⟩
    have hcount : (u.call (.readEdges kind source)).sourceCount = u.sourceCount := hdistinct.count
    rw [hcount]
    exact hdistinct

theorem run_tracked (hm : m.Wf) (hu : Tracked m u) (calls : List Call) :
    Tracked m (u.run calls) := by
  induction calls generalizing u with
  | nil => exact hu
  | cons c calls ih => exact ih (call_tracked hm hu c)

/-! ## Publishing -/

theorem Distinct.length_le (h : Distinct k u) (t : Nat) : (u.edges .dependents t).length ≤ k := by
  have hsub : u.edges .dependents t ⊆ (List.range k).map (· + 1) := by
    intro a ha
    obtain ⟨hne, hle⟩ := h.valid t a ha
    exact List.mem_map.mpr ⟨a - 1, List.mem_range.mpr (by omega), by omega⟩
  have hlen := (List.subperm_of_subset (h.nodup t) hsub).length_le
  simpa using hlen

theorem includes_fit (h : u.IncludesFit) (x : Nat) :
    ((u.overlay .includes x).getD []).length ≤ u32Max := by
  unfold overlay
  cases hfind : u.candidate x with
  | none => exact Nat.zero_le _
  | some c =>
    by_cases hinc : c.hasIncludes = true
    · simpa [CandidateSource.has, CandidateSource.edges, hinc] using h c (candidate_some hfind).1 hinc
    · simp [CandidateSource.has, hinc]

theorem preparePublish_overlay (hm : m.Wf) (hu : Sound m u) (h : preparePublish u = .ok () v)
    (x : Nat) : v.overlay .includes x = u.overlay .includes x := by
  by_cases hp : u.prepared = true
  · unfold preparePublish at h
    rw [if_neg (by simp [hu.progress.pending]), if_pos hp] at h
    cases h
    rfl
  · have hwf := hu.progress.grown.wf hm
    obtain ⟨mid, hprep⟩ := preparePublish_ok hwf (by simpa using hp) h
    obtain ⟨t, -, ht, -, hpatched⟩ := prepareDependentPatches_ok hwf hprep.patches
    have hlast : v.overlay .includes x = mid.overlay .includes x := by
      rw [overlay, candidate, hprep.later.candidates, overlay, candidate]
    rw [hlast, hpatched.includes, ht]
    rfl

/-- A publication on a linked manager is linked exactly when no edge is stale. -/
theorem published_linked_iff (hm : m.Wf) (hl : m.Linked) (hu : Tracked m u) (hfit : u.IncludesFit)
    (h : preparePublish u = .ok () v) : (publishPrepared v).owner.Linked ↔ u.NoStaleEdge := by
  obtain ⟨hsound, hp⟩ := preparePublish_sound hm hu.sound h
  have hv := preparePublish_tracked hm hu h
  have hrev := preparePublish_reversal hm hu h
  have hincludes : ∀ x, (publishPrepared v).owner.includes x = u.edges .includes x := by
    intro x
    have hlen := includes_fit hfit x
    rw [← preparePublish_overlay hm hu.sound h] at hlen
    rw [SourceManager.includes, publishPrepared_edges hm hsound hp, if_pos hlen, hrev.includes]
  have hdependents : ∀ x, (publishPrepared v).owner.dependents x = v.edges .dependents x := by
    intro x
    have hlen : ((v.overlay .dependents x).getD []).length ≤ u32Max := by
      have hall := Nat.le_trans (hv.distinct.length_le x) hv.sound.progress.count
      unfold edges at hall
      cases hover : v.overlay .dependents x with
      | none => exact Nat.zero_le _
      | some l =>
        rw [hover] at hall
        exact hall
    rw [SourceManager.dependents, publishPrepared_edges hm hsound hp, if_pos hlen]
  have hcommitted : ∀ a t, t ∈ u.owner.edges .includes a ↔ a ∈ u.owner.edges .dependents t :=
    (hl.grown hm hu.sound.progress.grown).inverse
  have hstale : u.NoStaleEdge ↔ ∀ a t, ¬u.Differs a t →
      (a ∈ u.edges .dependents t ↔ t ∈ u.edges .includes a) := by
    have hsides : ∀ a t, (a ∈ u.dependents t ↔ a ∈ u.edges .dependents t) ∧
        (t ∈ u.includes a ↔ t ∈ u.edges .includes a) := fun a t => by
      rw [dependents_eq, includes_eq]
      exact ⟨Iff.rfl, Iff.rfl⟩
    constructor
    · intro hall a t hsame
      have hone := hall a t
      have hc := hcommitted a t
      rw [(hsides a t).1, (hsides a t).2, SourceManager.dependents, ← hc] at hone
      have hsame : t ∈ u.edges .includes a ↔ t ∈ u.owner.edges .includes a := by
        by_contra hno
        exact hsame hno
      rcases hone with hone | hone
      · exact hone.trans hsame.symm
      · exact hone
    · intro hall a t
      have hc := hcommitted a t
      rw [(hsides a t).1, (hsides a t).2, SourceManager.dependents, ← hc]
      by_cases hsame : t ∈ u.edges .includes a ↔ t ∈ u.owner.edges .includes a
      · exact .inr (hall a t fun hno => hno hsame)
      · -- of two different statuses the overlay has one
        by_cases hx : a ∈ u.edges .dependents t
        · by_cases hy : t ∈ u.edges .includes a
          · exact .inr (iff_of_true hx hy)
          · have hz : t ∈ u.owner.edges .includes a := by
              by_contra hz
              exact hsame (iff_of_false hy hz)
            exact .inl (iff_of_true hx hz)
        · by_cases hy : t ∈ u.edges .includes a
          · have hz : t ∉ u.owner.edges .includes a := fun hz => hsame (iff_of_true hy hz)
            exact .inl (iff_of_false hx hz)
          · exact .inr (iff_of_false hx hy)
  rw [hstale]
  constructor
  · intro hlinked a t hsame
    have hinv := hlinked.inverse a t
    rw [hincludes, hdependents, hrev.kept a t hsame] at hinv
    exact hinv.symm
  · intro hall
    refine ⟨fun a t => ?_, fun t => ?_⟩
    · rw [hincludes, hdependents]
      by_cases hd : u.Differs a t
      · exact (hrev.changed a t hd).symm
      · rw [hrev.kept a t hd]
        exact (hall a t hd).symm
    · rw [hdependents]
      exact hv.distinct.nodup t

end SourceManagerUpdate

namespace SourceManager

open SourceManagerUpdate

/-- Runs over a fresh manager or one whose image is linked, each publication without a stale edge. -/
inductive LinkedRun : SourceManager → Prop
  | fresh : LinkedRun {}
  | saved (b : Baseline) (h : (ofBaseline b).Linked) : LinkedRun (ofBaseline b)
  | abandoned {m : SourceManager} (h : LinkedRun m) (calls : List Call) :
      LinkedRun (m.beginUpdate.run calls).owner
  | published {m : SourceManager} (h : LinkedRun m) (calls : List Call) {u : SourceManagerUpdate}
      (hfit : (m.beginUpdate.run calls).IncludesFit)
      (hstale : (m.beginUpdate.run calls).NoStaleEdge)
      (hprepare : preparePublish (m.beginUpdate.run calls) = .ok () u) :
      LinkedRun (publishPrepared u).owner

theorem LinkedRun.reached {m : SourceManager} (h : LinkedRun m) : Reached m := by
  induction h with
  | fresh => exact .fresh
  | saved b _ => exact .saved b
  | abandoned _ calls ih => exact .abandoned ih calls
  | published _ calls _ _ hprepare ih => exact .published ih calls hprepare

theorem LinkedRun.linked {m : SourceManager} (h : LinkedRun m) : m.Linked := by
  induction h with
  | fresh => exact linked_fresh
  | saved b h => exact h
  | abandoned h calls ih =>
    obtain ⟨hwf, hcount⟩ := h.reached.wf
    have hrun := run_tracked hwf (tracked_begin hwf hcount ih) calls
    exact ih.grown hwf hrun.sound.progress.grown
  | published h calls hfit hstale hprepare ih =>
    obtain ⟨hwf, hcount⟩ := h.reached.wf
    have hrun := run_tracked hwf (tracked_begin hwf hcount ih) calls
    exact (published_linked_iff hwf ih hrun hfit hprepare).mpr hstale

/-- Reverse edges are exact in every run without stale edges, and collecting follows them. -/
theorem dependents_exact {m : SourceManager} (h : LinkedRun m) : m.Linked ∧
    ∀ source, source ≠ 0 → source ≤ m.sourceCount → ∃ output,
      m.collectDependents source = some (.ok output) ∧ output.Nodup ∧ source ∉ output ∧
        (∀ x, x ≠ source → (x ∈ output ↔ m.TransIncludes x source)) ∧
        (m.Acyclic → ∀ x, x ∈ output ↔ m.TransIncludes x source) := by
  refine ⟨h.linked, fun source hs hsize => ?_⟩
  have hwf := h.reached.wf.1
  have hstates : source ≤ m.states.size := by
    rw [hwf.statesSize]
    exact hsize
  obtain ⟨output, hout, hnodup, hmem⟩ := h.linked.collect hwf hs hstates
  refine ⟨output, hout, hnodup, ?_, fun x hx => ?_, fun hacyclic x => ?_⟩
  · intro hself
    exact ((hmem source).mp hself).1 rfl
  · rw [hmem]
    exact and_iff_right hx
  · rw [hmem]
    refine and_iff_right_of_imp ?_
    rintro hreach rfl
    exact hacyclic x hreach

end SourceManager

namespace SourceManagerUpdate

def twoFiles : List Call :=
  [.resolve [97], .resolve [98], .applyAcquire 1 (.present [120] ⟨1, 1⟩ 7 0),
    .applyAcquire 2 (.present [121] ⟨1, 1⟩ 8 0)]

def includeOnce : List Call := twoFiles ++ [.setIncludes 1 [2]]

def includeDropped : List Call := includeOnce ++ [.preparePublish, .setIncludes 1 []]

theorem dependents_exact_once : ∃ u, preparePublish (({} : SourceManager).beginUpdate.run includeOnce) =
    .ok () u ∧ (publishPrepared u).owner.Linked := by
  have hrun : preparesTo {} includeOnce (fun _ => true) = true := by decide +kernel
  obtain ⟨u, hprepare, -⟩ := exists_of_preparesTo hrun
  have hfit : ∀ c ∈ (({} : SourceManager).beginUpdate.run includeOnce).candidates,
      c.hasIncludes = true → c.includes.length ≤ u32Max := by
    decide +kernel
  have hfirst : ∀ c ∈ (({} : SourceManager).beginUpdate.run includeOnce).candidates,
      c.hasDependents = false := by
    decide +kernel
  exact ⟨u, hprepare, (SourceManager.dependents_exact
    (.published .fresh includeOnce hfit (noStaleEdge_of_first hfirst) hprepare)).1⟩

/-- The dropped include leaves its reverse edge behind. -/
theorem stale_dependent : ¬∀ (calls : List Call) (u : SourceManagerUpdate),
    preparePublish (({} : SourceManager).beginUpdate.run calls) = .ok () u →
      (publishPrepared u).owner.Linked := by
  intro h
  have hrun : preparesTo {} includeDropped (fun u =>
      decide ((publishPrepared u).owner.includes 1 = [] ∧
        (publishPrepared u).owner.dependents 2 = [1])) = true := by
    decide +kernel
  obtain ⟨u, hprepare, hcheck⟩ := exists_of_preparesTo hrun
  obtain ⟨hincludes, hdependents⟩ := of_decide_eq_true hcheck
  have hinv := (h includeDropped u hprepare).inverse 1 2
  rw [hincludes, hdependents] at hinv
  simp at hinv

end SourceManagerUpdate

end ServerEngine
