import ServerEngine.Source.Preparation

/-! # What the reverse edge patches do

The patches of a preparation lead from the committed includes to the current ones. Each changes one
dependents list of the overlay, which starts as the committed list and stays for the next
preparation.
-/
namespace ServerEngine
open Transaction

namespace SourceManagerUpdate

/-! ## One list -/

theorem swapRemove_perm (l : List Nat) (a : Nat) : (swapRemove l a).Perm (l.erase a) := by
  by_cases ha : a ∈ l
  · obtain ⟨p, q, rfl, hp⟩ := List.eq_append_cons_of_mem ha
    have herase : (p ++ a :: q).erase a = p ++ q := by
      rw [List.erase_append_right _ hp, List.erase_cons_head]
    have hidx : (p ++ a :: q).idxOf a = p.length := by
      rw [List.idxOf_append_of_notMem hp, List.idxOf_cons_self, Nat.add_zero]
    rw [herase]
    unfold swapRemove
    rcases List.eq_nil_or_concat q with rfl | ⟨q', z, rfl⟩
    · rw [List.getLast?_append_cons, List.getLast?_singleton]
      dsimp only
      rw [if_pos (by simp), hidx]
      simp
    · have hlast : (p ++ a :: (q' ++ [z])).getLast? = some z := by
        rw [← List.cons_append, ← List.append_assoc, List.getLast?_concat]
      have hset : (p ++ a :: (q' ++ [z])).set p.length z = (p ++ z :: q') ++ [z] := by
        simp
      rw [List.concat_eq_append] at hidx ⊢
      rw [hlast]
      dsimp only
      rw [if_pos (by simp), hidx, hset, List.dropLast_concat]
      exact List.Perm.append_left p (List.perm_append_singleton z q').symm
  · rw [List.erase_of_not_mem ha]
    unfold swapRemove
    split
    · rw [if_neg ha]
    · exact .refl _

variable {l : List Nat}

theorem apply_mem (p : EdgePatch) (h : l.Nodup) (a : Nat) :
    a ∈ p.apply l ↔ if a = p.dependent then p.add = true else a ∈ l := by
  unfold EdgePatch.apply
  by_cases hadd : p.add = true
  · rw [if_pos hadd]
    by_cases ha : a = p.dependent
    · subst ha
      split <;> simp_all
    · split <;> simp [ha]
  · rw [if_neg hadd, (swapRemove_perm l p.dependent).mem_iff, h.mem_erase_iff]
    by_cases ha : a = p.dependent
    · simp [ha, hadd]
    · simp [ha]

theorem apply_nodup (p : EdgePatch) (h : l.Nodup) : (p.apply l).Nodup := by
  unfold EdgePatch.apply
  split
  · split
    · exact h
    · rename_i hnew
      rw [List.nodup_append]
      refine ⟨h, List.nodup_singleton _, ?_⟩
      rintro a ha b hb rfl
      rw [List.mem_singleton] at hb
      exact hnew (hb ▸ ha)
  · exact (swapRemove_perm l p.dependent).nodup_iff.mpr (h.erase _)

/-! ## One patch -/

def snapshotOverlay (u : SourceManagerUpdate) (source : Nat) : Option (Option SourceSnapshot) :=
  (u.candidate source).bind fun c => if c.hasSnapshot then some c.snapshot else none

variable {u v : SourceManagerUpdate}

theorem Touched.snapshotOverlay {source : Nat} (h : Touched u v source) (x : Nat) :
    v.snapshotOverlay x = u.snapshotOverlay x := by
  unfold SourceManagerUpdate.snapshotOverlay
  by_cases hx : x = source
  · subst hx
    rw [h.found]
    cases u.candidate x <;> rfl
  · rw [h.others x hx]

/-- The owner after a patch at `target`: the committed list is read the first time. -/
def patchedOwner (u : SourceManagerUpdate) (target : Nat) : SourceManager :=
  if (u.overlay .dependents target).isSome then u.owner else u.owner.cacheEdges .dependents target

structure Patched (u v : SourceManagerUpdate) (p : EdgePatch) : Prop where
  includes : ∀ x, v.overlay .includes x = u.overlay .includes x
  dependents : ∀ x, v.overlay .dependents x =
    if x = p.target then some (p.apply (u.edges .dependents p.target)) else u.overlay .dependents x
  snapshots : ∀ x, v.snapshotOverlay x = u.snapshotOverlay x
  owner : v.owner = u.patchedOwner p.target
  newSources : v.newSources = u.newSources
  pages : v.candidateSnapshots = u.candidateSnapshots

theorem snapshotOverlay_updateCandidate (u : SourceManagerUpdate) (source : Nat)
    {f : CandidateSource → CandidateSource} (hf : ∀ c, (f c).source = c.source)
    (hsnap : ∀ c, (f c).hasSnapshot = c.hasSnapshot ∧ (f c).snapshot = c.snapshot) (x : Nat) :
    (u.updateCandidate source f).snapshotOverlay x = u.snapshotOverlay x := by
  unfold snapshotOverlay
  rw [candidate_updateCandidate u source hf]
  by_cases hx : x = source
  · rw [if_pos hx]
    cases u.candidate x with
    | none => rfl
    | some c => simp [hsnap c]
  · rw [if_neg hx]

theorem overlay_any (u : SourceManagerUpdate) (x : Nat) :
    (u.candidate x).any (·.hasDependents) = (u.overlay .dependents x).isSome := by
  unfold overlay
  cases u.candidate x with
  | none => rfl
  | some c => cases h : c.hasDependents <;> simp [CandidateSource.has, h]

theorem loadDependents_spec {target : Nat} {c : CandidateSource}
    (hc : u.candidate target = some c) :
    (∀ x, (u.loadDependents target).overlay .includes x = u.overlay .includes x) ∧
    (∀ x, (u.loadDependents target).overlay .dependents x =
      if x = target then some (u.edges .dependents target) else u.overlay .dependents x) ∧
    (∀ x, (u.loadDependents target).snapshotOverlay x = u.snapshotOverlay x) ∧
    (u.loadDependents target).owner = u.patchedOwner target ∧
    ((u.loadDependents target).candidate target).isSome := by
  unfold loadDependents patchedOwner
  rw [overlay_any]
  by_cases hsome : (u.overlay .dependents target).isSome
  · rw [if_pos hsome, if_pos hsome]
    refine ⟨fun _ => rfl, fun x => ?_, fun _ => rfl, rfl, by rw [hc]; rfl⟩
    by_cases hx : x = target
    · subst hx
      obtain ⟨l, hl⟩ := Option.isSome_iff_exists.mp hsome
      rw [if_pos rfl, edges, hl]
      rfl
    · rw [if_neg hx]
  · rw [if_neg hsome, if_neg hsome]
    have hnone : u.overlay .dependents target = none := by simpa using hsome
    have hf : ∀ c : CandidateSource, (({ c with
        dependents := u.owner.dependents target, hasDependents := true } : CandidateSource)).source =
        c.source := fun _ => rfl
    have hover := overlay_updateCandidate u target hf
    refine ⟨fun x => ?_, fun x => ?_, ?_, rfl, ?_⟩
    · refine (hover .includes x).trans ?_
      by_cases hx : x = target
      · subst hx
        rw [if_pos rfl, overlay]
        rfl
      · rw [if_neg hx]
    · refine (hover .dependents x).trans ?_
      by_cases hx : x = target
      · rw [if_pos hx, if_pos hx, hc, edges, hnone]
        rfl
      · rw [if_neg hx, if_neg hx]
    · exact snapshotOverlay_updateCandidate u target hf fun _ => ⟨rfl, rfl⟩
    · have hcand := candidate_updateCandidate u target hf target
      rw [if_pos rfl, hc] at hcand
      exact (congrArg Option.isSome hcand).trans rfl

variable {p : EdgePatch}

theorem applyPatch_ok (h : applyPatch p u = .ok () v) : Patched u v p := by
  obtain ⟨⟨⟩, t, ht, hv⟩ := bind_ok.mp h
  have htouch := touch_ok ht
  have hv : v = (t.loadDependents p.target).updateCandidate p.target fun c =>
      { c with dependents := p.apply c.dependents } := by
    cases hv
    rfl
  obtain ⟨hinc, hdep, hsnap, howner, hsome⟩ := loadDependents_spec htouch.found
  have hf : ∀ c : CandidateSource, ({ c with dependents := p.apply c.dependents } :
      CandidateSource).source = c.source := fun _ => rfl
  have hedges : t.edges .dependents p.target = u.edges .dependents p.target := by
    rw [edges, htouch.overlay, htouch.owner, edges]
  obtain ⟨c, hc⟩ := Option.isSome_iff_exists.mp hsome
  have hlist : (t.loadDependents p.target).overlay .dependents p.target =
      some (u.edges .dependents p.target) := by
    rw [hdep, if_pos rfl, hedges]
  rw [overlay, hc] at hlist
  have hhas : c.hasDependents = true ∧ c.dependents = u.edges .dependents p.target := by
    cases hd : c.hasDependents with
    | false => simp [CandidateSource.has, hd] at hlist
    | true => simpa [CandidateSource.has, CandidateSource.edges, hd] using hlist
  subst hv
  have hover := overlay_updateCandidate (t.loadDependents p.target) p.target hf
  refine ⟨fun x => ?_, fun x => ?_, fun x => ?_, ?_, ?_, ?_⟩
  · rw [hover, ← htouch.overlay .includes x, ← hinc x]
    by_cases hx : x = p.target
    · subst hx
      rw [if_pos rfl, overlay]
      rfl
    · rw [if_neg hx]
  · rw [hover]
    by_cases hx : x = p.target
    · rw [if_pos hx, if_pos hx, hc]
      simp [CandidateSource.has, CandidateSource.edges, hhas]
    · rw [if_neg hx, if_neg hx, hdep, if_neg hx, htouch.overlay]
  · rw [snapshotOverlay_updateCandidate _ _ hf fun _ => ⟨rfl, rfl⟩, hsnap, htouch.snapshotOverlay]
  · show (t.loadDependents p.target).owner = _
    rw [howner, patchedOwner, patchedOwner, htouch.overlay, htouch.owner]
  · have hnew : (t.loadDependents p.target).newSources = t.newSources := by
      unfold loadDependents
      split <;> rfl
    exact hnew.trans htouch.newSources
  · have hpages : (t.loadDependents p.target).candidateSnapshots = t.candidateSnapshots := by
      unfold loadDependents
      split <;> rfl
    refine hpages.trans ?_
    rw [htouch.rest]

/-! ## All patches -/

def patchesOf (m : SourceManager) (item : CandidateSource) : List EdgePatch :=
  if item.hasIncludes then edgePatches item.source (oldIncludes m item.source) item.includes else []

def dependentPatches (u : SourceManagerUpdate) : List EdgePatch :=
  u.candidates.flatMap (patchesOf u.owner)

def collectReads (m : SourceManager) (items : List CandidateSource) (i : Nat) : Prop :=
  ∃ item ∈ items, item.hasIncludes = true ∧ m.readsState .includes item.source = true ∧
    item.source - 1 = i

variable {m n : SourceManager}

theorem readsState_grown (h : SourceManager.Grown m n) (hm : m.Wf)
    (kind : SourceGenerationEdgeKind) (x : Nat) : n.readsState kind x = m.readsState kind x := by
  rw [SourceManager.readsState, h.hasEdges hm, h.baseline, h.baselineSourceCount, h.states.size,
    SourceManager.readsState]

theorem patchesOf_grown (h : SourceManager.Grown m n) (hm : m.Wf) (item : CandidateSource) :
    patchesOf n item = patchesOf m item := by
  have hold : oldIncludes n item.source = oldIncludes m item.source := by
    rw [oldIncludes, h.states.size, SourceManager.includes, h.edges hm, oldIncludes,
      SourceManager.includes]
  rw [patchesOf, hold, patchesOf]

theorem cacheEdges_held (m : SourceManager) (kind : SourceGenerationEdgeKind) (x i : Nat) :
    (m.cacheEdges kind x).states.held i = true ↔ m.states.held i = true ∨
      (m.readsState kind x = true ∧ x - 1 = i ∧ (m.states.reader i).isOk = true) := by
  unfold SourceManager.cacheEdges
  by_cases h : m.readsState kind x = true
  · rw [if_pos h]
    simp only [MappedVector.held_materialize_iff]
    constructor
    · rintro (hi | ⟨rfl, hok⟩)
      · exact .inl hi
      · exact .inr ⟨h, rfl, hok⟩
    · rintro (hi | ⟨-, rfl, hok⟩)
      · exact .inl hi
      · exact .inr ⟨rfl, hok⟩
  · rw [if_neg h]
    simp [h]

variable {ps : List EdgePatch}

theorem collectPatches_ok {items : List CandidateSource} (hm : m.Wf)
    (h : collectPatches items m = .ok ps n) :
    ps = items.flatMap (patchesOf m) ∧ ∀ i, n.states.held i = true ↔
      m.states.held i = true ∨ (collectReads m items i ∧ (m.states.reader i).isOk = true) := by
  induction items generalizing m ps with
  | nil =>
    cases h
    simp [collectReads]
  | cons item rest ih =>
    rw [collectPatches] at h
    beta_reduce at h
    by_cases hinc : item.hasIncludes = true
    · rw [if_neg (by simp [hinc])] at h
      dsimp only at h
      have hcache : (if item.source ≤ m.states.size then m.cacheEdges .includes item.source else m) =
          m.cacheEdges .includes item.source := by
        split
        · rfl
        · rename_i hsize
          have hno : m.readsState .includes item.source = false := by
            simp [SourceManager.readsState]
            omega
          simp [SourceManager.cacheEdges, hno]
      rw [hcache] at h
      have hgrown := SourceManager.cacheEdges_grown m .includes item.source
      split at h
      · cases h
      · obtain ⟨more, n', hrest, hps⟩ := bind_ok.mp h
        obtain ⟨rfl, rfl⟩ := EStateM.Result.ok.inj hps
        obtain ⟨hmore, hheld⟩ := ih (hgrown.wf hm) hrest
        refine ⟨?_, fun i => ?_⟩
        · have hall : rest.flatMap (patchesOf (m.cacheEdges .includes item.source)) =
              rest.flatMap (patchesOf m) := by
            congr 1
            funext c
            exact patchesOf_grown hgrown hm c
          rw [hmore, hall, List.flatMap_cons, patchesOf, if_pos hinc]
        · have hreads : collectReads (m.cacheEdges .includes item.source) rest i ↔
              collectReads m rest i := by
            unfold collectReads
            simp only [readsState_grown hgrown hm]
          have hcons : collectReads m (item :: rest) i ↔
              (m.readsState .includes item.source = true ∧ item.source - 1 = i) ∨
                collectReads m rest i := by
            simp [collectReads, hinc]
          rw [hheld, cacheEdges_held, hreads, hgrown.states.reader, hcons]
          tauto
    · rw [if_pos (by simpa using hinc)] at h
      obtain ⟨hmore, hheld⟩ := ih hm h
      refine ⟨?_, fun i => ?_⟩
      · rw [hmore, List.flatMap_cons, patchesOf, if_neg hinc, List.nil_append]
      · have hcons : collectReads m (item :: rest) i ↔ collectReads m rest i := by
          simp [collectReads, hinc]
        rw [hheld, hcons]

/-- The overlays and the owner after the patches `ps`, from `u`. -/
structure AllPatched (u v : SourceManagerUpdate) (ps : List EdgePatch) : Prop where
  owner : SourceManager.Grown u.owner v.owner
  includes : ∀ x, v.overlay .includes x = u.overlay .includes x
  snapshots : ∀ x, v.snapshotOverlay x = u.snapshotOverlay x
  newSources : v.newSources = u.newSources
  pages : v.candidateSnapshots = u.candidateSnapshots
  overlaid : ∀ t, (v.overlay .dependents t).isSome = true ↔
    (u.overlay .dependents t).isSome = true ∨ ∃ p ∈ ps, p.target = t
  held : ∀ i, v.owner.states.held i = true ↔ u.owner.states.held i = true ∨
    ((∃ p ∈ ps, (u.overlay .dependents p.target).isSome = false ∧
      u.owner.readsState .dependents p.target = true ∧ p.target - 1 = i) ∧
        (u.owner.states.reader i).isOk = true)
  nodup : (∀ t, (u.edges .dependents t).Nodup) → ∀ t, (v.edges .dependents t).Nodup
  mem : (∀ t, (u.edges .dependents t).Nodup) → ∀ want : Nat → Nat → Prop,
    (∀ p ∈ ps, p.add = true ↔ want p.dependent p.target) → ∀ a t,
      ((∃ p ∈ ps, p.target = t ∧ p.dependent = a) → (a ∈ v.edges .dependents t ↔ want a t)) ∧
      ((¬∃ p ∈ ps, p.target = t ∧ p.dependent = a) →
        (a ∈ v.edges .dependents t ↔ a ∈ u.edges .dependents t))

theorem allPatched_nil (u : SourceManagerUpdate) : AllPatched u u [] := by
  refine ⟨.refl _, fun _ => rfl, fun _ => rfl, rfl, rfl, ?_, ?_, fun h => h, ?_⟩
  · simp
  · simp
  · intro _ want _ a t
    refine ⟨?_, fun _ => Iff.rfl⟩
    rintro ⟨p, hp, -⟩
    cases hp

theorem allPatched_snoc {w : SourceManagerUpdate} (hu : u.owner.Wf) (h : AllPatched u v ps)
    (hw : Patched v w p) : AllPatched u w (ps ++ [p]) := by
  have hgrown : SourceManager.Grown v.owner w.owner := by
    rw [hw.owner, patchedOwner]
    split
    · exact .refl _
    · exact SourceManager.cacheEdges_grown _ _ _
  have hv := h.owner.wf hu
  -- the lists of the overlay, with the committed one where there is none
  have hedges : ∀ t, w.edges .dependents t =
      if t = p.target then p.apply (v.edges .dependents p.target) else v.edges .dependents t := by
    intro t
    rw [edges, hw.dependents]
    by_cases ht : t = p.target
    · rw [if_pos ht, if_pos ht]
      rfl
    · rw [if_neg ht, if_neg ht, hgrown.edges hv, edges]
  have hnodup : (∀ t, (u.edges .dependents t).Nodup) → ∀ t, (w.edges .dependents t).Nodup := by
    intro hu t
    rw [hedges]
    split
    · exact apply_nodup p (h.nodup hu _)
    · exact h.nodup hu t
  refine ⟨h.owner.trans hgrown, fun x => (hw.includes x).trans (h.includes x),
    fun x => (hw.snapshots x).trans (h.snapshots x), hw.newSources.trans h.newSources,
    hw.pages.trans h.pages, fun t => ?_, fun i => ?_, hnodup, ?_⟩
  · rw [hw.dependents]
    have hor := h.overlaid t
    by_cases ht : t = p.target
    · subst ht
      simp
    · rw [if_neg ht, hor]
      have hne : ¬p.target = t := fun heq => ht heq.symm
      simp [List.mem_append, or_and_right, exists_or, hne]
  · have hkeep : w.owner.states.held i = true ↔ v.owner.states.held i = true ∨
        ((v.overlay .dependents p.target).isSome = false ∧
          u.owner.readsState .dependents p.target = true ∧ p.target - 1 = i ∧
            (u.owner.states.reader i).isOk = true) := by
      rw [hw.owner, patchedOwner]
      by_cases hsome : (v.overlay .dependents p.target).isSome = true
      · rw [if_pos hsome]
        simp [hsome]
      · rw [if_neg hsome, cacheEdges_held, readsState_grown h.owner hu, h.owner.states.reader]
        simp [hsome]
    rw [hkeep, h.held i]
    -- a target overlaid by an earlier patch was read then
    constructor
    · rintro ((hi | ⟨⟨q, hq, hrest⟩, hok⟩) | ⟨hnone, hreads, hi, hok⟩)
      · exact .inl hi
      · exact .inr ⟨⟨q, List.mem_append_left _ hq, hrest⟩, hok⟩
      · have hnone' : (u.overlay .dependents p.target).isSome = false := by
          by_contra hsome
          have hsome' := (h.overlaid p.target).mpr (.inl (Bool.of_not_eq_false hsome))
          rw [hsome'] at hnone
          cases hnone
        exact .inr ⟨⟨p, by simp, hnone', hreads, hi⟩, hok⟩
    · rintro (hi | ⟨⟨q, hq, hnone, hreads, hi⟩, hok⟩)
      · exact .inl (.inl hi)
      · rcases List.mem_append.mp hq with hq | hq
        · exact .inl (.inr ⟨⟨q, hq, hnone, hreads, hi⟩, hok⟩)
        · rw [List.mem_singleton] at hq
          subst hq
          by_cases hsome : (v.overlay .dependents q.target).isSome = true
          · rcases (h.overlaid q.target).mp hsome with hu' | ⟨r, hr, hrt⟩
            · rw [hu'] at hnone
              cases hnone
            · refine .inl (.inr ⟨⟨r, hr, ?_, ?_, ?_⟩, hok⟩)
              · rw [hrt]
                exact hnone
              · rw [hrt]
                exact hreads
              · rw [hrt]
                exact hi
          · exact .inr ⟨by simpa using hsome, hreads, hi, hok⟩
  · intro hnd want hwant a t
    have hall : ∀ q ∈ ps, q.add = true ↔ want q.dependent q.target := fun q hq =>
      hwant q (List.mem_append_left _ hq)
    have hlast : p.add = true ↔ want p.dependent p.target := hwant p (by simp)
    obtain ⟨hin, hout⟩ := h.mem hnd want hall a t
    rw [hedges]
    by_cases ht : t = p.target
    · subst ht
      rw [if_pos rfl, apply_mem p (h.nodup hnd _)]
      by_cases ha : a = p.dependent
      · subst ha
        rw [if_pos rfl]
        refine ⟨fun _ => hlast, fun hno => ?_⟩
        exact absurd ⟨p, by simp, rfl, rfl⟩ hno
      · rw [if_neg ha]
        have hne : ¬p.dependent = a := fun heq => ha heq.symm
        have hiff : (∃ q ∈ ps ++ [p], q.target = p.target ∧ q.dependent = a) ↔
            ∃ q ∈ ps, q.target = p.target ∧ q.dependent = a := by
          simp [or_and_right, exists_or, hne]
        rw [hiff]
        exact ⟨hin, hout⟩
    · rw [if_neg ht]
      have hne : ¬p.target = t := fun heq => ht heq.symm
      have hiff : (∃ q ∈ ps ++ [p], q.target = t ∧ q.dependent = a) ↔
          ∃ q ∈ ps, q.target = t ∧ q.dependent = a := by
        simp [or_and_right, exists_or, hne]
      rw [hiff]
      exact ⟨hin, hout⟩

theorem prepareDependentPatches_ok (hu : u.owner.Wf) (h : prepareDependentPatches u = .ok () v) :
    ∃ t, SourceManager.Grown u.owner t.owner ∧ t = { u with owner := t.owner } ∧
      (∀ i, t.owner.states.held i = true ↔ u.owner.states.held i = true ∨
        (collectReads u.owner u.candidates i ∧ (u.owner.states.reader i).isOk = true)) ∧
      AllPatched t v u.dependentPatches := by
  obtain ⟨ps, t, ht, hv⟩ := bind_ok.mp h
  unfold onOwner at ht
  cases hc : collectPatches u.candidates u.owner with
  | error code n =>
    rw [hc] at ht
    cases ht
  | ok qs n =>
    rw [hc] at ht
    obtain ⟨rfl, rfl⟩ := EStateM.Result.ok.inj ht
    obtain ⟨hps, hheld⟩ := collectPatches_ok hu hc
    have hgrown := collectPatches_grown u.candidates u.owner u.owner (.refl _)
    rw [hc] at hgrown
    refine ⟨{ u with owner := n }, hgrown, rfl, hheld, ?_⟩
    rw [dependentPatches, ← hps]
    exact forM_ok_rec (fun pre w => AllPatched _ w pre) hv (allPatched_nil _)
      fun pre p x y _ hx hy => allPatched_snoc (hgrown.wf hu) hx (applyPatch_ok hy)

end SourceManagerUpdate

end ServerEngine
