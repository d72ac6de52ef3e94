import ServerEngine.Source.PathIdentity
import ServerEngine.Source.Dependents

/-! # What leaves the paths alone

Most steps of an update change neither its new sources nor the size of an index: the candidates, the
edges and every stage of a preparation but the two that build the path index.
-/
namespace ServerEngine
open Transaction

namespace SourceManagerUpdate

/-! ## Steps that leave the paths alone -/

structure SameIndex (u v : SourceManagerUpdate) : Prop where
  newSources : v.newSources = u.newSources
  slots : v.owner.pathIndexSlots = u.owner.pathIndexSlots
  prepared : v.preparedPathIndexSlots = u.preparedPathIndexSlots

theorem SameIndex.trans {u v w : SourceManagerUpdate} (h : SameIndex u v) (h' : SameIndex v w) :
    SameIndex u w :=
  ⟨h'.newSources.trans h.newSources, h'.slots.trans h.slots, h'.prepared.trans h.prepared⟩

/-- Whatever `x` does, the paths stay. -/
def KeepsIndex {α : Type} (x : UpdateM α) : Prop := ∀ u, SameIndex u (left (x u))

theorem keepsIndex_bind {α β : Type} {x : UpdateM α} {f : α → UpdateM β} (hx : KeepsIndex x)
    (hf : ∀ a, KeepsIndex (f a)) : KeepsIndex (x >>= f) := by
  intro u
  have hstart : Keeps (SameIndex u) x := fun v hv => hv.trans (hx v)
  exact keeps_bind hstart (fun a v hv => hv.trans (hf a v)) u ⟨rfl, rfl, rfl⟩

theorem touch_keepsIndex (source : Nat) : KeepsIndex (touch source) := by
  intro u
  unfold touch
  split
  · exact ⟨rfl, rfl, rfl⟩
  · split
    · exact ⟨rfl, rfl, rfl⟩
    · exact ⟨rfl, rfl, rfl⟩

theorem cacheEdges_slots (m : SourceManager) (kind : SourceGenerationEdgeKind) (source : Nat) :
    (m.cacheEdges kind source).pathIndexSlots = m.pathIndexSlots := by
  unfold SourceManager.cacheEdges
  split <;> rfl

theorem onOwner_keepsIndex {α : Type} {x : EStateM StatusCode SourceManager α}
    (hx : ∀ m, (left (x m)).pathIndexSlots = m.pathIndexSlots) : KeepsIndex (onOwner x) := by
  intro u
  have hslots := hx u.owner
  unfold onOwner
  cases h : x u.owner with
  | ok a m =>
    rw [h] at hslots
    exact ⟨rfl, hslots, rfl⟩
  | error code m =>
    rw [h] at hslots
    exact ⟨rfl, hslots, rfl⟩

theorem collectPatches_slots (items : List CandidateSource) (n : Nat) :
    Keeps (fun m => m.pathIndexSlots = n) (collectPatches items) := by
  induction items with
  | nil => exact fun m hm => hm
  | cons item rest ih =>
    intro m hm
    rw [collectPatches]
    beta_reduce
    split
    · exact ih m hm
    · dsimp only
      have hcached : ∀ m : SourceManager, m.pathIndexSlots = n →
          (if item.source ≤ m.states.size then m.cacheEdges .includes item.source
            else m).pathIndexSlots = n := by
        intro m hm
        split
        · exact (cacheEdges_slots m _ _).trans hm
        · exact hm
      split
      · exact hcached m hm
      · exact keeps_bind ih (fun _ => keeps_pure _) _ (hcached m hm)

theorem applyPatch_keepsIndex (p : EdgePatch) : KeepsIndex (applyPatch p) := by
  apply keepsIndex_bind (touch_keepsIndex _)
  intro _ u
  have hload : SameIndex u (u.loadDependents p.target) := by
    unfold loadDependents
    split
    · exact ⟨rfl, rfl, rfl⟩
    · exact ⟨rfl, cacheEdges_slots u.owner _ _, rfl⟩
  exact ⟨hload.newSources, hload.slots, hload.prepared⟩

theorem forM_keepsIndex {α : Type} {f : α → UpdateM PUnit} (xs : List α)
    (h : ∀ x ∈ xs, KeepsIndex (f x)) : KeepsIndex (forM xs f) := by
  intro u
  exact keeps_forM (fun x hx v hv => hv.trans (h x hx v)) u ⟨rfl, rfl, rfl⟩

theorem prepareDependentPatches_keepsIndex : KeepsIndex prepareDependentPatches := by
  intro u
  exact keepsIndex_bind
    (onOwner_keepsIndex fun m => collectPatches_slots u.candidates m.pathIndexSlots m rfl)
    (fun patches => forM_keepsIndex patches fun p _ => applyPatch_keepsIndex p) u

theorem checkPathBytes_keepsIndex : KeepsIndex checkPathBytes := by
  intro u
  unfold checkPathBytes
  dsimp only
  split <;> exact ⟨rfl, rfl, rfl⟩

theorem prepareTextBytes_keepsIndex : KeepsIndex prepareTextBytes := by
  intro u
  unfold prepareTextBytes
  split <;> exact ⟨rfl, rfl, rfl⟩

theorem prepareGeneration_keepsIndex : KeepsIndex prepareGeneration := by
  intro u
  unfold prepareGeneration
  dsimp only
  split
  · exact ⟨rfl, rfl, rfl⟩
  · split <;> exact ⟨rfl, rfl, rfl⟩

theorem prepareSource_slots (item : CandidateSource) (n : Nat) :
    Keeps (fun m => m.pathIndexSlots = n) (prepareSource item) := by
  intro m hm
  unfold prepareSource
  split
  · exact hm
  · split
    · exact hm
    · split
      · exact hm
      · dsimp only
        split <;> exact hm

theorem prepareSources_keepsIndex : KeepsIndex prepareSources := by
  intro u
  exact onOwner_keepsIndex (x := forM u.candidates prepareSource) (fun m =>
    keeps_forM (fun item _ => prepareSource_slots item m.pathIndexSlots) m rfl) u

theorem prepareAbsorb_keepsIndex : KeepsIndex prepareAbsorb := by
  intro u
  unfold prepareAbsorb
  split <;> exact ⟨rfl, rfl, rfl⟩

theorem acquireTouched_keepsIndex (source : Nat) (kind : SourceAcquireKind)
    (previous : Option SourceSnapshot) : KeepsIndex (acquireTouched source kind previous) := by
  intro u
  unfold acquireTouched
  cases kind with
  | unchanged => exact ⟨rfl, rfl, rfl⟩
  | missing =>
    dsimp only
    split <;> exact ⟨rfl, rfl, rfl⟩
  | present bytes observation hash identity =>
    dsimp only
    split
    · exact ⟨rfl, rfl, rfl⟩
    · split <;> exact ⟨rfl, rfl, rfl⟩

theorem applyAcquire_keepsIndex (source : Nat) (kind : SourceAcquireKind) :
    KeepsIndex (applyAcquire source kind) := by
  intro u
  unfold applyAcquire
  split
  · exact ⟨rfl, rfl, rfl⟩
  · split
    · exact ⟨rfl, rfl, rfl⟩
    · exact keepsIndex_bind (touch_keepsIndex source)
        (fun _ => acquireTouched_keepsIndex source kind _) u

theorem setIncludes_keepsIndex (source : Nat) (dependencies : List Nat) :
    KeepsIndex (setIncludes source dependencies) := by
  intro u
  unfold setIncludes
  split
  · exact ⟨rfl, rfl, rfl⟩
  · split
    · exact ⟨rfl, rfl, rfl⟩
    · exact keepsIndex_bind (touch_keepsIndex source) (fun _ _ => ⟨rfl, rfl, rfl⟩) u

theorem reserveNewSources_index (u : SourceManagerUpdate) :
    (SameIndex u (left (reserveNewSources u)) ∧ ((u.owner.baselineBacked = true ∨
      u.owner.records.size = 0) ∨ ∃ v, reserveNewSources u = .ok () v)) ∨
    ((u.owner.baselineBacked || u.owner.records.size = 0) = false ∧
      reserveNewSources u = .error .rebuildRequired
        { u with preparedPathIndexSlots := 0, preparedPathStorageSize := 0 }) := by
  unfold reserveNewSources
  dsimp only
  split
  · rename_i hbacked
    refine .inl ⟨?_, .inl (.inl hbacked)⟩
    split <;> exact ⟨rfl, rfl, rfl⟩
  · rename_i hbacked
    split
    · rename_i hempty
      refine .inl ⟨?_, .inl (.inr hempty)⟩
      split <;> exact ⟨rfl, rfl, rfl⟩
    · rename_i hsize
      split
      · exact .inr ⟨by simp [hbacked, hsize], rfl⟩
      · exact .inl ⟨⟨rfl, rfl, rfl⟩, .inr ⟨_, rfl⟩⟩

end SourceManagerUpdate

end ServerEngine
