import ServerEngine.Builder.Generation
import ServerEngine.Builder.Growth

/-! # Reverse dependencies

An edge from a type to a definition that names it counts while it carries the current version of its
owner; the validation of an incremental build follows the chains of the touched types.
-/
namespace ServerEngine
open ErrorFold Graph

/-! ## Chains -/

inductive Chained (edges : List DependencyEdge) : Nat → DependencyEdge → Prop
  | here {i : Nat} {edge : DependencyEdge} : i ≠ 0 → edges[i - 1]? = some edge →
    Chained edges i edge
  | next {i : Nat} {first edge : DependencyEdge} : i ≠ 0 → edges[i - 1]? = some first →
    Chained edges first.nextForTarget edge → Chained edges i edge

theorem Chained.append {edges : List DependencyEdge} {i : Nat} {edge : DependencyEdge}
    (h : Chained edges i edge) (more : List DependencyEdge) : Chained (edges ++ more) i edge := by
  have hget : ∀ {n : Nat} {e : DependencyEdge}, edges[n]? = some e →
      (edges ++ more)[n]? = some e := by
    intro n e hn
    rw [List.getElem?_append_left (List.getElem?_eq_some_iff.mp hn).1]
    exact hn
  induction h with
  | here hne he => exact .here hne (hget he)
  | next hne he _ ih => exact .next hne (hget he) ih

def OnChain (edges : List DependencyEdge) (heads : List Nat) (target : TypeHandle)
    (edge : DependencyEdge) : Prop := Chained edges (heads.getD (target - 1) 0) edge

section Publication
variable {state : List DependencyEdge × List Nat} {pending : PendingDependencyEdge}
  {target : TypeHandle} {edge : DependencyEdge}

theorem publishEdge_heads (state : List DependencyEdge × List Nat)
    (pending : PendingDependencyEdge) :
    (Graph.publishEdge state pending).2.length = state.2.length := List.length_set

theorem publishEdge_old (h : OnChain state.1 state.2 target edge) :
    OnChain (Graph.publishEdge state pending).1 (Graph.publishEdge state pending).2 target edge := by
  unfold OnChain Graph.publishEdge
  have hold := Chained.append h
    [⟨pending.ownerHandle, state.2.getD (pending.targetHandle - 1) 0, pending.ownerVersion⟩]
  rw [Slice.getD_set]
  split
  · rename_i hself
    rw [hself.1] at hold ⊢
    have hfirst : (state.1 ++ [(⟨pending.ownerHandle, state.2.getD (target - 1) 0,
        pending.ownerVersion⟩ : DependencyEdge)])[state.1.length + 1 - 1]? =
        some ⟨pending.ownerHandle, state.2.getD (target - 1) 0, pending.ownerVersion⟩ := by simp
    exact .next (by omega) hfirst hold
  · exact hold

theorem publishEdge_new (hlt : pending.targetHandle - 1 < state.2.length) :
    ∃ edge, OnChain (Graph.publishEdge state pending).1 (Graph.publishEdge state pending).2
      pending.targetHandle edge ∧ edge.ownerHandle = pending.ownerHandle ∧
      edge.ownerVersion = pending.ownerVersion := by
  refine ⟨⟨pending.ownerHandle, state.2.getD (pending.targetHandle - 1) 0, pending.ownerVersion⟩,
    ?_, rfl, rfl⟩
  unfold OnChain Graph.publishEdge
  rw [Slice.getD_set, if_pos ⟨rfl, hlt⟩]
  exact .here (by omega) (by simp)

theorem publishEdges_old {edges : List PendingDependencyEdge}
    (h : OnChain state.1 state.2 target edge) :
    OnChain (edges.foldl Graph.publishEdge state).1 (edges.foldl Graph.publishEdge state).2 target
      edge := by
  induction edges generalizing state with
  | nil => exact h
  | cons pending rest ih => exact ih (publishEdge_old h)

theorem publishEdges_new {edges : List PendingDependencyEdge} (hmem : pending ∈ edges)
    (hlt : pending.targetHandle - 1 < state.2.length) :
    ∃ edge, OnChain (edges.foldl Graph.publishEdge state).1 (edges.foldl Graph.publishEdge state).2
      pending.targetHandle edge ∧ edge.ownerHandle = pending.ownerHandle ∧
      edge.ownerVersion = pending.ownerVersion := by
  induction edges generalizing state with
  | nil => cases hmem
  | cons first rest ih =>
    rcases List.mem_cons.mp hmem with rfl | hmem
    · obtain ⟨edge, hedge, howner, hversion⟩ := publishEdge_new hlt
      refine ⟨edge, ?_, howner, hversion⟩
      rw [List.foldl_cons]
      exact publishEdges_old hedge
    · refine ih hmem ?_
      rw [publishEdge_heads]
      exact hlt

theorem publishEdges_heads (edges : List PendingDependencyEdge) :
    (edges.foldl Graph.publishEdge state).2.length = state.2.length := by
  induction edges generalizing state with
  | nil => rfl
  | cons pending rest ih => rw [List.foldl_cons, ih, publishEdge_heads]

end Publication

/-! ## The closure -/

namespace Candidate

variable {g : Graph} {c : Candidate}

theorem chainOwners_spec {fuel head : Nat} {owners : List TypeHandle} {edge : DependencyEdge}
    (h : chainOwners g fuel head = .ok owners) (hedge : Chained g.dependencyEdges head edge)
    (hversion : g.dependencyVersions[edge.ownerHandle - 1]? = some edge.ownerVersion) :
    edge.ownerHandle ∈ owners := by
  induction hedge generalizing fuel owners with
  | here hne he =>
    cases fuel with
    | zero => cases h
    | succ fuel =>
      rw [chainOwners, if_neg hne, he] at h
      dsimp only at h
      split at h
      · cases h
      rw [hversion] at h
      obtain ⟨rest, -, h⟩ := bind_ok.mp h
      rw [if_pos rfl] at h
      cases h
      exact List.mem_cons_self
  | next hne he _ ih =>
    cases fuel with
    | zero => cases h
    | succ fuel =>
      rw [chainOwners, if_neg hne, he] at h
      dsimp only at h
      split at h
      · cases h
      split at h
      · cases h
      obtain ⟨rest, hrest, h⟩ := bind_ok.mp h
      have hmem := ih hrest hversion
      cases h
      split
      · exact List.mem_cons_of_mem _ hmem
      · exact hmem

theorem dependentOwners_spec {target : TypeHandle} {owners : List TypeHandle}
    {edge : DependencyEdge} (h : dependentOwners g target = .ok owners)
    (hedge : OnChain g.dependencyEdges g.reverseDependencyHeads target edge)
    (hversion : g.dependencyVersions[edge.ownerHandle - 1]? = some edge.ownerVersion) :
    edge.ownerHandle ∈ owners := by
  unfold dependentOwners at h
  unfold OnChain at hedge
  rw [List.getD_eq_getElem?_getD] at hedge
  cases hhead : g.reverseDependencyHeads[target - 1]? with
  | none =>
    rw [hhead] at hedge
    cases hedge <;> contradiction
  | some head =>
    rw [hhead] at h hedge
    exact chainOwners_spec h hedge hversion

theorem closureLoop_spec {fuel : Nat} {visited queue out : List TypeHandle}
    (h : closureLoop g fuel visited queue = .ok out) :
    (∀ handle ∈ queue, handle ∈ out) ∧ ∀ handle ∈ out, ∃ owners,
      dependentOwners g handle = .ok owners ∧ ∀ owner ∈ owners, owner ∈ visited ∨ owner ∈ out := by
  induction fuel generalizing visited queue out with
  | zero =>
    cases queue with
    | nil =>
      cases h
      simp
    | cons => cases h
  | succ fuel ih =>
    cases queue with
    | nil =>
      cases h
      simp
    | cons handle queue =>
      obtain ⟨owners, howners, h⟩ := bind_ok.mp h
      obtain ⟨rest, hrest, h⟩ := bind_ok.mp h
      cases h
      obtain ⟨hqueue, hclosed⟩ := ih hrest
      obtain ⟨hmarks, hfresh, -⟩ := Traversal.insertNew_spec visited owners
      have hseen : ∀ owner ∈ (Traversal.insertNew visited owners).1,
          owner ∈ visited ∨ owner ∈ rest := by
        intro owner hmem
        by_cases hv : owner ∈ visited
        · exact .inl hv
        · refine .inr (hqueue owner (List.mem_append_right _ ((hfresh owner).mpr ⟨?_, hv⟩)))
          exact ((hmarks owner).mp hmem).resolve_left hv
      constructor
      · intro other hother
        rcases List.mem_cons.mp hother with rfl | hother
        · exact List.mem_cons_self
        · exact List.mem_cons_of_mem _ (hqueue other (List.mem_append_left _ hother))
      · intro other hother
        rcases List.mem_cons.mp hother with rfl | hother
        · refine ⟨owners, howners, fun owner howner => ?_⟩
          exact (hseen owner ((hmarks owner).mpr (.inr howner))).imp_right (List.mem_cons_of_mem _)
        · obtain ⟨found, hfound, hall⟩ := hclosed other hother
          refine ⟨found, hfound, fun owner howner => ?_⟩
          rcases hall owner howner with hv | hr
          · exact (hseen owner hv).imp_right (List.mem_cons_of_mem _)
          · exact .inr (List.mem_cons_of_mem _ hr)

theorem closure_spec {out : List TypeHandle} (h : c.closure g = .ok out) :
    (∀ handle ∈ c.touchedHandles, handle ∈ out) ∧ ∀ (handle : TypeHandle) (edge : DependencyEdge),
      handle ∈ c.touchedHandles →
      OnChain g.dependencyEdges g.reverseDependencyHeads handle edge →
      g.dependencyVersions[edge.ownerHandle - 1]? = some edge.ownerVersion →
      edge.ownerHandle ∈ out := by
  obtain ⟨hqueue, hclosed⟩ := closureLoop_spec h
  refine ⟨hqueue, ?_⟩
  intro handle edge hhandle hedge hversion
  obtain ⟨owners, howners, hall⟩ := hclosed handle (hqueue handle hhandle)
  rcases hall _ (dependentOwners_spec howners hedge hversion) with hv | ho
  · exact hqueue _ hv
  · exact ho

def LiveBase (entry : TypeHandle → Option TypeEntry) : TypeBase → Prop
  | .intrinsic _ => True
  | .named handle => ∃ e, entry handle = some e ∧ e.live = true

theorem validateTypeRef_spec {fuel current : Nat}
    (h : validateTypeRef g c fuel current = .ok ()) : ∃ base modifiers,
      Denotes (c.canonicalTypes g) current base modifiers ∧ LiveBase (c.entry g) base := by
  induction fuel generalizing current with
  | zero => cases h
  | succ fuel ih =>
    rw [validateTypeRef] at h
    cases hrecord : c.canonicalRecord g current with
    | none =>
      rw [hrecord] at h
      cases h
    | some record =>
      rw [hrecord] at h
      unfold canonicalRecord at hrecord
      split at hrecord
      · cases hrecord
      rename_i hne
      cases hk : record.kind with
      | intrinsic => exact ⟨_, _, .intrinsic hne hrecord hk, trivial⟩
      | named =>
        simp only [hk] at h
        refine ⟨_, _, .named hne hrecord hk, ?_⟩
        cases hentry : c.entry g record.childOrHandle with
        | none =>
          rw [hentry] at h
          cases h
        | some named =>
          rw [hentry] at h
          dsimp only at h
          split at h
          · exact ⟨named, hentry, ‹_›⟩
          · cases h
      | derived =>
        simp only [hk] at h
        split at h
        · cases h
        · obtain ⟨base, modifiers, hd, hlive⟩ := ih h
          exact ⟨base, _, .derived hne hrecord hk hd, hlive⟩

theorem forM_mem {α : Type} {f : α → BuildM Unit} {xs : List α} (h : xs.forM f = .ok ())
    {x : α} (hx : x ∈ xs) : f x = .ok () := by
  induction xs with
  | nil => cases hx
  | cons y ys ih =>
    obtain ⟨⟨⟩, hy, hrest⟩ := bind_ok.mp h
    rcases List.mem_cons.mp hx with rfl | hx
    · exact hy
    · exact ih hrest hx

theorem validateType_spec {handle : TypeHandle} {entry : TypeEntry} {i : Nat}
    (h : c.validateType g handle = .ok ()) (hentry : c.entry g handle = some entry)
    (hlive : entry.live = true) (hkind : entry.kind = .record) (hdefined : entry.defined = true)
    (hi : i < entry.definition.count) :
    ∃ member, c.memberAt g (entry.definition.begin - 1 + i) = some member ∧
      ∃ base modifiers, Denotes (c.canonicalTypes g) member.type base modifiers ∧
        LiveBase (c.entry g) base := by
  unfold validateType at h
  rw [hentry] at h
  simp only [hlive, hkind, hdefined, ne_eq, not_true_eq_false, decide_false, Bool.not_true,
    Bool.or_self, Bool.false_eq_true, if_false] at h
  have hmember := forM_mem h (List.mem_range.mpr hi)
  unfold validateMember at hmember
  cases hat : c.memberAt g (entry.definition.begin - 1 + i) with
  | none =>
    rw [hat] at hmember
    cases hmember
  | some member =>
    rw [hat] at hmember
    exact ⟨member, rfl, validateTypeRef_spec hmember⟩

end Candidate

end ServerEngine
