import Mathlib.Algebra.GroupWithZero.Nat
import Mathlib.Data.List.Basic
import Mathlib.Logic.Relation

/-! # Searching for a cycle through one node

A stack is worked off from its top; the successors of a node not visited before are pushed. The
search stops when it meets its root again, which on a finite set of nodes it does exactly when the
root is on a cycle.
-/
namespace DepthFirst
open Relation

/-- How a search ends; `refused` is a node that may not be visited. -/
inductive Outcome
  | found
  | refused
  | exhausted (count : Nat)

section
variable {α : Type} [DecidableEq α]

/-- Work off the stack; the fuel bounds the number of nodes taken from it. -/
def search (succ : α → List α) (refuse : α → Bool) (root : α) :
    Nat → List α → List α → Nat → Option Outcome
  | _, _, [], count => some (.exhausted count)
  | 0, _, _ :: _, _ => none
  | fuel + 1, visited, x :: stack, count =>
    if x = root then some .found
    else if refuse x then some .refused
    else if x ∈ visited then search succ refuse root fuel visited stack count
    else search succ refuse root fuel (x :: visited) ((succ x).reverse ++ stack) (count + 1)

variable {succ : α → List α} {refuse : α → Bool} {root : α}

/-! ## Termination -/

def pending (succ : α → List α) (within visited : List α) : Nat :=
  ((within.filter (· ∉ visited)).map fun x => (succ x).length).sum

theorem pending_le (within visited : List α) (x : α) :
    pending succ within (x :: visited) ≤ pending succ within visited := by
  unfold pending
  induction within with
  | nil => simp
  | cons y ys ih =>
    by_cases hy : y ∈ visited
    · rw [List.filter_cons_of_neg (by simp [hy]), List.filter_cons_of_neg (by simp [hy])]
      exact ih
    · have hkeep : (y :: ys).filter (· ∉ visited) = y :: ys.filter (· ∉ visited) :=
        List.filter_cons_of_pos (by simp [hy])
      rw [hkeep]
      by_cases hxy : y = x
      · rw [List.filter_cons_of_neg (by simp [hxy])]
        simp only [List.map_cons, List.sum_cons]
        omega
      · rw [List.filter_cons_of_pos (by simp [hy, hxy])]
        simp only [List.map_cons, List.sum_cons]
        omega

theorem pending_visit {within visited : List α} (hwithin : ∀ x, succ x ≠ [] → x ∈ within) {x : α}
    (hx : x ∉ visited) :
    (succ x).length + pending succ within (x :: visited) ≤ pending succ within visited := by
  by_cases hempty : succ x = []
  · rw [hempty, List.length_nil, Nat.zero_add]
    exact pending_le within visited x
  · have hmem := hwithin x hempty
    clear hwithin hempty
    unfold pending
    induction within with
    | nil => cases hmem
    | cons y ys ih =>
      by_cases hxy : y = x
      · have hrest := @pending_le _ _ succ ys visited x
        unfold pending at hrest
        have hkeep : (y :: ys).filter (· ∉ visited) = y :: ys.filter (· ∉ visited) :=
          List.filter_cons_of_pos (by simp [hxy, hx])
        rw [hkeep, List.filter_cons_of_neg (by simp [hxy]), List.map_cons, List.sum_cons, hxy]
        omega
      · have hys : x ∈ ys := by
          cases hmem with
          | head => exact absurd rfl hxy
          | tail _ h => exact h
        have hrest := ih hys
        by_cases hy : y ∈ visited
        · rw [List.filter_cons_of_neg (by simp [hy]), List.filter_cons_of_neg (by simp [hy])]
          exact hrest
        · have hkeep : (y :: ys).filter (· ∉ visited) = y :: ys.filter (· ∉ visited) :=
            List.filter_cons_of_pos (by simp [hy])
          rw [hkeep, List.filter_cons_of_pos (by simp [hy, hxy])]
          simp only [List.map_cons, List.sum_cons]
          omega

theorem search_isSome {within : List α} (hwithin : ∀ x, succ x ≠ [] → x ∈ within) {fuel count : Nat}
    {visited stack : List α} (hfuel : stack.length + pending succ within visited ≤ fuel) :
    (search succ refuse root fuel visited stack count).isSome := by
  induction fuel generalizing visited stack count with
  | zero =>
    cases stack with
    | nil => rfl
    | cons x stack =>
      rw [List.length_cons] at hfuel
      omega
  | succ fuel ih =>
    cases stack with
    | nil => rfl
    | cons x stack =>
      rw [List.length_cons] at hfuel
      rw [search]
      split
      · rfl
      · split
        · rfl
        · split
          · apply ih
            omega
          · rename_i hx
            have hvisit := pending_visit hwithin hx
            apply ih
            rw [List.length_append, List.length_reverse]
            omega

/-! ## What a search finds -/

/-- What a search keeps: only nodes behind the root are stacked or visited, and the successors of a
visited node are stacked, or visited and not the root. -/
structure Searching (succ : α → List α) (root : α) (visited stack : List α) : Prop where
  start : root ∈ visited
  stacked : ∀ x ∈ stack, TransGen (fun a b => b ∈ succ a) root x
  behind : ∀ x ∈ visited, ReflTransGen (fun a b => b ∈ succ a) root x
  closed : ∀ x ∈ visited, ∀ y ∈ succ x, y ∈ stack ∨ y ∈ visited ∧ y ≠ root

omit [DecidableEq α] in
theorem searching_start (succ : α → List α) (root : α) :
    Searching succ root [root] (succ root).reverse := by
  refine ⟨by simp, fun x hx => ?_, fun x hx => ?_, fun x hx y hy => ?_⟩
  · exact .single (List.mem_reverse.mp hx)
  · rw [List.mem_singleton.mp hx]
  · rw [List.mem_singleton.mp hx] at hy
    exact .inl (List.mem_reverse.mpr hy)

omit [DecidableEq α] in
theorem Searching.skip {x : α} {visited stack : List α}
    (h : Searching succ root visited (x :: stack)) (hroot : x ≠ root) (hx : x ∈ visited) :
    Searching succ root visited stack := by
  refine ⟨h.start, fun y hy => h.stacked y (List.mem_cons_of_mem x hy), h.behind,
    fun y hy z hz => ?_⟩
  rcases h.closed y hy z hz with hstack | hvisited
  · cases hstack with
    | head => exact .inr ⟨hx, hroot⟩
    | tail _ hstack => exact .inl hstack
  · exact .inr hvisited

omit [DecidableEq α] in
theorem Searching.visit {x : α} {visited stack : List α}
    (h : Searching succ root visited (x :: stack)) (hroot : x ≠ root) :
    Searching succ root (x :: visited) ((succ x).reverse ++ stack) := by
  have hx := h.stacked x (by simp)
  refine ⟨List.mem_cons_of_mem x h.start, fun y hy => ?_, fun y hy => ?_, fun y hy z hz => ?_⟩
  · rcases List.mem_append.mp hy with hy | hy
    · exact hx.tail (List.mem_reverse.mp hy)
    · exact h.stacked y (List.mem_cons_of_mem x hy)
  · cases hy with
    | head => exact hx.to_reflTransGen
    | tail _ hy => exact h.behind y hy
  · rw [List.mem_append, List.mem_reverse, List.mem_cons]
    cases hy with
    | head => exact .inl (.inl hz)
    | tail _ hy =>
      rcases h.closed y hy z hz with hstack | hvisited
      · cases hstack with
        | head => exact .inr ⟨.inl rfl, hroot⟩
        | tail _ hstack => exact .inl (.inr hstack)
      · exact .inr ⟨.inr hvisited.1, hvisited.2⟩

omit [DecidableEq α] in
theorem Searching.exhausted {visited : List α} (h : Searching succ root visited []) :
    ¬TransGen (fun a b => b ∈ succ a) root root := by
  have hreach : ∀ x, TransGen (fun a b => b ∈ succ a) root x → x ∈ visited ∧ x ≠ root := by
    intro x hx
    induction hx with
    | single hstep =>
      rcases h.closed root h.start _ hstep with hstack | hvisited
      · cases hstack
      · exact hvisited
    | tail _ hstep ih =>
      rcases h.closed _ ih.1 _ hstep with hstack | hvisited
      · cases hstack
      · exact hvisited
  intro hcycle
  exact (hreach root hcycle).2 rfl

theorem search_spec (hrefuse : ∀ x, TransGen (fun a b => b ∈ succ a) root x → refuse x = false)
    {fuel count : Nat} {visited stack : List α} {out : Outcome}
    (h : Searching succ root visited stack)
    (hout : search succ refuse root fuel visited stack count = some out) :
    out = .found ∧ TransGen (fun a b => b ∈ succ a) root root ∨
      (∃ n, out = .exhausted n) ∧ ¬TransGen (fun a b => b ∈ succ a) root root := by
  induction fuel generalizing visited stack count with
  | zero =>
    cases stack with
    | nil =>
      cases hout
      exact .inr ⟨⟨count, rfl⟩, h.exhausted⟩
    | cons x stack => cases hout
  | succ fuel ih =>
    cases stack with
    | nil =>
      cases hout
      exact .inr ⟨⟨count, rfl⟩, h.exhausted⟩
    | cons x stack =>
      have hx := h.stacked x (by simp)
      rw [search] at hout
      split at hout
      · rename_i hroot
        cases hout
        exact .inl ⟨rfl, hroot ▸ hx⟩
      · rename_i hroot
        rw [hrefuse x hx, if_neg (by simp)] at hout
        split at hout
        · rename_i hvisited
          exact ih (h.skip hroot hvisited) hout
        · exact ih (h.visit hroot) hout

theorem search_root {within : List α} (hwithin : ∀ x, succ x ≠ [] → x ∈ within)
    (hrefuse : ∀ x, TransGen (fun a b => b ∈ succ a) root x → refuse x = false) {fuel : Nat}
    (hfuel : (within.map fun x => (succ x).length).sum ≤ fuel) :
    ∃ out, search succ refuse root fuel [root] (succ root).reverse 0 = some out ∧
      (out = .found ∧ TransGen (fun a b => b ∈ succ a) root root ∨
        (∃ n, out = .exhausted n) ∧ ¬TransGen (fun a b => b ∈ succ a) root root) := by
  have hall : pending succ within [] = (within.map fun x => (succ x).length).sum := by
    simp [pending]
  have hroot := @pending_visit _ _ succ within [] hwithin root (by simp)
  obtain ⟨out, hout⟩ := Option.isSome_iff_exists.mp
    (@search_isSome _ _ succ refuse root within hwithin fuel 0 [root] (succ root).reverse (by
      rw [List.length_reverse]
      omega))
  exact ⟨out, hout, search_spec hrefuse (searching_start succ root) hout⟩

end

theorem path_through {α : Type} {old new : α → α → Prop} {changed : α → Prop}
    (hkept : ∀ x y, ¬changed x → new x y → old x y) {a b : α} (h : TransGen new a b) :
    TransGen old a b ∨ ∃ c, changed c ∧ ReflTransGen new a c ∧ TransGen new c b := by
  induction h with
  | single hstep =>
    by_cases hc : changed a
    · exact .inr ⟨a, hc, .refl, .single hstep⟩
    · exact .inl (.single (hkept _ _ hc hstep))
  | @tail x y hax hstep ih =>
    rcases ih with hold | ⟨c, hc, hac, hcx⟩
    · by_cases hx : changed x
      · exact .inr ⟨x, hx, hax.to_reflTransGen, .single hstep⟩
      · exact .inl (hold.tail (hkept _ _ hx hstep))
    · exact .inr ⟨c, hc, hac, hcx.tail hstep⟩

theorem cycle_through {α : Type} {old new : α → α → Prop} {changed : α → Prop}
    (hkept : ∀ x y, ¬changed x → new x y → old x y) (hacyclic : ∀ a, ¬TransGen old a a) {a : α}
    (h : TransGen new a a) : ∃ c, changed c ∧ TransGen new c c := by
  rcases path_through hkept h with hold | ⟨c, hc, hac, hca⟩
  · exact absurd hold (hacyclic a)
  · exact ⟨c, hc, TransGen.trans_left hca hac⟩

end DepthFirst
