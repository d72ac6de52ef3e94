import Mathlib.Algebra.GroupWithZero.Nat
import Mathlib.Order.Interval.Finset.Nat

/-! # Linked chains

A list that is threaded through its items by links: it is determined by its start, a change of links
outside it does not touch it, and an item is pushed by one link. And the sizes of ranges that do not
meet.
-/
namespace Chains

section
variable {α : Type}

def Chain (link : α → Option (Option α)) : Option α → List α → Prop
  | start, [] => start = none
  | start, p :: rest => start = some p ∧ ∃ next, link p = some next ∧ Chain link next rest

variable {link link' : α → Option (Option α)} {start : Option α} {items items' : List α}

theorem Chain.unique (h : Chain link start items) (h' : Chain link start items') :
    items = items' := by
  induction items generalizing start items' with
  | nil =>
    cases items' with
    | nil => rfl
    | cons p rest =>
      rw [h] at h'
      cases h'.1
  | cons p rest ih =>
    cases items' with
    | nil =>
      rw [h'] at h
      cases h.1
    | cons p' rest' =>
      obtain ⟨hstart, next, hnext, hrest⟩ := h
      obtain ⟨hstart', next', hnext', hrest'⟩ := h'
      obtain rfl : p = p' := Option.some.inj (hstart.symm.trans hstart')
      obtain rfl : next = next' := Option.some.inj (hnext.symm.trans hnext')
      rw [ih hrest hrest']

theorem Chain.congr (h : Chain link start items) (hsame : ∀ p ∈ items, link' p = link p) :
    Chain link' start items := by
  induction items generalizing start with
  | nil => exact h
  | cons p rest ih =>
    obtain ⟨hstart, next, hnext, hrest⟩ := h
    refine ⟨hstart, next, ?_, ih hrest fun q hq => hsame q (List.mem_cons_of_mem p hq)⟩
    rw [hsame p List.mem_cons_self, hnext]

theorem Chain.linked (h : Chain link start items) {p : α} (hp : p ∈ items) :
    ∃ next, link p = some next := by
  induction items generalizing start with
  | nil => cases hp
  | cons q rest ih =>
    obtain ⟨-, next, hnext, hrest⟩ := h
    cases List.mem_cons.mp hp with
    | inl heq =>
      rw [heq]
      exact ⟨next, hnext⟩
    | inr hmem => exact ih hrest hmem

theorem Chain.push (h : Chain link start items) {p : α} (hlink : link' p = some start)
    (hsame : ∀ q ∈ items, link' q = link q) : Chain link' (some p) (p :: items) :=
  ⟨rfl, start, hlink, h.congr hsame⟩

end

/-! ## Ranges -/

section
variable {α : Type} (begin size : α → Nat)

theorem sum_lt_of_disjoint {bound : Nat} (hbound : 0 < bound) {items : List α}
    (hinside : ∀ p ∈ items, 0 < begin p ∧ begin p + size p ≤ bound)
    (hapart : items.Pairwise fun p q => begin p + size p ≤ begin q ∨ begin q + size q ≤ begin p) :
    (items.map size).sum < bound := by
  have hunion : ∃ covered : Finset Nat, covered ⊆ Finset.Ico 1 bound ∧
      covered.card = (items.map size).sum ∧
      ∀ x ∈ covered, ∃ p ∈ items, begin p ≤ x ∧ x < begin p + size p := by
    induction items with
    | nil => exact ⟨∅, Finset.empty_subset _, rfl, fun x hx => by simp at hx⟩
    | cons p rest ih =>
      obtain ⟨hfirst, hrest⟩ := List.pairwise_cons.mp hapart
      obtain ⟨covered, hsub, hcard, hmem⟩ :=
        ih (fun q hq => hinside q (List.mem_cons_of_mem p hq)) hrest
      obtain ⟨hpos, hend⟩ := hinside p List.mem_cons_self
      refine ⟨Finset.Ico (begin p) (begin p + size p) ∪ covered, ?_, ?_, ?_⟩
      · apply Finset.union_subset _ hsub
        intro x hx
        rw [Finset.mem_Ico] at hx ⊢
        omega
      · have hdisjoint : Disjoint (Finset.Ico (begin p) (begin p + size p)) covered := by
          rw [Finset.disjoint_left]
          intro x hx hcovered
          obtain ⟨q, hq, hlow, hhigh⟩ := hmem x hcovered
          have hpq := hfirst q hq
          rw [Finset.mem_Ico] at hx
          omega
        rw [Finset.card_union_of_disjoint hdisjoint, hcard, Nat.card_Ico, List.map_cons,
          List.sum_cons, Nat.add_sub_cancel_left]
      · intro x hx
        cases Finset.mem_union.mp hx with
        | inl hnew => exact ⟨p, List.mem_cons_self, Finset.mem_Ico.mp hnew⟩
        | inr hold =>
          obtain ⟨q, hq, hrange⟩ := hmem x hold
          exact ⟨q, List.mem_cons_of_mem p hq, hrange⟩
  obtain ⟨covered, hsub, hcard, -⟩ := hunion
  have hle := Finset.card_le_card hsub
  rw [hcard, Nat.card_Ico] at hle
  omega

end
end Chains
