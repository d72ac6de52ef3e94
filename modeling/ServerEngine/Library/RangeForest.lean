import Mathlib.Logic.Relation
import Mathlib.Order.Basic

/-! # Forests of ranges

Nodes with a range each, every child's range inside its parent's and the ranges of siblings, and of
roots, apart. Two nodes of which neither encloses the other then have ranges that do not meet.
-/
namespace RangeForest
open Relation

/-- The nodes below `n` form a forest in which a child has a larger number than its parent. -/
structure Forest (n : Nat) (child : Nat → Nat → Prop) (lo hi : Nat → Nat) : Prop where
  later : ∀ {i c}, child i c → i < c
  bound : ∀ {i c}, child i c → c < n
  parent : ∀ {i j c}, child i c → child j c → i = j
  within : ∀ {i c}, child i c → lo i ≤ lo c ∧ hi c ≤ hi i
  siblings : ∀ {i c d}, child i c → child i d → c ≠ d → hi c ≤ lo d ∨ hi d ≤ lo c
  roots : ∀ {c d}, c < n → d < n → (∀ i, ¬ child i c) → (∀ i, ¬ child i d) → c ≠ d →
    hi c ≤ lo d ∨ hi d ≤ lo c

variable {n : Nat} {child : Nat → Nat → Prop} {lo hi : Nat → Nat}

theorem Forest.encloses (h : Forest n child lo hi) {i j : Nat} (hij : ReflTransGen child i j) :
    lo i ≤ lo j ∧ hi j ≤ hi i := by
  induction hij with
  | refl => exact ⟨Nat.le_refl _, Nat.le_refl _⟩
  | tail _ hstep ih =>
    obtain ⟨hlo, hhi⟩ := h.within hstep
    exact ⟨Nat.le_trans ih.1 hlo, Nat.le_trans hhi ih.2⟩

theorem Forest.root (h : Forest n child lo hi) (i : Nat) (hi' : i < n) :
    ∃ r < n, (∀ p, ¬ child p r) ∧ ReflTransGen child r i := by
  induction i using Nat.strongRecOn with
  | ind i ih =>
    by_cases hparent : ∃ p, child p i
    · obtain ⟨p, hp⟩ := hparent
      have hlt := h.later hp
      obtain ⟨r, hr, hroot, hchain⟩ := ih p hlt (Nat.lt_trans hlt hi')
      exact ⟨r, hr, hroot, hchain.tail hp⟩
    · exact ⟨i, hi', fun p hp => hparent ⟨p, hp⟩, .refl⟩

/-- Neither of two nodes encloses the other. -/
def Unrelated (child : Nat → Nat → Prop) (i j : Nat) : Prop :=
  i ≠ j ∧ ¬ TransGen child i j ∧ ¬ TransGen child j i

theorem Unrelated.symm {i j : Nat} (h : Unrelated child i j) : Unrelated child j i :=
  ⟨h.1.symm, h.2.2, h.2.1⟩

theorem Unrelated.ne_of_encloses {i j c : Nat} (h : Unrelated child i j)
    (hc : ReflTransGen child c i) : c ≠ j := by
  rintro rfl
  cases reflTransGen_iff_eq_or_transGen.mp hc with
  | inl heq => exact h.1 heq
  | inr hstep => exact h.2.2 hstep

theorem Forest.apart (h : Forest n child lo hi) {i j : Nat} (hin : i < n) (hjn : j < n)
    (hij : Unrelated child i j) : hi i ≤ lo j ∨ hi j ≤ lo i := by
  suffices key : ∀ m i j, i < j → j < m → j < n → Unrelated child i j →
      hi i ≤ lo j ∨ hi j ≤ lo i by
    cases Nat.lt_or_gt_of_ne hij.1 with
    | inl hlt => exact key (j + 1) i j hlt (Nat.lt_succ_self j) hjn hij
    | inr hlt => exact (key (i + 1) j i hlt (Nat.lt_succ_self i) hin hij.symm).symm
  intro m
  induction m with
  | zero => exact fun i j _ hj => absurd hj (Nat.not_lt_zero j)
  | succ m ih =>
    intro i j hlt hjm hjn hij
    have hin := Nat.lt_trans hlt hjn
    by_cases hparent : ∃ p, child p j
    · obtain ⟨p, hp⟩ := hparent
      have hpj := h.later hp
      have hinside := h.within hp
      by_cases heq : p = i
      · exact absurd (heq ▸ TransGen.single hp) hij.2.1
      by_cases hbelow : TransGen child p i
      · obtain ⟨c, hc, hci⟩ := TransGen.head'_iff.mp hbelow
        have hsibling := h.siblings hc hp (hij.ne_of_encloses hci)
        have hencloses := h.encloses hci
        cases hsibling with
        | inl hle => exact .inl (Nat.le_trans hencloses.2 hle)
        | inr hle => exact .inr (Nat.le_trans hle hencloses.1)
      · have habove : ¬ TransGen child i p := fun hip => hij.2.1 (hip.tail hp)
        have hunrelated : Unrelated child i p := ⟨fun he => heq he.symm, habove, hbelow⟩
        have hpm : p < m := Nat.lt_of_lt_of_le hpj (Nat.lt_succ_iff.mp hjm)
        have hdisjoint : hi i ≤ lo p ∨ hi p ≤ lo i := by
          cases Nat.lt_or_gt_of_ne hunrelated.1 with
          | inl hless => exact ih i p hless hpm (Nat.lt_trans hpj hjn) hunrelated
          | inr hless =>
            have him : i < m := Nat.lt_of_lt_of_le hlt (Nat.lt_succ_iff.mp hjm)
            exact (ih p i hless him hin hunrelated.symm).symm
        cases hdisjoint with
        | inl hle => exact .inl (Nat.le_trans hle hinside.1)
        | inr hle => exact .inr (Nat.le_trans hinside.2 hle)
    · obtain ⟨r, hrn, hroot, hri⟩ := h.root i hin
      have hapart := h.roots hrn hjn hroot (fun p hp => hparent ⟨p, hp⟩) (hij.ne_of_encloses hri)
      have hencloses := h.encloses hri
      cases hapart with
      | inl hle => exact .inl (Nat.le_trans hencloses.2 hle)
      | inr hle => exact .inr (Nat.le_trans hle hencloses.1)

/-! ## Branches -/

theorem comparable {i j x : Nat} (hparent : ∀ i j c, child i c → child j c → i = j)
    (hi : ReflTransGen child i x) (hj : ReflTransGen child j x) :
    ReflTransGen child i j ∨ ReflTransGen child j i := by
  have hunique : Relator.RightUnique (Function.swap child) :=
    fun c i j ha hb => hparent i j c ha hb
  have hi' := reflTransGen_swap.mpr hi
  have hj' := reflTransGen_swap.mpr hj
  cases ReflTransGen.total_of_right_unique hunique hi' hj' with
  | inl h => exact .inr (reflTransGen_swap.mp h)
  | inr h => exact .inl (reflTransGen_swap.mp h)

theorem le_of_encloses {i j : Nat} (hlater : ∀ i c, child i c → i < c)
    (h : ReflTransGen child i j) : i ≤ j := by
  induction h with
  | refl => exact Nat.le_refl i
  | tail _ hstep ih => exact Nat.le_trans ih (Nat.le_of_lt (hlater _ _ hstep))

theorem siblings_disjoint {i c d x : Nat} (hparent : ∀ i j c, child i c → child j c → i = j)
    (hlater : ∀ i c, child i c → i < c) (hc : child i c) (hd : child i d) (hne : c ≠ d)
    (hcx : ReflTransGen child c x) : ¬ ReflTransGen child d x := by
  have hnot : ∀ a b, child i a → child i b → a ≠ b → ¬ ReflTransGen child a b := by
    intro a b ha hb hab h
    cases reflTransGen_iff_eq_or_transGen.mp h with
    | inl heq => exact hab heq.symm
    | inr htrans =>
      obtain ⟨p, hp, hpb⟩ := TransGen.tail'_iff.mp htrans
      obtain rfl := hparent i p b hb hpb
      exact absurd (le_of_encloses hlater hp) (Nat.not_le.mpr (hlater i a ha))
  intro hdx
  cases comparable hparent hcx hdx with
  | inl h => exact hnot c d hc hd hne h
  | inr h => exact hnot d c hd hc hne.symm h

end RangeForest
