import Mathlib.Algebra.GroupWithZero.Nat
import Mathlib.Data.List.Basic
import Mathlib.Logic.Function.Iterate

/-! # Linear probing

A table of `mask + 1` slots is searched from a home position, one slot after the other, until a slot
stops the search. The search is bounded by fuel; what it visits and where it stops depend on the
slots only through the stopping test.
-/
namespace Probing

/-- The position after `pos`. -/
def next (mask pos : Nat) : Nat := (pos + 1) &&& mask

def path (stop : Nat → Bool) (mask : Nat) : Nat → Nat → List Nat
  | 0, _ => []
  | fuel + 1, pos => if stop pos then [pos] else pos :: path stop mask fuel (next mask pos)

def stopAt (stop : Nat → Bool) (mask : Nat) : Nat → Nat → Option Nat
  | 0, _ => none
  | fuel + 1, pos => if stop pos then some pos else stopAt stop mask fuel (next mask pos)

theorem next_le (mask pos : Nat) : next mask pos ≤ mask := Nat.and_le_right

variable {stop : Nat → Bool} {mask fuel pos : Nat}

theorem path_le (h : pos ≤ mask) : ∀ p ∈ path stop mask fuel pos, p ≤ mask := by
  induction fuel generalizing pos with
  | zero => simp [path]
  | succ fuel ih =>
    intro p hp
    rw [path] at hp
    split at hp
    · rw [List.mem_singleton] at hp
      omega
    · rcases List.mem_cons.mp hp with rfl | hp
      · exact h
      · exact ih (next_le mask pos) p hp

variable {p : Nat}

theorem stopAt_mem (h : stopAt stop mask fuel pos = some p) : p ∈ path stop mask fuel pos := by
  induction fuel generalizing pos with
  | zero => cases h
  | succ fuel ih =>
    rw [stopAt] at h
    rw [path]
    split at h
    · cases h
      simp [*]
    · rename_i hs
      rw [if_neg hs]
      exact List.mem_cons_of_mem _ (ih h)

/-! ## Visited positions -/

/-- The position after `i` steps. -/
def visit (mask home i : Nat) : Nat := (next mask)^[i] home

@[simp] theorem visit_zero (mask home : Nat) : visit mask home 0 = home := rfl

theorem visit_succ (mask home i : Nat) : visit mask home (i + 1) = visit mask (next mask home) i := by
  simp [visit]

theorem visit_le {mask home : Nat} (h : home ≤ mask) (i : Nat) : visit mask home i ≤ mask := by
  cases i with
  | zero => exact h
  | succ i =>
    rw [visit, Function.iterate_succ_apply']
    exact next_le mask _

theorem stopAt_eq_some : stopAt stop mask fuel pos = some p ↔
      ∃ i < fuel, visit mask pos i = p ∧ stop p = true ∧ ∀ j < i, stop (visit mask pos j) = false := by
  induction fuel generalizing pos with
  | zero => simp [stopAt]
  | succ fuel ih =>
    rw [stopAt]
    by_cases hs : stop pos = true
    · rw [if_pos hs]
      constructor
      · intro h
        cases h
        exact ⟨0, by omega, rfl, hs, by omega⟩
      · rintro ⟨i, -, hp, -, hbefore⟩
        have hi : i = 0 := by
          by_contra hi
          have := hbefore 0 (by omega)
          rw [visit_zero, hs] at this
          cases this
        rw [hi, visit_zero] at hp
        rw [hp]
    · rw [if_neg hs, ih]
      constructor
      · rintro ⟨i, hi, hp, hstop, hbefore⟩
        refine ⟨i + 1, by omega, by rw [visit_succ, hp], hstop, ?_⟩
        intro j hj
        cases j with
        | zero => simpa using hs
        | succ j =>
          exact hbefore j (by omega)
      · rintro ⟨i, hi, hp, hstop, hbefore⟩
        cases i with
        | zero =>
          rw [visit_zero] at hp
          rw [hp] at hs
          exact absurd hstop hs
        | succ i =>
          refine ⟨i, by omega, hp, hstop, ?_⟩
          intro j hj
          have := hbefore (j + 1) (by omega)
          rwa [visit_succ] at this

theorem stopAt_eq_none :
    stopAt stop mask fuel pos = none ↔ ∀ i < fuel, stop (visit mask pos i) = false := by
  induction fuel generalizing pos with
  | zero => simp [stopAt]
  | succ fuel ih =>
    rw [stopAt]
    by_cases hs : stop pos = true
    · rw [if_pos hs]
      simp only [reduceCtorEq, false_iff, not_forall]
      exact ⟨0, by omega, by rw [visit_zero, hs]; decide⟩
    · rw [if_neg hs, ih]
      constructor
      · intro h i hi
        cases i with
        | zero => simpa using hs
        | succ i =>
          exact h i (by omega)
      · intro h i hi
        have := h (i + 1) (by omega)
        rwa [visit_succ] at this

variable {k home : Nat}

theorem visit_eq_mod (h : home < 2 ^ k) (i : Nat) :
    visit (2 ^ k - 1) home i = (home + i) % 2 ^ k := by
  induction i with
  | zero => exact (Nat.mod_eq_of_lt h).symm
  | succ i ih =>
    have hstep : visit (2 ^ k - 1) home (i + 1) = next (2 ^ k - 1) (visit (2 ^ k - 1) home i) :=
      Function.iterate_succ_apply' _ _ _
    rw [hstep, ih, next, Nat.and_two_pow_sub_one_eq_mod, Nat.mod_add_mod, Nat.add_assoc]

theorem exists_visit (hh : home < 2 ^ k) (hp : p < 2 ^ k) :
    ∃ i < 2 ^ k, visit (2 ^ k - 1) home i = p := by
  by_cases hle : home ≤ p
  · refine ⟨p - home, by omega, ?_⟩
    rw [visit_eq_mod hh, Nat.add_sub_cancel' hle, Nat.mod_eq_of_lt hp]
  · refine ⟨2 ^ k + p - home, by omega, ?_⟩
    have hsum : home + (2 ^ k + p - home) = 2 ^ k + p := by omega
    rw [visit_eq_mod hh, hsum, Nat.add_mod_left, Nat.mod_eq_of_lt hp]

end Probing
