import ServerEngine.Core.Floating
import Mathlib.Algebra.Order.Field.Power
import Mathlib.Tactic.Linarith

/-! # Rounding of quotients

The pattern nearest to a quotient depends on the quotient only, not on the fraction it is written as.
-/
namespace ServerEngine.BinaryFormat

/-! ## The exponent -/

theorem scaled_le_iff (num den : Nat) (e : Int) :
    (scaled num den e).1 ≤ (scaled num den e).2 ↔ (num : ℚ) * 2 ^ e ≤ den := by
  unfold scaled
  split
  · rename_i he
    lift e to Nat using he
    exact_mod_cast Iff.rfl
  · rename_i he
    have hpower : (2 : ℚ) ^ e = (2 ^ (-e).toNat)⁻¹ := by
      rw [← zpow_natCast, Int.toNat_of_nonneg (by omega), zpow_neg, inv_inv]
    rw [hpower, ← div_eq_mul_inv, div_le_iff₀ (by positivity)]
    exact_mod_cast Iff.rfl

theorem floorLog2_spec {num den : Nat} (hnum : 0 < num) (hden : 0 < den) :
    (den : ℚ) * 2 ^ floorLog2 num den ≤ num ∧ (num : ℚ) < den * 2 ^ (floorLog2 num den + 1) := by
  have hnumLow : (2 : ℚ) ^ num.log2 ≤ num := by exact_mod_cast Nat.log2_self_le (by omega)
  have hnumHigh : (num : ℚ) < 2 ^ (num.log2 + 1) := by exact_mod_cast Nat.lt_log2_self
  have hdenLow : (2 : ℚ) ^ den.log2 ≤ den := by exact_mod_cast Nat.log2_self_le (by omega)
  have hdenHigh : (den : ℚ) < 2 ^ (den.log2 + 1) := by exact_mod_cast Nat.lt_log2_self
  have htwo : (2 : ℚ) ≠ 0 := by norm_num
  have hpos : ∀ e : Int, (0 : ℚ) < 2 ^ e := fun e => zpow_pos (by norm_num) e
  have hhigh : (num : ℚ) < den * 2 ^ ((num.log2 : Int) - den.log2 + 1) := by
    calc (num : ℚ) < 2 ^ (num.log2 + 1) := hnumHigh
      _ = 2 ^ den.log2 * 2 ^ ((num.log2 : Int) - den.log2 + 1) := by
        rw [← zpow_natCast, ← zpow_natCast, ← zpow_add₀ htwo]
        congr 1
        push_cast
        omega
      _ ≤ den * 2 ^ ((num.log2 : Int) - den.log2 + 1) :=
        mul_le_mul_of_nonneg_right hdenLow (hpos _).le
  have hlow : (den : ℚ) * 2 ^ ((num.log2 : Int) - den.log2 - 1) ≤ num := by
    calc (den : ℚ) * 2 ^ ((num.log2 : Int) - den.log2 - 1)
        ≤ 2 ^ (den.log2 + 1) * 2 ^ ((num.log2 : Int) - den.log2 - 1) :=
          mul_le_mul_of_nonneg_right hdenHigh.le (hpos _).le
      _ = 2 ^ num.log2 := by
        rw [← zpow_natCast, ← zpow_natCast, ← zpow_add₀ htwo]
        congr 1
        push_cast
        omega
      _ ≤ num := hnumLow
  unfold floorLog2
  dsimp only
  split
  · rename_i hle
    exact ⟨(scaled_le_iff den num _).mp hle, hhigh⟩
  · rename_i hgt
    rw [scaled_le_iff, not_le] at hgt
    exact ⟨hlow, by rwa [sub_add_cancel]⟩

theorem floorLog2_unique {num den : Nat} (hden : 0 < den) {e e' : Int}
    (h : (den : ℚ) * 2 ^ e ≤ num ∧ (num : ℚ) < den * 2 ^ (e + 1))
    (h' : (den : ℚ) * 2 ^ e' ≤ num ∧ (num : ℚ) < den * 2 ^ (e' + 1)) : e = e' := by
  have hpos : (0 : ℚ) < den := by exact_mod_cast hden
  have hone : (1 : ℚ) < 2 := by norm_num
  have hlt : e < e' + 1 := by
    have := lt_of_le_of_lt h.1 h'.2
    exact (zpow_lt_zpow_iff_right₀ hone).mp (lt_of_mul_lt_mul_left this hpos.le)
  have hlt' : e' < e + 1 := by
    have := lt_of_le_of_lt h'.1 h.2
    exact (zpow_lt_zpow_iff_right₀ hone).mp (lt_of_mul_lt_mul_left this hpos.le)
  omega

theorem floorLog2_scale {num den k : Nat} (hnum : 0 < num) (hden : 0 < den) (hk : 0 < k) :
    floorLog2 (k * num) (k * den) = floorLog2 num den := by
  have hspec := floorLog2_spec (Nat.mul_pos hk hnum) (Nat.mul_pos hk hden)
  have hkpos : (0 : ℚ) < k := by exact_mod_cast hk
  apply floorLog2_unique hden _ (floorLog2_spec hnum hden)
  push_cast at hspec
  rw [mul_assoc, mul_le_mul_iff_right₀ hkpos, mul_assoc, mul_lt_mul_iff_right₀ hkpos] at hspec
  exact hspec

theorem roundHalfEven_scale (num den : Nat) {k : Nat} (hk : 0 < k) :
    roundHalfEven (k * num) (k * den) = roundHalfEven num den := by
  unfold roundHalfEven
  rw [Nat.mul_div_mul_left _ _ hk, Nat.mul_mod_mul_left]
  have hlt : k * den < 2 * (k * (num % den)) ↔ den < 2 * (num % den) := by
    rw [Nat.mul_left_comm, Nat.mul_lt_mul_left hk]
  have heq : 2 * (k * (num % den)) = k * den ↔ 2 * (num % den) = den := by
    rw [Nat.mul_left_comm]
    exact Nat.mul_right_inj (by omega)
  simp only [hlt, heq]

theorem scaled_scale (num den : Nat) (e : Int) (k : Nat) :
    scaled (k * num) (k * den) e = (k * (scaled num den e).1, k * (scaled num den e).2) := by
  unfold scaled
  split <;> simp [Nat.mul_assoc]

theorem nearest_scale (f : BinaryFormat) (num : Nat) {den k : Nat} (hden : 0 < den) (hk : 0 < k) :
    f.nearest (k * num) (k * den) = f.nearest num den := by
  unfold nearest
  by_cases hzero : num = 0
  · simp [hzero]
  · have hne : k * num ≠ 0 := Nat.mul_ne_zero (by omega) hzero
    rw [if_neg hzero, if_neg hne, floorLog2_scale (by omega) hden hk]
    simp only [scaled_scale, roundHalfEven_scale _ _ hk]

end ServerEngine.BinaryFormat
