import ServerEngine.Runtime.ValueLinks

/-! # Values of integral fields

The integers an integral field can hold, the range check against them, and the bytes: what is stored of
a representable value is read back as that value, sign extended from the width of the field.
-/
namespace ServerEngine

/-! ## Representable values -/

structure Integral (f : ManagedFieldLayout) : Prop where
  scalar : f.aggregate = false
  fixed : f.floating = false
  direct : f.pointer = false

def Representable (f : ManagedFieldLayout) (value : Int) : Prop :=
  if f.boolean then value = 0 ∨ value = 1
  else if f.isSigned then
    -2 ^ (f.size * 8 - 1) ≤ value ∧ value < 2 ^ (f.size * 8 - 1)
  else 0 ≤ value ∧ value < 2 ^ (f.size * 8)

def integerKind : ConstructionKind → Bool
  | .zero | .signedInteger | .unsignedInteger => true
  | _ => false

def initializerValue (v : ConstructionValue) : Int :=
  if v.kind = .signedInteger then toInt64 v.bits else v.bits

theorem toInt64_lt_zero {bits : Nat} (h : bits < 2 ^ 64) : toInt64 bits < 0 ↔ 2 ^ 63 ≤ bits := by
  rw [toInt64]
  split <;> omega

theorem toInt64_of_lt {bits : Nat} (h : bits < 2 ^ 63) : toInt64 bits = bits := if_pos h

theorem integerFits_iff {f : ManagedFieldLayout} (hf : Integral f) (hsize : 0 < f.size ∧ f.size ≤ 8)
    {bits : Nat} {negative : Bool} (hbits : bits < 2 ^ 64)
    (hnegative : negative = true → 2 ^ 63 ≤ bits) :
    integerFits f bits negative = true ↔
      Representable f (if negative then toInt64 bits else bits) := by
  rw [integerFits, Representable, hf.direct]
  simp only [Bool.false_eq_true, if_false]
  by_cases hboolean : f.boolean = true
  · rw [if_pos hboolean, if_pos hboolean]
    cases negative with
    | true =>
      have hlt := (toInt64_lt_zero hbits).mpr (hnegative rfl)
      simp only [Bool.not_true, Bool.false_and, Bool.false_eq_true, if_true, false_iff]
      omega
    | false =>
      simp only [Bool.not_false, Bool.true_and, decide_eq_true_eq, Bool.false_eq_true, if_false]
      omega
  rw [if_neg hboolean, if_neg hboolean]
  have hcases : f.size = 1 ∨ f.size = 2 ∨ f.size = 3 ∨ f.size = 4 ∨ f.size = 5 ∨ f.size = 6 ∨
      f.size = 7 ∨ f.size = 8 := by omega
  by_cases hsigned : f.isSigned = true
  · rw [if_pos hsigned, hsigned]
    cases negative with
    | true =>
      have hvalue : toInt64 bits = bits - 2 ^ 64 := if_neg (Nat.not_lt.mpr (hnegative rfl))
      have hle := hnegative rfl
      rcases hcases with h | h | h | h | h | h | h | h <;> simp [h, hvalue] <;> omega
    | false => rcases hcases with h | h | h | h | h | h | h | h <;> simp [h] <;> omega
  · have hunsigned : f.isSigned = false := by simpa using hsigned
    rw [if_neg hsigned, hunsigned]
    cases negative with
    | true =>
      have hlt := (toInt64_lt_zero hbits).mpr (hnegative rfl)
      simp only [Bool.not_false, Bool.true_and, if_true, Bool.false_eq_true, false_iff]
      exact fun h => absurd h.1 (Int.not_le.mpr hlt)
    | false => rcases hcases with h | h | h | h | h | h | h | h <;> simp [h] <;> omega

theorem ofLittleEndian_littleEndian (bits count : Nat) :
    ofLittleEndian (littleEndian bits count) = bits % 256 ^ count := by
  induction count generalizing bits with
  | zero => rw [Nat.pow_zero, Nat.mod_one]; rfl
  | succ count ih =>
    have hcons : littleEndian bits (count + 1) = bits.toUInt8 :: littleEndian (bits / 256) count := by
      rw [littleEndian, List.range_succ_eq_map, List.map_cons, List.map_map, Nat.pow_zero, Nat.div_one]
      congr 1
      apply List.map_congr_left
      intro i _
      rw [Function.comp_apply, Nat.pow_succ', Nat.div_div_eq_div_mul]
    have hbyte : bits.toUInt8.toNat = bits % 256 := rfl
    rw [hcons, ofLittleEndian, List.foldr_cons, hbyte, Nat.pow_succ', Nat.mod_mul]
    rw [← ih]
    rfl

/-- What `read_integer` makes of the bits of a field. -/
def decodeInteger (f : ManagedFieldLayout) (bits : Nat) : Except StatusCode Int :=
  if f.isSigned then
    if f.size < 8 && bits / 2 ^ (f.size * 8 - 1) % 2 = 1 then .ok (bits - 2 ^ (f.size * 8))
    else .ok (toInt64 bits)
  else if 2 ^ 63 ≤ bits then .error .invalidArgument
  else .ok bits

theorem decodeInteger_eq {f : ManagedFieldLayout} (hsize : 0 < f.size ∧ f.size ≤ 8) {value : Int}
    {bits : Nat} (hvalue : Representable f value) (hbits : (bits : Int) % 2 ^ 64 = value % 2 ^ 64) :
    decodeInteger f (bits % 256 ^ f.size) =
      if value < 2 ^ 63 then .ok value else .error .invalidArgument := by
  rw [decodeInteger]
  rw [Representable] at hvalue
  by_cases hsigned : f.isSigned = true
  · rw [if_pos hsigned] at hvalue ⊢
    have hcases : f.size = 8 ∨ f.size = 1 ∨ f.size = 2 ∨ f.size = 3 ∨ f.size = 4 ∨ f.size = 5 ∨
        f.size = 6 ∨ f.size = 7 := by omega
    have hfits : value < 2 ^ 63 := by
      rcases hcases with h | h | h | h | h | h | h | h <;> rw [h] at hvalue <;>
        split at hvalue <;> omega
    rw [if_pos hfits]
    -- the sign bit is the top bit of the field
    rcases hcases with h | h | h | h | h | h | h | h <;> rw [h] at hvalue ⊢
    · simp only [Nat.lt_irrefl, decide_false, Bool.false_and, Bool.false_eq_true, if_false, toInt64]
      refine congrArg Except.ok ?_
      split at hvalue <;> split <;> omega
    all_goals
      split
      · rename_i htop
        simp only [Bool.and_eq_true, decide_eq_true_eq] at htop
        exact congrArg Except.ok (by split at hvalue <;> omega)
      · rename_i htop
        simp only [Bool.and_eq_true, decide_eq_true_eq, not_and] at htop
        rw [toInt64_of_lt (by omega)]
        exact congrArg Except.ok (by split at hvalue <;> omega)
  · have hlow : (bits % 256 ^ f.size : Nat) = value ∧ 0 ≤ value := by
      have hcases : f.size = 8 ∨ f.size = 1 ∨ f.size = 2 ∨ f.size = 3 ∨ f.size = 4 ∨ f.size = 5 ∨
          f.size = 6 ∨ f.size = 7 := by omega
      rcases hcases with h | h | h | h | h | h | h | h <;> rw [h] at hvalue ⊢ <;>
        split at hvalue <;> omega
    rw [if_neg hsigned, hlow.1]
    by_cases hfits : value < 2 ^ 63
    · rw [if_neg (by omega), if_pos hfits]
    · rw [if_pos (by omega), if_neg hfits]

end ServerEngine
