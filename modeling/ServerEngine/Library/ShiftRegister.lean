import Mathlib.Logic.Function.Iterate

/-! # Shift registers with feedback

A register shifts to the left and subtracts a polynomial when its top bit falls out. The step is linear
in exclusive or, so symbols that enter one by one at the top may as well enter packed in one word.
-/
namespace ShiftRegister

variable {w : Nat}

/-! ## One shift -/

def shift (poly x : BitVec w) : BitVec w := if x.msb then (x <<< 1) ^^^ poly else x <<< 1

theorem xor_cancel (x y p : BitVec w) : x ^^^ p ^^^ (y ^^^ p) = x ^^^ y := by
  rw [BitVec.xor_assoc x, BitVec.xor_comm y, ← BitVec.xor_assoc p, BitVec.xor_self, BitVec.zero_xor]

theorem shift_xor (poly x y : BitVec w) :
    shift poly (x ^^^ y) = shift poly x ^^^ shift poly y := by
  unfold shift
  rw [BitVec.msb_xor, BitVec.shiftLeft_xor_distrib]
  cases x.msb <;> cases y.msb
  · rfl
  · exact BitVec.xor_assoc ..
  · simp only [Bool.xor_false, if_true, Bool.false_eq_true, if_false]
    rw [BitVec.xor_assoc, BitVec.xor_assoc, BitVec.xor_comm poly]
  · exact (xor_cancel ..).symm

theorem iterate_xor (poly : BitVec w) (n : Nat) (x y : BitVec w) :
    (shift poly)^[n] (x ^^^ y) = (shift poly)^[n] x ^^^ (shift poly)^[n] y := by
  induction n generalizing x y with
  | zero => rfl
  | succ n ih => rw [Function.iterate_succ_apply, shift_xor, ih]; rfl

theorem iterate_zero (poly : BitVec w) (n : Nat) : (shift poly)^[n] 0#w = 0#w := by
  have h := iterate_xor poly n 0#w 0#w
  rwa [BitVec.xor_self, BitVec.xor_self] at h

theorem iterate_of_clear (poly : BitVec w) {n : Nat} {x : BitVec w}
    (h : ∀ i, w - n ≤ i → x.getLsbD i = false) : (shift poly)^[n] x = x <<< n := by
  induction n with
  | zero => simp
  | succ n ih =>
    rw [Function.iterate_succ_apply', ih fun i hi => h i (by omega)]
    have hmsb : (x <<< n).msb = false := by
      rw [BitVec.msb_eq_getLsbD_last, BitVec.getLsbD_shiftLeft, h (w - 1 - n) (by omega)]
      simp
    rw [shift, hmsb]
    simp only [Bool.false_eq_true, if_false]
    rw [← BitVec.shiftLeft_add]

section Feed

variable {β : Type} (poly : BitVec w) (bits : Nat) (symbol : β → BitVec w)

def feed (x : BitVec w) (symbols : List β) : BitVec w :=
  symbols.foldl (fun x b => (shift poly)^[bits] (x ^^^ symbol b)) x

def pack : List β → BitVec w
  | [] => 0
  | b :: symbols => symbol b ^^^ pack symbols >>> bits

variable {poly bits symbol}

theorem pack_clear (hsymbol : ∀ b i, i < w - bits → (symbol b).getLsbD i = false)
    {symbols : List β} {i : Nat} (hi : i + symbols.length * bits < w) :
    (pack bits symbol symbols).getLsbD i = false := by
  induction symbols generalizing i with
  | nil => exact BitVec.getLsbD_zero
  | cons b symbols ih =>
    rw [List.length_cons, Nat.succ_mul] at hi
    rw [pack, BitVec.getLsbD_xor, hsymbol b i (by omega), BitVec.getLsbD_ushiftRight,
      ih (by omega)]
    rfl

theorem pack_cons_or (hsymbol : ∀ b i, i < w - bits → (symbol b).getLsbD i = false) (b : β)
    (symbols : List β) :
    pack bits symbol (b :: symbols) = symbol b ||| pack bits symbol symbols >>> bits := by
  apply BitVec.eq_of_getLsbD_eq
  intro i hi
  rw [pack, BitVec.getLsbD_xor, BitVec.getLsbD_or, BitVec.getLsbD_ushiftRight]
  by_cases hlow : i < w - bits
  · rw [hsymbol b i hlow]
    simp
  · rw [BitVec.getLsbD_of_ge _ (bits + i) (by omega)]
    simp

theorem feed_eq (hsymbol : ∀ b i, i < w - bits → (symbol b).getLsbD i = false)
    {symbols : List β} (hfits : symbols.length * bits ≤ w) (x : BitVec w) :
    feed poly bits symbol x symbols =
      (shift poly)^[symbols.length * bits] (x ^^^ pack bits symbol symbols) := by
  induction symbols generalizing x with
  | nil => simp [feed, pack]
  | cons b symbols ih =>
    rw [List.length_cons, Nat.succ_mul] at hfits
    have hpacked : (shift poly)^[bits] (pack bits symbol symbols >>> bits) =
        pack bits symbol symbols := by
      rw [iterate_of_clear]
      · apply BitVec.eq_of_getLsbD_eq
        intro i hi
        by_cases hlow : i < bits
        · have hclear : (pack bits symbol symbols).getLsbD i = false :=
            pack_clear hsymbol (by omega)
          simp [hlow, hclear]
        · simp [hi, hlow, Nat.add_sub_cancel' (Nat.le_of_not_lt hlow)]
      · intro i hi
        rw [BitVec.getLsbD_ushiftRight]
        exact BitVec.getLsbD_of_ge _ _ (by omega)
    change feed poly bits symbol ((shift poly)^[bits] (x ^^^ symbol b)) symbols = _
    rw [ih (by omega), List.length_cons, Nat.succ_mul, Function.iterate_add_apply, pack,
      ← BitVec.xor_assoc, iterate_xor poly bits (x ^^^ symbol b), hpacked]

end Feed

end ShiftRegister
