import Mathlib.Data.Nat.Bitwise
import ServerEngine.Library.Slice

/-! # Filters of bits

A byte string as a set of bits. A value is entered by setting the bits at its positions and tested by
reading them, so what was entered is never missed, whatever was entered besides.
-/
namespace BitFilter

def testBit (filter : List UInt8) (pos : Nat) : Bool :=
  (filter.getD (pos / 8) 0).toNat.testBit (pos % 8)

def setBit (filter : List UInt8) (pos : Nat) : List UInt8 :=
  filter.set (pos / 8) (UInt8.ofNat ((filter.getD (pos / 8) 0).toNat ||| 2 ^ (pos % 8)))

def setBits (filter : List UInt8) (positions : List Nat) : List UInt8 := positions.foldl setBit filter

def testBits (filter : List UInt8) (positions : List Nat) : Bool := positions.all (testBit filter)

variable {filter : List UInt8} {pos : Nat} {positions : List Nat}

@[simp] theorem setBit_length (filter : List UInt8) (pos : Nat) :
    (setBit filter pos).length = filter.length :=
  List.length_set

@[simp] theorem setBits_length (filter : List UInt8) (positions : List Nat) :
    (setBits filter positions).length = filter.length := by
  induction positions generalizing filter with
  | nil => rfl
  | cons pos rest ih => exact (ih (setBit filter pos)).trans (setBit_length filter pos)

theorem testBit_setBit (hpos : pos < filter.length * 8) (p : Nat) :
    testBit (setBit filter pos) p = (testBit filter p || decide (p = pos)) := by
  have hlt : pos / 8 < filter.length := by omega
  have hmod : pos % 8 < 8 := Nat.mod_lt _ (by omega)
  have hbyte := (filter.getD (pos / 8) 0).toNat_lt
  have hor : (filter.getD (pos / 8) 0).toNat ||| 2 ^ (pos % 8) < 2 ^ 8 :=
    Nat.or_lt_two_pow hbyte (Nat.pow_lt_pow_right (by omega) hmod)
  unfold testBit setBit
  rw [Slice.getD_set]
  by_cases hsame : pos / 8 = p / 8
  · rw [if_pos ⟨hsame, hsame ▸ hlt⟩, UInt8.toNat_ofNat', Nat.mod_eq_of_lt hor, Nat.testBit_or, hsame,
      Nat.testBit_two_pow]
    congr 1
    rw [decide_eq_decide]
    omega
  · rw [if_neg fun h => hsame h.1]
    have hne : ¬ p = pos := fun h => hsame (by rw [h])
    rw [decide_eq_false hne, Bool.or_false]

theorem testBit_setBits (hpositions : ∀ p ∈ positions, p < filter.length * 8) (p : Nat) :
    testBit (setBits filter positions) p = (testBit filter p || decide (p ∈ positions)) := by
  induction positions generalizing filter with
  | nil => simp [setBits]
  | cons pos rest ih =>
    have hfirst := hpositions pos List.mem_cons_self
    have hrest : ∀ q ∈ rest, q < (setBit filter pos).length * 8 := by
      intro q hq
      rw [setBit_length]
      exact hpositions q (List.mem_cons_of_mem _ hq)
    have hstep : setBits filter (pos :: rest) = setBits (setBit filter pos) rest := rfl
    rw [hstep, ih hrest, testBit_setBit hfirst, Bool.or_assoc]
    congr 1
    simp

theorem testBits_setBits (hpositions : ∀ p ∈ positions, p < filter.length * 8) :
    testBits (setBits filter positions) positions = true := by
  unfold testBits
  rw [List.all_eq_true]
  intro p hp
  rw [testBit_setBits hpositions, decide_eq_true hp, Bool.or_true]

theorem testBits_mono {others : List Nat} (hothers : ∀ p ∈ others, p < filter.length * 8)
    (h : testBits filter positions = true) : testBits (setBits filter others) positions = true := by
  unfold testBits at h ⊢
  rw [List.all_eq_true] at h ⊢
  intro p hp
  rw [testBit_setBits hothers, h p hp, Bool.true_or]

end BitFilter
