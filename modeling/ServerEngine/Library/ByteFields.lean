import Mathlib.Algebra.GroupWithZero.Nat
import Mathlib.Data.List.Basic

/-! # Fields of a byte string

Numbers as little-endian bytes, and the field at an offset of a text that is put together from
parts.
-/
namespace ByteFields

/-! ## Numbers -/

def bytesOf : Nat → Nat → List UInt8
  | 0, _ => []
  | count + 1, value => UInt8.ofNat value :: bytesOf count (value / 256)

def valueOf : List UInt8 → Nat
  | [] => 0
  | byte :: rest => byte.toNat + 256 * valueOf rest

@[simp] theorem bytesOf_length (count value : Nat) : (bytesOf count value).length = count := by
  induction count generalizing value with
  | zero => rfl
  | succ count ih => simp [bytesOf, ih]

theorem valueOf_bytesOf {count value : Nat} (h : value < 256 ^ count) :
    valueOf (bytesOf count value) = value := by
  induction count generalizing value with
  | zero =>
    simp only [bytesOf, valueOf]
    omega
  | succ count ih =>
    have hrest : value / 256 < 256 ^ count := by
      exact Nat.div_lt_of_lt_mul (by omega)
    simp only [bytesOf, valueOf, ih hrest, UInt8.toNat_ofNat']
    omega

theorem valueOf_lt (bytes : List UInt8) : valueOf bytes < 256 ^ bytes.length := by
  induction bytes with
  | nil => simp [valueOf]
  | cons byte rest ih =>
    have hbyte := byte.toNat_lt
    simp only [valueOf, List.length_cons, Nat.pow_succ]
    omega

section Fields
variable {α : Type}

def field (text : List α) (offset count : Nat) : List α := (text.drop offset).take count

theorem field_length_le (text : List α) (offset count : Nat) :
    (field text offset count).length ≤ count := by
  rw [field, List.length_take]
  exact Nat.min_le_left _ _

variable {offset count : Nat}

theorem field_length {text : List α} (h : offset + count ≤ text.length) :
    (field text offset count).length = count := by
  rw [field, List.length_take, List.length_drop]
  omega

variable {a b : List α}

theorem field_skip (h : a.length ≤ offset) :
    field (a ++ b) offset count = field b (offset - a.length) count := by
  rw [field, field, List.drop_append, List.drop_eq_nil_of_le h, List.nil_append]

theorem field_first (h : a.length = count) : field (a ++ b) 0 count = a := by
  rw [field, List.drop_zero, ← h, List.take_left]

theorem field_whole (h : a.length = count) : field a 0 count = a := by
  rw [field, List.drop_zero, ← h, List.take_length]

theorem field_within (h : offset + count ≤ a.length) :
    field (a ++ b) offset count = field a offset count := by
  rw [field, field, List.drop_append_of_le_length (by omega),
    List.take_append_of_le_length (by rw [List.length_drop]; omega)]

theorem field_append (a b : List α) (offset count : Nat) :
    field (a ++ b) offset count =
      field a offset count ++ field b (offset - a.length) (count - (a.length - offset)) := by
  simp only [field, List.drop_append, List.take_append, List.length_drop]

theorem field_none (h : a.length ≤ offset) (count : Nat) : field a offset count = [] := by
  rw [field, List.drop_eq_nil_of_le h, List.take_nil]

theorem field_zero (a : List α) (offset : Nat) : field a offset 0 = [] := List.take_zero

theorem field_field {text : List α} {offset count start size : Nat} (h : start + size ≤ count) :
    field (field text offset count) start size = field text (offset + start) size := by
  rw [field, field, field, List.drop_take, List.drop_drop, List.take_take]
  congr 1
  omega

end Fields

end ByteFields
