import Mathlib.Data.List.Basic

/-! # Slices of append-only arenas

An arena is a list that only grows at its end; a slice is a begin and a count into it. A slice that
lies inside an arena is unchanged by later appends, and the slice of what was just appended is that.
-/
namespace Slice

variable {α β : Type}

/-- `count` elements of `xs` from position `begin`. -/
def slice (xs : List α) (begin count : Nat) : List α := (xs.drop begin).take count

variable {xs : List α} {b c : Nat}

theorem slice_length (h : b + c ≤ xs.length) : (slice xs b c).length = c := by
  simp only [slice, List.length_take, List.length_drop]
  omega

@[simp] theorem slice_zero (xs : List α) (b : Nat) : slice xs b 0 = [] := by
  simp [slice]

theorem slice_all (xs : List α) : slice xs 0 xs.length = xs := by
  simp [slice]

variable {ys : List α}

theorem slice_append_left (h : b + c ≤ xs.length) : slice (xs ++ ys) b c = slice xs b c := by
  rw [slice, slice, List.drop_append_of_le_length (by omega), List.take_append_of_le_length]
  simp only [List.length_drop]
  omega

theorem slice_append_right : slice (xs ++ ys) (xs.length + b) c = slice ys b c := by
  rw [slice, slice, List.drop_append, List.drop_eq_nil_of_le (by omega), List.nil_append,
    Nat.add_sub_cancel_left]

theorem slice_append_self : slice (xs ++ ys) xs.length ys.length = ys := by
  have h : slice (xs ++ ys) (xs.length + 0) ys.length = slice ys 0 ys.length := slice_append_right
  rw [Nat.add_zero] at h
  rw [h, slice_all]

theorem slice_append_map (f : α → β) {xs : List β} :
    slice (xs ++ ys.map f) xs.length ys.length = ys.map f := by
  have h : slice (xs ++ ys.map f) xs.length (ys.map f).length = ys.map f := slice_append_self
  rwa [List.length_map] at h

variable {x : α}

theorem mem_of_mem_slice (h : x ∈ slice xs b c) : x ∈ xs :=
  List.mem_of_mem_drop (List.mem_of_mem_take h)

variable {i : Nat}

theorem slice_getElem? (h : i < c) : (slice xs b c)[i]? = xs[b + i]? := by
  simp [slice, List.getElem?_drop, h]

theorem slice_succ (h : xs[b + c]? = some x) : slice xs b (c + 1) = slice xs b c ++ [x] := by
  rw [slice, slice, List.take_add_one, List.getElem?_drop, h]
  rfl

theorem slice_set_outside (h : i < b ∨ b + c ≤ i) : slice (xs.set i x) b c = slice xs b c := by
  apply List.ext_getElem?
  intro j
  by_cases hj : j < c
  · rw [slice_getElem? hj, slice_getElem? hj, List.getElem?_set_ne (by omega)]
  · rw [List.getElem?_eq_none (by simp [slice]; omega),
      List.getElem?_eq_none (by simp [slice]; omega)]

/-! ## Overwriting -/

theorem getD_set (xs : List α) (i j : Nat) (x d : α) :
    (xs.set i x).getD j d = if i = j ∧ j < xs.length then x else xs.getD j d := by
  by_cases hij : i = j
  · subst hij
    by_cases hi : i < xs.length
    · simp [hi]
    · simp [hi]
  · simp [hij]

/-- `ys` written over `xs` from position `begin`. -/
def overwrite (xs : List α) (begin : Nat) (ys : List α) : List α :=
  xs.take begin ++ ys ++ xs.drop (begin + ys.length)

@[simp] theorem overwrite_nil (xs : List α) (b : Nat) : overwrite xs b [] = xs := by
  simp [overwrite]

theorem overwrite_length (h : b + ys.length ≤ xs.length) :
    (overwrite xs b ys).length = xs.length := by
  simp only [overwrite, List.length_append, List.length_take, List.length_drop]
  omega

theorem overwrite_getElem? (h : b + ys.length ≤ xs.length) :
    (overwrite xs b ys)[i]? = if b ≤ i ∧ i < b + ys.length then ys[i - b]? else xs[i]? := by
  have hb : (xs.take b).length = b := by
    rw [List.length_take]
    omega
  rw [overwrite, List.append_assoc, List.getElem?_append, hb]
  by_cases hlo : i < b
  · rw [if_pos hlo, if_neg (by omega), List.getElem?_take_of_lt hlo]
  · rw [if_neg hlo, List.getElem?_append]
    by_cases hhi : i < b + ys.length
    · rw [if_pos (by omega), if_pos (by omega)]
    · rw [if_neg (by omega), if_neg (by omega), List.getElem?_drop]
      congr 1
      omega

theorem slice_overwrite_self (h : b + ys.length ≤ xs.length) :
    slice (overwrite xs b ys) b ys.length = ys := by
  apply List.ext_getElem?
  intro i
  by_cases hi : i < ys.length
  · rw [slice_getElem? hi, overwrite_getElem? h, if_pos (by omega), Nat.add_sub_cancel_left]
  · have hlen : (slice (overwrite xs b ys) b ys.length).length = ys.length := by
      apply slice_length
      rw [overwrite_length h]
      exact h
    rw [List.getElem?_eq_none (by omega), List.getElem?_eq_none (by omega)]

theorem slice_overwrite_of_apart {n : Nat} (h : b + ys.length ≤ xs.length)
    (hapart : c + n ≤ b ∨ b + ys.length ≤ c) : slice (overwrite xs b ys) c n = slice xs c n := by
  apply List.ext_getElem?
  intro i
  by_cases hi : i < n
  · rw [slice_getElem? hi, slice_getElem? hi, overwrite_getElem? h, if_neg (by omega)]
  · have hlen (zs : List α) : (slice zs c n).length ≤ n := by
      simp only [slice, List.length_take]
      omega
    have h1 := hlen (overwrite xs b ys)
    have h2 := hlen xs
    rw [List.getElem?_eq_none (by omega), List.getElem?_eq_none (by omega)]

end Slice
