import Mathlib.Data.List.Basic
import Mathlib.Data.List.Induction

/-! # Streams of blocks

A function that takes blocks of a fixed size, fed with one element at a time through a buffer. The
buffer is invisible: the blocks that were taken are those of the whole input, and the rest is what the
buffer holds.
-/
namespace BlockStream

section
variable {α σ : Type} (n : Nat) (compress : σ → List α → σ)

def absorb (s : σ × List α) (x : α) : σ × List α :=
  if (s.2 ++ [x]).length = n then (compress s.1 (s.2 ++ [x]), []) else (s.1, s.2 ++ [x])

def block (xs : List α) (i : Nat) : List α := (xs.drop (n * i)).take n

def overBlocks (s : σ) (xs : List α) : σ :=
  (List.range (xs.length / n)).foldl (fun s i => compress s (block n xs i)) s

variable {n} {compress}

theorem block_append {xs : List α} (ys : List α) {i : Nat} (h : i < xs.length / n) :
    block n (xs ++ ys) i = block n xs i := by
  have hle : n * (i + 1) ≤ xs.length :=
    Nat.le_trans (Nat.mul_le_mul_left n h) (Nat.mul_div_le xs.length n)
  have hmul : n * (i + 1) = n * i + n := Nat.mul_succ n i
  unfold block
  rw [List.drop_append_of_le_length (by omega),
    List.take_append_of_le_length (by rw [List.length_drop]; omega)]

theorem foldl_block_append {xs : List α} (ys : List α) (s : σ) :
    (List.range (xs.length / n)).foldl (fun s i => compress s (block n (xs ++ ys) i)) s =
      overBlocks n compress s xs := by
  apply List.foldl_ext
  intro s i hi
  rw [block_append ys (List.mem_range.mp hi)]

theorem overBlocks_same {xs : List α} {x : α} (s : σ) (h : (xs ++ [x]).length / n = xs.length / n) :
    overBlocks n compress s (xs ++ [x]) = overBlocks n compress s xs := by
  rw [overBlocks, h, foldl_block_append]

theorem overBlocks_next {xs : List α} {x : α} (s : σ)
    (h : (xs ++ [x]).length / n = xs.length / n + 1) :
    overBlocks n compress s (xs ++ [x]) =
      compress (overBlocks n compress s xs) (block n (xs ++ [x]) (xs.length / n)) := by
  rw [overBlocks, h, List.range_succ, List.foldl_append, foldl_block_append, List.foldl_cons,
    List.foldl_nil]

theorem absorb_room (hn : 0 < n) {s : σ × List α} (h : s.2.length < n) (x : α) :
    (absorb n compress s x).2.length < n := by
  unfold absorb
  split
  · exact hn
  · rename_i hfull
    rw [List.length_append, List.length_singleton] at hfull ⊢
    omega

theorem foldl_absorb (hn : 0 < n) (s : σ) (xs : List α) :
    xs.foldl (absorb n compress) (s, []) =
      (overBlocks n compress s xs, xs.drop (n * (xs.length / n))) := by
  induction xs using List.reverseRecOn with
  | nil => simp [overBlocks]
  | append_singleton xs x ih =>
    have hdiv := Nat.div_add_mod xs.length n
    have hmod := Nat.mod_lt xs.length hn
    have hlength : (xs.drop (n * (xs.length / n)) ++ [x]).length = xs.length % n + 1 := by
      rw [List.length_append, List.length_drop, List.length_singleton]
      omega
    have hdrop : (xs ++ [x]).drop (n * (xs.length / n)) = xs.drop (n * (xs.length / n)) ++ [x] :=
      List.drop_append_of_le_length (by omega)
    rw [List.foldl_append, ih, List.foldl_cons, List.foldl_nil, absorb]
    dsimp only
    by_cases hfull : xs.length % n + 1 = n
    · have hnext : (xs ++ [x]).length / n = xs.length / n + 1 := by
        have hwhole : (xs ++ [x]).length = n * (xs.length / n + 1) := by
          rw [List.length_append, List.length_singleton, Nat.mul_succ]
          omega
        rw [hwhole, Nat.mul_div_cancel_left _ hn]
      have hblock : block n (xs ++ [x]) (xs.length / n) = xs.drop (n * (xs.length / n)) ++ [x] := by
        rw [block, hdrop]
        exact List.take_of_length_le (by omega)
      rw [if_pos (by omega), overBlocks_next s hnext, hnext, hblock]
      congr 1
      apply (List.drop_eq_nil_of_le _).symm
      rw [List.length_append, List.length_singleton, Nat.mul_succ]
      omega
    · have hsame : (xs ++ [x]).length / n = xs.length / n := by
        rw [List.length_append, List.length_singleton]
        apply Nat.div_eq_of_lt_le
        · rw [Nat.mul_comm]
          omega
        · rw [Nat.mul_comm, Nat.mul_succ]
          omega
      rw [if_neg (by omega), overBlocks_same s hsame, hsame, hdrop]

theorem foldl_absorb_whole (hn : 0 < n) (s : σ) {xs : List α} (h : xs.length % n = 0) :
    xs.foldl (absorb n compress) (s, []) = (overBlocks n compress s xs, []) := by
  rw [foldl_absorb hn]
  congr 1
  apply List.drop_eq_nil_of_le
  have hdiv := Nat.div_add_mod xs.length n
  omega

theorem foldl_absorb_fill (s : σ) {buffer xs : List α} (hroom : buffer.length < n)
    (hfill : (buffer ++ xs).length = n) :
    xs.foldl (absorb n compress) (s, buffer) = (compress s (buffer ++ xs), []) := by
  induction xs generalizing buffer with
  | nil =>
    rw [List.append_nil] at hfill
    omega
  | cons x xs ih =>
    have hlength : buffer.length + (xs.length + 1) = n := by simpa using hfill
    rw [List.foldl_cons, absorb]
    cases xs with
    | nil => rw [if_pos hfill, List.foldl_nil]
    | cons y ys =>
      rw [List.length_cons] at hlength
      have hmore : (buffer ++ [x]).length < n := by
        rw [List.length_append, List.length_singleton]
        omega
      rw [if_neg (Nat.ne_of_lt hmore), ih hmore (by simpa using hfill), List.append_assoc,
        List.singleton_append]

end
end BlockStream
