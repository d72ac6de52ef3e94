import Mathlib.Algebra.Order.Ring.Int

/-! # Hashes

The 64-bit mixer and its 32-bit fold, with the wrap of every machine operation written out, and the
sizes of the tables that are probed with them.
-/
namespace ServerEngine

def mul64 (a b : Nat) : Nat := a * b % 2 ^ 64

def mix64 (value : Nat) : Nat :=
  let value := value ^^^ (value >>> 30)
  let value := mul64 value 0xbf58476d1ce4e5b9
  let value := value ^^^ (value >>> 27)
  let value := mul64 value 0x94d049bb133111eb
  value ^^^ (value >>> 31)

def fold32 (value : Nat) : Nat :=
  let result := (value ^^^ (value >>> 32)) % 2 ^ 32
  if result = 0 then 1 else result

def bitCeil (n : Nat) : Nat := if n ≤ 1 then 1 else 2 ^ ((n - 1).log2 + 1)

theorem bitCeil_spec {n : Nat} (h : 2 ≤ n) : (∃ k, bitCeil n = 2 ^ k) ∧ n ≤ bitCeil n := by
  have hlt : n - 1 < 2 ^ ((n - 1).log2 + 1) := Nat.lt_log2_self
  rw [bitCeil, if_neg (by omega)]
  exact ⟨⟨_, rfl⟩, by omega⟩

end ServerEngine
