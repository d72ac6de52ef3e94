import Mathlib.Data.List.Basic

/-! # Plain vectors with a capacity -/
namespace ServerEngine

/-- `std::vector`: a capacity below the size stands for the size. -/
structure GrowVector (α : Type) where
  values : List α := []
  reserved : Nat := 0

namespace GrowVector

variable {α : Type}

def size (v : GrowVector α) : Nat := v.values.length

def capacity (v : GrowVector α) : Nat := max v.reserved v.values.length

def reserve (v : GrowVector α) (requested : Nat) : GrowVector α :=
  { v with reserved := max v.reserved requested }

def append (v : GrowVector α) (values : List α) : GrowVector α :=
  { v with values := v.values ++ values }

@[simp] theorem append_size (v : GrowVector α) (values : List α) :
    (v.append values).size = v.size + values.length := by
  simp [size, append]

theorem le_capacity_reserve (v : GrowVector α) (n : Nat) : n ≤ (v.reserve n).capacity := by
  simp only [capacity, reserve]
  omega

theorem size_le_capacity (v : GrowVector α) : v.size ≤ v.capacity := by
  simp only [capacity, size]
  omega

/-- `w` holds what `v` holds and has at least as much room. -/
structure Grown (v w : GrowVector α) : Prop where
  values : w.values = v.values
  capacity : v.capacity ≤ w.capacity

theorem Grown.refl (v : GrowVector α) : Grown v v := ⟨rfl, Nat.le_refl _⟩

theorem Grown.trans {v w x : GrowVector α} (h : Grown v w) (h' : Grown w x) : Grown v x :=
  ⟨h'.values.trans h.values, Nat.le_trans h.capacity h'.capacity⟩

theorem Grown.size {v w : GrowVector α} (h : Grown v w) : w.size = v.size := by
  rw [GrowVector.size, h.values, GrowVector.size]

theorem reserve_grown (v : GrowVector α) (n : Nat) : Grown v (v.reserve n) := by
  refine ⟨rfl, ?_⟩
  simp only [capacity, reserve]
  omega

end GrowVector

end ServerEngine
