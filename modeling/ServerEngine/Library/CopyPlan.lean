import Mathlib.Data.List.Basic

/-! # Copy plans

A plan is a list of copies, each from a source cell to a target cell, run in order on a store. When
no later copy writes a cell that an earlier one wrote or read, every target holds what its source
holds once the whole plan has run, from any store.
-/
namespace CopyPlan

variable {σ ι β : Type}

/-- A copy of the cell `source` to the cell `target`. -/
structure Copy (ι : Type) where
  target : ι
  source : ι

def run (copy : σ → Copy ι → σ) (plan : List (Copy ι)) (s : σ) : σ := plan.foldl copy s

/-- Later copies write neither what an earlier copy wrote nor what it read. -/
def Ordered (plan : List (Copy ι)) : Prop :=
  plan.Pairwise fun a b => b.target ≠ a.target ∧ b.target ≠ a.source

/-- What a copy of the plan does to the cells: it moves one cell and leaves the others. `ok` is what
the store must satisfy for that, and the copies keep it. -/
structure Laws (read : σ → ι → β) (copy : σ → Copy ι → σ) (ok : σ → Prop) (cell : ι → Prop)
    (plan : List (Copy ι)) : Prop where
  keeps : ∀ c ∈ plan, ∀ s, ok s → ok (copy s c)
  moves : ∀ c ∈ plan, ∀ s, ok s → read (copy s c) c.target = read s c.source
  frame : ∀ c ∈ plan, ∀ s, ok s → ∀ i, cell i → i ≠ c.target → read (copy s c) i = read s i
  cells : ∀ c ∈ plan, cell c.target ∧ cell c.source
  apart : ∀ c ∈ plan, c.source ≠ c.target

section
variable {read : σ → ι → β} {copy : σ → Copy ι → σ} {ok : σ → Prop} {cell : ι → Prop}
  {plan : List (Copy ι)}

theorem Laws.tail {c : Copy ι} (h : Laws read copy ok cell (c :: plan)) :
    Laws read copy ok cell plan :=
  ⟨fun d hd => h.keeps d (List.mem_cons_of_mem c hd), fun d hd => h.moves d (List.mem_cons_of_mem c hd),
    fun d hd => h.frame d (List.mem_cons_of_mem c hd), fun d hd => h.cells d (List.mem_cons_of_mem c hd),
    fun d hd => h.apart d (List.mem_cons_of_mem c hd)⟩

theorem run_keeps (h : Laws read copy ok cell plan) {s : σ} (hs : ok s) : ok (run copy plan s) := by
  induction plan generalizing s with
  | nil => exact hs
  | cons c plan ih => exact ih h.tail (h.keeps c (by simp) s hs)

theorem run_frame (h : Laws read copy ok cell plan) {s : σ} (hs : ok s) {i : ι} (hi : cell i)
    (hn : ∀ c ∈ plan, i ≠ c.target) : read (run copy plan s) i = read s i := by
  induction plan generalizing s with
  | nil => rfl
  | cons c plan ih =>
    have hrest := ih h.tail (h.keeps c (by simp) s hs) fun d hd => hn d (List.mem_cons_of_mem c hd)
    rw [run, List.foldl_cons]
    rw [run] at hrest
    rw [hrest]
    exact h.frame c (by simp) s hs i hi (hn c (by simp))

theorem run_agrees (h : Laws read copy ok cell plan) (ho : Ordered plan) {s : σ} (hs : ok s)
    {c : Copy ι} (hc : c ∈ plan) :
    read (run copy plan s) c.target = read (run copy plan s) c.source := by
  induction plan generalizing s with
  | nil => cases hc
  | cons d plan ih =>
    obtain ⟨hd, hrest⟩ := List.pairwise_cons.mp ho
    have hok := h.keeps d (by simp) s hs
    rcases List.mem_cons.mp hc with rfl | hc
    · obtain ⟨ht, hsrc⟩ := h.cells c (by simp)
      -- neither end of the first copy is written again
      have h1 := run_frame h.tail hok ht fun e he => (hd e he).1.symm
      have h2 := run_frame h.tail hok hsrc fun e he => (hd e he).2.symm
      have hmove := h.moves c (by simp) s hs
      have hkeep := h.frame c (by simp) s hs c.source hsrc (h.apart c (by simp))
      show read (run copy plan (copy s c)) c.target = read (run copy plan (copy s c)) c.source
      rw [h1, h2, hmove, hkeep]
    · exact ih h.tail hrest hok hc

end

end CopyPlan
