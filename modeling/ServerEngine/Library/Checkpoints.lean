import Mathlib.Data.List.Basic

/-! # Marks and their restoring

A state that only gets later, and the states that were marked on its way, the newest first. Going
back to one of them keeps that mark and the older ones.
-/
namespace Checkpoints

section
variable {σ : Type} (later : σ → σ → Prop)

/-- Every mark is earlier than all newer ones, and than the state itself. -/
def Chained (now : σ) (marks : List σ) : Prop :=
  (now :: marks).Pairwise fun newer older => later older newer

variable {later} {now now' marked : σ} {marks : List σ}

theorem chained_start (now : σ) : Chained later now [] := List.pairwise_singleton _ _

theorem Chained.earlier (h : Chained later now marks) (hmark : marked ∈ marks) : later marked now :=
  List.rel_of_pairwise_cons h hmark

theorem Chained.mark (hrefl : ∀ s, later s s) (h : Chained later now marks) :
    Chained later now (now :: marks) := by
  apply List.pairwise_cons.mpr
  refine ⟨fun older holder => ?_, h⟩
  cases holder with
  | head => exact hrefl now
  | tail _ holder => exact h.earlier holder

theorem Chained.advance (htrans : ∀ {a b c}, later a b → later b c → later a c)
    (h : Chained later now marks) (hlater : later now now') : Chained later now' marks := by
  apply List.pairwise_cons.mpr
  exact ⟨fun older holder => htrans (h.earlier holder) hlater, List.Pairwise.of_cons h⟩

theorem Chained.restore (htrans : ∀ {a b c}, later a b → later b c → later a c)
    (h : Chained later now marks) {depth : Nat} (hmark : marks[depth]? = some marked)
    (hlater : later marked now') : Chained later now' (marks.drop depth) := by
  have hdepth : depth < marks.length := (List.getElem?_eq_some_iff.mp hmark).1
  have hget : marks[depth] = marked := (List.getElem?_eq_some_iff.mp hmark).2
  have hdrop : marks.drop depth = marked :: marks.drop (depth + 1) := by
    rw [List.drop_eq_getElem_cons hdepth, hget]
  have hrest : Chained later marked (marks.drop (depth + 1)) := by
    unfold Chained
    rw [← hdrop]
    exact (List.Pairwise.of_cons h).sublist (List.drop_sublist depth marks)
  rw [hdrop]
  apply List.pairwise_cons.mpr
  refine ⟨fun older holder => ?_, hrest⟩
  cases holder with
  | head => exact hlater
  | tail _ holder => exact htrans (hrest.earlier holder) hlater

end
end Checkpoints
