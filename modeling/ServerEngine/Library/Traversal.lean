import Mathlib.Data.List.Nodup
import Mathlib.Data.List.Perm.Subperm

/-! # Breadth-first traversal

A queue is worked off from its front; the successors not visited before are marked and appended. On
a finite universe the traversal ends, and what it emits is what the start reaches.
-/
namespace Traversal

variable {α : Type} [DecidableEq α]

def insertNew : List α → List α → List α × List α
  | visited, [] => (visited, [])
  | visited, x :: rest =>
    if x ∈ visited then insertNew visited rest
    else
      let (visited, fresh) := insertNew (x :: visited) rest
      (visited, x :: fresh)

def loop (succ : α → List α) : Nat → List α → List α → Option (List α)
  | _, _, [] => some []
  | 0, _, _ :: _ => none
  | fuel + 1, visited, x :: queue =>
    let (visited, fresh) := insertNew visited (succ x)
    (loop succ fuel visited (queue ++ fresh)).map (x :: ·)

/-! ## Marking -/

theorem insertNew_spec (visited xs : List α) :
    (∀ x, x ∈ (insertNew visited xs).1 ↔ x ∈ visited ∨ x ∈ xs) ∧
      (∀ x, x ∈ (insertNew visited xs).2 ↔ x ∈ xs ∧ x ∉ visited) ∧
        (insertNew visited xs).2.Nodup := by
  induction xs generalizing visited with
  | nil => simp [insertNew]
  | cons y ys ih =>
    rw [insertNew]
    by_cases hy : y ∈ visited
    · rw [if_pos hy]
      obtain ⟨hmarks, hfresh, hnodup⟩ := ih visited
      refine ⟨fun x => ?_, fun x => ?_, hnodup⟩
      · rw [hmarks, List.mem_cons]
        constructor
        · rintro (h | h)
          · exact .inl h
          · exact .inr (.inr h)
        · rintro (h | rfl | h)
          · exact .inl h
          · exact .inl hy
          · exact .inr h
      · rw [hfresh, List.mem_cons]
        constructor
        · rintro ⟨h, hn⟩
          exact ⟨.inr h, hn⟩
        · rintro ⟨rfl | h, hn⟩
          · exact absurd hy hn
          · exact ⟨h, hn⟩
    · rw [if_neg hy]
      obtain ⟨hmarks, hfresh, hnodup⟩ := ih (y :: visited)
      refine ⟨fun x => ?_, fun x => ?_, ?_⟩
      · rw [hmarks, List.mem_cons, List.mem_cons, or_assoc, or_left_comm]
      · rw [List.mem_cons, hfresh, List.mem_cons, List.mem_cons]
        by_cases hx : x = y
        · simp [hx, hy]
        · simp [hx]
      · rw [List.nodup_cons]
        refine ⟨fun hmem => ?_, hnodup⟩
        exact ((hfresh y).mp hmem).2 (by simp)

/-! ## The traversal -/

/-- What the loop keeps: the queue is marked, nothing is marked twice or forgotten. -/
structure Marked (succ : α → List α) (start : α) (visited queue : List α) (done : List α) : Prop where
  marked : ∀ x, x ∈ visited ↔ x = start ∨ x ∈ done ∨ x ∈ queue
  nodup : (done ++ queue).Nodup
  fresh : start ∉ done ++ queue
  reached : ∀ x ∈ done ++ queue, Relation.TransGen (fun a b => b ∈ succ a) start x
  closed : ∀ x, x = start ∨ x ∈ done → ∀ y ∈ succ x, y ∈ visited

theorem marked_start (succ : α → List α) (start : α) :
    Marked succ start (insertNew [start] (succ start)).1 (insertNew [start] (succ start)).2 [] := by
  obtain ⟨hmarks, hfresh, hnodup⟩ := insertNew_spec [start] (succ start)
  refine ⟨fun x => ?_, ?_, ?_, ?_, ?_⟩
  · rw [hmarks, hfresh, List.mem_singleton]
    by_cases hx : x = start
    · simp [hx]
    · simp [hx]
  · exact hnodup
  · intro hmem
    exact ((hfresh start).mp hmem).2 (by simp)
  · intro x hx
    exact .single ((hfresh x).mp hx).1
  · intro x hx y hy
    obtain rfl : x = start := by simpa using hx
    exact (hmarks y).mpr (.inr hy)

variable {succ : α → List α} {start : α} {visited queue done : List α}

theorem marked_step {x : α} (h : Marked succ start visited (x :: queue) done) :
    Marked succ start (insertNew visited (succ x)).1 (queue ++ (insertNew visited (succ x)).2)
      (done ++ [x]) := by
  obtain ⟨hmarks, hfresh, hnodup⟩ := insertNew_spec visited (succ x)
  have hx : x ∈ done ++ x :: queue := by simp
  have hlist : (done ++ [x]) ++ (queue ++ (insertNew visited (succ x)).2) =
      (done ++ x :: queue) ++ (insertNew visited (succ x)).2 := by simp
  refine ⟨fun y => ?_, ?_, ?_, ?_, ?_⟩
  · rw [hmarks, h.marked, List.mem_append, List.mem_append, List.mem_cons, List.mem_singleton, hfresh]
    constructor
    · rintro ((hs | hd | hq | hq) | hy)
      · exact .inl hs
      · exact .inr (.inl (.inl hd))
      · exact .inr (.inl (.inr hq))
      · exact .inr (.inr (.inl hq))
      · by_cases hv : y ∈ visited
        · rcases (h.marked y).mp hv with hs | hd | hq
          · exact .inl hs
          · exact .inr (.inl (.inl hd))
          · rcases List.mem_cons.mp hq with hq | hq
            · exact .inr (.inl (.inr hq))
            · exact .inr (.inr (.inl hq))
        · exact .inr (.inr (.inr ⟨hy, hv⟩))
    · rintro (hs | (hd | hd) | hq | hy)
      · exact .inl (.inl hs)
      · exact .inl (.inr (.inl hd))
      · exact .inl (.inr (.inr (.inl hd)))
      · exact .inl (.inr (.inr (.inr hq)))
      · exact .inr hy.1
  · rw [hlist, List.nodup_append]
    refine ⟨h.nodup, hnodup, ?_⟩
    rintro a ha b hb rfl
    have hv : a ∈ visited := by
      rw [h.marked]
      exact .inr (List.mem_append.mp ha)
    exact ((hfresh a).mp hb).2 hv
  · rw [hlist, List.mem_append]
    rintro (hmem | hmem)
    · exact h.fresh hmem
    · exact ((hfresh start).mp hmem).2 ((h.marked start).mpr (.inl rfl))
  · rw [hlist]
    intro y hy
    rcases List.mem_append.mp hy with hy | hy
    · exact h.reached y hy
    · exact .tail (h.reached x hx) ((hfresh y).mp hy).1
  · intro y hy z hz
    rw [hmarks]
    rcases hy with rfl | hy
    · exact .inl (h.closed y (.inl rfl) z hz)
    · rcases List.mem_append.mp hy with hy | hy
      · exact .inl (h.closed y (.inr hy) z hz)
      · rw [List.mem_singleton] at hy
        rw [hy] at hz
        exact .inr hz

variable {fuel : Nat}

theorem loop_spec {out : List α} (h : Marked succ start visited queue done)
    (hout : loop succ fuel visited queue = some out) :
    ∃ marks, Marked succ start marks [] (done ++ out) := by
  induction fuel generalizing visited queue done out with
  | zero =>
    cases queue with
    | nil =>
      cases hout
      exact ⟨visited, by simpa using h⟩
    | cons x queue => cases hout
  | succ fuel ih =>
    cases queue with
    | nil =>
      cases hout
      exact ⟨visited, by simpa using h⟩
    | cons x queue =>
      obtain ⟨rest, hrest, rfl⟩ := Option.map_eq_some_iff.mp hout
      obtain ⟨marks, hmarks⟩ := ih (marked_step h) hrest
      exact ⟨marks, by simpa using hmarks⟩

theorem loop_isSome {within : List α} (hsucc : ∀ x y, y ∈ succ x → y ∈ within)
    (h : Marked succ start visited queue done) (hfuel : within.length ≤ fuel + done.length) :
    (loop succ fuel visited queue).isSome := by
  have hsub : ∀ x ∈ done ++ queue, x ∈ within := by
    intro x hx
    obtain ⟨y, -, hy⟩ := Relation.TransGen.tail'_iff.mp (h.reached x hx)
    exact hsucc y x hy
  induction fuel generalizing visited queue done with
  | zero =>
    cases queue with
    | nil => rfl
    | cons x queue =>
      have hlen : (done ++ x :: queue).length ≤ within.length :=
        (List.subperm_of_subset h.nodup hsub).length_le
      simp only [List.length_append, List.length_cons] at hlen
      omega
  | succ fuel ih =>
    cases queue with
    | nil => rfl
    | cons x queue =>
      rw [loop]
      simp only [Option.isSome_map]
      have hstep := marked_step h
      apply ih hstep
      · simp only [List.length_append, List.length_singleton]
        omega
      · intro y hy
        obtain ⟨z, -, hz⟩ := Relation.TransGen.tail'_iff.mp (hstep.reached y hy)
        exact hsucc z y hz

omit [DecidableEq α] in
theorem Marked.mem_iff (h : Marked succ start visited [] done) (x : α) :
    x ∈ done ↔ x ≠ start ∧ Relation.TransGen (fun a b => b ∈ succ a) start x := by
  have hclosed : ∀ y, Relation.ReflTransGen (fun a b => b ∈ succ a) start y → y ∈ visited := by
    intro y hy
    induction hy with
    | refl => exact (h.marked start).mpr (.inl rfl)
    | tail _ hstep ih =>
      rename_i a b _
      have ha : a = start ∨ a ∈ done := by simpa using (h.marked a).mp ih
      exact h.closed a ha b hstep
  constructor
  · intro hx
    have hmem : x ∈ done ++ [] := by simpa using hx
    refine ⟨?_, h.reached x hmem⟩
    rintro rfl
    exact h.fresh hmem
  · rintro ⟨hne, hreach⟩
    have hv := (h.marked x).mp (hclosed x hreach.to_reflTransGen)
    simpa [hne] using hv

end Traversal
