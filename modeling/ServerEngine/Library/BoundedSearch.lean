import Mathlib.Logic.Relation

/-! # Searches of bounded depth

A search through a graph asks a node first and then its successors, the last one before the others.
It goes no deeper than its fuel and marks nothing, so shared nodes are asked again. Where nothing is
found it returns a null value.
-/
namespace BoundedSearch

variable {α β γ : Type}

/-- The second node is so many steps from the first, or fewer. -/
inductive Within (next : α → List α) : Nat → α → α → Prop
  | here (n : Nat) (a : α) : Within next n a a
  | step {n : Nat} {a b c : α} : b ∈ next a → Within next n b c → Within next (n + 1) a c

/-- The result is something declared if anything is, and the null value otherwise. -/
structure Finds (valid : β → Bool) (null : β) (declared : β → Prop) (result : β) : Prop where
  sound : valid result = true → declared result
  complete : ∀ b, declared b → valid result = true
  otherwise : valid result = false → result = null

/-! ## Distances -/

section Distances
variable {next : α → List α}

theorem exists_within_iff {a c : α} :
    (∃ n, Within next n a c) ↔ Relation.ReflTransGen (fun x y => y ∈ next x) a c := by
  constructor
  · intro h
    obtain ⟨n, hn⟩ := h
    induction hn with
    | here n a => exact .refl
    | step hmem _ ih => exact .head hmem ih
  · intro h
    induction h using Relation.ReflTransGen.head_induction_on with
    | refl => exact ⟨0, .here 0 c⟩
    | head hmem _ ih =>
      obtain ⟨n, hn⟩ := ih
      exact ⟨n + 1, .step hmem hn⟩

end Distances

/-! ## Results -/

section Results
variable {valid : β → Bool} {null : β} {declared declared' : β → Prop} {result : β}

theorem Finds.unique {b : β} (h : Finds valid null declared result) (hb : declared b)
    (hone : ∀ c, declared c → c = b) : result = b :=
  hone result (h.sound (h.complete b hb))

theorem Finds.congr (h : Finds valid null declared result) (hiff : ∀ b, declared b ↔ declared' b) :
    Finds valid null declared' result :=
  ⟨fun hvalid => (hiff _).mp (h.sound hvalid), fun b hb => h.complete b ((hiff b).mpr hb),
    h.otherwise⟩

theorem finds_nothing (hnull : valid null = false) (hnone : ∀ b, ¬ declared b) :
    Finds valid null declared null := by
  refine ⟨?_, ?_, fun _ => rfl⟩
  · intro hvalid
    rw [hnull] at hvalid
    cases hvalid
  · intro b hb
    exact absurd hb (hnone b)

theorem finds_valid (hvalid : valid result = true) (hdeclared : declared result) :
    Finds valid null declared result := by
  refine ⟨fun _ => hdeclared, fun _ _ => hvalid, ?_⟩
  intro hnot
  rw [hvalid] at hnot
  cases hnot

theorem finds_last {items : List γ} {results : γ → β} {shown : γ → β → Prop}
    (hnull : valid null = false) (h : ∀ x ∈ items, Finds valid null (shown x) (results x)) :
    Finds valid null (fun b => ∃ x ∈ items, shown x b)
      ((items.reverse.findSome? fun x =>
        if valid (results x) then some (results x) else none).getD null) := by
  cases hfound : items.reverse.findSome? fun x =>
      if valid (results x) then some (results x) else none with
  | some b =>
    obtain ⟨x, hx, heq⟩ := List.exists_of_findSome?_eq_some hfound
    have hmem := List.mem_reverse.mp hx
    split at heq
    · rename_i hvalid
      cases heq
      exact finds_valid hvalid ⟨x, hmem, (h x hmem).sound hvalid⟩
    · cases heq
  | none =>
    rw [List.findSome?_eq_none_iff] at hfound
    apply finds_nothing hnull
    intro b hb
    obtain ⟨x, hx, hshown⟩ := hb
    have hnone := hfound x (List.mem_reverse.mpr hx)
    rw [if_pos ((h x hx).complete b hshown)] at hnone
    cases hnone

/-- The recursion finds what the nodes within its fuel answer. -/
theorem finds_within {next : α → List α} {answer : α → Option β} {lookup : Nat → α → β}
    {P : α → Prop} (hnull : valid null = false) (hclosed : ∀ a, P a → ∀ b ∈ next a, P b)
    (hanswer : ∀ a, P a → ∀ b, answer a = some b → valid b = true)
    (hzero : ∀ a, lookup 0 a = null)
    (hsucc : ∀ fuel a, lookup (fuel + 1) a =
      (answer a).getD (((next a).reverse.findSome? fun x =>
        if valid (lookup fuel x) then some (lookup fuel x) else none).getD null))
    (fuel : Nat) {a : α} (ha : P a) :
    Finds valid null (fun b => ∃ c, Within next fuel a c ∧ answer c = some b)
      (lookup (fuel + 1) a) := by
  induction fuel generalizing a with
  | zero =>
    rw [hsucc]
    cases hfound : answer a with
    | some b => exact finds_valid (hanswer a ha b hfound) ⟨a, .here 0 a, hfound⟩
    | none =>
      have hrest := @finds_last β _ valid null (next a) (lookup 0) (fun _ _ => False) hnull
        (fun x _ => by rw [hzero]; exact finds_nothing hnull fun _ h => h)
      refine hrest.congr fun b => ?_
      constructor
      · intro h
        obtain ⟨_, _, h⟩ := h
        cases h
      · intro h
        obtain ⟨c, hwithin, hc⟩ := h
        cases hwithin
        rw [hfound] at hc
        cases hc
  | succ fuel ih =>
    rw [hsucc]
    cases hfound : answer a with
    | some b => exact finds_valid (hanswer a ha b hfound) ⟨a, .here _ a, hfound⟩
    | none =>
      refine (finds_last hnull fun x hx => ih (hclosed a ha x hx)).congr fun b => ?_
      constructor
      · intro h
        obtain ⟨x, hx, c, hwithin, hc⟩ := h
        exact ⟨c, .step hx hwithin, hc⟩
      · intro h
        obtain ⟨c, hwithin, hc⟩ := h
        cases hwithin with
        | here =>
          rw [hfound] at hc
          cases hc
        | step hx hwithin => exact ⟨_, hx, c, hwithin, hc⟩

end Results
end BoundedSearch
