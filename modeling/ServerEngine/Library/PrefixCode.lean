import Mathlib.Data.List.Basic

/-! # Prefix codes

An encoding is a prefix code on a domain when a coded value can be split off the front of any text
in one way only. Concatenation, lengths and counts in front keep this.
-/
namespace PrefixCode

variable {α β Symbol : Type}

/-- Coded values of the domain split off the front of a text in one way. -/
def Splits (domain : α → Prop) (code : α → List Symbol) : Prop :=
  ∀ a b x y, domain a → domain b → code a ++ x = code b ++ y → a = b ∧ x = y

variable {domain : α → Prop} {code : α → List Symbol}

theorem Splits.injective (h : Splits domain code) {a b : α} (ha : domain a) (hb : domain b)
    (heq : code a = code b) : a = b :=
  (h a b [] [] ha hb (by rw [heq])).1

theorem splits_of_length {n : Nat} (hlength : ∀ a, (code a).length = n)
    (hinjective : ∀ a b, domain a → domain b → code a = code b → a = b) : Splits domain code := by
  intro a b x y ha hb heq
  have hlengths : (code a).length = (code b).length := by rw [hlength, hlength]
  obtain ⟨hcode, hrest⟩ := List.append_inj heq hlengths
  exact ⟨hinjective a b ha hb hcode, hrest⟩

theorem Splits.append {first : α → Prop} {second : β → Prop} {code' : β → List Symbol}
    (h : Splits first code) (h' : Splits second code') :
    Splits (fun p : α × β => first p.1 ∧ second p.2) fun p => code p.1 ++ code' p.2 := by
  intro p q x y hp hq heq
  rw [List.append_assoc, List.append_assoc] at heq
  obtain ⟨hfirst, hrest⟩ := h p.1 q.1 _ _ hp.1 hq.1 heq
  obtain ⟨hsecond, hrest⟩ := h' p.2 q.2 _ _ hp.2 hq.2 hrest
  exact ⟨Prod.ext hfirst hsecond, hrest⟩

variable {bound : Nat → Prop}

theorem splits_sized {code : Nat → List Symbol} (h : Splits bound code) :
    Splits (fun text : List Symbol => bound text.length) fun text => code text.length ++ text := by
  intro a b x y ha hb heq
  rw [List.append_assoc, List.append_assoc] at heq
  obtain ⟨hlength, hrest⟩ := h a.length b.length _ _ ha hb heq
  exact List.append_inj hrest hlength

theorem splits_flatMap (h : Splits domain code) {a b : List α} {x y : List Symbol}
    (hlength : a.length = b.length) (ha : ∀ i ∈ a, domain i) (hb : ∀ i ∈ b, domain i)
    (heq : a.flatMap code ++ x = b.flatMap code ++ y) : a = b ∧ x = y := by
  induction a generalizing b with
  | nil =>
    have hnil : b = [] := List.eq_nil_of_length_eq_zero hlength.symm
    rw [hnil] at heq ⊢
    exact ⟨rfl, by simpa using heq⟩
  | cons i rest ih =>
    cases b with
    | nil => simp at hlength
    | cons j rest' =>
      rw [List.flatMap_cons, List.flatMap_cons, List.append_assoc, List.append_assoc] at heq
      obtain ⟨hhead, htail⟩ := h i j _ _ (ha i (by simp)) (hb j (by simp)) heq
      obtain ⟨hrest, hxy⟩ := ih (by simpa using hlength) (fun k hk => ha k (by simp [hk]))
        (fun k hk => hb k (by simp [hk])) htail
      exact ⟨by rw [hhead, hrest], hxy⟩

theorem splits_counted {count : Nat → List Symbol} (hcount : Splits bound count)
    (h : Splits domain code) :
    Splits (fun items : List α => bound items.length ∧ ∀ i ∈ items, domain i)
      fun items => count items.length ++ items.flatMap code := by
  intro a b x y ha hb heq
  rw [List.append_assoc, List.append_assoc] at heq
  obtain ⟨hlength, hrest⟩ := hcount a.length b.length _ _ ha.1 hb.1 heq
  exact splits_flatMap h hlength ha.2 hb.2 hrest

end PrefixCode
