import Mathlib.Data.List.GetD
import ServerEngine.Library.RangeForest
import ServerEngine.Runtime.Binding

/-! # Nesting of the managed fields

Every record's members stand next to each other in the field list, behind the record, and inside its
byte range. Neither the shift behind the members before it nor the filling of its own slot breaks
this.
-/
namespace ServerEngine
open ErrorFold ConstructM

/-! ## Records and their members -/

/-- Field `c` is a direct member of the record in field `i`. -/
def ChildOf (fields : List ManagedFieldLayout) (i c : Nat) : Prop :=
  (fields.getD i {}).aggregate = true ∧ (fields.getD i {}).firstChild ≤ c ∧
    c < (fields.getD i {}).firstChild + (fields.getD i {}).childCount

def ManagedFieldLayout.unit (pack : Nat) (f : ManagedFieldLayout) : Nat :=
  min (if f.reference then 8 else f.alignment) pack

/-- `f` lies in `size` bytes at `base`, on a multiple of its unit behind it; `unit` is the alignment
of `base`. -/
structure SitsIn (pack base size unit : Nat) (f : ManagedFieldLayout) : Prop where
  low : base ≤ f.offset
  high : f.offset + f.bytes ≤ base + size
  aligned : f.unit pack ∣ f.offset - base
  divides : f.unit pack ∣ unit

def RangesApart (f g : ManagedFieldLayout) : Prop :=
  f.offset + f.bytes ≤ g.offset ∨ g.offset + g.bytes ≤ f.offset

/-- The records in the fields from `b` on hold their members. -/
structure Nested (pack : Nat) (fields : List ManagedFieldLayout) (b : Nat) : Prop where
  later : ∀ {i c}, b ≤ i → ChildOf fields i c → i < c ∧ c < fields.length
  sits : ∀ {i c}, b ≤ i → ChildOf fields i c →
    SitsIn pack (fields.getD i {}).offset (fields.getD i {}).bytes ((fields.getD i {}).unit pack)
      (fields.getD c {})
  apart : ∀ {i c d}, b ≤ i → ChildOf fields i c → ChildOf fields i d → c ≠ d →
    RangesApart (fields.getD c {}) (fields.getD d {})
  parent : ∀ {i j c}, b ≤ i → b ≤ j → ChildOf fields i c → ChildOf fields j c → i = j

variable {g : ManagedFieldLayout}

theorem RangesApart.symm {f : ManagedFieldLayout} (h : RangesApart f g) : RangesApart g f :=
  h.elim .inr .inl

theorem RangesApart.shift {f : ManagedFieldLayout} (h : RangesApart f g) (d : Nat) :
    RangesApart (shift d f) (shift d g) := by
  show f.offset + d + f.bytes ≤ g.offset + d ∨ g.offset + d + g.bytes ≤ f.offset + d
  unfold RangesApart at h
  omega

variable {pack base size unit : Nat}

theorem SitsIn.shift {f : ManagedFieldLayout} (h : SitsIn pack base size unit f) (d : Nat) :
    SitsIn pack (base + d) size unit (shift d f) := by
  obtain ⟨hlow, hhigh, haligned, hdivides⟩ := h
  refine ⟨Nat.add_le_add_right hlow d, ?_, ?_, hdivides⟩
  · show f.offset + d + f.bytes ≤ base + d + size
    omega
  · show f.unit pack ∣ f.offset + d - (base + d)
    rw [Nat.add_sub_add_right]
    exact haligned

theorem SitsIn.mono {size' unit' : Nat} {f : ManagedFieldLayout}
    (h : SitsIn pack base size unit f) (hsize : size ≤ size') (hunit : unit ∣ unit') :
    SitsIn pack base size' unit' f :=
  ⟨h.low, Nat.le_trans h.high (Nat.add_le_add_left hsize base), h.aligned,
    Nat.dvd_trans h.divides hunit⟩

variable {fields : List ManagedFieldLayout} {i : Nat}

theorem lt_of_aggregate (h : (fields.getD i {}).aggregate = true) : i < fields.length := by
  apply Nat.lt_of_not_le
  intro hle
  rw [List.getD_eq_default _ _ hle] at h
  cases h

variable {c : Nat}

theorem ChildOf.lt (h : ChildOf fields i c) : i < fields.length :=
  lt_of_aggregate h.1

theorem not_childOf_default (h : fields.length ≤ i) : ¬ ChildOf fields i c :=
  fun hc => Nat.not_lt.mpr h hc.lt

/-! ## A shifted block behind other fields -/

section Behind

variable {xs fresh : List ManagedFieldLayout} {d : Nat} {ys : List ManagedFieldLayout} {i : Nat}

theorem getD_before (h : i < xs.length) : (xs ++ ys).getD i {} = xs.getD i {} := by
  rw [List.getD_append _ _ _ _ h]

theorem getD_behind (hle : xs.length ≤ i) (hlt : i < (xs ++ fresh).length) :
    (xs ++ fresh.map (shift d)).getD i {} = shift d ((xs ++ fresh).getD i {}) := by
  have hi : i - xs.length < fresh.length := by
    rw [List.length_append] at hlt
    omega
  rw [List.getD_append_right _ _ _ _ hle, List.getD_append_right _ _ _ _ hle]
  rw [List.getD_eq_getElem _ _ (by simpa using hi), List.getD_eq_getElem _ _ hi, List.getElem_map]

variable {c : Nat}

theorem childOf_shift : ChildOf (xs ++ fresh.map (shift d)) i c ↔ ChildOf (xs ++ fresh) i c := by
  by_cases hlt : i < (xs ++ fresh).length
  · by_cases hle : xs.length ≤ i
    · unfold ChildOf
      rw [getD_behind hle hlt]
      rfl
    · unfold ChildOf
      rw [getD_before (Nat.lt_of_not_le hle), getD_before (Nat.lt_of_not_le hle)]
  · have hout : (xs ++ fresh).length ≤ i := Nat.le_of_not_lt hlt
    have hout' : (xs ++ fresh.map (shift d)).length ≤ i := by simpa using hout
    exact iff_of_false (not_childOf_default hout') (not_childOf_default hout)

theorem childOf_before (h : i < xs.length) : ChildOf (xs ++ ys) i c ↔ ChildOf xs i c := by
  unfold ChildOf
  rw [getD_before h]

variable {pack b : Nat}

theorem childOf_join (hx : Nested pack xs b) (hy : Nested pack (xs ++ fresh) xs.length)
    (hb : b ≤ i) (h : ChildOf (xs ++ fresh) i c) :
    (i < xs.length ∧ c < xs.length ∧ ChildOf xs i c) ∨
      (xs.length ≤ i ∧ xs.length ≤ c ∧ c < (xs ++ fresh).length) := by
  by_cases hi : i < xs.length
  · have hchild := (childOf_before hi).mp h
    exact .inl ⟨hi, (hx.later hb hchild).2, hchild⟩
  · have hle := Nat.le_of_not_lt hi
    have hlater := hy.later hle h
    exact .inr ⟨hle, Nat.le_trans hle (Nat.le_of_lt hlater.1), hlater.2⟩

theorem Nested.behind (hx : Nested pack xs b) (hy : Nested pack (xs ++ fresh) xs.length) (d : Nat) :
    Nested pack (xs ++ fresh.map (shift d)) b := by
  have hlen : (xs ++ fresh.map (shift d)).length = (xs ++ fresh).length := by simp
  refine ⟨?_, ?_, ?_, ?_⟩
  · intro i c hb hc
    rw [childOf_shift] at hc
    rw [hlen]
    cases childOf_join hx hy hb hc with
    | inl h =>
      refine ⟨(hx.later hb h.2.2).1, Nat.lt_of_lt_of_le h.2.1 ?_⟩
      simp
    | inr h => exact hy.later h.1 hc
  · intro i c hb hc
    rw [childOf_shift] at hc
    cases childOf_join hx hy hb hc with
    | inl h =>
      rw [getD_before h.1, getD_before h.2.1]
      exact hx.sits hb h.2.2
    | inr h =>
      rw [getD_behind h.1 hc.lt, getD_behind h.2.1 h.2.2]
      exact (hy.sits h.1 hc).shift d
  · intro i c c' hb hc hc' hne
    rw [childOf_shift] at hc hc'
    cases childOf_join hx hy hb hc with
    | inl h =>
      have h' := (childOf_before h.1).mp hc'
      rw [getD_before h.2.1, getD_before (hx.later hb h').2]
      exact hx.apart hb h.2.2 h' hne
    | inr h =>
      have h' := hy.later h.1 hc'
      rw [getD_behind h.2.1 h.2.2, getD_behind (Nat.le_trans h.1 (Nat.le_of_lt h'.1)) h'.2]
      exact (hy.apart h.1 hc hc' hne).shift d
  · intro i j c hb hb' hc hc'
    rw [childOf_shift] at hc hc'
    cases childOf_join hx hy hb hc with
    | inl h =>
      cases childOf_join hx hy hb' hc' with
      | inl h' => exact hx.parent hb hb' h.2.2 h'.2.2
      | inr h' => exact absurd h.2.1 (Nat.not_lt.mpr h'.2.1)
    | inr h =>
      cases childOf_join hx hy hb' hc' with
      | inl h' => exact absurd h'.2.1 (Nat.not_lt.mpr h.2.1)
      | inr h' => exact hy.parent h.1 h'.1 hc hc'

end Behind

/-! ## Filling a slot -/

section Filling

variable {xs : List ManagedFieldLayout} {j : Nat} {f : ManagedFieldLayout} {i : Nat}

theorem getD_set_ne (h : i ≠ j) : (xs.set j f).getD i {} = xs.getD i {} := by
  simp only [List.getD_eq_getElem?_getD]
  rw [List.getElem?_set_ne h.symm]

theorem getD_set_self (h : j < xs.length) : (xs.set j f).getD j {} = f := by
  simp only [List.getD_eq_getElem?_getD]
  rw [List.getElem?_set_self h]
  rfl

theorem childOf_set_ne {c : Nat} (h : i ≠ j) : ChildOf (xs.set j f) i c ↔ ChildOf xs i c := by
  unfold ChildOf
  rw [getD_set_ne h]

structure HoldsBlock (pack : Nat) (xs : List ManagedFieldLayout) (j : Nat) (f : ManagedFieldLayout) :
    Prop where
  within : ∀ {c}, f.firstChild ≤ c → c < f.firstChild + f.childCount → j < c ∧ c < xs.length
  sits : ∀ {c}, f.firstChild ≤ c → c < f.firstChild + f.childCount →
    SitsIn pack f.offset f.bytes (f.unit pack) (xs.getD c {})
  apart : ∀ {c d}, f.firstChild ≤ c → c < f.firstChild + f.childCount → f.firstChild ≤ d →
    d < f.firstChild + f.childCount → c ≠ d → RangesApart (xs.getD c {}) (xs.getD d {})

theorem Nested.fill {pack b : Nat} (hx : Nested pack xs b) (hj : j < xs.length)
    (hfree : ∀ i, b ≤ i → ¬ ChildOf xs i j) (hblock : f.aggregate = true → HoldsBlock pack xs j f)
    (horphans : f.aggregate = true → ∀ c, f.firstChild ≤ c → c < f.firstChild + f.childCount →
      ∀ i, b ≤ i → i ≠ j → ¬ ChildOf xs i c) : Nested pack (xs.set j f) b := by
  have hself : ∀ {c}, ChildOf (xs.set j f) j c →
      f.aggregate = true ∧ f.firstChild ≤ c ∧ c < f.firstChild + f.childCount := by
    intro c hc
    unfold ChildOf at hc
    rwa [getD_set_self hj] at hc
  have hneq : ∀ {i c}, b ≤ i → i ≠ j → ChildOf xs i c → c ≠ j := by
    rintro i c hb - hc rfl
    exact hfree i hb hc
  refine ⟨?_, ?_, ?_, ?_⟩
  · intro i c hb hc
    rw [List.length_set]
    by_cases hi : i = j
    · subst hi
      obtain ⟨haggr, hlow, hhigh⟩ := hself hc
      exact (hblock haggr).within hlow hhigh
    · exact hx.later hb ((childOf_set_ne hi).mp hc)
  · intro i c hb hc
    by_cases hi : i = j
    · subst hi
      obtain ⟨haggr, hlow, hhigh⟩ := hself hc
      have hwithin := (hblock haggr).within hlow hhigh
      rw [getD_set_self hj, getD_set_ne (Nat.ne_of_gt hwithin.1)]
      exact (hblock haggr).sits hlow hhigh
    · have hc := (childOf_set_ne hi).mp hc
      rw [getD_set_ne hi, getD_set_ne (hneq hb hi hc)]
      exact hx.sits hb hc
  · intro i c d hb hc hd hne
    by_cases hi : i = j
    · subst hi
      obtain ⟨haggr, hlow, hhigh⟩ := hself hc
      obtain ⟨-, hlow', hhigh'⟩ := hself hd
      have hwithin := (hblock haggr).within hlow hhigh
      have hwithin' := (hblock haggr).within hlow' hhigh'
      rw [getD_set_ne (Nat.ne_of_gt hwithin.1), getD_set_ne (Nat.ne_of_gt hwithin'.1)]
      exact (hblock haggr).apart hlow hhigh hlow' hhigh' hne
    · have hc := (childOf_set_ne hi).mp hc
      have hd := (childOf_set_ne hi).mp hd
      rw [getD_set_ne (hneq hb hi hc), getD_set_ne (hneq hb hi hd)]
      exact hx.apart hb hc hd hne
  · intro i i' c hb hb' hc hc'
    by_cases hi : i = j
    · by_cases hi' : i' = j
      · rw [hi, hi']
      · subst hi
        obtain ⟨haggr, hlow, hhigh⟩ := hself hc
        exact absurd ((childOf_set_ne hi').mp hc') (horphans haggr c hlow hhigh i' hb' hi')
    · by_cases hi' : i' = j
      · subst hi'
        obtain ⟨haggr, hlow, hhigh⟩ := hself hc'
        exact absurd ((childOf_set_ne hi).mp hc) (horphans haggr c hlow hhigh i hb hi)
      · exact hx.parent hb hb' ((childOf_set_ne hi).mp hc) ((childOf_set_ne hi').mp hc')

end Filling

end ServerEngine
