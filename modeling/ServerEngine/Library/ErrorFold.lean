import Mathlib.Data.List.Basic

/-! # Folds that may fail

Rules for `List.foldlM` in `Except`: what a successful run says about each element, and the
induction over the processed prefix. A loop of an imperative program with early returns is such a
fold, its accumulator being the loop's state.
-/
namespace ErrorFold

variable {ε α σ β : Type} {x : Except ε α} {f : α → Except ε β}

theorem bind_ok {b : β} : (x >>= f) = .ok b ↔ ∃ a, x = .ok a ∧ f a = .ok b := by
  cases x with
  | error e => simp [bind, Except.bind]
  | ok a => simp [bind, Except.bind]

variable {xs : List α}

theorem forM_ok_mem {f : α → Except ε Unit} (h : forM xs f = .ok ()) : ∀ x ∈ xs, f x = .ok () := by
  induction xs with
  | nil => simp
  | cons x xs ih =>
    obtain ⟨⟨⟩, hx, hrest⟩ := bind_ok.mp h
    intro y hy
    cases List.mem_cons.mp hy with
    | inl hy =>
      rw [hy]
      exact hx
    | inr hy => exact ih hrest y hy

variable {step : σ → α → Except ε σ} {s t : σ}

theorem foldlM_nil_ok : List.foldlM step s [] = .ok t ↔ s = t := by
  simp [List.foldlM, pure, Except.pure]

theorem foldlM_cons_ok {x : α} : List.foldlM step s (x :: xs) = .ok t ↔
      ∃ u, step s x = .ok u ∧ List.foldlM step u xs = .ok t := by
  rw [List.foldlM_cons, bind_ok]

theorem foldlM_append_ok {ys : List α} : List.foldlM step s (xs ++ ys) = .ok t ↔
      ∃ u, List.foldlM step s xs = .ok u ∧ List.foldlM step u ys = .ok t := by
  rw [List.foldlM_append, bind_ok]

variable {P : α → Prop} {ys : List β}

theorem mapM_ok_iff {g : α → β} (h : ∀ x y, f x = .ok y ↔ P x ∧ y = g x) :
    xs.mapM f = .ok ys ↔ (∀ x ∈ xs, P x) ∧ ys = xs.map g := by
  induction xs generalizing ys with
  | nil => simp [pure, Except.pure, eq_comm]
  | cons x xs ih =>
    rw [List.mapM_cons, bind_ok]
    constructor
    · rintro ⟨y, hy, hrest⟩
      obtain ⟨hx, rfl⟩ := (h x y).mp hy
      obtain ⟨zs, hzs, hys⟩ := bind_ok.mp hrest
      obtain ⟨hP, rfl⟩ := ih.mp hzs
      cases hys
      exact ⟨List.forall_mem_cons.mpr ⟨hx, hP⟩, rfl⟩
    · rintro ⟨hP, rfl⟩
      obtain ⟨hx, hxs⟩ := List.forall_mem_cons.mp hP
      exact ⟨g x, (h x _).mpr ⟨hx, rfl⟩, bind_ok.mpr ⟨xs.map g, ih.mpr ⟨hxs, rfl⟩, rfl⟩⟩

theorem mapM_ok_getElem? (h : xs.mapM f = .ok ys) :
    ys.length = xs.length ∧ ∀ (i : Nat) x, xs[i]? = some x → ∃ y, ys[i]? = some y ∧ f x = .ok y := by
  induction xs generalizing ys with
  | nil =>
    cases h
    exact ⟨rfl, by simp⟩
  | cons x xs ih =>
    rw [List.mapM_cons, bind_ok] at h
    obtain ⟨y, hy, h⟩ := h
    obtain ⟨zs, hzs, h⟩ := bind_ok.mp h
    cases h
    obtain ⟨hlen, hall⟩ := ih hzs
    refine ⟨by simp [hlen], ?_⟩
    intro i x' hx'
    cases i with
    | zero =>
      cases hx'
      exact ⟨y, rfl, hy⟩
    | succ i => exact hall i x' hx'

theorem foldlM_ok_split (P : List α → σ → Prop) (h : List.foldlM step s xs = .ok t) (h0 : P [] s)
    (hstep : ∀ pre x post u v, xs = pre ++ x :: post → P pre u → step u x = .ok v → P (pre ++ [x]) v) :
    P xs t := by
  suffices key : ∀ (ys pre : List α) (u : σ), xs = pre ++ ys → P pre u →
      List.foldlM step u ys = .ok t → P (pre ++ ys) t by
    simpa using key xs [] s rfl h0 h
  intro ys
  induction ys with
  | nil =>
    intro pre u _ hP hfold
    rw [foldlM_nil_ok] at hfold
    simpa [hfold] using hP
  | cons y ys ih =>
    intro pre u hxs hP hfold
    obtain ⟨v, hv, hrest⟩ := foldlM_cons_ok.mp hfold
    have hnext := hstep pre y ys u v hxs hP hv
    have := ih (pre ++ [y]) v (by simp [hxs]) hnext hrest
    simpa using this

theorem foldlM_ok_rec (P : List α → σ → Prop) (h : List.foldlM step s xs = .ok t) (h0 : P [] s)
    (hstep : ∀ pre x u v, x ∈ xs → P pre u → step u x = .ok v → P (pre ++ [x]) v) : P xs t :=
  foldlM_ok_split P h h0 fun pre x post u v hxs => hstep pre x u v (by simp [hxs])

theorem foldlM_ok_invariant (P : σ → Prop) (h : List.foldlM step s xs = .ok t) (h0 : P s)
    (hstep : ∀ x u v, x ∈ xs → P u → step u x = .ok v → P v) : P t :=
  foldlM_ok_rec (fun _ u => P u) h h0 fun _ x u v hx hu hv => hstep x u v hx hu hv

theorem foldlM_ok_mem (h : List.foldlM step s xs = .ok t) {x : α} (hx : x ∈ xs) :
    ∃ u v, step u x = .ok v := by
  induction xs generalizing s with
  | nil => cases hx
  | cons y ys ih =>
    obtain ⟨u, hu, hrest⟩ := foldlM_cons_ok.mp h
    rcases List.mem_cons.mp hx with rfl | hx
    · exact ⟨s, u, hu⟩
    · exact ih hrest hx

/-! ## Outcomes -/

/-- What a computation ends with: `P` of its value or `E` of its error. -/
def Outcome (E : ε → Prop) (P : α → Prop) : Except ε α → Prop
  | .ok a => P a
  | .error e => E e

theorem Outcome.bind {E : ε → Prop} {Q : β → Prop} (hx : Outcome E P x)
    (hf : ∀ a, P a → Outcome E Q (f a)) : Outcome E Q (x >>= f) := by
  cases x with
  | error e => exact hx
  | ok a => exact hf a hx

theorem foldlM_outcome {step : σ → α → Except ε σ} {E : ε → Prop} (P : List α → σ → Prop)
    {s : σ} {xs : List α} (h0 : P [] s)
    (hstep : ∀ pre x u, x ∈ xs → P pre u → Outcome E (P (pre ++ [x])) (step u x)) :
    Outcome E (P xs) (List.foldlM step s xs) := by
  suffices key : ∀ (ys pre : List α) (u : σ), xs = pre ++ ys → P pre u →
      Outcome E (P xs) (List.foldlM step u ys) from key xs [] s rfl h0
  intro ys
  induction ys with
  | nil =>
    intro pre u hxs hP
    have hpre : xs = pre := by simpa using hxs
    rw [hpre]
    exact hP
  | cons y ys ih =>
    intro pre u hxs hP
    have hy : y ∈ xs := by simp [hxs]
    apply (hstep pre y u hy hP).bind
    intro v hv
    exact ih (pre ++ [y]) v (by simp [hxs]) hv

end ErrorFold
