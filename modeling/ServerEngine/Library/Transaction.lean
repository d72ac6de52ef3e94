import Mathlib.Data.List.Basic

/-! # Computations whose failure keeps the state

`EStateM` runs a computation that may fail and leaves its state as the failure found it. Rules for
what a successful sequence did and for what every run keeps, whether it succeeds or fails.
-/
namespace Transaction

variable {ε σ α β : Type}

def left : EStateM.Result ε σ α → σ
  | .ok _ s => s
  | .error _ s => s

@[simp] theorem left_ok (a : α) (s : σ) : left (.ok a s : EStateM.Result ε σ α) = s := rfl

@[simp] theorem left_error (e : ε) (s : σ) : left (.error e s : EStateM.Result ε σ α) = s := rfl

theorem bind_eq (x : EStateM ε σ α) (f : α → EStateM ε σ β) (s : σ) :
    (x >>= f) s = match x s with
      | .ok a t => f a t
      | .error e t => .error e t := rfl

variable {x : EStateM ε σ α} {f : α → EStateM ε σ β} {s t : σ}

theorem bind_ok {b : β} : (x >>= f) s = .ok b t ↔ ∃ a u, x s = .ok a u ∧ f a u = .ok b t := by
  rw [bind_eq]
  cases h : x s with
  | ok a u => simp
  | error e u => simp

/-- `x` keeps `P` on success and on failure. -/
def Keeps (P : σ → Prop) (x : EStateM ε σ α) : Prop := ∀ s, P s → P (left (x s))

theorem keeps_pure {P : σ → Prop} (a : α) : Keeps P (pure a : EStateM ε σ α) := fun _ h => h

theorem keeps_bind {P : σ → Prop} (hx : Keeps P x) (hf : ∀ a, Keeps P (f a)) :
    Keeps P (x >>= f) := by
  intro s hs
  have hleft := hx s hs
  rw [bind_eq]
  cases h : x s with
  | ok a t =>
    rw [h] at hleft
    exact hf a t hleft
  | error e t =>
    rw [h] at hleft
    exact hleft

variable {xs : List α}

theorem keeps_forM {P : σ → Prop} {f : α → EStateM ε σ PUnit} (h : ∀ x ∈ xs, Keeps P (f x)) :
    Keeps P (forM xs f) := by
  induction xs with
  | nil => exact keeps_pure _
  | cons x xs ih =>
    exact keeps_bind (h x (by simp)) fun _ => ih fun y hy => h y (by simp [hy])

theorem Keeps.ok {P : σ → Prop} (hx : Keeps P x) {a : α} (hs : P s) (h : x s = .ok a t) : P t := by
  have hleft := hx s hs
  rwa [h] at hleft

/-- From a state with `P`, a failure leaves a state with `P`. -/
def FailsIn (P : σ → Prop) (x : EStateM ε σ α) : Prop :=
  ∀ s, P s → ∀ e t, x s = .error e t → P t

theorem failsIn_bind {P : σ → Prop} (hx : Keeps P x) (hf : ∀ a, FailsIn P (f a)) :
    FailsIn P (x >>= f) := by
  intro s hs e t h
  have hleft := hx s hs
  rw [bind_eq] at h
  cases hrun : x s with
  | ok a u =>
    rw [hrun] at h hleft
    exact hf a u hleft e t h
  | error code u =>
    rw [hrun] at h hleft
    cases h
    exact hleft

theorem failsIn_modify (P : σ → Prop) (g : σ → σ) :
    FailsIn P (modify g : EStateM ε σ PUnit) := by
  intro s _ e t h
  cases h

theorem forM_ok_rec {f : α → EStateM ε σ PUnit} (P : List α → σ → Prop)
    (h : (forM xs f : EStateM ε σ PUnit) s = .ok ⟨⟩ t) (h0 : P [] s)
    (hstep : ∀ pre x u v, x ∈ xs → P pre u → f x u = .ok ⟨⟩ v → P (pre ++ [x]) v) : P xs t := by
  suffices key : ∀ (ys pre : List α) (u : σ), (∀ y ∈ ys, y ∈ xs) → P pre u →
      (forM ys f : EStateM ε σ PUnit) u = .ok ⟨⟩ t → P (pre ++ ys) t by
    simpa using key xs [] s (fun _ hy => hy) h0 h
  intro ys
  induction ys with
  | nil =>
    intro pre u _ hP hrun
    cases hrun
    simpa using hP
  | cons y ys ih =>
    intro pre u hmem hP hrun
    obtain ⟨⟨⟩, v, hv, hrest⟩ := bind_ok.mp hrun
    have hnext := hstep pre y u v (hmem y (by simp)) hP hv
    have hall := ih (pre ++ [y]) v (fun z hz => hmem z (by simp [hz])) hnext hrest
    simpa using hall

/-! ## Refinement -/

section
variable {δ τ : Type}

/-- From a state with `P`, `x` does on its states what `y` does on their images: a success leads to
`Q`, and a failure, which `y` has a code for, to `E`. -/
def Simulates (image : σ → τ) (code : ε → Option δ) (P Q E : σ → Prop) (x : EStateM ε σ α)
    (y : EStateM δ τ α) : Prop :=
  ∀ s, P s → match x s with
    | .ok a t => y (image s) = .ok a (image t) ∧ Q t
    | .error e t => (∃ d, code e = some d ∧ y (image s) = .error d (image t)) ∧ E t

variable {image : σ → τ} {code : ε → Option δ} {P Q R E : σ → Prop}
variable {x : EStateM ε σ α} {y : EStateM δ τ α}

theorem Simulates.bind {f : α → EStateM ε σ β} {g : α → EStateM δ τ β}
    (hx : Simulates image code P Q E x y) (hf : ∀ a, Simulates image code Q R E (f a) (g a)) :
    Simulates image code P R E (x >>= f) (y >>= g) := by
  intro s hs
  have hfirst := hx s hs
  rw [bind_eq, bind_eq]
  cases h : x s with
  | ok a t =>
    rw [h] at hfirst
    rw [hfirst.1]
    exact hf a t hfirst.2
  | error e t =>
    rw [h] at hfirst
    dsimp only at hfirst ⊢
    obtain ⟨⟨d, hd, hy⟩, hE⟩ := hfirst
    exact ⟨⟨d, hd, by rw [hy]⟩, hE⟩

variable {s t : σ}

theorem Simulates.ok (h : Simulates image code P Q E x y) {a : α} (hs : P s)
    (hrun : x s = .ok a t) : y (image s) = .ok a (image t) ∧ Q t := by
  have hstep := h s hs
  rwa [hrun] at hstep

theorem Simulates.error (h : Simulates image code P Q E x y) {e : ε} (hs : P s)
    (hrun : x s = .error e t) :
    (∃ d, code e = some d ∧ y (image s) = .error d (image t)) ∧ E t := by
  have hstep := h s hs
  rwa [hrun] at hstep

theorem Simulates.left_eq (h : Simulates image code P Q E x y) (hs : P s) :
    image (left (x s)) = left (y (image s)) := by
  cases hrun : x s with
  | ok a t => rw [(h.ok hs hrun).1, left_ok, left_ok]
  | error e t =>
    obtain ⟨⟨d, -, hy⟩, -⟩ := h.error hs hrun
    rw [hy, left_error, left_error]

end

end Transaction
