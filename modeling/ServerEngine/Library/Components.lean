import Mathlib.Data.List.Perm.Basic
import Mathlib.Data.List.Nodup

/-! # Records with independent components

A record whose components are copied one by one. Relations that read and write one component commute
with relations on another, so a run of assignments to distinct components may be reordered.
-/
namespace Components

variable {α β D F : Type}

/-! ## Components -/

/-- `copy f e d` is the record `d` with the component `f` of `e`. -/
structure Copies (copy : F → D → D → D) : Prop where
  same : ∀ f d, copy f d d = d
  last : ∀ f e e' d, copy f e (copy f e' d) = copy f e d
  comm : ∀ f g e e' d, f ≠ g → copy f e (copy g e' d) = copy g e' (copy f e d)

/-- The relation changes this component only, and does not look at the others. -/
structure LocalTo (copy : F → D → D → D) (f : F) (R : D → D → Prop) : Prop where
  frame : ∀ {d d'}, R d d' → d' = copy f d' d
  other : ∀ {d d' g} (e : D), g ≠ f → R d d' → R (copy g e d) (copy g e d')

variable {copy : F → D → D → D} {f g : F} {R S : D → D → Prop} {d d' : D}

theorem local_commute (hcopy : Copies copy) (hne : f ≠ g) (hR : LocalTo copy f R)
    (hS : LocalTo copy g S) {e : D} (hfirst : R d e) (hsecond : S e d') :
    ∃ e', S d e' ∧ R e' d' := by
  have hback : copy f d e = d := by
    rw [hR.frame hfirst, hcopy.last, hcopy.same]
  have hforth : copy g d' e = d' := (hS.frame hsecond).symm
  have hmeet : copy f d d' = copy g d' d := by
    calc copy f d d' = copy f d (copy g d' e) := by rw [hforth]
      _ = copy g d' (copy f d e) := hcopy.comm f g d d' e hne
      _ = copy g d' d := by rw [hback]
  refine ⟨copy f d d', ?_, ?_⟩
  · have hmoved := hS.other d hne hsecond
    rw [hback] at hmoved
    exact hmoved
  · have hmoved := hR.other d' (Ne.symm hne) hfirst
    rw [hforth] at hmoved
    rw [hmeet]
    exact hmoved

theorem local_of_updates {U : (D → D) → Prop} (hR : ∀ {d d'}, R d d' ↔ ∃ u, U u ∧ d' = u d)
    (hframe : ∀ u, U u → ∀ d, u d = copy f (u d) d)
    (hother : ∀ u, U u → ∀ g e d, g ≠ f → u (copy g e d) = copy g e (u d)) : LocalTo copy f R where
  frame := by
    intro d d' h
    obtain ⟨u, hu, rfl⟩ := hR.mp h
    exact hframe u hu d
  other := by
    intro d d' g e hne h
    obtain ⟨u, hu, rfl⟩ := hR.mp h
    exact hR.mpr ⟨u, hu, (hother u hu g e d hne).symm⟩

/-! ## Runs -/

/-- The relations of a list, one after the other. -/
inductive Runs (R : α → D → D → Prop) : List α → D → D → Prop
  | nil {d : D} : Runs R [] d d
  | cons {a : α} {as : List α} {d e d' : D} (h : R a d e) (hs : Runs R as e d') :
      Runs R (a :: as) d d'

variable {Q : α → D → D → Prop}

theorem runs_nil : Runs Q [] d d' ↔ d' = d := by
  constructor
  · intro h
    cases h
    rfl
  · intro h
    rw [h]
    exact .nil

variable {as : List α}

theorem runs_cons {a : α} : Runs Q (a :: as) d d' ↔ ∃ e, Q a d e ∧ Runs Q as e d' := by
  constructor
  · intro h
    cases h with
    | cons h hs => exact ⟨_, h, hs⟩
  · intro h
    obtain ⟨e, h, hs⟩ := h
    exact .cons h hs

theorem runs_mono {Q' : α → D → D → Prop} (hmono : ∀ a ∈ as, ∀ {d d'}, Q a d d' → Q' a d d')
    (h : Runs Q as d d') : Runs Q' as d d' := by
  induction h with
  | nil => exact .nil
  | cons h _ ih =>
    refine .cons (hmono _ List.mem_cons_self h) (ih fun a ha => ?_)
    exact hmono a (List.mem_cons_of_mem _ ha)

variable {bs : List β}

theorem runs_map {g : β → α} : Runs Q (bs.map g) d d' ↔ Runs (fun b => Q (g b)) bs d d' := by
  induction bs generalizing d with
  | nil => rw [List.map_nil, runs_nil, runs_nil]
  | cons b bs ih =>
    rw [List.map_cons, runs_cons, runs_cons]
    exact exists_congr fun e => and_congr_right fun _ => ih

theorem local_runs (hcopy : Copies copy) (h : ∀ a, LocalTo copy f (Q a)) (as : List α) :
    LocalTo copy f (Runs Q as) where
  frame := by
    intro d d' hrun
    induction hrun with
    | nil => exact (hcopy.same f _).symm
    | cons hstep hs ih =>
      rename_i a as d e d'
      calc d' = copy f d' e := ih
        _ = copy f d' (copy f e d) := by rw [← (h a).frame hstep]
        _ = copy f d' d := hcopy.last f d' e d
  other := by
    intro d d' g e hne hrun
    induction hrun with
    | nil => exact .nil
    | cons hstep _ ih => exact .cons ((h _).other e hne hstep) ih

theorem runs_perm (hcopy : Copies copy) (component : α → F)
    (hlocal : ∀ a, LocalTo copy (component a) (Q a)) {bs : List α} (hperm : as.Perm bs)
    (hnodup : (as.map component).Nodup) (h : Runs Q as d d') : Runs Q bs d d' := by
  induction hperm generalizing d d' with
  | nil => exact h
  | cons a _ ih =>
    obtain ⟨e, hstep, hs⟩ := runs_cons.mp h
    exact .cons hstep (ih (List.nodup_cons.mp hnodup).2 hs)
  | swap a b as =>
    obtain ⟨e, hb, hrest⟩ := runs_cons.mp h
    obtain ⟨e', ha, hs⟩ := runs_cons.mp hrest
    have hne : component b ≠ component a := by
      intro heq
      rw [List.map_cons, List.map_cons, heq] at hnodup
      exact (List.nodup_cons.mp hnodup).1 List.mem_cons_self
    obtain ⟨e₁, ha', hb'⟩ := local_commute hcopy hne (hlocal b) (hlocal a) hb ha
    exact .cons ha' (.cons hb' hs)
  | trans hfirst _ ih ih' => exact ih' ((hfirst.map component).nodup hnodup) (ih hnodup h)

theorem exists_perm_of_map {key : α → β} (h : (as.map key).Perm bs) :
    ∃ cs, as.Perm cs ∧ cs.map key = bs := by
  have hsame : List.Forall₂ (fun b a => b = key a) (as.map key) as := by
    rw [List.forall₂_map_left_iff]
    exact List.forall₂_same.mpr fun a _ => rfl
  obtain ⟨cs, hkeys, hperm⟩ := List.perm_comp_forall₂ h.symm hsame
  refine ⟨cs, hperm.symm, ?_⟩
  have heq : List.Forall₂ Eq bs (cs.map key) := List.forall₂_map_right_iff.mpr hkeys
  rw [List.forall₂_eq_eq_eq] at heq
  exact heq.symm

end Components
