import Mathlib.Logic.Function.Basic

/-! # Programs of single steps

A program performs operations one after the other and forks tasks that are joined again. The state
changes by one operation at a time, and between two of them whoever else is at work may change it.
-/
namespace Programs

/-! ## Programs -/

/-- A program over operations with typed answers; tasks all come to a `Result`. -/
inductive Prog (Op : Type) (Answer : Op → Type) (Result : Type) : Type → Type 1
  | done {α : Type} (value : α) : Prog Op Answer Result α
  | call {α : Type} (op : Op) (next : Answer op → Prog Op Answer Result α) :
    Prog Op Answer Result α
  | fork {α : Type} {n : Nat} (tasks : Fin n → Prog Op Answer Result Result)
    (next : (Fin n → Result) → Prog Op Answer Result α) : Prog Op Answer Result α

variable {Op : Type} {Answer : Op → Type} {Result : Type} {State : Type}

namespace Prog
variable {α β : Type}

def bind : Prog Op Answer Result α → (α → Prog Op Answer Result β) → Prog Op Answer Result β
  | .done value, k => k value
  | .call op next, k => .call op fun answer => (next answer).bind k
  | .fork tasks next, k => .fork tasks fun results => (next results).bind k

instance : Monad (Prog Op Answer Result) where
  pure := .done
  bind := bind

def perform (op : Op) : Prog Op Answer Result (Answer op) := .call op .done

def together {n : Nat} (tasks : Fin n → Prog Op Answer Result Result) :
    Prog Op Answer Result (Fin n → Result) :=
  .fork tasks .done

end Prog

section Semantics
variable (Exec : State → (op : Op) → Answer op → State → Prop)

/-- One step: an operation, a step of a task, or the join of tasks that have all ended. -/
inductive Step : {α : Type} → State → Prog Op Answer Result α → State →
    Prog Op Answer Result α → Prop
  | call {α : Type} {s s' : State} {op : Op} {answer : Answer op}
    {next : Answer op → Prog Op Answer Result α} (h : Exec s op answer s') :
    Step s (.call op next) s' (next answer)
  | task {α : Type} {s s' : State} {n : Nat} {tasks : Fin n → Prog Op Answer Result Result}
    {next : (Fin n → Result) → Prog Op Answer Result α} (i : Fin n)
    {task : Prog Op Answer Result Result} (h : Step s (tasks i) s' task) :
    Step s (.fork tasks next) s' (.fork (Function.update tasks i task) next)
  | join {α : Type} {s : State} {n : Nat} {tasks : Fin n → Prog Op Answer Result Result}
    {next : (Fin n → Result) → Prog Op Answer Result α} (results : Fin n → Result)
    (h : ∀ i, tasks i = .done (results i)) : Step s (.fork tasks next) s (next results)

/-- A run of a program among others, whose steps are in `rely`. -/
inductive Run (rely : State → State → Prop) {α : Type} (s : State)
    (p : Prog Op Answer Result α) : State → Prog Op Answer Result α → Prop
  | refl : Run rely s p s p
  | own {s₁ s₂ : State} {p₁ p₂ : Prog Op Answer Result α} (hrun : Run rely s p s₁ p₁)
    (hstep : Step Exec s₁ p₁ s₂ p₂) : Run rely s p s₂ p₂
  | other {s₁ s₂ : State} {p₁ : Prog Op Answer Result α} (hrun : Run rely s p s₁ p₁)
    (hrely : rely s₁ s₂) : Run rely s p s₂ p₁

/-- Among steps in `rely`, a run from `pre` makes only steps in `guarantee` and ends in `post`. -/
def Meets (rely guarantee : State → State → Prop) {α : Type} (pre : State → Prop)
    (p : Prog Op Answer Result α) (post : α → State → Prop) : Prop :=
  ∀ s s' p', pre s → Run Exec rely s p s' p' →
    (∀ s'' p'', Step Exec s' p' s'' p'' → guarantee s' s'') ∧
      ∀ value, p' = .done value → post value s'

end Semantics

variable {Exec : State → (op : Op) → Answer op → State → Prop}
  {rely guarantee : State → State → Prop} {α β : Type}

variable {s : State} {p : Prog Op Answer Result α} {s' : State} {p' : Prog Op Answer Result α}

theorem Run.mono {rely' : State → State → Prop} (hrely : ∀ s s', rely s s' → rely' s s')
    (h : Run Exec rely s p s' p') : Run Exec rely' s p s' p' := by
  induction h with
  | refl => exact .refl
  | own _ hstep ih => exact ih.own hstep
  | other _ hother ih => exact ih.other (hrely _ _ hother)

variable {Exec' : State → (op : Op) → Answer op → State → Prop}

theorem Step.widen (hexec : ∀ s op answer s', Exec' s op answer s' → Exec s op answer s')
    (h : Step Exec' s p s' p') : Step Exec s p s' p' := by
  induction h with
  | call h => exact .call (hexec _ _ _ _ h)
  | task i _ ih => exact .task i ih
  | join results h => exact .join results h

theorem Run.widen (hexec : ∀ s op answer s', Exec' s op answer s' → Exec s op answer s')
    (h : Run Exec' rely s p s' p') : Run Exec rely s p s' p' := by
  induction h with
  | refl => exact .refl
  | own _ hstep ih => exact ih.own (hstep.widen hexec)
  | other _ hrely ih => exact ih.other hrely

theorem not_step_done {value : α} (h : Step Exec s (.done value) s' p') : False := by
  cases h

theorem step_bind {k : α → Prog Op Answer Result β} {q : Prog Op Answer Result β}
    (h : Step Exec s (p.bind k) s' q) : (∃ p', q = p'.bind k ∧ Step Exec s p s' p') ∨
      ∃ value, p = .done value ∧ Step Exec s (k value) s' q := by
  cases p with
  | done value => exact .inr ⟨value, rfl, h⟩
  | call op next =>
    left
    cases h with
    | call hexec => exact ⟨_, rfl, .call hexec⟩
  | fork tasks next =>
    left
    cases h with
    | task i htask => exact ⟨_, rfl, .task i htask⟩
    | join results hresults => exact ⟨_, rfl, .join results hresults⟩

/-! ## Rules -/

namespace Meets
variable {pre pre' : State → Prop} {post post' : α → State → Prop} {p : Prog Op Answer Result α}

theorem mono (h : Meets Exec rely guarantee pre p post) {rely' guarantee' : State → State → Prop}
    (hrely : ∀ s s', rely' s s' → rely s s')
    (hguarantee : ∀ s s', guarantee s s' → guarantee' s s') (hpre : ∀ s, pre' s → pre s)
    (hpost : ∀ value s, post value s → post' value s) :
    Meets Exec rely' guarantee' pre' p post' := by
  intro s s' p' hs hrun
  obtain ⟨hsteps, hend⟩ := h s s' p' (hpre s hs) (hrun.mono hrely)
  exact ⟨fun s'' p'' hstep => hguarantee _ _ (hsteps s'' p'' hstep),
    fun value hvalue => hpost _ _ (hend value hvalue)⟩

theorem conseq (h : Meets Exec rely guarantee pre p post) (hpre : ∀ s, pre' s → pre s)
    (hpost : ∀ value s, post value s → post' value s) : Meets Exec rely guarantee pre' p post' :=
  h.mono (fun _ _ h => h) (fun _ _ h => h) hpre hpost

theorem frame {kept : State → Prop} (h : Meets Exec rely guarantee pre p post)
    (hrely : ∀ s s', rely s s' → kept s → kept s')
    (hguarantee : ∀ s s', guarantee s s' → kept s → kept s') :
    Meets Exec rely guarantee (fun s => pre s ∧ kept s) p fun value s => post value s ∧ kept s := by
  intro s s' p' hs hrun
  have hkept : kept s' := by
    induction hrun with
    | refl => exact hs.2
    | own hbefore hstep ih => exact hguarantee _ _ ((h _ _ _ hs.1 hbefore).1 _ _ hstep) ih
    | other _ hother ih => exact hrely _ _ hother ih
  obtain ⟨hsteps, hend⟩ := h s s' p' hs.1 hrun
  exact ⟨hsteps, fun value hvalue => ⟨hend value hvalue, hkept⟩⟩

theorem restrict {Exec' : State → (op : Op) → Answer op → State → Prop}
    (hexec : ∀ s op answer s', Exec' s op answer s' → Exec s op answer s')
    (h : Meets Exec rely guarantee pre p post) : Meets Exec' rely guarantee pre p post := by
  intro s s' p' hs hrun
  obtain ⟨hsteps, hend⟩ := h s s' p' hs (hrun.widen hexec)
  exact ⟨fun s'' p'' hstep => hsteps s'' p'' (hstep.widen hexec), hend⟩

theorem of_pre (h : ∀ s, pre s → Meets Exec rely guarantee (· = s) p post) :
    Meets Exec rely guarantee pre p post :=
  fun s s' p' hs hrun => h s hs s s' p' rfl hrun

theorem done {value : α} (hstable : ∀ s s', rely s s' → pre s → pre s')
    (hpost : ∀ s, pre s → post value s) :
    Meets Exec rely guarantee pre (.done value : Prog Op Answer Result α) post := by
  intro s s' p' hs hrun
  have hkeep : p' = .done value ∧ pre s' := by
    induction hrun with
    | refl => exact ⟨rfl, hs⟩
    | own _ hstep ih =>
      obtain ⟨rfl, -⟩ := ih
      exact (not_step_done hstep).elim
    | other _ hrely ih => exact ⟨ih.1, hstable _ _ hrely ih.2⟩
  obtain ⟨rfl, hpre⟩ := hkeep
  refine ⟨fun s'' p'' hstep => (not_step_done hstep).elim, ?_⟩
  intro other hother
  cases hother
  exact hpost s' hpre

theorem call {op : Op} {next : Answer op → Prog Op Answer Result α}
    {mid : Answer op → State → Prop} (hstable : ∀ s s', rely s s' → pre s → pre s')
    (hexec : ∀ s answer s', pre s → Exec s op answer s' → guarantee s s' ∧ mid answer s')
    (hnext : ∀ answer, Meets Exec rely guarantee (mid answer) (next answer) post) :
    Meets Exec rely guarantee pre (.call op next) post := by
  intro s s' p' hs hrun
  have hwhere : (p' = .call op next ∧ pre s') ∨
      ∃ answer s₁, mid answer s₁ ∧ Run Exec rely s₁ (next answer) s' p' := by
    induction hrun with
    | refl => exact .inl ⟨rfl, hs⟩
    | own _ hstep ih =>
      right
      rcases ih with ⟨rfl, hpre⟩ | ⟨answer, s₁, hmid, hafter⟩
      · cases hstep with
        | call h => exact ⟨_, _, (hexec _ _ _ hpre h).2, .refl⟩
      · exact ⟨answer, s₁, hmid, hafter.own hstep⟩
    | other _ hrely ih =>
      rcases ih with ⟨rfl, hpre⟩ | ⟨answer, s₁, hmid, hafter⟩
      · exact .inl ⟨rfl, hstable _ _ hrely hpre⟩
      · exact .inr ⟨answer, s₁, hmid, hafter.other hrely⟩
  rcases hwhere with ⟨rfl, hpre⟩ | ⟨answer, s₁, hmid, hafter⟩
  · refine ⟨?_, fun value hvalue => by cases hvalue⟩
    intro s'' p'' hstep
    cases hstep with
    | call h => exact (hexec _ _ _ hpre h).1
  · exact hnext answer s₁ s' p' hmid hafter

theorem perform {op : Op} {post : Answer op → State → Prop}
    (hstable : ∀ s s', rely s s' → pre s → pre s')
    (hpost : ∀ answer s s', rely s s' → post answer s → post answer s')
    (hexec : ∀ s answer s', pre s → Exec s op answer s' → guarantee s s' ∧ post answer s') :
    Meets Exec rely guarantee pre (Prog.perform op : Prog Op Answer Result (Answer op)) post :=
  call hstable hexec fun answer => done (hpost answer) fun _ h => h

theorem bind {k : α → Prog Op Answer Result β} {post' : β → State → Prop}
    (h : Meets Exec rely guarantee pre p post)
    (hnext : ∀ value, Meets Exec rely guarantee (post value) (k value) post') :
    Meets Exec rely guarantee pre (p.bind k) post' := by
  intro s s' q hs hrun
  have hwhere : (∃ p', q = p'.bind k ∧ Run Exec rely s p s' p') ∨
      ∃ value s₁, post value s₁ ∧ Run Exec rely s₁ (k value) s' q := by
    induction hrun with
    | refl => exact .inl ⟨p, rfl, .refl⟩
    | own _ hstep ih =>
      rcases ih with ⟨p', rfl, hbefore⟩ | ⟨value, s₁, hpost, hafter⟩
      · rcases step_bind hstep with ⟨p'', rfl, hown⟩ | ⟨value, rfl, hown⟩
        · exact .inl ⟨p'', rfl, hbefore.own hown⟩
        · exact .inr ⟨value, _, (h _ _ _ hs hbefore).2 value rfl, Run.refl.own hown⟩
      · exact .inr ⟨value, s₁, hpost, hafter.own hstep⟩
    | other _ hrely ih =>
      rcases ih with ⟨p', rfl, hbefore⟩ | ⟨value, s₁, hpost, hafter⟩
      · exact .inl ⟨p', rfl, hbefore.other hrely⟩
      · exact .inr ⟨value, s₁, hpost, hafter.other hrely⟩
  rcases hwhere with ⟨p', rfl, hbefore⟩ | ⟨value, s₁, hpost, hafter⟩
  · constructor
    · intro s'' q' hstep
      rcases step_bind hstep with ⟨p'', -, hown⟩ | ⟨value, rfl, hown⟩
      · exact (h _ _ _ hs hbefore).1 s'' p'' hown
      · have hpost := (h _ _ _ hs hbefore).2 value rfl
        exact (hnext value _ _ _ hpost .refl).1 s'' q' hown
    · intro value hvalue
      cases p' with
      | done middle =>
        have hpost := (h _ _ _ hs hbefore).2 middle rfl
        exact (hnext middle _ _ _ hpost .refl).2 value hvalue
      | call op next => cases hvalue
      | fork tasks next => cases hvalue
  · exact hnext value s₁ s' q hpost hafter

/-- What each task sees of the others: their guarantees, and what the whole program relies on. -/
def others {n : Nat} (rely : State → State → Prop) (guarantees : Fin n → State → State → Prop)
    (i : Fin n) (s s' : State) : Prop :=
  rely s s' ∨ ∃ j, j ≠ i ∧ guarantees j s s'

/-- Tasks that respect each other reach what each reaches among the others. -/
theorem fork {n : Nat} {tasks : Fin n → Prog Op Answer Result Result}
    {next : (Fin n → Result) → Prog Op Answer Result α}
    {guarantees : Fin n → State → State → Prop} {pres : Fin n → State → Prop}
    {posts : Fin n → Result → State → Prop} (hpre : ∀ s, pre s → ∀ i, pres i s)
    (hjoin : ∀ (results : Fin n → Result) s, (∀ i, posts i (results i) s) → guarantee s s)
    (hsub : ∀ i s s', guarantees i s s' → guarantee s s')
    (htasks : ∀ i, Meets Exec (others rely guarantees i) (guarantees i) (pres i) (tasks i) (posts i))
    (hnext : ∀ results, Meets Exec rely guarantee (fun s => ∀ i, posts i (results i) s)
      (next results) post) :
    Meets Exec rely guarantee pre (.fork tasks next) post := by
  intro s s' p' hs hrun
  have hwhere : (∃ tasks', p' = .fork tasks' next ∧
        ∀ i, Run Exec (others rely guarantees i) s (tasks i) s' (tasks' i)) ∨
      ∃ results s₁, (∀ i, posts i (results i) s₁) ∧
        Run Exec rely s₁ (next results) s' p' := by
    induction hrun with
    | refl => exact .inl ⟨tasks, rfl, fun i => .refl⟩
    | @own s₁ s₂ p₁ p₂ _ hstep ih =>
      rcases ih with ⟨tasks', rfl, hruns⟩ | ⟨results, s₀, hposts, hafter⟩
      · cases hstep with
        | @task _ _ _ _ _ _ j task hown =>
          refine .inl ⟨_, rfl, ?_⟩
          intro i
          by_cases hij : i = j
          · subst hij
            rw [Function.update_self]
            exact (hruns i).own hown
          · rw [Function.update_of_ne hij]
            have hguarantee := (htasks j s s₁ _ (hpre s hs j) (hruns j)).1 _ _ hown
            exact (hruns i).other (.inr ⟨j, Ne.symm hij, hguarantee⟩)
        | join results hresults =>
          refine .inr ⟨results, s₁, ?_, .refl⟩
          intro i
          exact (htasks i s s₁ _ (hpre s hs i) (hruns i)).2 _ (hresults i)
      · exact .inr ⟨results, s₀, hposts, hafter.own hstep⟩
    | other _ hrely ih =>
      rcases ih with ⟨tasks', rfl, hruns⟩ | ⟨results, s₀, hposts, hafter⟩
      · exact .inl ⟨tasks', rfl, fun i => (hruns i).other (.inl hrely)⟩
      · exact .inr ⟨results, s₀, hposts, hafter.other hrely⟩
  rcases hwhere with ⟨tasks', rfl, hruns⟩ | ⟨results, s₁, hposts, hafter⟩
  · refine ⟨?_, fun value hvalue => by cases hvalue⟩
    intro s'' p'' hstep
    cases hstep with
    | @task _ _ _ _ _ _ j task hown =>
      exact hsub j _ _ ((htasks j s s' _ (hpre s hs j) (hruns j)).1 _ _ hown)
    | join results hresults =>
      apply hjoin results
      intro i
      exact (htasks i s s' _ (hpre s hs i) (hruns i)).2 _ (hresults i)
  · exact hnext results s₁ s' p' hposts hafter

end Meets

section Failing
variable {Code : Type} {pre : State → Prop} {failed : Code → State → Prop}

def Ends (post : α → State → Prop) (failed : Code → State → Prop) :
    Except Code α → State → Prop
  | .ok value, s => post value s
  | .error code, s => failed code s

/-- `Meets` for a program that may fail. -/
abbrev MeetsOr (Exec : State → (op : Op) → Answer op → State → Prop)
    (rely guarantee : State → State → Prop) (pre : State → Prop)
    (p : ExceptT Code (Prog Op Answer Result) α) (post : α → State → Prop)
    (failed : Code → State → Prop) : Prop :=
  Meets Exec rely guarantee pre p.run (Ends post failed)

theorem MeetsOr.bind {post : α → State → Prop} {post' : β → State → Prop}
    {p : ExceptT Code (Prog Op Answer Result) α}
    {k : α → ExceptT Code (Prog Op Answer Result) β}
    (hstable : ∀ code s s', rely s s' → failed code s → failed code s')
    (h : MeetsOr Exec rely guarantee pre p post failed)
    (hnext : ∀ value, MeetsOr Exec rely guarantee (post value) (k value) post' failed) :
    MeetsOr Exec rely guarantee pre (p >>= k) post' failed := by
  refine Meets.bind h ?_
  intro result
  cases result with
  | ok value => exact hnext value
  | error code => exact Meets.done (hstable code) fun _ h => h

theorem MeetsOr.pure {post : α → State → Prop} {value : α}
    (hstable : ∀ s s', rely s s' → pre s → pre s') (hpost : ∀ s, pre s → post value s) :
    MeetsOr Exec rely guarantee pre
      (Pure.pure value : ExceptT Code (Prog Op Answer Result) α) post failed :=
  Meets.done hstable hpost

theorem MeetsOr.throw {post : α → State → Prop} {code : Code}
    (hstable : ∀ s s', rely s s' → pre s → pre s') (hpost : ∀ s, pre s → failed code s) :
    MeetsOr Exec rely guarantee pre
      (MonadExcept.throw code : ExceptT Code (Prog Op Answer Result) α) post failed :=
  Meets.done hstable hpost

end Failing

end Programs
