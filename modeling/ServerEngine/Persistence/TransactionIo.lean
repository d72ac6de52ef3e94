import Mathlib.Algebra.Order.BigOperators.Group.List
import Mathlib.Algebra.Order.Ring.Nat
import Mathlib.Data.Prod.Lex
import Mathlib.Logic.Function.Basic
import Mathlib.Logic.Relation

/-! # The transaction I/O executor

A job runs on whichever thread takes it: a worker, a call that waits for a batch, or the submission
that finds the queue full. Jobs call `run` themselves, so every thread has a stack of calls.
-/
namespace ServerEngine
open Relation

namespace TransactionIo

/-! ## The executor -/

/-- What a job does here: its calls of `run` or `run_workers`, each with the jobs it submits. -/
inductive Work
  | mk (runs : List (List Work))

def Work.runs : Work → List (List Work)
  | .mk runs => runs

/-- `transaction_io_job`, with its place in the order of submissions. -/
structure Job where
  number : Nat
  batch : Nat
  work : Work

/-- A count that `wait` sleeps on. -/
abbrev Awaited := { count : Nat // count ≠ 0 }

/-- Where `wait` is: `sleep` is about to compare the value, `blocked` waits for a notification. -/
inductive WaitStage
  | load | take | recheck
  | sleep (remaining : Awaited)
  | blocked (remaining : Awaited)

/-- A call on the stack of a thread; `caller` is code that is no job. -/
inductive Frame
  | caller (runs : List (List Work))
  | execute (job : Job) (runs : List (List Work))
  | submit (batch : Nat) (works : List Work)
  | enqueue (job : Job) (works : List Work)
  | wait (batch : Nat) (stage : WaitStage)
  | notify (batch : Nat)

def queueCapacity : Nat := 128

/-- What the threads share; the lists of jobs and batches that are through are kept beside it. -/
structure Shared where
  queue : List Job := []
  remaining : Nat → Nat := fun _ => 0
  batches : Nat := 0
  jobs : Nat := 0
  finished : List Nat := []
  returned : List Nat := []

/-- The next atomic step of a thread, and the batch it notifies; who is blocked wakes without a
notification. A worker between jobs has an empty stack and waits for one. -/
def advance (s : Shared) : List Frame → Option (Shared × List Frame × Option Nat)
  | [] =>
    match s.queue with
    | [] => none
    | job :: queue => some ({ s with queue }, [.execute job job.work.runs], none)
  | .caller (works :: runs) :: below =>
    some ({ s with batches := s.batches + 1 }, .submit s.batches works :: .caller runs :: below, none)
  | .caller [] :: below => some (s, below, none)
  | .execute job (works :: runs) :: below =>
    some ({ s with batches := s.batches + 1 },
      .submit s.batches works :: .execute job runs :: below, none)
  | .execute job [] :: below =>
    some ({ s with
        remaining := Function.update s.remaining job.batch (s.remaining job.batch - 1)
        finished := s.finished ++ [job.number] },
      if s.remaining job.batch = 1 then .notify job.batch :: below else below, none)
  | .submit batch (work :: works) :: below =>
    some ({ s with
        remaining := Function.update s.remaining batch (s.remaining batch + 1)
        jobs := s.jobs + 1 }, .enqueue ⟨s.jobs, batch, work⟩ works :: below, none)
  | .submit batch [] :: below => some (s, .wait batch .load :: below, none)
  | .enqueue job works :: below =>
    if s.queue.length = queueCapacity then
      some (s, .execute job job.work.runs :: .submit job.batch works :: below, none)
    else some ({ s with queue := s.queue ++ [job] }, .submit job.batch works :: below, none)
  | .wait batch .load :: below =>
    if s.remaining batch = 0 then some ({ s with returned := s.returned ++ [batch] }, below, none)
    else some (s, .wait batch .take :: below, none)
  | .wait batch .take :: below =>
    match s.queue with
    | [] => some (s, .wait batch .recheck :: below, none)
    | job :: queue =>
      some ({ s with queue }, .execute job job.work.runs :: .wait batch .load :: below, none)
  | .wait batch .recheck :: below =>
    if hne : s.remaining batch = 0 then some (s, .wait batch .load :: below, none)
    else some (s, .wait batch (.sleep ⟨s.remaining batch, hne⟩) :: below, none)
  | .wait batch (.sleep remaining) :: below =>
    if s.remaining batch = remaining then
      some (s, .wait batch (.blocked remaining) :: below, none)
    else some (s, .wait batch .load :: below, none)
  | .wait batch (.blocked remaining) :: below =>
    some (s, .wait batch (.sleep remaining) :: below, none)
  | .notify batch :: below => some (s, below, some batch)

/-- `notify_all`: who waits compares the value again. -/
def wake (woken : Option Nat) : List Frame → List Frame
  | .wait batch (.blocked remaining) :: below =>
    if woken = some batch then .wait batch (.sleep remaining) :: below
    else .wait batch (.blocked remaining) :: below
  | stack => stack

def blocked : List Frame → Bool
  | .wait _ (.blocked _) :: _ => true
  | _ => false

structure Machine where
  shared : Shared
  threads : List (List Frame)

/-- A thread advances, a blocked one only where wakes without a notification are allowed. -/
inductive Step (spurious : Bool) : Machine → Machine → Prop
  | intro {m : Machine} {i : Nat} {stack stack' : List Frame} {shared : Shared}
      {woken : Option Nat} (hi : m.threads[i]? = some stack)
      (h : advance m.shared stack = some (shared, stack', woken))
      (hblocked : blocked stack = true → spurious = true) :
      Step spurious m ⟨shared, (m.threads.set i stack').map (wake woken)⟩

/-- Threads that have not begun: workers without a job, and callers. -/
def Start (m : Machine) : Prop :=
  m.shared = {} ∧ ∀ stack ∈ m.threads, stack = [] ∨ ∃ runs, stack = [.caller runs]

def Reachable (m : Machine) : Prop := ∃ start, Start start ∧ ReflTransGen (Step true) start m

/-! ## Counting over the stacks -/

def Frame.job? : Frame → Option Job
  | .execute job _ | .enqueue job _ => some job
  | _ => none

/-- The batch of the `run` that the frame is in. -/
def Frame.owned : Frame → Option Nat
  | .submit batch _ | .wait batch _ => some batch
  | .enqueue job _ => some job.batch
  | _ => none

/-- How many frames of all stacks satisfy a predicate. -/
def total (p : Frame → Bool) (threads : List (List Frame)) : Nat :=
  (threads.map (List.countP p)).sum

variable {p : Frame → Bool} {threads : List (List Frame)} {stack stack' : List Frame} {i j : Nat}

theorem sum_map_set (f : List Frame → Nat) (hi : threads[i]? = some stack) (stack' : List Frame) :
    ((threads.set i stack').map f).sum + f stack = (threads.map f).sum + f stack' := by
  induction threads generalizing i with
  | nil => cases hi
  | cons first threads ih =>
    cases i with
    | zero =>
      cases hi
      simp
      omega
    | succ i =>
      have hrest := ih hi
      simp only [List.set_cons_succ, List.map_cons, List.sum_cons] at hrest ⊢
      omega

theorem total_set (hi : threads[i]? = some stack) (stack' : List Frame) :
    total p (threads.set i stack') + stack.countP p = total p threads + stack'.countP p :=
  sum_map_set (List.countP p) hi stack'

theorem le_total (hi : threads[i]? = some stack) : stack.countP p ≤ total p threads :=
  List.le_sum_of_mem (List.mem_map_of_mem (List.mem_of_getElem? hi))

/-- What two threads have counts for both. -/
theorem le_total_two (hi : threads[i]? = some stack) (hj : threads[j]? = some stack') (hne : j ≠ i) :
    stack.countP p + stack'.countP p ≤ total p threads := by
  have hset := total_set (p := p) hi []
  have hj' : (threads.set i [])[j]? = some stack' := by rw [List.getElem?_set_ne (Ne.symm hne), hj]
  have hle := le_total (p := p) hj'
  simp only [List.countP_nil] at hset
  omega

theorem total_pos (h : 0 < total p threads) : ∃ stack ∈ threads, ∃ frame ∈ stack, p frame = true := by
  by_contra hnone
  have hzero : total p threads = 0 := by
    apply List.sum_eq_zero
    intro count hcount
    obtain ⟨stack, hstack, rfl⟩ := List.mem_map.mp hcount
    rw [List.countP_eq_zero]
    exact fun frame hframe hp => hnone ⟨stack, hstack, frame, hframe, hp⟩
  omega

theorem wake_cases (woken : Option Nat) (stack : List Frame) : wake woken stack = stack ∨
    ∃ batch remaining below, stack = .wait batch (.blocked remaining) :: below ∧
      woken = some batch ∧ wake woken stack = .wait batch (.sleep remaining) :: below := by
  unfold wake
  split
  · split
    · exact .inr ⟨_, _, _, rfl, ‹_›, rfl⟩
    · exact .inl rfl
  · exact .inl rfl

/-- Waking does not change what the frames stand for. -/
structure Stable (p : Frame → Bool) : Prop where
  wait : ∀ batch stage stage', p (.wait batch stage) = p (.wait batch stage')

theorem total_wake (hp : Stable p) (woken : Option Nat) (threads : List (List Frame)) :
    total p (threads.map (wake woken)) = total p threads := by
  unfold total
  rw [List.map_map]
  congr 1
  apply List.map_congr_left
  intro stack _
  cases wake_cases woken stack with
  | inl hsame => exact congrArg (List.countP p) hsame
  | inr hwoken =>
    obtain ⟨batch, remaining, below, rfl, -, heq⟩ := hwoken
    rw [Function.comp_apply, heq, List.countP_cons, List.countP_cons,
      hp.wait batch (.sleep remaining) (.blocked remaining)]

/-! ## What the counts say -/

def holdsJob (q : Job → Bool) (frame : Frame) : Bool := frame.job?.any q

def owns (batch : Nat) (frame : Frame) : Bool := frame.owned == some batch

theorem holdsJob_stable (q : Job → Bool) : Stable (holdsJob q) := ⟨fun _ _ _ => rfl⟩

theorem owns_stable (batch : Nat) : Stable (owns batch) := ⟨fun _ _ _ => rfl⟩

/-- The jobs that are submitted and not through. -/
def Machine.held (m : Machine) (q : Job → Bool) : Nat :=
  m.shared.queue.countP q + total (holdsJob q) m.threads

def Machine.owners (m : Machine) (batch : Nat) : Nat := total (owns batch) m.threads

/-- The frames below the top have called something. -/
def Frame.Calls : Frame → Prop
  | .enqueue _ _ | .notify _ => False
  | .wait _ stage => stage = .load
  | _ => True

/-- A frame above a job belongs to a later batch than the job. -/
def Later (upper lower : Frame) : Prop :=
  ∀ job runs batch, lower = .execute job runs → upper.owned = some batch → job.batch < batch

structure Formed (stack : List Frame) : Prop where
  calls : ∀ frame ∈ stack.tail, frame.Calls
  later : stack.Pairwise Later

def WaitStage.Late : WaitStage → Prop
  | .load | .take => False
  | _ => True

/-- The batch that the frame touches. -/
def Frame.batch? : Frame → Option Nat
  | .execute job _ | .enqueue job _ => some job.batch
  | .submit batch _ | .wait batch _ | .notify batch => some batch
  | .caller _ => none

/-- What every interleaving keeps. -/
structure Safe (m : Machine) : Prop where
  bounded : m.shared.queue.length ≤ queueCapacity
  numbers : ∀ n, m.held (·.number == n) + m.shared.finished.count n =
    if n < m.shared.jobs then 1 else 0
  counted : ∀ batch, m.shared.remaining batch = m.held (·.batch == batch)
  owners : ∀ batch, m.owners batch + m.shared.returned.count batch =
    if batch < m.shared.batches then 1 else 0
  owned : ∀ batch, m.owners batch = 0 → m.shared.remaining batch = 0
  formed : ∀ stack ∈ m.threads, Formed stack
  late : ∀ batch stage below, .wait batch stage :: below ∈ m.threads → stage.Late →
    m.shared.queue.countP (·.batch == batch) = 0
  told : ∀ batch remaining below, .wait batch (.blocked remaining) :: below ∈ m.threads →
    m.shared.remaining batch = 0 → ∃ below', .notify batch :: below' ∈ m.threads

variable {s s' : Shared} {woken : Option Nat}

theorem advance_bounded (h : advance s stack = some (s', stack', woken))
    (hqueue : s.queue.length ≤ queueCapacity) : s'.queue.length ≤ queueCapacity := by
  unfold advance at h
  split at h <;> (try split at h) <;> cases h <;> simp_all <;> omega

theorem advance_numbers (h : advance s stack = some (s', stack', woken)) (n : Nat) :
    s'.queue.countP (·.number == n) + stack'.countP (holdsJob (·.number == n)) +
        s'.finished.count n + (if n < s.jobs then 1 else 0) =
      s.queue.countP (·.number == n) + stack.countP (holdsJob (·.number == n)) +
        s.finished.count n + (if n < s'.jobs then 1 else 0) := by
  unfold advance at h
  split at h <;> (try split at h) <;> cases h <;>
    simp_all [List.countP_cons, List.count_cons, holdsJob, Frame.job?, List.count_append] <;>
    (try split_ifs) <;> omega

theorem advance_counted (h : advance s stack = some (s', stack', woken))
    (hheld : ∀ batch, stack.countP (holdsJob (·.batch == batch)) ≤ s.remaining batch) (batch : Nat) :
    s'.remaining batch + s.queue.countP (·.batch == batch) +
        stack.countP (holdsJob (·.batch == batch)) =
      s.remaining batch + s'.queue.countP (·.batch == batch) +
        stack'.countP (holdsJob (·.batch == batch)) := by
  specialize hheld batch
  unfold advance at h
  split at h <;> (try split at h) <;> cases h <;>
    simp_all [List.countP_cons, holdsJob, Frame.job?, Function.update_apply] <;>
    (try split_ifs at hheld ⊢) <;> subst_vars <;> omega

theorem advance_owners (h : advance s stack = some (s', stack', woken)) (batch : Nat) :
    stack'.countP (owns batch) + s'.returned.count batch + (if batch < s.batches then 1 else 0) =
      stack.countP (owns batch) + s.returned.count batch + (if batch < s'.batches then 1 else 0) := by
  unfold advance at h
  split at h <;> (try split at h) <;> cases h <;>
    simp_all [List.countP_cons, List.count_cons, owns, Frame.owned, List.count_append] <;>
    (try split_ifs) <;> (try omega)

theorem advance_formed (h : advance s stack = some (s', stack', woken)) (hformed : Formed stack)
    (hbound : ∀ frame ∈ stack, ∀ job runs, frame = .execute job runs → job.batch < s.batches) :
    Formed stack' := by
  obtain ⟨hcalls, hlater⟩ := hformed
  unfold advance at h
  constructor
  · split at h <;> (try split at h) <;> cases h <;>
      simp_all only [List.tail_cons, List.mem_cons, forall_eq_or_imp] <;>
      grind [Frame.Calls, List.mem_of_mem_tail]
  · split at h <;> (try split at h) <;> cases h <;> simp_all [Later, Frame.owned] <;> grind

theorem advance_owned (h : advance s stack = some (s', stack', woken)) {batch : Nat}
    (hnone : stack'.countP (owns batch) = 0) : s'.remaining batch ≤ s.remaining batch ∧
      (stack.countP (owns batch) = 0 ∨ s.remaining batch = 0) := by
  unfold advance at h
  split at h <;> (try split at h) <;> cases h <;>
    simp_all [List.countP_cons, owns, Frame.owned, Function.update_apply] <;>
    grind

theorem advance_queue (h : advance s stack = some (s', stack', woken)) (batch : Nat) :
    s'.queue.countP (·.batch == batch) ≤ s.queue.countP (·.batch == batch) ∨
      0 < stack.countP (owns batch) := by
  unfold advance at h
  split at h <;> (try split at h) <;> cases h <;>
    simp_all [List.countP_cons, owns, Frame.owned]
  grind

theorem advance_woken (h : advance s stack = some (s', stack', woken)) {batch : Nat}
    (hwoken : woken = some batch) : stack = .notify batch :: stack' ∧ s' = s := by
  unfold advance at h
  split at h <;> (try split at h) <;> cases h <;> simp_all

/-- A thread that comes to a late stage has found the queue empty, and is blocked on the count. -/
theorem advance_wait {batch : Nat} {stage : WaitStage} {below : List Frame}
    (h : advance s stack = some (s', .wait batch stage :: below, woken)) (hlate : stage.Late)
    (hcalls : ∀ frame ∈ stack.tail, frame.Calls) :
    s' = s ∧ (s.queue = [] ∨ ∃ stage', stack = .wait batch stage' :: below ∧ stage'.Late) ∧
      ∀ remaining, stage = .blocked remaining → s.remaining batch = remaining := by
  unfold advance at h
  split at h <;> (try split at h) <;> cases h <;> simp_all [WaitStage.Late, Frame.Calls]

theorem advance_told (h : advance s stack = some (s', stack', woken)) {batch : Nat}
    (hsome : s.remaining batch ≠ 0) (hnone : s'.remaining batch = 0) :
    ∃ below, stack' = .notify batch :: below := by
  unfold advance at h
  split at h <;> (try split at h) <;> cases h <;>
    simp_all [Function.update_apply] <;> grind

/-! ## Every interleaving -/

variable {m m' : Machine}

theorem held_next (hi : m.threads[i]? = some stack) (q : Job → Bool) :
    (Machine.mk s' ((m.threads.set i stack').map (wake woken))).held q +
        m.shared.queue.countP q + stack.countP (holdsJob q) =
      m.held q + s'.queue.countP q + stack'.countP (holdsJob q) := by
  have hset := total_set (p := holdsJob q) hi stack'
  simp only [Machine.held, total_wake (holdsJob_stable q)]
  omega

theorem owners_next (hi : m.threads[i]? = some stack) (batch : Nat) :
    (Machine.mk s' ((m.threads.set i stack').map (wake woken))).owners batch +
        stack.countP (owns batch) = m.owners batch + stack'.countP (owns batch) := by
  rw [Machine.owners, total_wake (owns_stable batch)]
  exact total_set hi stack'

/-- A stack after a step is the new one or another thread's, woken or not. -/
theorem mem_next {top : List Frame}
    (h : top ∈ (m.threads.set i stack').map (wake woken)) :
    ∃ old, top = wake woken old ∧ (old = stack' ∨ ∃ j, j ≠ i ∧ m.threads[j]? = some old) := by
  obtain ⟨old, hold, rfl⟩ := List.mem_map.mp h
  obtain ⟨j, hj⟩ := List.mem_iff_getElem?.mp hold
  refine ⟨old, rfl, ?_⟩
  by_cases hji : j = i
  · rw [hji, List.getElem?_set_self'] at hj
    obtain ⟨_, _, heq⟩ := Option.map_eq_some_iff.mp hj
    exact .inl heq.symm
  · rw [List.getElem?_set_ne (Ne.symm hji)] at hj
    exact .inr ⟨j, hji, hj⟩

theorem wake_formed (woken : Option Nat) (h : Formed stack) : Formed (wake woken stack) := by
  cases wake_cases woken stack with
  | inl hsame => exact hsame.symm ▸ h
  | inr hwoken =>
    obtain ⟨_, _, _, rfl, -, heq⟩ := hwoken
    have hpair := List.pairwise_cons.mp h.later
    rw [heq]
    exact ⟨h.calls, List.pairwise_cons.mpr ⟨hpair.1, hpair.2⟩⟩

theorem wake_blocked {batch : Nat} {remaining : Awaited} {below : List Frame}
    (h : wake woken stack = .wait batch (.blocked remaining) :: below) :
    stack = .wait batch (.blocked remaining) :: below ∧ woken ≠ some batch := by
  unfold wake at h
  split at h
  · split at h <;> cases h
    exact ⟨rfl, ‹_›⟩
  · subst h
    simp_all

theorem wake_late {batch : Nat} {stage : WaitStage} {below : List Frame}
    (h : wake woken stack = .wait batch stage :: below) (hlate : stage.Late) :
    ∃ stage', stack = .wait batch stage' :: below ∧ stage'.Late := by
  cases wake_cases woken stack with
  | inl hsame => exact ⟨stage, hsame ▸ h, hlate⟩
  | inr hwoken =>
    obtain ⟨_, _, _, rfl, -, heq⟩ := hwoken
    cases heq.symm.trans h
    exact ⟨_, rfl, trivial⟩

/-- A job that is not through keeps its batch open. -/
theorem Safe.open (h : Safe m) {batch : Nat} (hheld : 0 < m.held (·.batch == batch)) :
    0 < m.owners batch ∧ m.shared.returned.count batch = 0 ∧ batch < m.shared.batches := by
  have hcounted := h.counted batch
  have howners := h.owners batch
  have howned := h.owned batch
  split_ifs at howners <;> omega

theorem held_pos {frame : Frame} {job : Job} (hstack : stack ∈ m.threads)
    (hframe : frame ∈ stack) (hjob : frame.job? = some job) :
    0 < m.held (·.batch == job.batch) := by
  obtain ⟨j, hj⟩ := List.mem_iff_getElem?.mp hstack
  have hle := le_total (p := holdsJob (·.batch == job.batch)) hj
  have hpos : 0 < stack.countP (holdsJob (·.batch == job.batch)) := by
    apply List.countP_pos_iff.mpr
    exact ⟨frame, hframe, by simp [holdsJob, hjob]⟩
  unfold Machine.held
  omega

theorem owners_pos {frame : Frame} {batch : Nat} (hstack : stack ∈ m.threads)
    (hframe : frame ∈ stack) (howned : frame.owned = some batch) : 0 < m.owners batch := by
  obtain ⟨j, hj⟩ := List.mem_iff_getElem?.mp hstack
  have hpos : 0 < stack.countP (owns batch) :=
    List.countP_pos_iff.mpr ⟨frame, hframe, by simp [owns, howned]⟩
  exact hpos.trans_le (le_total hj)

theorem Safe.advanced (h : Safe m) (hi : m.threads[i]? = some stack)
    (hstep : advance m.shared stack = some (s', stack', woken)) :
    Safe ⟨s', (m.threads.set i stack').map (wake woken)⟩ := by
  have hmem : stack ∈ m.threads := List.mem_of_getElem? hi
  have hcalls := (h.formed stack hmem).calls
  -- what another thread waits for, it owns alone
  have halone : ∀ {j : Nat} {batch : Nat} {stage : WaitStage} {below : List Frame}, j ≠ i →
      m.threads[j]? = some (.wait batch stage :: below) → stack.countP (owns batch) = 0 := by
    intro j batch stage below hne hj
    have hle := le_total_two (p := owns batch) hi hj hne
    have howners := h.owners batch
    rw [List.countP_cons_of_pos (by simp [owns, Frame.owned])] at hle
    unfold Machine.owners at howners
    split_ifs at howners <;> omega
  refine ⟨advance_bounded hstep h.bounded, ?_, ?_, ?_, ?_, ?_, ?_, ?_⟩
  · intro n
    have hheld := @held_next _ stack' _ s' woken _ hi (·.number == n)
    have hstep' := advance_numbers hstep n
    have hold := h.numbers n
    dsimp only
    split_ifs at * <;> omega
  · intro batch
    have hheld := @held_next _ stack' _ s' woken _ hi (·.batch == batch)
    have hle : ∀ b, stack.countP (holdsJob (·.batch == b)) ≤ m.shared.remaining b := by
      intro b
      rw [h.counted b]
      exact (le_total hi).trans (Nat.le_add_left _ _)
    have hstep' := advance_counted hstep hle batch
    have hold := h.counted batch
    dsimp only
    omega
  · intro batch
    have howners := @owners_next _ stack' _ s' woken _ hi batch
    have hstep' := advance_owners hstep batch
    have hold := h.owners batch
    dsimp only
    split_ifs at * <;> omega
  · intro batch hnone
    have howners := @owners_next _ stack' _ s' woken _ hi batch
    have hle := le_total (p := owns batch) hi
    have hold := h.owned batch
    unfold Machine.owners at howners hnone hold
    obtain ⟨hremaining, hreturned⟩ := @advance_owned _ _ _ _ _ hstep batch (by omega)
    dsimp only
    omega
  · intro top htop
    obtain ⟨old, rfl, hold⟩ := mem_next htop
    apply wake_formed
    cases hold with
    | inl heq =>
      rw [heq]
      apply advance_formed hstep (h.formed stack hmem)
      intro frame hframe job runs hexecute
      exact (h.open (held_pos hmem hframe (by rw [hexecute]; rfl))).2.2
    | inr hother =>
      obtain ⟨j, -, hj⟩ := hother
      exact h.formed old (List.mem_of_getElem? hj)
  · intro batch stage below htop hlate
    obtain ⟨old, heq, hold⟩ := mem_next htop
    obtain ⟨stage', rfl, hlate'⟩ := wake_late heq.symm hlate
    cases hold with
    | inl hnew =>
      obtain ⟨rfl, hqueue, -⟩ := advance_wait (hnew ▸ hstep) hlate' hcalls
      cases hqueue with
      | inl hempty => rw [hempty, List.countP_nil]
      | inr hbefore =>
        obtain ⟨before, rfl, hbefore⟩ := hbefore
        exact h.late batch before below hmem hbefore
    | inr hother =>
      obtain ⟨j, hne, hj⟩ := hother
      have hqueue := h.late batch stage' below (List.mem_of_getElem? hj) hlate'
      have hown := halone hne hj
      have hstep' := advance_queue hstep batch
      dsimp only
      omega
  · intro batch remaining below htop hzero
    obtain ⟨old, heq, hold⟩ := mem_next htop
    obtain ⟨rfl, hwoken⟩ := wake_blocked heq.symm
    cases hold with
    | inl hnew =>
      have hlate : (WaitStage.blocked remaining).Late := trivial
      obtain ⟨rfl, -, hremaining⟩ := advance_wait (hnew ▸ hstep) hlate hcalls
      exact absurd ((hremaining remaining rfl).symm.trans hzero) remaining.2
    | inr hother =>
      obtain ⟨j, -, hj⟩ := hother
      have hkept : ∀ (k : Nat) (below' : List Frame),
          (m.threads.set i stack')[k]? = some (.notify batch :: below') →
          .notify batch :: below' ∈ (m.threads.set i stack').map (wake woken) :=
        fun k below' hk => List.mem_map.mpr ⟨_, List.mem_of_getElem? hk, rfl⟩
      by_cases hbefore : m.shared.remaining batch = 0
      · obtain ⟨below', hnotify⟩ := h.told batch remaining below (List.mem_of_getElem? hj) hbefore
        obtain ⟨k, hk⟩ := List.mem_iff_getElem?.mp hnotify
        by_cases hki : k = i
        · rw [hki, hi] at hk
          cases hk
          cases hstep
          exact absurd rfl hwoken
        · exact ⟨below', hkept k below' (by rw [List.getElem?_set_ne (Ne.symm hki), hk])⟩
      · obtain ⟨below', rfl⟩ := advance_told hstep hbefore hzero
        refine ⟨below', hkept i below' ?_⟩
        rw [List.getElem?_set_self (List.getElem?_eq_some_iff.mp hi).1]

theorem Start.safe (h : Start m) : Safe m := by
  obtain ⟨hshared, hthreads⟩ := h
  have hframe : ∀ stack ∈ m.threads, ∀ frame ∈ stack, ∃ runs, frame = .caller runs := by
    intro stack hstack frame hframe
    cases hthreads stack hstack with
    | inl hempty => exact absurd hframe (hempty ▸ List.not_mem_nil)
    | inr hcaller =>
      obtain ⟨runs, rfl⟩ := hcaller
      exact ⟨runs, List.mem_singleton.mp hframe⟩
  have htotal : ∀ {p : Frame → Bool}, (∀ runs, p (.caller runs) = false) → total p m.threads = 0 := by
    intro p hp
    refine Nat.eq_zero_of_not_pos fun hpos => ?_
    obtain ⟨stack, hstack, frame, hmem, htrue⟩ := total_pos hpos
    obtain ⟨runs, rfl⟩ := hframe stack hstack frame hmem
    exact absurd htrue (by simp [hp])
  have hheld : ∀ q, m.held q = 0 := fun q => by
    rw [Machine.held, hshared, htotal fun _ => rfl]
    rfl
  have howners : ∀ batch, m.owners batch = 0 := fun batch => htotal fun _ => rfl
  have hwait : ∀ batch stage below, .wait batch stage :: below ∉ m.threads := by
    intro batch stage below hmem
    obtain ⟨runs, heq⟩ := hframe _ hmem _ List.mem_cons_self
    cases heq
  constructor
  case formed =>
    intro stack hstack
    cases hthreads stack hstack with
    | inl hempty => exact hempty.symm ▸ ⟨by simp, .nil⟩
    | inr hcaller =>
      obtain ⟨runs, rfl⟩ := hcaller
      exact ⟨by simp, List.pairwise_singleton _ _⟩
  case late => exact fun batch stage below hmem => absurd hmem (hwait batch stage below)
  case told => exact fun batch remaining below hmem => absurd hmem (hwait batch _ below)
  all_goals simp [hheld, howners, hshared]

theorem Reachable.next (h : Reachable m) (hi : m.threads[i]? = some stack)
    (hstep : advance m.shared stack = some (s', stack', woken)) :
    Reachable ⟨s', (m.threads.set i stack').map (wake woken)⟩ := by
  obtain ⟨start, hstart, hrun⟩ := h
  exact ⟨start, hstart, hrun.tail ⟨hi, hstep, fun _ => rfl⟩⟩

theorem Reachable.safe (h : Reachable m) : Safe m := by
  obtain ⟨start, hstart, hrun⟩ := h
  induction hrun with
  | refl => exact hstart.safe
  | tail _ hstep ih =>
    obtain ⟨hi, hadvance, -⟩ := hstep
    exact ih.advanced hi hadvance

theorem advance_none (h : advance s stack = none) : stack = [] := by
  unfold advance at h
  split at h <;> (try split at h) <;> simp_all

/-- Of blocked waits the one for the latest batch has nothing to wait for. -/
theorem Safe.unblocked (h : Safe m) (hbusy : ∃ stack ∈ m.threads, stack ≠ []) :
    ∃ stack ∈ m.threads, stack ≠ [] ∧ blocked stack = false := by
  by_contra hstuck
  have hblocked : ∀ stack ∈ m.threads, stack ≠ [] →
      ∃ batch remaining below, stack = .wait batch (.blocked remaining) :: below := by
    intro stack hstack hne
    have htrue : blocked stack = true := by
      by_contra hfalse
      exact hstuck ⟨stack, hstack, hne, Bool.not_eq_true _ ▸ hfalse⟩
    unfold blocked at htrue
    split at htrue
    · exact ⟨_, _, _, rfl⟩
    · cases htrue
  have hwait : ∀ k batch remaining below, m.shared.batches - batch = k →
      .wait batch (.blocked remaining) :: below ∉ m.threads := by
    intro k
    induction k using Nat.strong_induction_on with
    | _ k ih =>
      intro batch remaining below hk hmem
      have hqueue := h.late batch _ below hmem trivial
      have hcounted := h.counted batch
      by_cases hzero : m.shared.remaining batch = 0
      · obtain ⟨below', hnotify⟩ := h.told batch remaining below hmem hzero
        obtain ⟨_, _, _, heq⟩ := hblocked _ hnotify (List.cons_ne_nil _ _)
        cases heq
      · unfold Machine.held at hcounted
        obtain ⟨stack, hstack, frame, hframe, hholds⟩ :=
          @total_pos (holdsJob (·.batch == batch)) m.threads (by omega)
        obtain ⟨latest, remaining', below', rfl⟩ :=
          hblocked stack hstack (List.ne_nil_of_mem hframe)
        have htail : frame ∈ below' := by
          cases hframe with
          | head => cases hholds
          | tail _ htail => exact htail
        have hcall := (h.formed _ hstack).calls frame htail
        have hlater := (List.pairwise_cons.mp (h.formed _ hstack).later).1 frame htail
        cases frame with
        | execute job runs =>
          have hbatch : job.batch = batch := by simpa [holdsJob, Frame.job?] using hholds
          have hlt := hlater job runs latest rfl rfl
          have hopen := h.owners latest
          have hpos := owners_pos hstack List.mem_cons_self (show _ = some latest from rfl)
          split_ifs at hopen
          · exact ih (m.shared.batches - latest) (by omega) latest remaining' below' rfl hstack
          · omega
        | enqueue job works => exact hcall
        | caller runs => cases hholds
        | submit batch works => cases hholds
        | wait batch stage => cases hholds
        | notify batch => cases hholds
  obtain ⟨stack, hstack, hne⟩ := hbusy
  obtain ⟨batch, remaining, below, rfl⟩ := hblocked stack hstack hne
  exact hwait _ batch remaining below rfl hstack

/-! ## Every run ends -/

theorem Work.sizeOf_runs (work : Work) : sizeOf work = 1 + sizeOf work.runs := by
  cases work
  simp [Work.runs]

noncomputable def runsWeight (runs : List (List Work)) : Nat := 8 * sizeOf runs

noncomputable def Frame.weight : Frame → Nat
  | .caller runs => runsWeight runs + 1
  | .execute _ runs => runsWeight runs + 2
  | .submit _ works => 8 * sizeOf works + 2
  | .enqueue job works => runsWeight job.work.runs + 8 * sizeOf works + 6
  | .wait _ _ => 1
  | .notify _ => 1

/-- The calls and jobs that are still ahead. -/
noncomputable def Machine.weight (m : Machine) : Nat :=
  (m.shared.queue.map fun job => runsWeight job.work.runs + 3).sum +
    (m.threads.map fun stack => (stack.map Frame.weight).sum).sum

/-- How far a wait is from returning or being blocked, while the count stays the same. -/
def rank (s : Shared) : List Frame → Nat
  | .wait batch .load :: _ => if s.remaining batch = 0 then 0 else 4
  | .wait batch .take :: _ => if s.remaining batch = 0 then 2 else 3
  | .wait batch .recheck :: _ => if s.remaining batch = 0 then 1 else 2
  | .wait batch (.sleep remaining) :: _ => if s.remaining batch = remaining then 1 else 5
  | _ => 0

theorem advance_weight (h : advance s stack = some (s', stack', woken))
    (hblocked : blocked stack = false) :
    (s'.queue.map fun job => runsWeight job.work.runs + 3).sum + (stack'.map Frame.weight).sum <
        (s.queue.map fun job => runsWeight job.work.runs + 3).sum + (stack.map Frame.weight).sum ∨
      s' = s ∧ woken = none ∧ (stack'.map Frame.weight).sum = (stack.map Frame.weight).sum ∧
        rank s stack' < rank s stack := by
  unfold advance at h
  split at h <;> (try split at h) <;> cases h <;>
    simp_all [Frame.weight, runsWeight, rank, Work.sizeOf_runs, blocked] <;> (try split_ifs) <;> omega

theorem wake_none : wake none = id := by
  funext stack
  cases wake_cases none stack with
  | inl hsame => exact hsame
  | inr hwoken =>
    obtain ⟨_, _, _, -, hnone, -⟩ := hwoken
    cases hnone

theorem wake_weight (woken : Option Nat) (stack : List Frame) :
    ((wake woken stack).map Frame.weight).sum = (stack.map Frame.weight).sum := by
  cases wake_cases woken stack with
  | inl hsame => rw [hsame]
  | inr hwoken =>
    obtain ⟨_, _, _, rfl, -, heq⟩ := hwoken
    rw [heq]
    rfl

/-- Without spurious wakes there is no infinite run. -/
theorem step_wf : WellFounded fun m' m => Step false m m' := by
  let measure : Machine → Nat ×ₗ Nat := fun m =>
    toLex (m.weight, (m.threads.map (rank m.shared)).sum)
  refine Subrelation.wf (r := InvImage (· < ·) measure) ?_ (InvImage.wf measure wellFounded_lt)
  intro m' m hstep
  obtain ⟨hi, hadvance, hblocked⟩ := hstep
  rename_i i stack stack' shared woken
  have hset := sum_map_set (fun stack => (stack.map Frame.weight).sum) hi stack'
  have hweight : (Machine.mk shared ((m.threads.set i stack').map (wake woken))).weight +
      ((m.shared.queue.map fun job => runsWeight job.work.runs + 3).sum +
        (stack.map Frame.weight).sum) =
      m.weight + ((shared.queue.map fun job => runsWeight job.work.runs + 3).sum +
        (stack'.map Frame.weight).sum) := by
    simp only [Machine.weight, List.map_map, Function.comp_def, wake_weight]
    omega
  refine Prod.Lex.toLex_lt_toLex.mpr ?_
  cases advance_weight hadvance (by simpa using hblocked) with
  | inl hless => exact .inl (by omega)
  | inr hsame =>
    obtain ⟨rfl, rfl, hequal, hrank⟩ := hsame
    have hranks := sum_map_set (rank m.shared) hi stack'
    rw [wake_none, List.map_id] at hweight ⊢
    exact .inr ⟨by omega, by dsimp only; omega⟩

theorem Safe.progress (h : Safe m) (hbusy : ∃ stack ∈ m.threads, stack ≠ []) :
    ∃ m', Step false m m' := by
  obtain ⟨stack, hstack, hne, hblocked⟩ := h.unblocked hbusy
  obtain ⟨i, hi⟩ := List.mem_iff_getElem?.mp hstack
  cases hadvance : advance m.shared stack with
  | none => exact absurd (advance_none hadvance) hne
  | some next => exact ⟨_, hi, hadvance, by simp [hblocked]⟩

/-- A machine in which nothing can advance is through. -/
theorem Safe.through (h : Safe m) (hend : ∀ m', ¬Step false m m') :
    (∀ stack ∈ m.threads, stack = []) ∧ m.shared.queue = [] ∧
      (∀ n, m.shared.finished.count n = if n < m.shared.jobs then 1 else 0) ∧
      ∀ batch, m.shared.returned.count batch = if batch < m.shared.batches then 1 else 0 := by
  have hempty : ∀ stack ∈ m.threads, stack = [] := by
    by_contra hbusy
    push Not at hbusy
    obtain ⟨m', hstep⟩ := h.progress hbusy
    exact hend m' hstep
  have htotal : ∀ p : Frame → Bool, total p m.threads = 0 := by
    intro p
    refine Nat.eq_zero_of_not_pos fun hpos => ?_
    obtain ⟨stack, hstack, frame, hframe, -⟩ := total_pos hpos
    rw [hempty stack hstack] at hframe
    cases hframe
  have hheld : ∀ batch, m.held (·.batch == batch) = 0 := fun batch =>
    (h.counted batch).symm.trans (h.owned batch (htotal _))
  have hqueue : m.shared.queue = [] := by
    refine List.eq_nil_iff_forall_not_mem.mpr fun job hjob => ?_
    have hnone := List.countP_eq_zero.mp (Nat.eq_zero_of_add_eq_zero_right (hheld job.batch))
    exact hnone job hjob (beq_self_eq_true _)
  refine ⟨hempty, hqueue, fun n => ?_, fun batch => ?_⟩
  · rw [← h.numbers n, Machine.held, hqueue, htotal, List.countP_nil, zero_add, zero_add]
  · rw [← h.owners batch, Machine.owners, htotal, zero_add]

end TransactionIo

open TransactionIo

/-- No run returns before its jobs are through, and no job is lost or done twice; who still touches
the batch of a `run` that has returned is the notification. -/
theorem transaction_io_exactly_once {m : Machine} (h : Reachable m) :
    m.shared.queue.length ≤ queueCapacity ∧
      (∀ n, m.held (·.number == n) + m.shared.finished.count n = if n < m.shared.jobs then 1 else 0) ∧
      (∀ batch, m.shared.remaining batch = m.held (·.batch == batch)) ∧
      (∀ batch, m.shared.returned.count batch ≤ if batch < m.shared.batches then 1 else 0) ∧
      ∀ batch ∈ m.shared.returned, m.held (·.batch == batch) = 0 ∧
        ∀ stack ∈ m.threads, ∀ frame ∈ stack, frame.batch? = some batch → frame = .notify batch := by
  have hsafe := h.safe
  refine ⟨hsafe.bounded, hsafe.numbers, hsafe.counted, fun batch => ?_, fun batch hreturned => ?_⟩
  · rw [← hsafe.owners batch]
    exact Nat.le_add_left _ _
  · have hcount := List.count_pos_iff.mpr hreturned
    have howners := hsafe.owners batch
    have hzero : m.owners batch = 0 := by
      split_ifs at howners <;> omega
    have hheld := (hsafe.counted batch).symm.trans (hsafe.owned batch hzero)
    refine ⟨hheld, fun stack hstack frame hframe hbatch => ?_⟩
    cases frame with
    | notify other => rw [Option.some.inj hbatch]
    | caller runs => cases hbatch
    | execute job runs =>
      have hpos := held_pos hstack hframe (show _ = some job from rfl)
      rw [Option.some.inj hbatch] at hpos
      omega
    | enqueue job works =>
      have hpos := held_pos hstack hframe (show _ = some job from rfl)
      rw [Option.some.inj hbatch] at hpos
      omega
    | submit other works => exact absurd hzero (owners_pos hstack hframe hbatch).ne'
    | wait other stage => exact absurd hzero (owners_pos hstack hframe hbatch).ne'

/-- The call has returned, the worker that did its job is about to notify. -/
theorem transaction_io_exactly_once_notified : ∃ m, Reachable m ∧ m.shared.returned = [0] ∧
    m.threads = [[.caller []], [.notify 0]] ∧ m.held (·.batch == 0) = 0 := by
  have hstart : Reachable ⟨{}, [[.caller [[.mk []]]], []]⟩ := ⟨_, ⟨rfl, by simp⟩, .refl⟩
  have hrun := ((((((hstart.next (i := 0) rfl rfl).next (i := 0) rfl rfl).next (i := 0) rfl rfl).next
    (i := 1) rfl rfl).next (i := 1) rfl rfl).next (i := 0) rfl rfl).next (i := 0) rfl rfl
  exact ⟨_, hrun, rfl, rfl, ((transaction_io_exactly_once hrun).2.2.2.2 0 List.mem_cons_self).1⟩

end ServerEngine
