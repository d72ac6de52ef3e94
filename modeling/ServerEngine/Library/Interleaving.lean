import Mathlib.Algebra.Order.BigOperators.Group.List
import Mathlib.Algebra.Order.Ring.Canonical
import Mathlib.Algebra.Order.Ring.Nat

/-! # Interleavings

Calls over one memory advance by atomic steps in any order. An invariant of the memory and of every
single call holds throughout when each step keeps them and leaves the other calls theirs.
-/
namespace Interleaving
open Relation

variable {Memory Call : Type}

/-- The memory and the calls on it in the order they began; a call that has returned stays. -/
structure Config (Memory Call : Type) where
  memory : Memory
  calls : List Call
  deriving DecidableEq

/-- One atomic step: a call begins, or one of the calls advances. -/
inductive Step (opens : Call → Prop) (advance : Memory → Call → Memory → Call → Prop) :
    Config Memory Call → Config Memory Call → Prop
  | opened {memory : Memory} {calls : List Call} {call : Call} : opens call →
    Step opens advance ⟨memory, calls⟩ ⟨memory, calls ++ [call]⟩
  | advanced {memory memory' : Memory} {calls : List Call} {call call' : Call} {i : Nat} :
    calls[i]? = some call → advance memory call memory' call' →
    Step opens advance ⟨memory, calls⟩ ⟨memory', calls.set i call'⟩

/-- What any interleaving leads to. -/
def Reachable (opens : Call → Prop) (advance : Memory → Call → Memory → Call → Prop)
    (start : Memory) (config : Config Memory Call) : Prop :=
  ReflTransGen (Step opens advance) ⟨start, []⟩ config

/-! ## The calls after a step -/

section Calls
variable {calls : List Call} {call : Call} {i : Nat} {a : Call}

theorem get_append_cases (h : (calls ++ [call])[i]? = some a) :
    calls[i]? = some a ∨ (i = calls.length ∧ a = call) := by
  rw [List.getElem?_append] at h
  split at h
  · exact .inl h
  · rename_i hge
    have hlt := (List.getElem?_eq_some_iff.mp h).1
    rw [List.length_singleton] at hlt
    have hzero : i - calls.length = 0 := by omega
    rw [hzero] at h
    exact .inr ⟨by omega, by simpa using h.symm⟩

theorem get_set_cases {k : Nat} (hk : calls[k]? = some call) {call' : Call}
    (h : (calls.set k call')[i]? = some a) :
    (i = k ∧ a = call') ∨ (i ≠ k ∧ calls[i]? = some a) := by
  have hlt := (List.getElem?_eq_some_iff.mp hk).1
  by_cases hik : i = k
  · rw [hik, List.getElem?_set_self hlt] at h
    exact .inl ⟨hik, (Option.some.inj h).symm⟩
  · rw [List.getElem?_set_ne (Ne.symm hik)] at h
    exact .inr ⟨hik, h⟩

end Calls

section Rules
variable {opens : Call → Prop} {advance : Memory → Call → Memory → Call → Prop} {start : Memory}

theorem Reachable.initial : Reachable opens advance start ⟨start, []⟩ := .refl

theorem Reachable.opened {memory : Memory} {calls : List Call} {call : Call}
    (h : Reachable opens advance start ⟨memory, calls⟩) (hcall : opens call) :
    Reachable opens advance start ⟨memory, calls ++ [call]⟩ :=
  h.tail (.opened hcall)

theorem Reachable.last {memory memory' : Memory} {calls : List Call} {call call' : Call}
    (h : Reachable opens advance start ⟨memory, calls ++ [call]⟩)
    (hstep : advance memory call memory' call') :
    Reachable opens advance start ⟨memory', calls ++ [call']⟩ := by
  have hget : (calls ++ [call])[calls.length]? = some call := List.getElem?_concat_length
  have hset : (calls ++ [call]).set calls.length call' = calls ++ [call'] := by simp
  rw [← hset]
  exact h.tail (.advanced hget hstep)

theorem Reachable.invariant {P : Config Memory Call → Prop} {config : Config Memory Call}
    (h : Reachable opens advance start config) (hstart : P ⟨start, []⟩)
    (hopened : ∀ memory calls call, P ⟨memory, calls⟩ → opens call → P ⟨memory, calls ++ [call]⟩)
    (hadvanced : ∀ memory memory' calls call call' i, P ⟨memory, calls⟩ →
      calls[i]? = some call → advance memory call memory' call' →
      P ⟨memory', calls.set i call'⟩) : P config := by
  induction h with
  | refl => exact hstart
  | tail _ hstep ih =>
    cases hstep with
    | opened hcall => exact hopened _ _ _ ih hcall
    | advanced hget hcall => exact hadvanced _ _ _ _ _ _ ih hget hcall

/-- A step keeps the memory's invariant and its own call's, and does no harm to other calls. -/
structure Preserves (opens : Call → Prop) (advance : Memory → Call → Memory → Call → Prop)
    (shared : Memory → Prop) (own : Memory → Call → Prop) (apart : Call → Call → Prop) : Prop where
  symm : ∀ a b, apart a b → apart b a
  opened : ∀ memory call, shared memory → opens call →
    own memory call ∧ ∀ other, apart call other
  advanced : ∀ memory call memory' call', shared memory → own memory call →
    advance memory call memory' call' → shared memory' ∧ own memory' call' ∧
      ∀ other, own memory other → apart call other → own memory' other ∧ apart call' other

/-- The invariants of the memory and of every call, with every two calls apart. -/
structure Holds (shared : Memory → Prop) (own : Memory → Call → Prop) (apart : Call → Call → Prop)
    (config : Config Memory Call) : Prop where
  shared : shared config.memory
  own : ∀ (i : Nat) (call : Call), config.calls[i]? = some call → own config.memory call
  apart : ∀ (i j : Nat) (a b : Call), i ≠ j → config.calls[i]? = some a → config.calls[j]? = some b →
    apart a b

variable {shared : Memory → Prop} {own : Memory → Call → Prop} {apart : Call → Call → Prop}

theorem Holds.opened {memory : Memory} {calls : List Call} {call : Call}
    (hp : Preserves opens advance shared own apart) (h : Holds shared own apart ⟨memory, calls⟩)
    (hcall : opens call) : Holds shared own apart ⟨memory, calls ++ [call]⟩ := by
  obtain ⟨hown, hapart⟩ := hp.opened memory call h.shared hcall
  refine ⟨h.shared, ?_, ?_⟩
  · intro i a hi
    rcases get_append_cases hi with hi | ⟨-, rfl⟩
    · exact h.own i a hi
    · exact hown
  · intro i j a b hne hi hj
    rcases get_append_cases hi with hi | ⟨hlast, rfl⟩
    · rcases get_append_cases hj with hj | ⟨-, rfl⟩
      · exact h.apart i j a b hne hi hj
      · exact hp.symm _ _ (hapart a)
    · exact hapart b

theorem Holds.advanced {memory memory' : Memory} {calls : List Call} {call call' : Call} {k : Nat}
    (hp : Preserves opens advance shared own apart) (h : Holds shared own apart ⟨memory, calls⟩)
    (hk : calls[k]? = some call) (hstep : advance memory call memory' call') :
    Holds shared own apart ⟨memory', calls.set k call'⟩ := by
  obtain ⟨hshared, hown, hothers⟩ :=
    hp.advanced memory call memory' call' h.shared (h.own k call hk) hstep
  have hrest : ∀ (i : Nat) (a : Call), i ≠ k → calls[i]? = some a →
      own memory' a ∧ apart call' a := fun i a hne hi =>
    hothers a (h.own i a hi) (h.apart k i call a (Ne.symm hne) hk hi)
  refine ⟨hshared, ?_, ?_⟩
  · intro i a hi
    rcases get_set_cases hk hi with ⟨-, rfl⟩ | ⟨hne, hi⟩
    · exact hown
    · exact (hrest i a hne hi).1
  · intro i j a b hij hi hj
    rcases get_set_cases hk hi with ⟨hik, rfl⟩ | ⟨hik, hi⟩
    · rcases get_set_cases hk hj with ⟨hjk, -⟩ | ⟨hjk, hj⟩
      · omega
      · exact (hrest j b hjk hj).2
    · rcases get_set_cases hk hj with ⟨-, hb⟩ | ⟨hjk, hj⟩
      · rw [hb]
        exact hp.symm _ _ (hrest i a hik hi).2
      · exact h.apart i j a b hij hi hj

theorem Preserves.reachable {config : Config Memory Call}
    (hp : Preserves opens advance shared own apart) (hstart : shared start)
    (h : Reachable opens advance start config) : Holds shared own apart config :=
  h.invariant ⟨hstart, by simp, by simp⟩ (fun _ _ _ hholds hcall => hholds.opened hp hcall)
    fun _ _ _ _ _ _ hholds hget hstep => hholds.advanced hp hget hstep

end Rules

section Sums
variable (f : Call → Nat) {calls : List Call} {k : Nat} {call : Call}

theorem sum_append_single (calls : List Call) (call : Call) :
    ((calls ++ [call]).map f).sum = (calls.map f).sum + f call := by
  simp

theorem sum_set (hk : calls[k]? = some call) (call' : Call) :
    ((calls.set k call').map f).sum + f call = (calls.map f).sum + f call' := by
  induction calls generalizing k with
  | nil => simp at hk
  | cons first rest ih =>
    cases k with
    | zero =>
      have hfirst : first = call := by simpa using hk
      simp [hfirst]
      omega
    | succ k =>
      have hrest := ih (by simpa using hk)
      simp only [List.set_cons_succ, List.map_cons, List.sum_cons]
      omega

theorem le_sum (hk : calls[k]? = some call) : f call ≤ (calls.map f).sum := by
  have hmem : call ∈ calls := List.mem_of_getElem? hk
  exact List.le_sum_of_mem (List.mem_map_of_mem hmem)

end Sums

section Schedules
variable {Choice : Type} {opens : Call → Prop} {next : Memory → Call → Choice → Memory × Call}
  {keep : Config Memory Call → Prop} [DecidablePred keep]

/-- The calls named by a schedule advance in turn, each from a state that `keep` allows. -/
def Config.follow (next : Memory → Call → Choice → Memory × Call)
    (keep : Config Memory Call → Prop) [DecidablePred keep] :
    List (Nat × Choice) → Config Memory Call → Option (Config Memory Call)
  | [], config => some config
  | (k, choice) :: rest, config =>
    if keep config then
      match config.calls[k]? with
      | none => none
      | some call =>
        let result := next config.memory call choice
        Config.follow next keep rest ⟨result.1, config.calls.set k result.2⟩
    else none

theorem Config.follow_steps {schedule : List (Nat × Choice)} {config config' : Config Memory Call}
    (h : config.follow next keep schedule = some config') :
    ReflTransGen (fun a b => keep a ∧
      Step opens (fun m c m' c' => ∃ choice, next m c choice = (m', c')) a b) config config' := by
  induction schedule generalizing config with
  | nil =>
    obtain rfl : config = config' := by simpa [Config.follow] using h
    exact .refl
  | cons entry rest ih =>
    obtain ⟨k, choice⟩ := entry
    unfold Config.follow at h
    split at h
    · rename_i hkeep
      split at h
      · cases h
      · rename_i call hcall
        exact .head ⟨hkeep, .advanced hcall ⟨choice, rfl⟩⟩ (ih h)
    · cases h

end Schedules

end Interleaving
