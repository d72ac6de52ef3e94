import Mathlib.Data.Nat.Bitwise
import ServerEngine.Lifecycle.Gate

/-! # READY access

The gate counts the tokens and the threads between `try_enter` and their `leave`. A coordinator
inside a construction or an unload is alone, and a project is destroyed when the count is zero.
-/
namespace ServerEngine
open Interleaving AccessThread ProjectActivityGate

/-! ## The gate word -/

namespace ProjectActivityGate

theorem activeCount_eq (gate : ProjectActivityGate) : gate.activeCount = gate.state % 2 ^ 63 :=
  Nat.and_two_pow_sub_one_eq_mod gate.state 63

theorem closed_eq (value : Nat) : (value &&& closedMask = 0) ↔ value / 2 ^ 63 % 2 = 0 := by
  have hbit : value &&& closedMask = (value.testBit 63).toNat * 2 ^ 63 := Nat.and_two_pow value 63
  rw [hbit, Nat.testBit_eq_decide_div_mod_eq]
  have hcases : value / 2 ^ 63 % 2 = 0 ∨ value / 2 ^ 63 % 2 = 1 := by omega
  rcases hcases with hbit | hbit <;> simp

theorem admits_lt {value : Nat} (hvalue : value < 2 ^ 64) (h : admits value = true) :
    value + 1 < 2 ^ 63 := by
  have hmod : value &&& countMask = value % 2 ^ 63 := Nat.and_two_pow_sub_one_eq_mod value 63
  have hmask : countMask = 2 ^ 63 - 1 := rfl
  obtain ⟨hopen, hcount⟩ : value &&& closedMask = 0 ∧ value &&& countMask ≠ countMask := by
    simpa [admits] using h
  rw [closed_eq] at hopen
  omega

theorem closeGate_state {gate : ProjectActivityGate} (h : gate.state < 2 ^ 63) :
    gate.closeGate.state = 2 ^ 63 + gate.state := by
  have hor := Nat.two_pow_add_eq_or_of_lt h 1
  rw [Nat.mul_one, Nat.lor_comm] at hor
  exact hor.symm

theorem leave_state {gate : ProjectActivityGate} (hpos : 0 < gate.state) :
    gate.leave.state = gate.state - 1 := by
  exact if_neg (by omega)

end ProjectActivityGate

/-! ## Tokens, entrants and coordinators -/

def AccessStage.entrants : AccessStage → Nat
  | .reloadLifecycle _ | .refuse _ _ | .loadProject _ | .assign _ _ => 1
  | _ => 0

def AccessStage.inside : AccessStage → Bool
  | .construct | .publishProject | .openGate | .storeReady | .abandonProject | .storeAbandoned
  | .closeGate | .stop | .waitDrained | .destroyProject | .storeUnloaded => true
  | _ => false

/-- The thread carries out `load`, `build`, `rebuild` or `unload`. -/
def AccessStage.coordinates : AccessStage → Bool
  | .reserveConstruction | .beginUnload => true
  | stage => stage.inside

def AfterReset.variables : AfterReset → List Nat
  | .transfer source => [source]
  | _ => []

def AccessStage.variables : AccessStage → List Nat
  | .reset v next => v :: next.variables
  | .transfer target source => [target, source]
  | .take v _ | .loadLifecycle v | .loadGate v | .enter v _ | .reloadLifecycle v | .refuse v _
  | .loadProject v | .assign v _ => [v]
  | _ => []

def AccessStage.emptied : AccessStage → List Nat
  | .transfer v _ | .take v _ => [v]
  | _ => []

namespace AccessThread

def tokens (t : AccessThread) : Nat := (t.access.map fun a => a.toList.length).sum

def holds (t : AccessThread) : Nat := t.tokens + t.stage.entrants

structure Settled (t : AccessThread) : Prop where
  inRange : ∀ v ∈ t.stage.variables, v < t.access.length
  distinct : t.stage.variables.Nodup
  emptied : ∀ v ∈ t.stage.emptied, t.value v = none

end AccessThread

namespace ProjectManager

structure Live (m : ProjectManager) (p : Nat) : Prop where
  owned : m.project = some p
  last : p = m.published
  period : m.lifecycle = .ready ∨ m.lifecycle = .draining

def views (m : ProjectManager) : AccessStage → List Nat
  | .assign _ p => [p]
  | .loadProject _ => [m.published]
  | _ => []

structure Tokens (m : ProjectManager) (t : AccessThread) : Prop where
  access : ∀ p, some p ∈ t.access → m.Live p
  views : ∀ p ∈ m.views t.stage, m.Live p

/-- What a coordinator relies on within a construction or an unload. -/
def Phase (m : ProjectManager) : AccessStage → Prop
  | .construct | .publishProject | .abandonProject | .storeAbandoned =>
    m.lifecycle = .constructing ∧ m.project = none ∧ m.activity.state = 2 ^ 63
  | .openGate =>
    m.lifecycle = .constructing ∧ m.project = some m.published ∧ m.activity.state = 2 ^ 63
  | .storeReady =>
    m.lifecycle = .constructing ∧ m.project = some m.published ∧ m.activity.state < 2 ^ 63
  | .closeGate =>
    m.lifecycle = .draining ∧ m.project = some m.published ∧ m.activity.state < 2 ^ 63
  | .stop | .waitDrained =>
    m.lifecycle = .draining ∧ m.project = some m.published ∧ 2 ^ 63 ≤ m.activity.state
  | .destroyProject =>
    m.lifecycle = .draining ∧ m.project = some m.published ∧ m.activity.state = 2 ^ 63
  | .storeUnloaded =>
    m.lifecycle = .draining ∧ m.project = none ∧ m.activity.state = 2 ^ 63
  | _ => True

structure Shared (m : ProjectManager) : Prop where
  ready : m.lifecycle = .ready → m.project = some m.published ∧ m.activity.state < 2 ^ 63
  unloaded : m.lifecycle = .unloaded → m.project = none ∧ m.activity.state = 2 ^ 63
  handed : ∀ p ∈ m.handed, m.Live p

/-- The open or closed gate counts `n`. -/
structure Counts (m : ProjectManager) (base n : Nat) : Prop where
  bit : base = 0 ∨ base = 2 ^ 63
  state : m.activity.state = base + n
  bound : n < 2 ^ 63

end ProjectManager

def holders (config : AccessConfig) : Nat :=
  config.memory.handed.length + (config.calls.map AccessThread.holds).sum

structure AccessSafe (config : AccessConfig) : Prop where
  counted : ∃ base, config.memory.Counts base (holders config)
  shared : config.memory.Shared
  tokens : ∀ (i : Nat) (t : AccessThread), config.calls[i]? = some t → config.memory.Tokens t
  phase : ∀ (i : Nat) (t : AccessThread), config.calls[i]? = some t → config.memory.Phase t.stage
  settled : ∀ (i : Nat) (t : AccessThread), config.calls[i]? = some t → t.Settled
  single : ∀ (i j : Nat) (a b : AccessThread), config.calls[i]? = some a →
    config.calls[j]? = some b → a.stage.inside → b.stage.inside → i = j

namespace AccessThread

section Variables
variable {t : AccessThread} {v : Nat} {a : ProjectAccess} {stage : AccessStage}

theorem value_of_lt (h : v < t.access.length) : t.access[v]? = some (t.value v) := by
  unfold value
  rw [List.getElem?_eq_getElem h]
  rfl

theorem mem_of_value {p : Nat} (h : t.value v = some p) : some p ∈ t.access := by
  have hget : t.access[v]? = some (some p) := by
    unfold value at h
    cases hx : t.access[v]? with
    | none => simp [hx] at h
    | some b => simpa [hx] using h
  exact List.mem_of_getElem? hget

theorem mem_store {p : Nat} (h : some p ∈ (t.store v a).access) :
    some p ∈ t.access ∨ a = some p := by
  have hmem : some p ∈ t.access.set v a := h
  rcases List.mem_or_eq_of_mem_set hmem with hold | hnew
  · exact .inl hold
  · exact .inr hnew.symm

theorem store_tokens (h : v < t.access.length) :
    (t.store v a).tokens + (t.value v).toList.length = t.tokens + a.toList.length :=
  sum_set (fun b : ProjectAccess => b.toList.length) (value_of_lt h) a

theorem store_length : (t.store v a).access.length = t.access.length := List.length_set

theorem store_value_self (h : v < t.access.length) : (t.store v a).value v = a := by
  show ((t.access.set v a)[v]?).join = a
  rw [List.getElem?_set_self h]
  rfl

theorem store_value_ne {w : Nat} (h : v ≠ w) : (t.store v a).value w = t.value w := by
  show ((t.access.set v a)[w]?).join = _
  rw [List.getElem?_set_ne h]
  rfl

theorem tokens_pos {p : Nat} (h : some p ∈ t.access) : 0 < t.tokens := by
  obtain ⟨v, hv⟩ := List.getElem?_of_mem h
  have hle := le_sum (fun b : ProjectAccess => b.toList.length) hv
  exact Nat.lt_of_lt_of_le Nat.one_pos hle

@[simp] theorem goto_access : (t.goto stage).access = t.access := rfl

@[simp] theorem goto_stage : (t.goto stage).stage = stage := rfl

@[simp] theorem goto_tokens : (t.goto stage).tokens = t.tokens := rfl

@[simp] theorem goto_value : (t.goto stage).value v = t.value v := rfl

@[simp] theorem store_stage : (t.store v a).stage = t.stage := rfl

end Variables

end AccessThread

/-! ## Steps of the tasks -/

namespace ProjectManager

theorem Live.congr {m m' : ProjectManager} {p : Nat} (h : m.Live p)
    (hlifecycle : m'.lifecycle = m.lifecycle) (hproject : m'.project = m.project)
    (hpublished : m'.published = m.published) : m'.Live p :=
  ⟨by rw [hproject]; exact h.owned, by rw [hpublished]; exact h.last,
    by rw [hlifecycle]; exact h.period⟩

structure Quiet (base n : Nat) (m : ProjectManager) (t : AccessThread) (m' : ProjectManager)
    (t' : AccessThread) : Prop where
  lifecycle : m'.lifecycle = m.lifecycle
  project : m'.project = m.project
  published : m'.published = m.published
  counts : ∃ n', m'.Counts base n' ∧
    n' + (m.handed.length + t.holds) = n + (m'.handed.length + t'.holds) ∧
    (base = 2 ^ 63 → n' ≤ n)
  tokens : m'.Tokens t'
  handed : ∀ p ∈ m'.handed, m'.Live p
  settled : t'.Settled
  outside : t'.stage.inside = false

section Tasks
variable {base n : Nat} {m : ProjectManager} {t : AccessThread} {choice : AccessChoice}

@[simp] theorem leave_lifecycle : m.leave.lifecycle = m.lifecycle := by simp only [leave]

@[simp] theorem leave_project : m.leave.project = m.project := by simp only [leave]

@[simp] theorem leave_published : m.leave.published = m.published := by simp only [leave]

@[simp] theorem leave_handed : m.leave.handed = m.handed := by simp only [leave]

theorem Live.leave {p : Nat} (h : m.Live p) : m.leave.Live p :=
  h.congr leave_lifecycle leave_project leave_published

theorem leave_views (stage : AccessStage) : m.leave.views stage = m.views stage := by
  cases stage <;> simp [views]

theorem Counts.leave (h : m.Counts base n) (hpos : 0 < n) : m.leave.Counts base (n - 1) := by
  have hbit := h.bit
  have hstate := h.state
  have hbound := h.bound
  have hleave : m.leave.activity.state = m.activity.state - 1 :=
    leave_state (by omega)
  exact ⟨hbit, by omega, by omega⟩

theorem quiet_goto {stage : AccessStage} (hc : m.Counts base n) (hs : m.Shared)
    (ht : m.Tokens t) (hentrants : stage.entrants = t.stage.entrants)
    (hviews : ∀ p ∈ m.views stage, m.Live p) (hsettled : (t.goto stage).Settled)
    (houtside : stage.inside = false) : Quiet base n m t m (t.goto stage) := by
  refine ⟨rfl, rfl, rfl, ⟨n, hc, ?_, fun _ => Nat.le_refl n⟩, ⟨ht.access, hviews⟩, hs.handed,
    hsettled, houtside⟩
  have hholds : (t.goto stage).holds = t.holds := by
    unfold holds
    simp only [goto_tokens, goto_stage, hentrants]
  omega

theorem quiet_leave {stage : AccessStage} (hc : m.Counts base n) (hs : m.Shared)
    (ht : m.Tokens t) (hle : m.handed.length + t.holds ≤ n)
    (hentrants : stage.entrants + 1 = t.stage.entrants) (hviews : m.views stage = [])
    (hsettled : (t.goto stage).Settled) (houtside : stage.inside = false) :
    Quiet base n m t m.leave (t.goto stage) := by
  have hholds : (t.goto stage).holds + 1 = t.holds := by
    unfold holds
    simp only [goto_tokens, goto_stage]
    omega
  have hcounts := hc.leave (by omega)
  have hlower : n - 1 ≤ n := Nat.sub_le n 1
  refine ⟨leave_lifecycle, leave_project, leave_published, ⟨n - 1, hcounts, ?_, fun _ => hlower⟩,
    ⟨fun p hp => (ht.access p hp).leave, ?_⟩, ?_, hsettled, houtside⟩
  · rw [leave_handed]
    omega
  · intro p hp
    rw [leave_views, goto_stage, hviews] at hp
    simp at hp
  · intro p hp
    exact (hs.handed p hp).leave

theorem settled_of_free {t : AccessThread} (hvariables : t.stage.variables = [])
    (hemptied : t.stage.emptied = []) : t.Settled :=
  ⟨by simp [hvariables], by simp [hvariables], by simp [hemptied]⟩

theorem settled_idle {t : AccessThread} (h : t.stage = .idle) : t.Settled :=
  settled_of_free (by rw [h]; rfl) (by rw [h]; rfl)

theorem begin_quiet {request : AccessRequest} (hstage : t.stage = .idle) (hc : m.Counts base n)
    (hs : m.Shared) (ht : m.Tokens t) (hset : t.Settled) :
    Quiet base n m t (m.begin t request).1 (m.begin t request).2 := by
  have hnone : ∀ p ∈ m.views t.stage, m.Live p := ht.views
  have hentrants : t.stage.entrants = 0 := by rw [hstage]; rfl
  have hsame : Quiet base n m t m t := by
    have hkeep := @quiet_goto base n m t t.stage hc hs ht rfl hnone hset (by rw [hstage]; rfl)
    exact hkeep
  unfold begin
  split
  case isFalse => exact hsame
  rename_i hin
  cases request with
  | declare =>
    refine ⟨rfl, rfl, rfl, ⟨n, hc, ?_, fun _ => Nat.le_refl n⟩, ⟨?_, ht.views⟩, hs.handed, ?_, ?_⟩
    · have htokens : tokens { t with access := t.access ++ [none] } = t.tokens := by
        simp [tokens]
      simp only [holds, htokens]
    · intro p hp
      exact ht.access p (by simpa using hp)
    · exact settled_idle hstage
    · rw [hstage]
      rfl
  | send source =>
    have hlt : source < t.access.length := by simpa [AccessRequest.variables] using hin
    have hstore := store_tokens (a := none) hlt
    refine ⟨rfl, rfl, rfl, ⟨n, ⟨hc.bit, hc.state, hc.bound⟩, ?_, fun _ => Nat.le_refl n⟩,
      ⟨?_, ?_⟩, ?_, ?_, ?_⟩
    · simp only [holds, store_stage, List.length_append]
      simp at hstore
      omega
    · intro p hp
      rcases mem_store hp with hold | hnew
      · exact (ht.access p hold).congr rfl rfl rfl
      · cases hnew
    · intro p hp
      rw [store_stage, hstage] at hp
      simp [views] at hp
    · intro p hp
      rcases List.mem_append.mp hp with hold | hnew
      · exact (hs.handed p hold).congr rfl rfl rfl
      · have hvalue : t.value source = some p := by simpa using hnew
        exact (ht.access p (mem_of_value hvalue)).congr rfl rfl rfl
    · exact settled_idle hstage
    · rw [store_stage, hstage]
      rfl
  | acquire v | reset v | receive v k =>
    refine quiet_goto hc hs ht (by rw [hentrants]; rfl) (by simp [views, AccessRequest.stage])
      ⟨?_, ?_, by simp [AccessStage.emptied, AccessRequest.stage]⟩ rfl
    · simpa [AccessRequest.variables, AccessRequest.stage, AccessStage.variables,
        AfterReset.variables] using hin
    · simp [AccessRequest.stage, AccessStage.variables, AfterReset.variables]
  | move target source =>
    by_cases hself : target = source
    · have hidle : (AccessRequest.move target source).stage = .idle := if_pos hself
      show Quiet base n m t m (t.goto (AccessRequest.move target source).stage)
      rw [hidle]
      exact quiet_goto hc hs ht (by rw [hentrants]; rfl) (by simp [views]) (settled_idle rfl) rfl
    · have hreset : (AccessRequest.move target source).stage =
        .reset target (.transfer source) := if_neg hself
      show Quiet base n m t m (t.goto (AccessRequest.move target source).stage)
      rw [hreset]
      refine quiet_goto hc hs ht (by rw [hentrants]; rfl) (by simp [views])
        ⟨?_, ?_, by simp [AccessStage.emptied]⟩ rfl
      · simpa [AccessRequest.variables, AccessStage.variables, AfterReset.variables] using hin
      · simpa [AccessStage.variables, AfterReset.variables] using hself
  | construct | unload =>
    exact quiet_goto hc hs ht (by rw [hentrants]; rfl) (by simp [views, AccessRequest.stage])
      (settled_of_free rfl rfl) rfl

theorem resetAccess_spec {v : Nat} (hc : m.Counts base n) (hle : t.tokens ≤ n)
    (hlt : v < t.access.length) :
    ∃ m' t', m.resetAccess t v = (m', t') ∧ t'.stage = t.stage ∧
      t'.access.length = t.access.length ∧ t'.value v = none ∧
      (∀ p, some p ∈ t'.access → some p ∈ t.access) ∧
      m'.lifecycle = m.lifecycle ∧ m'.project = m.project ∧ m'.published = m.published ∧
      m'.handed = m.handed ∧
      ∃ n', m'.Counts base n' ∧ n' + t.tokens = n + t'.tokens ∧ n' ≤ n := by
  unfold resetAccess
  cases hvalue : t.value v with
  | none =>
    exact ⟨m, t, rfl, rfl, rfl, hvalue, fun _ h => h, rfl, rfl, rfl, rfl, n, hc, rfl,
      Nat.le_refl n⟩
  | some p =>
    have hstore := store_tokens (a := none) hlt
    rw [hvalue] at hstore
    simp at hstore
    refine ⟨m.leave, t.store v none, rfl, rfl, store_length,
      store_value_self hlt, ?_, leave_lifecycle, leave_project, leave_published,
      leave_handed, n - 1, hc.leave (by omega), by omega, Nat.sub_le n 1⟩
    intro q hq
    rcases mem_store hq with hold | hnew
    · exact hold
    · cases hnew

/-- A variable is reset, alone or before something is stored in it. -/
theorem reset_quiet {v : Nat} {next : AfterReset} (hstage : t.stage = .reset v next)
    (hc : m.Counts base n) (hs : m.Shared) (ht : m.Tokens t) (hset : t.Settled)
    (hle : m.handed.length + t.holds ≤ n) :
    Quiet base n m t (m.advance t choice).1 (m.advance t choice).2 := by
  have hvariables : t.stage.variables = v :: next.variables := by rw [hstage]; rfl
  have hrange := hset.inRange
  have hdistinct := hset.distinct
  rw [hvariables] at hrange hdistinct
  have htokens : t.tokens ≤ n := by
    unfold holds at hle
    omega
  obtain ⟨m', t', hreset, hstage', hlength, hvalue, haccess, hlifecycle, hproject, hpublished,
    hhanded, n', hcounts, hsum, hlower⟩ := resetAccess_spec hc htokens (hrange v (by simp))
  have hstep : m.advance t choice = (m', t'.goto (next.stage v)) := by
    unfold advance
    rw [hstage]
    simp only [hreset]
  have hlive : ∀ p, m.Live p → m'.Live p := fun p h => h.congr hlifecycle hproject hpublished
  have hafter : (next.stage v).entrants = 0 ∧ m'.views (next.stage v) = [] ∧
      (next.stage v).inside = false ∧ (∀ w ∈ (next.stage v).variables, w ∈ v :: next.variables) ∧
      (next.stage v).variables.Nodup ∧ ∀ w ∈ (next.stage v).emptied, w = v := by
    cases next <;>
      simp_all [AfterReset.stage, AccessStage.entrants, views, AccessStage.inside,
        AccessStage.variables, AfterReset.variables, AccessStage.emptied]
  obtain ⟨hentrants, hviews, houtside, hkept, hnodup, hemptied⟩ := hafter
  rw [hstep]
  refine ⟨hlifecycle, hproject, hpublished, ⟨n', hcounts, ?_, fun _ => hlower⟩, ⟨?_, ?_⟩, ?_,
    ⟨?_, hnodup, ?_⟩, houtside⟩
  · have hbefore : t.stage.entrants = 0 := by rw [hstage]; rfl
    simp only [holds, goto_tokens, goto_stage, hentrants,
      hbefore, hhanded]
    omega
  · intro p hp
    exact hlive p (ht.access p (haccess p hp))
  · intro p hp
    rw [goto_stage, hviews] at hp
    simp at hp
  · intro p hp
    rw [hhanded] at hp
    exact hlive p (hs.handed p hp)
  · intro w hw
    rw [goto_access, hlength]
    exact hrange w (hkept w hw)
  · intro w hw
    rw [hemptied w hw]
    exact hvalue

theorem transfer_quiet {target source : Nat} (hstage : t.stage = .transfer target source)
    (hc : m.Counts base n) (hs : m.Shared) (ht : m.Tokens t) (hset : t.Settled) :
    Quiet base n m t (m.advance t choice).1 (m.advance t choice).2 := by
  have hvariables : t.stage.variables = [target, source] := by rw [hstage]; rfl
  have hrange := hset.inRange
  have hdistinct := hset.distinct
  rw [hvariables] at hrange hdistinct
  have htarget : target < t.access.length := hrange target (by simp)
  have hsource : source < t.access.length := hrange source (by simp)
  have hne : target ≠ source := by simpa using hdistinct
  have hempty : t.value target = none :=
    hset.emptied target (by rw [hstage]; simp [AccessStage.emptied])
  have hstep : m.advance t choice =
      (m, ((t.store target (t.value source)).store source none).goto .idle) := by
    unfold advance
    rw [hstage]
  have hfirst := store_tokens (a := t.value source) htarget
  have hlength : source < (t.store target (t.value source)).access.length := by
    rw [store_length]
    exact hsource
  have hsecond := store_tokens (a := none) hlength
  rw [hempty] at hfirst
  rw [store_value_ne hne] at hsecond
  rw [hstep]
  refine ⟨rfl, rfl, rfl, ⟨n, hc, ?_, fun _ => Nat.le_refl n⟩, ⟨?_, by simp [views]⟩, hs.handed,
    settled_idle rfl, rfl⟩
  · have hbefore : t.stage.entrants = 0 := by rw [hstage]; rfl
    have hafter : AccessStage.idle.entrants = 0 := rfl
    simp only [holds, goto_tokens, goto_stage, hbefore,
      hafter]
    omega
  · intro p hp
    rcases mem_store hp with hold | hnew
    · rcases mem_store hold with hold | hnew
      · exact ht.access p hold
      · exact ht.access p (mem_of_value hnew)
    · cases hnew

theorem take_quiet {target index : Nat} (hstage : t.stage = .take target index)
    (hc : m.Counts base n) (hs : m.Shared) (ht : m.Tokens t) (hset : t.Settled) :
    Quiet base n m t (m.advance t choice).1 (m.advance t choice).2 := by
  have hlt : target < t.access.length :=
    hset.inRange target (by rw [hstage]; simp [AccessStage.variables])
  have hempty : t.value target = none :=
    hset.emptied target (by rw [hstage]; simp [AccessStage.emptied])
  have hbefore : t.stage.entrants = 0 := by rw [hstage]; rfl
  cases htoken : m.handed[index]? with
  | none =>
    have hstep : m.advance t choice = (m, t.goto .idle) := by
      unfold advance
      rw [hstage]
      simp only [htoken]
    rw [hstep]
    exact quiet_goto hc hs ht hbefore.symm (by simp [views]) (settled_idle rfl) rfl
  | some token =>
    have hstep : m.advance t choice = ({ m with handed := m.handed.eraseIdx index },
        (t.store target (some token)).goto .idle) := by
      unfold advance
      rw [hstage]
      simp only [htoken]
    have hin : index < m.handed.length := (List.getElem?_eq_some_iff.mp htoken).1
    have hstore := store_tokens (a := some token) hlt
    rw [hempty] at hstore
    simp at hstore
    rw [hstep]
    refine ⟨rfl, rfl, rfl, ⟨n, ⟨hc.bit, hc.state, hc.bound⟩, ?_, fun _ => Nat.le_refl n⟩,
      ⟨?_, by simp [views]⟩, ?_, settled_idle rfl, rfl⟩
    · have hafter : AccessStage.idle.entrants = 0 := rfl
      simp only [holds, goto_tokens, goto_stage, hbefore,
        hafter, List.length_eraseIdx_of_lt hin]
      omega
    · intro p hp
      rcases mem_store hp with hold | hnew
      · exact (ht.access p hold).congr rfl rfl rfl
      · obtain rfl : token = p := by simpa using hnew
        exact (hs.handed token (List.mem_of_getElem? htoken)).congr rfl rfl rfl
    · intro p hp
      exact (hs.handed p (List.mem_of_mem_eraseIdx hp)).congr rfl rfl rfl

/-- The stages of `acquire` after the reset of the output, and the end of any call. -/
def acquires : AccessStage → Bool
  | .loadLifecycle _ | .loadGate _ | .enter _ _ | .reloadLifecycle _ | .refuse _ _
  | .loadProject _ | .assign _ _ | .acquired _ _ | .returned _ => true
  | _ => false

theorem enter_quiet {output value : Nat} (hstage : t.stage = .enter output value)
    (hc : m.Counts base n) (hs : m.Shared) (ht : m.Tokens t) (hset : t.Settled)
    (hadmits : admits value = true) (hvalue : m.activity.state = value) :
    Quiet base n m t { m with activity := ⟨value + 1⟩ } (t.goto (.reloadLifecycle output)) := by
  have hbit := hc.bit
  have hstate := hc.state
  have hbound := hc.bound
  have hlt := admits_lt (by omega) hadmits
  have hlive : ∀ p, m.Live p → Live { m with activity := ⟨value + 1⟩ } p := fun p h =>
    h.congr rfl rfl rfl
  have hsettled : (t.goto (.reloadLifecycle output)).Settled := by
    refine ⟨?_, by simp [AccessStage.variables], by simp [AccessStage.emptied]⟩
    intro v hv
    exact hset.inRange v (by rw [hstage]; exact hv)
  refine ⟨rfl, rfl, rfl, ⟨n + 1, ⟨hbit, ?_, by omega⟩, ?_, by omega⟩,
    ⟨fun p hp => hlive p (ht.access p hp), by simp [views]⟩, fun p hp => hlive p (hs.handed p hp),
    hsettled, rfl⟩
  · show value + 1 = base + (n + 1)
    omega
  · have hbefore : t.stage.entrants = 0 := by rw [hstage]; rfl
    have hafter : (AccessStage.reloadLifecycle output).entrants = 1 := rfl
    simp only [holds, goto_tokens, goto_stage, hbefore,
      hafter]
    omega

theorem assign_quiet {output project : Nat} (hstage : t.stage = .assign output project)
    (hc : m.Counts base n) (hs : m.Shared) (ht : m.Tokens t) (hset : t.Settled)
    (hle : m.handed.length + t.holds ≤ n) :
    Quiet base n m t (m.advance t choice).1 (m.advance t choice).2 := by
  have hlt : output < t.access.length :=
    hset.inRange output (by rw [hstage]; simp [AccessStage.variables])
  have htokens : t.tokens ≤ n := by
    unfold holds at hle
    omega
  obtain ⟨m', t', hreset, hstage', hlength, hvalue, haccess, hlifecycle, hproject, hpublished,
    hhanded, n', hcounts, hsum, hlower⟩ := resetAccess_spec hc htokens hlt
  have hstep : m.advance t choice =
      (m', (t'.store output (some project)).goto (.acquired output (.ok ()))) := by
    unfold advance
    rw [hstage]
    simp only [hreset]
  have hlive : ∀ p, m.Live p → m'.Live p := fun p h => h.congr hlifecycle hproject hpublished
  have hstore := store_tokens (a := some project) (by rw [hlength]; exact hlt)
  rw [hvalue] at hstore
  simp at hstore
  rw [hstep]
  refine ⟨hlifecycle, hproject, hpublished, ⟨n', hcounts, ?_, fun _ => hlower⟩,
    ⟨?_, by simp [views]⟩, ?_, settled_of_free rfl rfl, rfl⟩
  · have hbefore : t.stage.entrants = 1 := by rw [hstage]; rfl
    have hafter : (AccessStage.acquired output (.ok ())).entrants = 0 := rfl
    simp only [holds, goto_tokens, goto_stage, hbefore,
      hafter, hhanded]
    omega
  · intro p hp
    rcases mem_store hp with hold | hnew
    · exact hlive p (ht.access p (haccess p hold))
    · obtain rfl : project = p := by simpa using hnew
      exact hlive project (ht.views project (by rw [hstage]; simp [views]))
  · intro p hp
    rw [hhanded] at hp
    exact hlive p (hs.handed p hp)

theorem acquire_quiet (hstage : acquires t.stage = true) (hc : m.Counts base n) (hs : m.Shared)
    (ht : m.Tokens t) (hset : t.Settled) (hle : m.handed.length + t.holds ≤ n) :
    Quiet base n m t (m.advance t choice).1 (m.advance t choice).2 := by
  obtain ⟨access, stage⟩ := t
  cases stage with
  | loadLifecycle output =>
    simp only [advance]
    split
    · exact quiet_goto hc hs ht rfl (by simp [views]) (settled_of_free rfl rfl) rfl
    · exact quiet_goto hc hs ht rfl (by simp [views])
        ⟨hset.inRange, hset.distinct, by simp [AccessStage.emptied]⟩ rfl
  | loadGate output =>
    exact quiet_goto hc hs ht rfl (by simp [views])
      ⟨hset.inRange, hset.distinct, by simp [AccessStage.emptied]⟩ rfl
  | enter output value =>
    simp only [advance]
    split
    · rename_i hadmits
      split
      · rename_i hexchange
        exact enter_quiet rfl hc hs ht hset hadmits hexchange.1
      · exact quiet_goto hc hs ht rfl (by simp [views])
          ⟨hset.inRange, hset.distinct, by simp [AccessStage.emptied]⟩ rfl
    · exact quiet_goto hc hs ht rfl (by simp [views]) (settled_of_free rfl rfl) rfl
  | reloadLifecycle output =>
    simp only [advance]
    split
    · exact quiet_goto hc hs ht rfl (by simp [views])
        ⟨hset.inRange, hset.distinct, by simp [AccessStage.emptied]⟩ rfl
    · rename_i hready
      have hready : m.lifecycle = .ready := by simpa using hready
      refine quiet_goto hc hs ht rfl ?_
        ⟨hset.inRange, hset.distinct, by simp [AccessStage.emptied]⟩ rfl
      intro p hp
      obtain rfl : p = m.published := by simpa [views] using hp
      exact ⟨(hs.ready hready).1, rfl, .inl hready⟩
  | refuse output code =>
    exact quiet_leave hc hs ht hle rfl (by simp [views]) (settled_of_free rfl rfl) rfl
  | loadProject output =>
    have hlive := ht.views m.published (by simp [views])
    have hproject := hlive.owned
    simp only [advance, hproject]
    refine quiet_goto hc hs ht rfl ?_
      ⟨hset.inRange, hset.distinct, by simp [AccessStage.emptied]⟩ rfl
    intro p hp
    obtain rfl : p = m.published := by simpa [views] using hp
    exact hlive
  | assign output project => exact assign_quiet rfl hc hs ht hset hle
  | acquired output result | returned succeeded =>
    exact quiet_goto hc hs ht rfl (by simp [views]) (settled_of_free rfl rfl) rfl
  | _ => simp [acquires] at hstage

theorem advance_quiet (hstage : t.stage.coordinates = false) (hc : m.Counts base n)
    (hs : m.Shared) (ht : m.Tokens t) (hset : t.Settled) (hle : m.handed.length + t.holds ≤ n) :
    Quiet base n m t (m.advance t choice).1 (m.advance t choice).2 := by
  cases hcase : t.stage with
  | idle =>
    have hstep : m.advance t choice = m.begin t choice.request := by
      unfold advance
      rw [hcase]
    rw [hstep]
    exact begin_quiet hcase hc hs ht hset
  | reset v next => exact reset_quiet hcase hc hs ht hset hle
  | transfer target source => exact transfer_quiet hcase hc hs ht hset
  | take target index => exact take_quiet hcase hc hs ht hset
  | loadLifecycle | loadGate | enter | reloadLifecycle | refuse | loadProject | assign | acquired
  | returned => exact acquire_quiet (by rw [hcase]; rfl) hc hs ht hset hle
  | _ =>
    rw [hcase] at hstage
    simp [AccessStage.coordinates, AccessStage.inside] at hstage

/-! ## Steps of a construction and an unload -/

def Kept (n : Nat) (m m' : ProjectManager) : Prop :=
  (m'.published = m.published ∧ ∀ p, m.Live p → m'.Live p) ∨ (∀ p, ¬ m.Live p) ∨ n = 0

structure Coordinated (n : Nat) (m : ProjectManager) (t : AccessThread) (m' : ProjectManager)
    (t' : AccessThread) : Prop where
  access : t'.access = t.access
  entrants : t.stage.entrants = 0 ∧ t'.stage.entrants = 0
  free : t'.stage.variables = [] ∧ t'.stage.emptied = []
  handed : m'.handed = m.handed
  counts : ∃ base, m'.Counts base n
  ready : m'.lifecycle = .ready → m'.project = some m'.published ∧ m'.activity.state < 2 ^ 63
  unloaded : m'.lifecycle = .unloaded → m'.project = none ∧ m'.activity.state = 2 ^ 63
  phase : m'.Phase t'.stage
  kept : Kept n m m'
  others : ∀ stage, m.Phase stage → (t.stage.inside = true → stage.inside = false) →
    stage.inside = false ∨ m' = m ∧ t'.stage.inside = false

theorem phase_lifecycle {stage : AccessStage} (h : m.Phase stage) (hinside : stage.inside = true) :
    m.lifecycle = .constructing ∨ m.lifecycle = .draining := by
  cases stage with
  | construct | publishProject | openGate | storeReady | abandonProject | storeAbandoned =>
    exact .inl h.1
  | closeGate | stop | waitDrained | destroyProject | storeUnloaded => exact .inr h.1
  | _ => simp [AccessStage.inside] at hinside

theorem phase_outside {stage : AccessStage} (h : stage.inside = false) : m.Phase stage := by
  cases stage <;> trivial

theorem outside_of_phase {stage : AccessStage} (h : m.Phase stage)
    (hlifecycle : m.lifecycle = .ready ∨ m.lifecycle = .unloaded) : stage.inside = false := by
  cases hinside : stage.inside with
  | false => rfl
  | true =>
    have hcases := phase_lifecycle h hinside
    rcases hlifecycle with hl | hl <;> rw [hl] at hcases <;> simp at hcases

theorem not_live {p : Nat} (h : m.lifecycle = .constructing ∨ m.lifecycle = .unloaded) :
    ¬ m.Live p := by
  intro hlive
  have hperiod := hlive.period
  rcases h with hl | hl <;> rw [hl] at hperiod <;> simp at hperiod

theorem Counts.zero (h : m.Counts base n) (hstate : m.activity.state = 2 ^ 63) : n = 0 := by
  have hbit := h.bit
  have hsum := h.state
  have hbound := h.bound
  omega

theorem advance_coordinated (hstage : t.stage.coordinates = true) (hc : m.Counts base n)
    (hs : m.Shared) (hphase : m.Phase t.stage) :
    Coordinated n m t (m.advance t choice).1 (m.advance t choice).2 := by
  obtain ⟨access, stage⟩ := t
  have hinside : ∀ {stage' : AccessStage} {m' : ProjectManager} {t' : AccessThread},
      stage.inside = true → m.Phase stage' → (stage.inside = true → stage'.inside = false) →
      stage'.inside = false ∨ m' = m ∧ t'.stage.inside = false :=
    fun h _ himp => .inl (himp h)
  cases stage with
  | reserveConstruction =>
    simp only [advance]
    split
    · rename_i hunloaded
      obtain ⟨hproject, hstate⟩ := hs.unloaded hunloaded
      exact ⟨rfl, ⟨rfl, rfl⟩, ⟨rfl, rfl⟩, rfl, ⟨base, hc.bit, hc.state, hc.bound⟩, by simp,
        by simp, ⟨rfl, hproject, hstate⟩, .inr (.inl fun p => not_live (.inr hunloaded)),
        fun stage' h _ => .inl (outside_of_phase h (.inr hunloaded))⟩
    · exact ⟨rfl, ⟨rfl, rfl⟩, ⟨rfl, rfl⟩, rfl, ⟨base, hc⟩, hs.ready, hs.unloaded, trivial,
        .inl ⟨rfl, fun _ h => h⟩, fun _ _ _ => .inr ⟨rfl, rfl⟩⟩
  | beginUnload =>
    simp only [advance]
    split
    · rename_i hready
      obtain ⟨hproject, hstate⟩ := hs.ready hready
      exact ⟨rfl, ⟨rfl, rfl⟩, ⟨rfl, rfl⟩, rfl, ⟨base, hc.bit, hc.state, hc.bound⟩, by simp,
        by simp, ⟨rfl, hproject, hstate⟩,
        .inl ⟨rfl, fun p h => ⟨h.owned, h.last, .inr rfl⟩⟩,
        fun stage' h _ => .inl (outside_of_phase h (.inl hready))⟩
    · exact ⟨rfl, ⟨rfl, rfl⟩, ⟨rfl, rfl⟩, rfl, ⟨base, hc⟩, hs.ready, hs.unloaded, trivial,
        .inl ⟨rfl, fun _ h => h⟩, fun _ _ _ => .inr ⟨rfl, rfl⟩⟩
  | construct =>
    obtain ⟨hlifecycle, hproject, hstate⟩ := hphase
    cases hsucceeds : choice.succeeds <;> simp only [advance, hsucceeds]
    all_goals
      exact ⟨rfl, ⟨rfl, rfl⟩, ⟨rfl, rfl⟩, rfl, ⟨base, hc⟩, hs.ready, hs.unloaded,
        ⟨hlifecycle, hproject, hstate⟩, .inl ⟨rfl, fun _ h => h⟩, fun _ => hinside rfl⟩
  | publishProject =>
    obtain ⟨hlifecycle, hproject, hstate⟩ := hphase
    exact ⟨rfl, ⟨rfl, rfl⟩, ⟨rfl, rfl⟩, rfl, ⟨base, hc.bit, hc.state, hc.bound⟩,
      by simp [advance, hlifecycle], by simp [advance, hlifecycle], ⟨hlifecycle, rfl, hstate⟩,
      .inr (.inl fun p => not_live (.inl hlifecycle)), fun _ => hinside rfl⟩
  | openGate =>
    obtain ⟨hlifecycle, hproject, hstate⟩ := hphase
    have hzero := hc.zero hstate
    have hcounts : Counts { m with activity := m.activity.openGate } 0 n :=
      ⟨.inl rfl, by rw [hzero]; rfl, hc.bound⟩
    exact ⟨rfl, ⟨rfl, rfl⟩, ⟨rfl, rfl⟩, rfl, ⟨0, hcounts⟩, by simp [advance, hlifecycle],
      by simp [advance, hlifecycle], ⟨hlifecycle, hproject, Nat.two_pow_pos 63⟩, .inr (.inr hzero),
      fun _ => hinside rfl⟩
  | storeReady =>
    obtain ⟨hlifecycle, hproject, hstate⟩ := hphase
    exact ⟨rfl, ⟨rfl, rfl⟩, ⟨rfl, rfl⟩, rfl, ⟨base, hc.bit, hc.state, hc.bound⟩,
      fun _ => ⟨hproject, hstate⟩, by simp [advance], trivial,
      .inr (.inl fun p => not_live (.inl hlifecycle)), fun _ => hinside rfl⟩
  | abandonProject =>
    obtain ⟨hlifecycle, hproject, hstate⟩ := hphase
    exact ⟨rfl, ⟨rfl, rfl⟩, ⟨rfl, rfl⟩, rfl, ⟨base, hc.bit, hc.state, hc.bound⟩,
      by simp [advance, hlifecycle], by simp [advance, hlifecycle], ⟨hlifecycle, rfl, hstate⟩,
      .inr (.inl fun p => not_live (.inl hlifecycle)), fun _ => hinside rfl⟩
  | storeAbandoned =>
    obtain ⟨hlifecycle, hproject, hstate⟩ := hphase
    exact ⟨rfl, ⟨rfl, rfl⟩, ⟨rfl, rfl⟩, rfl, ⟨base, hc.bit, hc.state, hc.bound⟩,
      by simp [advance], fun _ => ⟨hproject, hstate⟩, trivial,
      .inr (.inl fun p => not_live (.inl hlifecycle)), fun _ => hinside rfl⟩
  | closeGate =>
    obtain ⟨hlifecycle, hproject, hstate⟩ := hphase
    have hclosed := closeGate_state hstate
    have hbit := hc.bit
    have hsum := hc.state
    have hcounts : Counts { m with activity := m.activity.closeGate } (2 ^ 63) n :=
      ⟨.inr rfl, by show m.activity.closeGate.state = _; omega, hc.bound⟩
    refine ⟨rfl, ⟨rfl, rfl⟩, ⟨rfl, rfl⟩, rfl, ⟨2 ^ 63, hcounts⟩, by simp [advance, hlifecycle],
      by simp [advance, hlifecycle], ⟨hlifecycle, hproject, ?_⟩,
      .inl ⟨rfl, fun p h => h.congr rfl rfl rfl⟩, fun _ => hinside rfl⟩
    show 2 ^ 63 ≤ m.activity.closeGate.state
    omega
  | stop =>
    exact ⟨rfl, ⟨rfl, rfl⟩, ⟨rfl, rfl⟩, rfl, ⟨base, hc⟩, hs.ready, hs.unloaded, hphase,
      .inl ⟨rfl, fun _ h => h⟩, fun _ => hinside rfl⟩
  | waitDrained =>
    obtain ⟨hlifecycle, hproject, hstate⟩ := hphase
    simp only [advance]
    split
    · exact ⟨rfl, ⟨rfl, rfl⟩, ⟨rfl, rfl⟩, rfl, ⟨base, hc⟩, hs.ready, hs.unloaded,
        ⟨hlifecycle, hproject, hstate⟩, .inl ⟨rfl, fun _ h => h⟩, fun _ => hinside rfl⟩
    · rename_i hactive
      rw [activeCount_eq] at hactive
      have hbit := hc.bit
      have hsum := hc.state
      have hbound := hc.bound
      have hdrained : m.activity.state = 2 ^ 63 := by omega
      exact ⟨rfl, ⟨rfl, rfl⟩, ⟨rfl, rfl⟩, rfl, ⟨base, hc⟩, hs.ready, hs.unloaded,
        ⟨hlifecycle, hproject, hdrained⟩, .inl ⟨rfl, fun _ h => h⟩, fun _ => hinside rfl⟩
  | destroyProject =>
    obtain ⟨hlifecycle, hproject, hstate⟩ := hphase
    exact ⟨rfl, ⟨rfl, rfl⟩, ⟨rfl, rfl⟩, rfl, ⟨base, hc.bit, hc.state, hc.bound⟩,
      by simp [advance, hlifecycle], by simp [advance, hlifecycle], ⟨hlifecycle, rfl, hstate⟩,
      .inr (.inr (hc.zero hstate)), fun _ => hinside rfl⟩
  | storeUnloaded =>
    obtain ⟨hlifecycle, hproject, hstate⟩ := hphase
    exact ⟨rfl, ⟨rfl, rfl⟩, ⟨rfl, rfl⟩, rfl, ⟨base, hc.bit, hc.state, hc.bound⟩,
      by simp [advance], fun _ => ⟨hproject, hstate⟩, trivial, .inr (.inr (hc.zero hstate)),
      fun _ => hinside rfl⟩
  | _ => simp [AccessStage.coordinates, AccessStage.inside] at hstage

end Tasks

end ProjectManager

end ServerEngine
