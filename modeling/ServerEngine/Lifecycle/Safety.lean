import ServerEngine.Lifecycle.Access

/-! # Every interleaving of READY access

The invariant of the steps holds of every run of the threads.
-/
namespace ServerEngine
open Interleaving Relation

/-! ## What other threads keep -/

namespace ProjectManager

section Others
variable {m m' : ProjectManager} {t : AccessThread} {stage : AccessStage} {n : Nat}

theorem views_congr (hpublished : m'.published = m.published) : m'.views stage = m.views stage := by
  cases stage <;> simp [views, hpublished]

theorem Tokens.congr (h : m.Tokens t) (hpublished : m'.published = m.published)
    (hlive : ∀ p, m.Live p → m'.Live p) : m'.Tokens t := by
  refine ⟨fun p hp => hlive p (h.access p hp), ?_⟩
  intro p hp
  rw [views_congr hpublished] at hp
  exact hlive p (h.views p hp)

theorem tokens_of_none (haccess : ∀ p, some p ∉ t.access) (hviews : m.views t.stage = []) :
    m'.Tokens t := by
  refine ⟨fun p hp => absurd hp (haccess p), ?_⟩
  have hnil : m'.views t.stage = [] := by
    cases hstage : t.stage <;> rw [hstage] at hviews <;> simp_all [views]
  simp [hnil]

theorem Tokens.kept (h : m.Tokens t) (hkept : Kept n m m') (hle : t.holds ≤ n) : m'.Tokens t := by
  rcases hkept with ⟨hpublished, hlive⟩ | hnone | hzero
  · exact h.congr hpublished hlive
  · refine tokens_of_none (m := m) (fun p hp => hnone p (h.access p hp)) ?_
    cases hviews : m.views t.stage with
    | nil => rfl
    | cons p rest => exact absurd (h.views p (by simp [hviews])) (hnone p)
  · have hempty : t.tokens = 0 ∧ t.stage.entrants = 0 := by
      unfold AccessThread.holds at hle
      omega
    refine tokens_of_none (m := m) ?_ ?_
    · intro p hp
      have hpos := AccessThread.tokens_pos hp
      omega
    · have hentrants := hempty.2
      cases hstage : t.stage <;> rw [hstage] at hentrants <;> first | rfl | cases hentrants

theorem Phase.congr (h : m.Phase stage) (hlifecycle : m'.lifecycle = m.lifecycle)
    (hproject : m'.project = m.project) (hpublished : m'.published = m.published)
    (hopen : m.activity.state < 2 ^ 63 → m'.activity.state < 2 ^ 63)
    (hclosed : 2 ^ 63 ≤ m.activity.state → 2 ^ 63 ≤ m'.activity.state)
    (hdrained : m.activity.state = 2 ^ 63 → m'.activity.state = 2 ^ 63) : m'.Phase stage := by
  cases stage with
  | construct | publishProject | abandonProject | storeAbandoned | openGate | destroyProject
  | storeUnloaded =>
    obtain ⟨hl, hp, hstate⟩ := h
    exact ⟨by rw [hlifecycle, hl], by simp [hproject, hp, hpublished], hdrained hstate⟩
  | storeReady | closeGate =>
    obtain ⟨hl, hp, hstate⟩ := h
    exact ⟨by rw [hlifecycle, hl], by simp [hproject, hp, hpublished], hopen hstate⟩
  | stop | waitDrained =>
    obtain ⟨hl, hp, hstate⟩ := h
    exact ⟨by rw [hlifecycle, hl], by simp [hproject, hp, hpublished], hclosed hstate⟩
  | _ => trivial

end Others

end ProjectManager

/-! ## Steps -/

section Steps
variable {m m' : ProjectManager} {calls : List AccessThread} {t t' : AccessThread} {k : Nat}

theorem holds_le_holders (hk : calls[k]? = some t) :
    m.handed.length + t.holds ≤ holders ⟨m, calls⟩ := by
  have hle := le_sum AccessThread.holds hk
  unfold holders
  dsimp only
  omega

theorem AccessSafe.opened (h : AccessSafe ⟨m, calls⟩) (hstarts : t.Starts) :
    AccessSafe ⟨m, calls ++ [t]⟩ := by
  obtain rfl : t = ⟨[], .idle⟩ := hstarts
  have hholders : holders ⟨m, calls ++ [⟨[], .idle⟩]⟩ = holders ⟨m, calls⟩ := by
    unfold holders
    rw [sum_append_single]
    rfl
  refine ⟨?_, h.shared, ?_, ?_, ?_, ?_⟩
  · obtain ⟨base, hcounts⟩ := h.counted
    exact ⟨base, by rw [hholders]; exact hcounts⟩
  · intro i a hi
    rcases get_append_cases hi with hi | ⟨-, rfl⟩
    · exact h.tokens i a hi
    · exact ⟨by simp, by simp [ProjectManager.views]⟩
  · intro i a hi
    rcases get_append_cases hi with hi | ⟨-, rfl⟩
    · exact h.phase i a hi
    · trivial
  · intro i a hi
    rcases get_append_cases hi with hi | ⟨-, rfl⟩
    · exact h.settled i a hi
    · exact ProjectManager.settled_idle rfl
  · intro i j a b hi hj ha hb
    rcases get_append_cases hi with hi | ⟨-, rfl⟩
    · rcases get_append_cases hj with hj | ⟨-, rfl⟩
      · exact h.single i j a b hi hj ha hb
      · cases hb
    · cases ha

theorem AccessSafe.quiet {base : Nat} (h : AccessSafe ⟨m, calls⟩) (hk : calls[k]? = some t)
    (hc : m.Counts base (holders ⟨m, calls⟩))
    (hq : ProjectManager.Quiet base (holders ⟨m, calls⟩) m t m' t') :
    AccessSafe ⟨m', calls.set k t'⟩ := by
  obtain ⟨n', hcounts, hsum, hlower⟩ := hq.counts
  have hset := sum_set AccessThread.holds hk t'
  have hholders : holders ⟨m', calls.set k t'⟩ = n' := by
    unfold holders at hsum ⊢
    dsimp only at hsum ⊢
    omega
  have hbit := hc.bit
  have hstate := hc.state
  have hbound := hc.bound
  have hstate' := hcounts.state
  have hbound' := hcounts.bound
  have hopen : m.activity.state < 2 ^ 63 → m'.activity.state < 2 ^ 63 := by omega
  have hclosed : 2 ^ 63 ≤ m.activity.state → 2 ^ 63 ≤ m'.activity.state := by omega
  have hdrained : m.activity.state = 2 ^ 63 → m'.activity.state = 2 ^ 63 := by
    intro hdrained
    have hone : base = 2 ^ 63 := by omega
    omega
  have hlive : ∀ p, m.Live p → m'.Live p := fun p hp =>
    hp.congr hq.lifecycle hq.project hq.published
  refine ⟨⟨base, by rw [hholders]; exact hcounts⟩, ⟨?_, ?_, hq.handed⟩, ?_, ?_, ?_, ?_⟩
  · intro hready
    obtain ⟨hproject, hgate⟩ := h.shared.ready (hq.lifecycle ▸ hready)
    exact ⟨by rw [hq.project, hq.published]; exact hproject, hopen hgate⟩
  · intro hunloaded
    obtain ⟨hproject, hgate⟩ := h.shared.unloaded (hq.lifecycle ▸ hunloaded)
    exact ⟨by rw [hq.project]; exact hproject, hdrained hgate⟩
  · intro i a hi
    rcases get_set_cases hk hi with ⟨-, rfl⟩ | ⟨-, hi⟩
    · exact hq.tokens
    · exact (h.tokens i a hi).congr hq.published hlive
  · intro i a hi
    rcases get_set_cases hk hi with ⟨-, rfl⟩ | ⟨-, hi⟩
    · exact ProjectManager.phase_outside hq.outside
    · exact (h.phase i a hi).congr hq.lifecycle hq.project hq.published hopen hclosed hdrained
  · intro i a hi
    rcases get_set_cases hk hi with ⟨-, rfl⟩ | ⟨-, hi⟩
    · exact hq.settled
    · exact h.settled i a hi
  · intro i j a b hi hj ha hb
    have houtside := hq.outside
    rcases get_set_cases hk hi with ⟨-, rfl⟩ | ⟨-, hi⟩
    · rw [ha] at houtside
      cases houtside
    · rcases get_set_cases hk hj with ⟨-, rfl⟩ | ⟨-, hj⟩
      · rw [hb] at houtside
        cases houtside
      · exact h.single i j a b hi hj ha hb

theorem AccessSafe.coordinated (h : AccessSafe ⟨m, calls⟩) (hk : calls[k]? = some t)
    (hq : ProjectManager.Coordinated (holders ⟨m, calls⟩) m t m' t') :
    AccessSafe ⟨m', calls.set k t'⟩ := by
  have hset := sum_set AccessThread.holds hk t'
  have hsame : t'.holds = t.holds := by
    unfold AccessThread.holds AccessThread.tokens
    rw [hq.access, hq.entrants.1, hq.entrants.2]
  have hholders : holders ⟨m', calls.set k t'⟩ = holders ⟨m, calls⟩ := by
    unfold holders
    dsimp only
    rw [hq.handed]
    omega
  have hothers : ∀ (i : Nat) (a : AccessThread), i ≠ k → calls[i]? = some a →
      a.stage.inside = false ∨ m' = m ∧ t'.stage.inside = false := by
    intro i a hne hi
    refine hq.others a.stage (h.phase i a hi) fun hinside => ?_
    cases ha : a.stage.inside with
    | false => rfl
    | true => exact absurd (h.single i k a t hi hk ha hinside) hne
  refine ⟨?_, ⟨hq.ready, hq.unloaded, ?_⟩, ?_, ?_, ?_, ?_⟩
  · obtain ⟨base, hcounts⟩ := hq.counts
    exact ⟨base, by rw [hholders]; exact hcounts⟩
  · intro p hp
    rw [hq.handed] at hp
    rcases hq.kept with ⟨-, hlive⟩ | hnone | hzero
    · exact hlive p (h.shared.handed p hp)
    · exact absurd (h.shared.handed p hp) (hnone p)
    · have hlength := List.length_pos_of_mem hp
      have hle := @holds_le_holders m calls t k hk
      omega
  · intro i a hi
    rcases get_set_cases hk hi with ⟨-, rfl⟩ | ⟨-, hi⟩
    · have hle := @holds_le_holders m calls t k hk
      have hkept : m'.Tokens t := (h.tokens k t hk).kept hq.kept (by omega)
      refine ⟨?_, ?_⟩
      · intro p hp
        rw [hq.access] at hp
        exact hkept.access p hp
      · have hentrants := hq.entrants.2
        have hviews : m'.views a.stage = [] := by
          cases hstage : a.stage <;> rw [hstage] at hentrants <;> first | rfl | cases hentrants
        simp [hviews]
    · have hle := @holds_le_holders m calls a i hi
      exact (h.tokens i a hi).kept hq.kept (by omega)
  · intro i a hi
    rcases get_set_cases hk hi with ⟨-, rfl⟩ | ⟨hne, hi⟩
    · exact hq.phase
    · rcases hothers i a hne hi with houtside | ⟨rfl, -⟩
      · exact ProjectManager.phase_outside houtside
      · exact h.phase i a hi
  · intro i a hi
    rcases get_set_cases hk hi with ⟨-, rfl⟩ | ⟨-, hi⟩
    · exact ProjectManager.settled_of_free hq.free.1 hq.free.2
    · exact h.settled i a hi
  · have hpair : ∀ (i : Nat) (a : AccessThread), i ≠ k → calls[i]? = some a →
        a.stage.inside = true → t'.stage.inside = true → False := by
      intro i a hne hi ha ht'
      rcases hothers i a hne hi with houtside | ⟨-, houtside⟩
      · rw [ha] at houtside
        cases houtside
      · rw [ht'] at houtside
        cases houtside
    intro i j a b hi hj ha hb
    rcases get_set_cases hk hi with ⟨hik, rfl⟩ | ⟨hik, hi'⟩
    · rcases get_set_cases hk hj with ⟨hjk, -⟩ | ⟨hjk, hj'⟩
      · rw [hik, hjk]
      · exact (hpair j b hjk hj' hb ha).elim
    · rcases get_set_cases hk hj with ⟨-, rfl⟩ | ⟨-, hj'⟩
      · exact (hpair i a hik hi' ha hb).elim
      · exact h.single i j a b hi' hj' ha hb

theorem AccessSafe.advanced (h : AccessSafe ⟨m, calls⟩) (hk : calls[k]? = some t)
    (hstep : Accessing m t m' t') : AccessSafe ⟨m', calls.set k t'⟩ := by
  obtain ⟨choice, hchoice⟩ := hstep
  obtain ⟨base, hc⟩ := h.counted
  have hm' : (m.advance t choice).1 = m' := by rw [hchoice]
  have ht' : (m.advance t choice).2 = t' := by rw [hchoice]
  rw [← hm', ← ht']
  cases hstage : t.stage.coordinates with
  | false =>
    exact h.quiet hk hc (ProjectManager.advance_quiet hstage hc h.shared (h.tokens k t hk)
      (h.settled k t hk) (holds_le_holders hk))
  | true =>
    exact h.coordinated hk (ProjectManager.advance_coordinated hstage hc h.shared (h.phase k t hk))

theorem accessSafe_initial : AccessSafe ⟨.initial, []⟩ := by
  have hcounts : ProjectManager.initial.Counts (2 ^ 63) 0 := ⟨.inr rfl, rfl, Nat.two_pow_pos 63⟩
  exact ⟨⟨2 ^ 63, hcounts⟩, ⟨by simp [ProjectManager.initial], fun _ => ⟨rfl, rfl⟩,
    by simp [ProjectManager.initial]⟩, by simp, by simp, by simp, by simp⟩

theorem AccessReachable.safe {config : AccessConfig} (h : AccessReachable config) :
    AccessSafe config :=
  h.invariant accessSafe_initial (fun _ _ _ hsafe hstarts => hsafe.opened hstarts)
    fun _ _ _ _ _ _ hsafe hk hstep => hsafe.advanced hk hstep

end Steps

/-! ## READY access -/

/-- The next step of the thread is a `leave` of the gate. -/
def AccessThread.Leaves (t : AccessThread) : Prop :=
  (∃ v next p, t.stage = .reset v next ∧ t.value v = some p) ∨
    (∃ output code, t.stage = .refuse output code) ∨
    ∃ output project p, t.stage = .assign output project ∧ t.value output = some p

def Unpublished (a b : AccessConfig) : Prop :=
  Step AccessThread.Starts Accessing a b ∧ ∀ (k : Nat) (t : AccessThread),
    a.calls[k]? = some t → t.stage = .storeReady → b.calls[k]? = some t

structure ReadyAccess (config : AccessConfig) : Prop where
  held : ∀ (i : Nat) (t : AccessThread) (p : Nat),
    config.calls[i]? = some t → some p ∈ t.access → config.memory.Live p
  handed : ∀ p ∈ config.memory.handed, config.memory.Live p
  count : config.memory.activity.activeCount = holders config
  leaving : ∀ (i : Nat) (t : AccessThread), config.calls[i]? = some t → t.Leaves →
    0 < config.memory.activity.activeCount
  opening : ∀ (i : Nat) (t : AccessThread), config.calls[i]? = some t → t.stage = .openGate →
    holders config = 0
  destroying : ∀ (i : Nat) (t : AccessThread), config.calls[i]? = some t →
    t.stage = .destroyProject → holders config = 0
  late : ∀ (i : Nat) (t : AccessThread), config.calls[i]? = some t → t.stage = .stop →
    ∀ later, ReflTransGen Unpublished config later →
      ∀ (j : Nat) (u : AccessThread) (output : Nat) (choice : AccessChoice),
        later.calls[j]? = some u → u.stage = .loadLifecycle output →
        (later.memory.advance u choice).2.stage = .acquired output (.error .notFound)
  constructing : ∀ (i : Nat) (t : AccessThread) (choice : AccessChoice),
    config.calls[i]? = some t → t.stage ≠ .construct →
    (config.memory.advance t choice).2.stage = .construct →
    config.memory.lifecycle = .unloaded ∧ ∀ (j : Nat) (u : AccessThread),
      config.calls[j]? = some u → u.stage.inside = false
  single : ∀ (i j : Nat) (a b : AccessThread), config.calls[i]? = some a →
    config.calls[j]? = some b → a.stage.inside → b.stage.inside → i = j

section Access
variable {config later : AccessConfig} {t : AccessThread} {i : Nat}

theorem AccessSafe.activeCount (h : AccessSafe config) :
    config.memory.activity.activeCount = holders config := by
  obtain ⟨base, hcounts⟩ := h.counted
  have hbit := hcounts.bit
  have hstate := hcounts.state
  have hbound := hcounts.bound
  rw [ProjectActivityGate.activeCount_eq]
  omega

theorem AccessSafe.holders_zero (h : AccessSafe config)
    (hstate : config.memory.activity.state = 2 ^ 63) : holders config = 0 := by
  obtain ⟨base, hcounts⟩ := h.counted
  exact hcounts.zero hstate

theorem holds_of_leaves (h : t.Leaves) : 0 < t.holds := by
  unfold AccessThread.holds
  rcases h with ⟨v, next, p, -, hvalue⟩ | ⟨output, code, hstage⟩ | ⟨output, project, p, hstage, -⟩
  · have hpos := AccessThread.tokens_pos (AccessThread.mem_of_value hvalue)
    omega
  · have hone : t.stage.entrants = 1 := by rw [hstage]; rfl
    omega
  · have hone : t.stage.entrants = 1 := by rw [hstage]; rfl
    omega

theorem AccessSafe.unready (h : AccessSafe config) (hi : config.calls[i]? = some t)
    (hstage : t.stage ≠ .storeReady) {choice : AccessChoice}
    (hlifecycle : config.memory.lifecycle ≠ .ready) :
    (config.memory.advance t choice).1.lifecycle ≠ .ready := by
  cases hcoordinates : t.stage.coordinates with
  | false =>
    obtain ⟨base, hc⟩ := h.counted
    have hquiet := @ProjectManager.advance_quiet base (holders config) config.memory t choice
      hcoordinates hc h.shared (h.tokens i t hi) (h.settled i t hi) (holds_le_holders hi)
    rw [hquiet.lifecycle]
    exact hlifecycle
  | true =>
    obtain ⟨access, stage⟩ := t
    cases stage with
    | reserveConstruction | beginUnload | waitDrained =>
      simp only [ProjectManager.advance]
      split <;> simp_all
    | construct | publishProject | openGate | abandonProject | closeGate | stop
    | destroyProject => exact hlifecycle
    | storeAbandoned | storeUnloaded => simp [ProjectManager.advance]
    | storeReady => exact absurd rfl hstage
    | _ => cases hcoordinates

theorem AccessSafe.step (h : AccessSafe config)
    (hstep : Step AccessThread.Starts Accessing config later) : AccessSafe later := by
  cases hstep with
  | opened hstarts => exact h.opened hstarts
  | advanced hk hadvance => exact h.advanced hk hadvance

theorem AccessSafe.unpublished (h : AccessSafe config)
    (hlifecycle : config.memory.lifecycle ≠ .ready)
    (hruns : ReflTransGen Unpublished config later) :
    AccessSafe later ∧ later.memory.lifecycle ≠ .ready := by
  induction hruns with
  | refl => exact ⟨h, hlifecycle⟩
  | tail _ hlast ih =>
    obtain ⟨hsafe, hunready⟩ := ih
    obtain ⟨hstep, hstays⟩ := hlast
    refine ⟨hsafe.step hstep, ?_⟩
    cases hstep with
    | opened hstarts => exact hunready
    | @advanced m m' calls t t' k hk hadvance =>
      obtain ⟨choice, hchoice⟩ := hadvance
      have hm' : (m.advance t choice).1 = m' := by rw [hchoice]
      have ht' : (m.advance t choice).2 = t' := by rw [hchoice]
      have hstage : t.stage ≠ .storeReady := by
        intro hstore
        have hlt := (List.getElem?_eq_some_iff.mp hk).1
        have hsame := hstays k t hk hstore
        rw [List.getElem?_set_self hlt, ← ht'] at hsame
        have hafter : (m.advance t choice).2.stage = t.stage := by
          rw [Option.some.inj hsame]
        unfold ProjectManager.advance at hafter
        rw [hstore] at hafter
        cases hafter
      have hafter : (m.advance t choice).1.lifecycle ≠ .ready := hsafe.unready hk hstage hunready
      rw [← hm']
      exact hafter

theorem AccessSafe.constructing (h : AccessSafe config) (hi : config.calls[i]? = some t)
    {choice : AccessChoice} (hbefore : t.stage ≠ .construct)
    (hafter : (config.memory.advance t choice).2.stage = .construct) :
    config.memory.lifecycle = .unloaded ∧ ∀ (j : Nat) (u : AccessThread),
      config.calls[j]? = some u → u.stage.inside = false := by
  have hunloaded : config.memory.lifecycle = .unloaded := by
    cases hcoordinates : t.stage.coordinates with
    | false =>
      obtain ⟨base, hc⟩ := h.counted
      have hquiet := @ProjectManager.advance_quiet base (holders config) config.memory t choice
        hcoordinates hc h.shared (h.tokens i t hi) (h.settled i t hi) (holds_le_holders hi)
      have houtside := hquiet.outside
      rw [hafter] at houtside
      cases houtside
    | true =>
      obtain ⟨access, stage⟩ := t
      cases stage with
      | reserveConstruction =>
        simp only [ProjectManager.advance] at hafter
        split at hafter
        · assumption
        · cases hafter
      | beginUnload | waitDrained =>
        simp only [ProjectManager.advance] at hafter
        split at hafter <;> cases hafter
      | construct => exact absurd rfl hbefore
      | publishProject | openGate | storeReady | abandonProject | storeAbandoned | closeGate
      | stop | destroyProject | storeUnloaded => cases hafter
      | _ => cases hcoordinates
  exact ⟨hunloaded, fun j u hj =>
    ProjectManager.outside_of_phase (h.phase j u hj) (.inr hunloaded)⟩

theorem late_refused {m : ProjectManager} {output : Nat} {choice : AccessChoice}
    (hstage : t.stage = .loadLifecycle output) (hlifecycle : m.lifecycle ≠ .ready) :
    (m.advance t choice).2.stage = .acquired output (.error .notFound) := by
  unfold ProjectManager.advance
  rw [hstage]
  dsimp only
  rw [if_pos hlifecycle]
  rfl

/-- Every interleaving of acquires, resets, moves, constructions and unloads. -/
theorem ready_access (h : AccessReachable config) : ReadyAccess config := by
  have hsafe := h.safe
  have hcount := hsafe.activeCount
  refine ⟨fun i t p hi => (hsafe.tokens i t hi).access p, hsafe.shared.handed, hcount, ?_, ?_, ?_,
    ?_, fun i t choice hi => hsafe.constructing hi, hsafe.single⟩
  · intro i t hi hleaves
    have hpos := holds_of_leaves hleaves
    have hle : config.memory.handed.length + t.holds ≤ holders config := holds_le_holders hi
    rw [hcount]
    omega
  · intro i t hi hstage
    have hphase := hsafe.phase i t hi
    rw [hstage] at hphase
    exact hsafe.holders_zero hphase.2.2
  · intro i t hi hstage
    have hphase := hsafe.phase i t hi
    rw [hstage] at hphase
    exact hsafe.holders_zero hphase.2.2
  · intro i t hi hstage later hruns j u output choice hj hload
    have hphase := hsafe.phase i t hi
    rw [hstage] at hphase
    have hdraining : config.memory.lifecycle ≠ .ready := by
      rw [hphase.1]
      simp
    exact late_refused hload (hsafe.unpublished hdraining hruns).2

end Access

/-! ## A call that begins before the next publication -/

/-- The thread is within `acquire`. -/
def AccessStage.acquiring : AccessStage → Bool
  | .reset _ .acquire | .loadLifecycle _ | .loadGate _ | .enter _ _ | .reloadLifecycle _
  | .refuse _ _ | .loadProject _ | .assign _ _ => true
  | _ => false

/-- No call of `acquire` that begins between the closing of admission and the next publication
succeeds, whenever its steps are taken. -/
def LateCallsFail : Prop :=
  ∀ closing called finished : AccessConfig, AccessReachable closing →
    (∃ (k : Nat) (t : AccessThread), closing.calls[k]? = some t ∧ t.stage = .stop) →
    ReflTransGen Unpublished closing called →
    ∀ (j : Nat) (output : Nat), (called.calls[j]?.map (·.stage)) = some (.reset output .acquire) →
    ReflTransGen (fun a b => (a.calls[j]?.map (·.stage.acquiring)) = some true ∧
      Step AccessThread.Starts Accessing a b) called finished →
    (finished.calls[j]?.map (·.stage)) ≠ some (.acquired output (.ok ()))

def closingSchedule : List (Nat × AccessChoice) :=
  (0, ⟨.declare, true⟩) :: (1, ⟨.construct, true⟩) :: List.replicate 9 (1, ⟨.unload, true⟩)

def overtakingSchedule : List (Nat × AccessChoice) :=
  List.replicate 11 (1, ⟨.construct, true⟩) ++ List.replicate 7 (0, ⟨.acquire 0, true⟩)

def twoThreads : AccessConfig := ⟨.initial, [⟨[], .idle⟩, ⟨[], .idle⟩]⟩

def closingAdmission : AccessConfig :=
  ⟨⟨⟨ProjectActivityGate.closedMask⟩, some 1, .draining, 1, []⟩, [⟨[none], .idle⟩, ⟨[], .stop⟩]⟩

def acquireCalled : AccessConfig :=
  ⟨closingAdmission.memory, [⟨[none], .reset 0 .acquire⟩, ⟨[], .stop⟩]⟩

def acquireFinished : AccessConfig :=
  ⟨⟨⟨1⟩, some 2, .ready, 2, []⟩, [⟨[some 2], .acquired 0 (.ok ())⟩, ⟨[], .returned true⟩]⟩

theorem twoThreads_reachable : AccessReachable twoThreads := by
  have hfirst : AccessReachable ⟨.initial, [] ++ [⟨[], .idle⟩]⟩ := Reachable.initial.opened rfl
  exact hfirst.opened rfl

theorem closingAdmission_reachable : AccessReachable closingAdmission := by
  have hfollow : twoThreads.follow ProjectManager.advance (fun _ => True) closingSchedule =
      some closingAdmission := by decide +kernel
  have hsteps := @Config.follow_steps _ _ _ AccessThread.Starts _ _ _ _ _ _ hfollow
  exact twoThreads_reachable.trans (hsteps.lift id fun _ _ h => h.2)

theorem acquireFinished_follows :
    ReflTransGen (fun a b => (a.calls[0]?.map (·.stage.acquiring)) = some true ∧
      Step AccessThread.Starts Accessing a b) acquireCalled acquireFinished := by
  have hfollow : acquireCalled.follow ProjectManager.advance
      (fun a => (a.calls[0]?.map (·.stage.acquiring)) = some true) overtakingSchedule =
        some acquireFinished := by decide +kernel
  exact Config.follow_steps hfollow

theorem acquireCalled_step : Step AccessThread.Starts Accessing closingAdmission acquireCalled :=
  @Step.advanced _ _ _ _ closingAdmission.memory closingAdmission.memory closingAdmission.calls
    ⟨[none], .idle⟩ ⟨[none], .reset 0 .acquire⟩ 0 rfl ⟨⟨.acquire 0, true⟩, rfl⟩

theorem late_call_succeeds : ¬ LateCallsFail := by
  intro h
  have hstays : Unpublished closingAdmission acquireCalled := by
    refine ⟨acquireCalled_step, ?_⟩
    intro k t hk hstore
    match k with
    | 0 =>
      obtain rfl : (⟨[none], .idle⟩ : AccessThread) = t := by simpa [closingAdmission] using hk
      cases hstore
    | 1 =>
      obtain rfl : (⟨[], .stop⟩ : AccessThread) = t := by simpa [closingAdmission] using hk
      cases hstore
    | k + 2 => simp [closingAdmission] at hk
  exact h closingAdmission acquireCalled acquireFinished closingAdmission_reachable
    ⟨1, ⟨[], .stop⟩, rfl, rfl⟩ (.single hstays) 0 0 rfl acquireFinished_follows rfl

theorem acquireFinished_reachable : AccessReachable acquireFinished :=
  (closingAdmission_reachable.tail acquireCalled_step).trans
    (acquireFinished_follows.lift id fun _ _ h => h.2)

theorem ready_access_overtaken : ReadyAccess acquireFinished :=
  ready_access acquireFinished_reachable

end ServerEngine
