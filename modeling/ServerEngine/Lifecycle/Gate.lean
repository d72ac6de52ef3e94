import ServerEngine.Core.Status
import ServerEngine.Library.Interleaving

/-! # The READY lifecycle

Threads acquire, reset and move `project_access` tokens and construct and unload the project. One
step makes at most one access to the activity gate, the lifecycle or the project pointer.
-/
namespace ServerEngine
open Interleaving

/-! ## The activity gate -/

/-- `project_activity_gate`: the high bit is CLOSED, the rest counts the tasks. -/
structure ProjectActivityGate where
  state : Nat
  deriving DecidableEq

namespace ProjectActivityGate

def closedMask : Nat := 2 ^ 63

def countMask : Nat := 2 ^ 63 - 1

/-- What `try_enter` asks of the word it has loaded. -/
def admits (value : Nat) : Bool := value &&& closedMask = 0 ∧ value &&& countMask ≠ countMask

/-- `fetch_sub(1)`, which wraps around below zero. -/
def leave (gate : ProjectActivityGate) : ProjectActivityGate :=
  ⟨if gate.state = 0 then 2 ^ 64 - 1 else gate.state - 1⟩

def openGate (_ : ProjectActivityGate) : ProjectActivityGate := ⟨0⟩

def closeGate (gate : ProjectActivityGate) : ProjectActivityGate := ⟨gate.state ||| closedMask⟩

def activeCount (gate : ProjectActivityGate) : Nat := gate.state &&& countMask

end ProjectActivityGate

/-! ## The manager and its threads -/

inductive ProjectLifecycleState
  | unloaded
  | constructing
  | ready
  | draining
  deriving DecidableEq

/-- What the threads share. Published projects are numbered, and `project` owns the one that is
not destroyed; `handed` are the tokens that one thread has given away and none has taken yet. -/
structure ProjectManager where
  activity : ProjectActivityGate
  project : Option Nat
  lifecycle : ProjectLifecycleState
  published : Nat
  handed : List Nat
  deriving DecidableEq

/-- A `project_access` variable: empty, or the project its view refers to. -/
abbrev ProjectAccess := Option Nat

inductive AccessRequest
  | declare
  | acquire (output : Nat)
  | reset (output : Nat)
  | move (target source : Nat)
  | send (source : Nat)
  | receive (target index : Nat)
  | construct
  | unload

/-- The request a thread that is idle turns to, and how a weak exchange or a construction ends. -/
structure AccessChoice where
  request : AccessRequest
  succeeds : Bool

inductive AfterReset
  | finish
  | acquire
  | transfer (source : Nat)
  | take (index : Nat)
  deriving DecidableEq

inductive AccessStage
  | idle
  | reset (output : Nat) (next : AfterReset)
  | transfer (target source : Nat)
  | take (target index : Nat)
  | loadLifecycle (output : Nat)
  | loadGate (output : Nat)
  | enter (output value : Nat)
  | reloadLifecycle (output : Nat)
  | refuse (output : Nat) (code : StatusCode)
  | loadProject (output : Nat)
  | assign (output project : Nat)
  | acquired (output : Nat) (result : Except StatusCode Unit)
  | reserveConstruction
  | construct
  | publishProject
  | openGate
  | storeReady
  | abandonProject
  | storeAbandoned
  | beginUnload
  | closeGate
  | stop
  | waitDrained
  | destroyProject
  | storeUnloaded
  | returned (succeeded : Bool)
  deriving DecidableEq

/-- A thread with its `project_access` variables. -/
structure AccessThread where
  access : List ProjectAccess
  stage : AccessStage
  deriving DecidableEq

namespace AccessThread

def goto (t : AccessThread) (stage : AccessStage) : AccessThread := { t with stage := stage }

def value (t : AccessThread) (v : Nat) : ProjectAccess := (t.access[v]?).join

def store (t : AccessThread) (v : Nat) (a : ProjectAccess) : AccessThread :=
  { t with access := t.access.set v a }

end AccessThread

def AfterReset.stage (v : Nat) : AfterReset → AccessStage
  | .finish => .idle
  | .acquire => .loadLifecycle v
  | .transfer source => .transfer v source
  | .take index => .take v index

def AccessRequest.variables : AccessRequest → List Nat
  | .acquire v | .reset v | .send v | .receive v _ => [v]
  | .move target source => [target, source]
  | _ => []

/-- Where a request begins. A move to the variable itself does nothing. -/
def AccessRequest.stage : AccessRequest → AccessStage
  | .acquire v => .reset v .acquire
  | .reset v => .reset v .finish
  | .move target source => if target = source then .idle else .reset target (.transfer source)
  | .receive target index => .reset target (.take index)
  | .construct => .reserveConstruction
  | .unload => .beginUnload
  | .declare | .send _ => .idle

namespace ProjectManager

def initial : ProjectManager := ⟨⟨ProjectActivityGate.closedMask⟩, none, .unloaded, 0, []⟩

def leave (m : ProjectManager) : ProjectManager := { m with activity := m.activity.leave }

def begin (m : ProjectManager) (t : AccessThread) (request : AccessRequest) :
    ProjectManager × AccessThread :=
  if request.variables.all (· < t.access.length) then
    match request with
    | .declare => (m, { t with access := t.access ++ [none] })
    | .send source => ({ m with handed := m.handed ++ (t.value source).toList }, t.store source none)
    | _ => (m, t.goto request.stage)
  else (m, t)

/-- `project_access::reset`: the variable gives up its gate, and a gate given up is left. -/
def resetAccess (m : ProjectManager) (t : AccessThread) (v : Nat) : ProjectManager × AccessThread :=
  match t.value v with
  | none => (m, t)
  | some _ => (m.leave, t.store v none)

def advance (m : ProjectManager) (t : AccessThread) (choice : AccessChoice) :
    ProjectManager × AccessThread :=
  match t.stage with
  | .idle => m.begin t choice.request
  | .reset v next =>
    let (m, t) := m.resetAccess t v
    (m, t.goto (next.stage v))
  | .transfer target source =>
    (m, ((t.store target (t.value source)).store source none).goto .idle)
  | .take target index =>
    match m.handed[index]? with
    | none => (m, t.goto .idle)
    | some token =>
      ({ m with handed := m.handed.eraseIdx index }, (t.store target (some token)).goto .idle)
  -- project_manager::acquire
  | .loadLifecycle output =>
    if m.lifecycle ≠ .ready then (m, t.goto (.acquired output (.error .notFound)))
    else (m, t.goto (.loadGate output))
  | .loadGate output => (m, t.goto (.enter output m.activity.state))
  | .enter output value =>
    if ProjectActivityGate.admits value then
      if m.activity.state = value ∧ choice.succeeds then
        ({ m with activity := ⟨value + 1⟩ }, t.goto (.reloadLifecycle output))
      else (m, t.goto (.enter output m.activity.state))
    else (m, t.goto (.acquired output (.error .notFound)))
  | .reloadLifecycle output =>
    if m.lifecycle ≠ .ready then (m, t.goto (.refuse output .notFound))
    else (m, t.goto (.loadProject output))
  | .refuse output code => (m.leave, t.goto (.acquired output (.error code)))
  | .loadProject output =>
    match m.project with
    | none => (m, t.goto (.refuse output .initializationFailed))
    | some project => (m, t.goto (.assign output project))
  | .assign output project =>
    let (m, t) := m.resetAccess t output
    (m, (t.store output (some project)).goto (.acquired output (.ok ())))
  | .acquired _ _ => (m, t.goto .idle)
  -- load, build and rebuild
  | .reserveConstruction =>
    if m.lifecycle = .unloaded then ({ m with lifecycle := .constructing }, t.goto .construct)
    else (m, t.goto (.returned false))
  | .construct => (m, t.goto (if choice.succeeds then .publishProject else .abandonProject))
  | .publishProject =>
    ({ m with project := some (m.published + 1), published := m.published + 1 }, t.goto .openGate)
  | .openGate => ({ m with activity := m.activity.openGate }, t.goto .storeReady)
  | .storeReady => ({ m with lifecycle := .ready }, t.goto (.returned true))
  | .abandonProject => ({ m with project := none }, t.goto .storeAbandoned)
  | .storeAbandoned => ({ m with lifecycle := .unloaded }, t.goto (.returned false))
  -- unload
  | .beginUnload =>
    if m.lifecycle = .ready then ({ m with lifecycle := .draining }, t.goto .closeGate)
    else (m, t.goto (.returned false))
  | .closeGate => ({ m with activity := m.activity.closeGate }, t.goto .stop)
  | .stop => (m, t.goto .waitDrained)
  | .waitDrained => if m.activity.activeCount ≠ 0 then (m, t) else (m, t.goto .destroyProject)
  | .destroyProject => ({ m with project := none }, t.goto .storeUnloaded)
  | .storeUnloaded => ({ m with lifecycle := .unloaded }, t.goto (.returned true))
  | .returned _ => (m, t.goto .idle)

end ProjectManager

abbrev AccessConfig := Config ProjectManager AccessThread

def AccessThread.Starts (t : AccessThread) : Prop := t = ⟨[], .idle⟩

def Accessing (m : ProjectManager) (t : AccessThread) (m' : ProjectManager) (t' : AccessThread) :
    Prop :=
  ∃ choice, m.advance t choice = (m', t')

def AccessReachable (config : AccessConfig) : Prop :=
  Reachable AccessThread.Starts Accessing .initial config

end ServerEngine
