import ServerEngine.Config.ServerLoader
import ServerEngine.Config.ProjectSchema

/-! # The server configuration's schema

Which JSON values are server configurations, and the configuration each one describes. The names of
the endpoints are apart, and the values that fit the handler's tables are these.
-/
namespace ServerEngine

namespace ServerLoader

/-! ## The schema -/

def LogLevel.text : LogLevel → Bytes
  | .trace => asciiBytes "trace"
  | .debug => asciiBytes "debug"
  | .info => asciiBytes "info"
  | .warning => asciiBytes "warning"
  | .error => asciiBytes "error"
  | .critical => asciiBytes "critical"

inductive EndpointSchema : JsonValue → EndpointConfiguration → Prop
  | object {ms : List (Bytes × JsonValue)} {name address : Bytes} {port : UInt16}
      (hkeys : ms.Perm [member "name" (.string name), member "transport" (.string (asciiBytes "tcp")),
        member "protocol" (.string (asciiBytes "json")), member "address" (.string address),
        member "port" (.integer port.toNat)])
      (hname : name ≠ []) (haddress : address ≠ []) (hport : 0 < port) :
      EndpointSchema (.object ms) ⟨name, .tcp, .json, address, port⟩

inductive CommunicationSchema : JsonValue → CommunicationConfiguration → Prop
  | object {ms : List (Bytes × JsonValue)} {items : List JsonValue}
      {endpoints : List EndpointConfiguration} {console : Bool}
      (hkeys : ms.Perm [member "endpoints" (.array items), member "console" (.boolean console)])
      (hitems : List.Forall₂ EndpointSchema items endpoints)
      (hnames : (endpoints.map EndpointConfiguration.name).Nodup) :
      CommunicationSchema (.object ms) ⟨endpoints, console⟩

inductive LoggingSchema : JsonValue → LoggingConfiguration → Prop
  | object {ms : List (Bytes × JsonValue)} {level : LogLevel} {console : Bool}
      (hkeys : ms.Perm [member "level" (.string level.text), member "console" (.boolean console)]) :
      LoggingSchema (.object ms) ⟨level, console⟩

inductive TelemetrySchema : JsonValue → Bool → Prop
  | object {ms : List (Bytes × JsonValue)} {metrics : Bool}
      (hkeys : ms.Perm [member "metrics" (.boolean metrics)]) : TelemetrySchema (.object ms) metrics

/-- `project`, with the text of the path. -/
inductive PathSchema : JsonValue → Bytes → Prop
  | object {ms : List (Bytes × JsonValue)} {text : Bytes}
      (hkeys : ms.Perm [member "path" (.string text)]) (htext : text ≠ []) :
      PathSchema (.object ms) text

inductive ServerSchema (resolve : Bytes → Option Bytes) : JsonValue → ServerConfiguration → Prop
  | object {ms : List (Bytes × JsonValue)} {serverValue loggingValue telemetryValue : JsonValue}
      {projectValue : JsonValue} {communication : CommunicationConfiguration}
      {logging : LoggingConfiguration} {metrics : Bool} {text path : Bytes}
      (hkeys : ms.Perm [member "version" (.integer currentServerConfigurationVersion.toNat),
        member "server" serverValue, member "logging" loggingValue,
        member "telemetry" telemetryValue, member "project" projectValue])
      (hserver : CommunicationSchema serverValue communication)
      (hlogging : LoggingSchema loggingValue logging)
      (htelemetry : TelemetrySchema telemetryValue metrics) (hproject : PathSchema projectValue text)
      (hpath : resolve text = some path) :
      ServerSchema resolve (.object ms)
        ⟨currentServerConfigurationVersion, communication, logging, metrics, path⟩

/-! ## The tables -/

instance : Fintype Context :=
  ⟨{.root, .server, .endpoints, .endpoint, .logging, .telemetry, .project, .invalid},
    by intro c; cases c <;> decide⟩

instance : Fintype Field :=
  ⟨{.none, .version, .server, .logging, .telemetry, .project, .endpoints, .console, .name,
    .transport, .protocol, .address, .port, .level, .metrics, .path, .unknown},
    by intro f; cases f <;> decide⟩

def scope : Context → Field → List Context
  | .root, .server => [.server, .endpoint]
  | .root, .logging => [.logging]
  | .root, .telemetry => [.telemetry]
  | .root, .project => [.project]
  | .server, .endpoints => [.endpoint]
  | .endpoints, _ => [.endpoint]
  | _, _ => []

def level : Context → Nat
  | .server | .logging | .telemetry | .project => 1
  | .endpoints => 2
  | .endpoint => 3
  | _ => 0

def keyText : Field → Bytes
  | .none | .unknown => []
  | .version => asciiBytes "version"
  | .server => asciiBytes "server"
  | .logging => asciiBytes "logging"
  | .telemetry => asciiBytes "telemetry"
  | .project => asciiBytes "project"
  | .endpoints => asciiBytes "endpoints"
  | .console => asciiBytes "console"
  | .name => asciiBytes "name"
  | .transport => asciiBytes "transport"
  | .protocol => asciiBytes "protocol"
  | .address => asciiBytes "address"
  | .port => asciiBytes "port"
  | .level => asciiBytes "level"
  | .metrics => asciiBytes "metrics"
  | .path => asciiBytes "path"

theorem identify_cases (c : Context) (key : Bytes) : identify c key = .unknown ∨
    identify c key ∈ required c ∧ key = keyText (identify c key) := by
  unfold identify
  cases c with
  | root =>
    dsimp only
    split_ifs with h₁ h₂ h₃ h₄ h₅
    · exact .inr ⟨by decide, h₁⟩
    · exact .inr ⟨by decide, h₂⟩
    · exact .inr ⟨by decide, h₃⟩
    · exact .inr ⟨by decide, h₄⟩
    · exact .inr ⟨by decide, h₅⟩
    · exact .inl rfl
  | server =>
    dsimp only
    split_ifs with h₁ h₂
    · exact .inr ⟨by decide, h₁⟩
    · exact .inr ⟨by decide, h₂⟩
    · exact .inl rfl
  | endpoint =>
    dsimp only
    split_ifs with h₁ h₂ h₃ h₄ h₅
    · exact .inr ⟨by decide, h₁⟩
    · exact .inr ⟨by decide, h₂⟩
    · exact .inr ⟨by decide, h₃⟩
    · exact .inr ⟨by decide, h₄⟩
    · exact .inr ⟨by decide, h₅⟩
    · exact .inl rfl
  | logging =>
    dsimp only
    split_ifs with h₁ h₂
    · exact .inr ⟨by decide, h₁⟩
    · exact .inr ⟨by decide, h₂⟩
    · exact .inl rfl
  | telemetry =>
    dsimp only
    split_ifs with h₁
    · exact .inr ⟨by decide, h₁⟩
    · exact .inl rfl
  | project =>
    dsimp only
    split_ifs with h₁
    · exact .inr ⟨by decide, h₁⟩
    · exact .inl rfl
  | endpoints => exact .inl rfl
  | invalid => exact .inl rfl

theorem identify_keyText : ∀ c f, f ∈ required c → identify c (keyText f) = f := by decide +kernel

theorem handler_lawful : handler.Lawful scope level where
  object := by
    have h : ∀ c f, objectContext c f ≠ .invalid → objectContext c f ∈ scope c f ∧
        (objectContext c f == .endpoints) = false ∧ level (objectContext c f) = level c + 1 ∧
        ∀ g, ∀ x ∈ scope (objectContext c f) g, x ∈ scope c f := by decide +kernel
    exact h
  array := by
    have h : ∀ c f, arrayContext c f ≠ .invalid → (arrayContext c f == .endpoints) = true ∧
        level (arrayContext c f) = level c + 1 ∧
        ∀ g, ∀ x ∈ scope (arrayContext c f) g, x ∈ scope c f ∧ (x == .endpoint) = true := by
      decide +kernel
    exact h
  apart := by
    have h : ∀ (c : Context) f g, (c == .endpoints) = false → f ≠ g → ∀ x ∈ scope c f,
        x ∉ scope c g := by decide +kernel
    exact h
  outside := by decide +kernel
  root := ⟨rfl, rfl, rfl⟩
  bounded := by decide +kernel

theorem handler_keyed : handler.Keyed keyText where
  identify := by
    intro c key f hf
    constructor
    · intro h
      have hfield : identify c key = f := h
      rw [← hfield]
      exact (identify_cases c key).resolve_left fun heq => hf (hfield.symm.trans heq)
    · intro h
      obtain ⟨hmem, rfl⟩ := h
      exact identify_keyText c f hmem
  nodup := by
    have h : ∀ c, (required c).Nodup := by decide +kernel
    exact h
  known := by
    have h : ∀ c, Field.unknown ∉ required c := by decide +kernel
    exact h

theorem takes_object (c : Context) (f : Field) (h : objectContext c f ≠ .invalid) :
    handler.TakesObject c f := by
  cases c <;> cases f <;>
    first
    | exact absurd rfl h
    | exact ⟨h, rfl, fun _ _ _ h => (nomatch h), fun _ _ _ h => (nomatch h), fun _ _ _ h => (nomatch h)⟩

variable {f : Field} {v : JsonValue} {d d' : Data}

/-! ## `server.endpoints[]` -/

def setEndpoint (endpoint : EndpointConfiguration) (d : Data) : Data := { d with endpoint }

def setEndpointName (name : Bytes) (d : Data) : Data := setEndpoint { d.endpoint with name } d

def setTransport (transport : TransportKind) (d : Data) : Data :=
  setEndpoint { d.endpoint with transport } d

def setProtocol (protocol : ProtocolKind) (d : Data) : Data :=
  setEndpoint { d.endpoint with protocol } d

def setAddress (address : Bytes) (d : Data) : Data := setEndpoint { d.endpoint with address } d

def setPort (port : UInt16) (d : Data) : Data := setEndpoint { d.endpoint with port } d

inductive EndpointUpdate : Field → JsonValue → (Data → Data) → Prop
  | name (name : Bytes) (hname : name ≠ []) :
      EndpointUpdate .name (.string name) (setEndpointName name)
  | transport : EndpointUpdate .transport (.string (asciiBytes "tcp")) (setTransport .tcp)
  | protocol : EndpointUpdate .protocol (.string (asciiBytes "json")) (setProtocol .json)
  | address (address : Bytes) (haddress : address ≠ []) :
      EndpointUpdate .address (.string address) (setAddress address)
  | port (port : UInt16) (hport : 0 < port) :
      EndpointUpdate .port (.integer port.toNat) (setPort port)

def endpointCopy : Field → Data → Data → Data
  | .name, e, d => setEndpointName e.endpoint.name d
  | .transport, e, d => setTransport e.endpoint.transport d
  | .protocol, e, d => setProtocol e.endpoint.protocol d
  | .address, e, d => setAddress e.endpoint.address d
  | .port, e, d => setPort e.endpoint.port d
  | _, _, d => d

theorem endpointCopy_copies : Components.Copies endpointCopy where
  same f d := by cases f <;> rfl
  last f e e' d := by cases f <;> rfl
  comm f g e e' d hne := by
    cases f <;> cases g <;> first | rfl | exact absurd rfl hne

theorem fits_endpoint :
    Fits handler .endpoint f (.value v) d d' ↔ ∃ u, EndpointUpdate f v u ∧ d' = u d := by
  constructor
  · intro h
    cases h with
    | string h =>
      have h : string .endpoint f _ d = .accept d' := h
      cases f <;> simp only [string, wrongFieldType, reduceCtorEq] at h
      · split_ifs at h with hname
        exact ⟨_, .name _ hname, (Reaction.accept.inj h).symm⟩
      · split_ifs at h with htcp
        rw [not_not.mp htcp]
        exact ⟨_, .transport, (Reaction.accept.inj h).symm⟩
      · split_ifs at h with hjson
        rw [not_not.mp hjson]
        exact ⟨_, .protocol, (Reaction.accept.inj h).symm⟩
      · split_ifs at h with haddress
        exact ⟨_, .address _ haddress, (Reaction.accept.inj h).symm⟩
    | integer h =>
      rename_i value
      have h : integer .endpoint f value d = .accept d' := h
      cases f <;> simp only [integer, wrongFieldType, reduceCtorEq] at h
      split_ifs at h with hrange
      rw [(toUInt16_eq hrange).1]
      exact ⟨_, .port _ (toUInt16_eq hrange).2, (Reaction.accept.inj h).symm⟩
    | boolean h => cases f <;> cases h
    | array hc _ => cases f <;> exact absurd rfl hc
    | object hc _ _ _ => cases f <;> exact absurd rfl hc
  · intro h
    obtain ⟨u, hu, rfl⟩ := h
    cases hu with
    | name name hname => exact .string (if_neg hname)
    | transport => exact .string rfl
    | protocol => exact .string rfl
    | address address haddress => exact .string (if_neg haddress)
    | port port hport =>
      refine .integer ((if_neg (toUInt16_range hport)).trans ?_)
      rw [toUInt16_toNat]
      rfl

theorem endpoint_local (f : Field) (v : JsonValue) :
    Components.LocalTo endpointCopy f (Fits handler .endpoint f (.value v)) := by
  apply Components.local_of_updates fits_endpoint
  · intro u hu d
    cases hu <;> rfl
  · intro u hu g e d hne
    cases hu <;> cases g <;> first | rfl | exact absurd rfl hne

def setEndpoints (endpoints : List EndpointConfiguration) (d : Data) : Data :=
  { d with
    candidate := { d.candidate with
      communication := { d.candidate.communication with endpoints } } }

def addEndpoint (endpoint : EndpointConfiguration) (d : Data) : Data :=
  setEndpoints (d.candidate.communication.endpoints ++ [endpoint]) (setEndpoint endpoint d)

theorem finishEndpoint_eq {endpoint : EndpointConfiguration} :
    finishEndpoint (setEndpoint endpoint d) = .accept d' ↔
      endpoint.name ∉ d.candidate.communication.endpoints.map EndpointConfiguration.name ∧
        d' = addEndpoint endpoint d := by
  have hany : ((setEndpoint endpoint d).candidate.communication.endpoints.any fun existing =>
      existing.name = (setEndpoint endpoint d).endpoint.name) = true ↔
      endpoint.name ∈ d.candidate.communication.endpoints.map EndpointConfiguration.name := by
    rw [List.any_eq_true, List.mem_map]
    exact exists_congr fun existing => and_congr_right fun _ => decide_eq_true_iff
  unfold finishEndpoint
  by_cases hmem : endpoint.name ∈ d.candidate.communication.endpoints.map EndpointConfiguration.name
  · rw [if_pos (hany.mpr hmem)]
    constructor
    · intro h
      cases h
    · intro h
      exact absurd hmem h.1
  · rw [if_neg (fun h => hmem (hany.mp h))]
    constructor
    · intro h
      exact ⟨hmem, (Reaction.accept.inj h).symm⟩
    · intro h
      rw [h.2]
      rfl

theorem fits_endpoint_object : Fits handler .endpoints .none (.value v) d d' ↔
    ∃ endpoint, EndpointSchema v endpoint ∧
      endpoint.name ∉ d.candidate.communication.endpoints.map EndpointConfiguration.name ∧
      d' = addEndpoint endpoint d := by
  refine (object_only handler_keyed endpointCopy_copies (takes_object .endpoints .none nofun)
    endpoint_local).trans ?_
  constructor
  · intro h
    obtain ⟨ms, vs, d₁, rfl, hperm, hlength, hruns, hfinish⟩ := h
    match vs, hlength with
    | [v₁, v₂, v₃, v₄, v₅], _ =>
      obtain ⟨e₁, h₁, hruns⟩ := Components.runs_cons.mp hruns
      obtain ⟨e₂, h₂, hruns⟩ := Components.runs_cons.mp hruns
      obtain ⟨e₃, h₃, hruns⟩ := Components.runs_cons.mp hruns
      obtain ⟨e₄, h₄, hruns⟩ := Components.runs_cons.mp hruns
      obtain ⟨e₅, h₅, hruns⟩ := Components.runs_cons.mp hruns
      cases hruns
      obtain ⟨u₁, hu₁, rfl⟩ := fits_endpoint.mp h₁
      obtain ⟨u₂, hu₂, rfl⟩ := fits_endpoint.mp h₂
      obtain ⟨u₃, hu₃, rfl⟩ := fits_endpoint.mp h₃
      obtain ⟨u₄, hu₄, rfl⟩ := fits_endpoint.mp h₄
      obtain ⟨u₅, hu₅, rfl⟩ := fits_endpoint.mp h₅
      cases hu₁ with
      | name name hname =>
        cases hu₂
        cases hu₃
        cases hu₄ with
        | address address haddress =>
          cases hu₅ with
          | port port hport =>
            have hend := @finishEndpoint_eq d d' ⟨name, .tcp, .json, address, port⟩
            exact ⟨_, .object hperm hname haddress hport, hend.mp hfinish⟩
  · intro h
    obtain ⟨endpoint, hschema, hend⟩ := h
    cases hschema with
    | object hkeys hname haddress hport =>
      rename_i ms name address port
      refine ⟨ms, [.string name, .string (asciiBytes "tcp"), .string (asciiBytes "json"),
        .string address, .integer port.toNat],
        setEndpoint ⟨name, .tcp, .json, address, port⟩ d, rfl, hkeys, rfl, ?_,
        finishEndpoint_eq.mpr hend⟩
      refine .cons (fits_endpoint.mpr ⟨_, .name name hname, rfl⟩) ?_
      refine .cons (fits_endpoint.mpr ⟨_, .transport, rfl⟩) ?_
      refine .cons (fits_endpoint.mpr ⟨_, .protocol, rfl⟩) ?_
      refine .cons (fits_endpoint.mpr ⟨_, .address address haddress, rfl⟩) ?_
      exact .cons (fits_endpoint.mpr ⟨_, .port port hport, rfl⟩) .nil

/-! ## `server` -/

def setServerConsole (console : Bool) (d : Data) : Data :=
  { d with
    candidate := { d.candidate with
      communication := { d.candidate.communication with console } } }

def serverCopy : Field → Data → Data → Data
  | .endpoints, e, d =>
    setEndpoints e.candidate.communication.endpoints (setEndpoint e.endpoint d)
  | .console, e, d => setServerConsole e.candidate.communication.console d
  | _, _, d => d

theorem serverCopy_copies : Components.Copies serverCopy where
  same f d := by cases f <;> rfl
  last f e e' d := by cases f <;> rfl
  comm f g e e' d hne := by
    cases f <;> cases g <;> first | rfl | exact absurd rfl hne

theorem endpoints_local (v : JsonValue) :
    Components.LocalTo serverCopy .endpoints (Fits handler .endpoints .none (.value v)) where
  frame := by
    intro d d' h
    obtain ⟨endpoint, -, -, rfl⟩ := fits_endpoint_object.mp h
    rfl
  other := by
    intro d d' g e hne h
    obtain ⟨endpoint, hschema, hnew, rfl⟩ := fits_endpoint_object.mp h
    apply fits_endpoint_object.mpr
    cases g with
    | endpoints => exact absurd rfl hne
    | _ => exact ⟨endpoint, hschema, hnew, rfl⟩

theorem fits_endpoints : Fits handler .server .endpoints (.value v) d d' ↔
    ∃ vs, v = .array vs ∧
      Components.Runs (fun v => Fits handler .endpoints .none (.value v)) vs d d' := by
  constructor
  · intro h
    cases h with
    | string h => cases h
    | integer h => cases h
    | boolean h => cases h
    | array hc hvs => exact ⟨_, rfl, fits_elements.mp hvs⟩
    | object hc _ _ _ => exact absurd rfl hc
  · intro h
    obtain ⟨vs, rfl, hruns⟩ := h
    have hne : handler.arrayContext .server .endpoints ≠ .invalid := by
      intro h
      cases h
    exact .array hne (fits_elements.mpr hruns)

theorem fits_server (hf : f ≠ .endpoints) : Fits handler .server f (.value v) d d' ↔
    ∃ u, (∃ console, f = .console ∧ v = .boolean console ∧ u = setServerConsole console) ∧
      d' = u d := by
  constructor
  · intro h
    cases h with
    | string h => cases f <;> cases h
    | integer h => cases f <;> cases h
    | boolean h =>
      rename_i value
      have h : boolean .server f value d = .accept d' := h
      cases f <;> simp only [boolean, wrongFieldType, reduceCtorEq] at h
      exact ⟨_, ⟨value, rfl, rfl, rfl⟩, (Reaction.accept.inj h).symm⟩
    | array hc _ => cases f <;> first | exact absurd rfl hf | exact absurd rfl hc
    | object hc _ _ _ => cases f <;> exact absurd rfl hc
  · intro h
    obtain ⟨u, ⟨console, rfl, rfl, rfl⟩, rfl⟩ := h
    exact .boolean rfl

theorem server_local (f : Field) (v : JsonValue) :
    Components.LocalTo serverCopy f (Fits handler .server f (.value v)) := by
  by_cases hf : f = .endpoints
  · rw [hf]
    constructor
    · intro d d' h
      obtain ⟨vs, -, hruns⟩ := fits_endpoints.mp h
      exact (Components.local_runs serverCopy_copies endpoints_local vs).frame hruns
    · intro d d' g e hne h
      obtain ⟨vs, hv, hruns⟩ := fits_endpoints.mp h
      exact fits_endpoints.mpr
        ⟨vs, hv, (Components.local_runs serverCopy_copies endpoints_local vs).other e hne hruns⟩
  · apply Components.local_of_updates (fits_server hf)
    · intro u hu d
      obtain ⟨console, rfl, -, rfl⟩ := hu
      rfl
    · intro u hu g e d hne
      obtain ⟨console, rfl, -, rfl⟩ := hu
      cases g <;> first | rfl | exact absurd rfl hne

theorem fits_server_object : Fits handler .root .server (.value v) d d' ↔
    ∃ ms vs console d₁, v = .object ms ∧
      ms.Perm [member "endpoints" (.array vs), member "console" (.boolean console)] ∧
      Components.Runs (fun v => Fits handler .endpoints .none (.value v)) vs d d₁ ∧
      d' = setServerConsole console d₁ := by
  refine (object_only handler_keyed serverCopy_copies (takes_object .root .server nofun)
    server_local).trans ?_
  constructor
  · intro h
    obtain ⟨ms, vs, d₁, rfl, hperm, hlength, hruns, hfinish⟩ := h
    obtain ⟨v₁, v₂, rfl⟩ := List.length_eq_two.mp hlength
    obtain ⟨e₁, h₁, hruns⟩ := Components.runs_cons.mp hruns
    obtain ⟨e₂, h₂, hruns⟩ := Components.runs_cons.mp hruns
    cases hruns
    obtain ⟨vs, rfl, hendpoints⟩ := fits_endpoints.mp h₁
    obtain ⟨u, ⟨console, -, rfl, rfl⟩, rfl⟩ := (fits_server (f := .console) (by decide)).mp h₂
    cases hfinish
    exact ⟨ms, vs, console, e₁, rfl, hperm, hendpoints, rfl⟩
  · intro h
    obtain ⟨ms, vs, console, d₁, rfl, hperm, hruns, rfl⟩ := h
    refine ⟨ms, [.array vs, .boolean console], setServerConsole console d₁, rfl, hperm, rfl, ?_, rfl⟩
    refine .cons (fits_endpoints.mpr ⟨vs, rfl, hruns⟩) ?_
    exact .cons ((fits_server (f := .console) (by decide)).mpr
      ⟨_, ⟨console, rfl, rfl, rfl⟩, rfl⟩) .nil

variable {vs : List JsonValue}

theorem endpoints_sound
    (h : Components.Runs (fun v => Fits handler .endpoints .none (.value v)) vs d d')
    (hnodup : (d.candidate.communication.endpoints.map EndpointConfiguration.name).Nodup) :
    ∃ endpoints, List.Forall₂ EndpointSchema vs endpoints ∧
      ((d.candidate.communication.endpoints ++ endpoints).map EndpointConfiguration.name).Nodup ∧
      d' = setEndpoints (d.candidate.communication.endpoints ++ endpoints)
        (setEndpoint d'.endpoint d) := by
  induction h with
  | nil =>
    refine ⟨[], .nil, ?_, ?_⟩
    · rwa [List.append_nil]
    · rw [List.append_nil]
      rfl
  | cons hv _ ih =>
    rename_i d _ d' _
    obtain ⟨endpoint, hschema, hnew, rfl⟩ := fits_endpoint_object.mp hv
    have hnext : ((d.candidate.communication.endpoints ++ [endpoint]).map
        EndpointConfiguration.name).Nodup := by
      rw [List.map_append]
      apply hnodup.append (List.nodup_singleton _)
      intro name hmem hname
      exact hnew (List.mem_singleton.mp hname ▸ hmem)
    obtain ⟨endpoints, hendpoints, hnames, heq⟩ := ih hnext
    have hassoc : d.candidate.communication.endpoints ++ [endpoint] ++ endpoints =
        d.candidate.communication.endpoints ++ endpoint :: endpoints :=
      List.append_cons _ _ _ |>.symm
    refine ⟨endpoint :: endpoints, .cons hschema hendpoints, ?_, ?_⟩
    · rw [← hassoc]
      exact hnames
    · rw [← hassoc]
      exact heq

theorem endpoints_complete {endpoints : List EndpointConfiguration}
    (h : List.Forall₂ EndpointSchema vs endpoints) (d : Data)
    (hnames : ((d.candidate.communication.endpoints ++ endpoints).map EndpointConfiguration.name).Nodup) :
    ∃ d', Components.Runs (fun v => Fits handler .endpoints .none (.value v)) vs d d' ∧
      d' = setEndpoints (d.candidate.communication.endpoints ++ endpoints)
        (setEndpoint d'.endpoint d) := by
  induction h generalizing d with
  | nil =>
    refine ⟨d, .nil, ?_⟩
    rw [List.append_nil]
    rfl
  | cons hv _ ih =>
    rename_i v endpoint vs endpoints _
    have hassoc : d.candidate.communication.endpoints ++ [endpoint] ++ endpoints =
        d.candidate.communication.endpoints ++ endpoint :: endpoints :=
      List.append_cons _ _ _ |>.symm
    have hnew : endpoint.name ∉
        d.candidate.communication.endpoints.map EndpointConfiguration.name := by
      rw [List.map_append] at hnames
      intro hmem
      exact (List.disjoint_of_nodup_append hnames) hmem List.mem_cons_self
    rw [← hassoc] at hnames ⊢
    obtain ⟨d', hruns, heq⟩ := ih (addEndpoint endpoint d) hnames
    exact ⟨d', .cons (fits_endpoint_object.mpr ⟨endpoint, hv, hnew, rfl⟩) hruns, heq⟩

/-! ## `logging` -/

def setLogging (logging : LoggingConfiguration) (d : Data) : Data :=
  { d with candidate := { d.candidate with logging } }

def setLevel (minimumLevel : LogLevel) (d : Data) : Data :=
  setLogging { d.candidate.logging with minimumLevel } d

def setLoggingConsole (console : Bool) (d : Data) : Data :=
  setLogging { d.candidate.logging with console } d

inductive LoggingUpdate : Field → JsonValue → (Data → Data) → Prop
  | level (level : LogLevel) : LoggingUpdate .level (.string level.text) (setLevel level)
  | console (console : Bool) :
      LoggingUpdate .console (.boolean console) (setLoggingConsole console)

def loggingCopy : Field → Data → Data → Data
  | .level, e, d => setLevel e.candidate.logging.minimumLevel d
  | .console, e, d => setLoggingConsole e.candidate.logging.console d
  | _, _, d => d

theorem loggingCopy_copies : Components.Copies loggingCopy where
  same f d := by cases f <;> rfl
  last f e e' d := by cases f <;> rfl
  comm f g e e' d hne := by
    cases f <;> cases g <;> first | rfl | exact absurd rfl hne

theorem parseLevel_eq {value : Bytes} {level : LogLevel} (h : parseLevel value = some level) :
    value = level.text := by
  unfold parseLevel at h
  split_ifs at h with h₁ h₂ h₃ h₄ h₅ h₆
  · cases h
    exact h₁
  · cases h
    exact h₂
  · cases h
    exact h₃
  · cases h
    exact h₄
  · cases h
    exact h₅
  · cases h
    exact h₆

theorem parseLevel_text (level : LogLevel) : parseLevel level.text = some level := by
  cases level <;> decide

theorem fits_logging :
    Fits handler .logging f (.value v) d d' ↔ ∃ u, LoggingUpdate f v u ∧ d' = u d := by
  constructor
  · intro h
    cases h with
    | string h =>
      have h : string .logging f _ d = .accept d' := h
      cases f <;> simp only [string, wrongFieldType, reduceCtorEq] at h
      split at h
      · cases h
      · rename_i level hlevel
        rw [parseLevel_eq hlevel]
        exact ⟨_, .level level, (Reaction.accept.inj h).symm⟩
    | integer h => cases f <;> cases h
    | boolean h =>
      rename_i value
      have h : boolean .logging f value d = .accept d' := h
      cases f <;> simp only [boolean, wrongFieldType, reduceCtorEq] at h
      exact ⟨_, .console value, (Reaction.accept.inj h).symm⟩
    | array hc _ => cases f <;> exact absurd rfl hc
    | object hc _ _ _ => cases f <;> exact absurd rfl hc
  · intro h
    obtain ⟨u, hu, rfl⟩ := h
    cases hu with
    | level level =>
      apply Fits.string
      change string .logging .level level.text d = _
      simp only [string, parseLevel_text]
      rfl
    | console console => exact .boolean rfl

theorem logging_local (f : Field) (v : JsonValue) :
    Components.LocalTo loggingCopy f (Fits handler .logging f (.value v)) := by
  apply Components.local_of_updates fits_logging
  · intro u hu d
    cases hu <;> rfl
  · intro u hu g e d hne
    cases hu <;> cases g <;> first | rfl | exact absurd rfl hne

theorem fits_logging_object : Fits handler .root .logging (.value v) d d' ↔
    ∃ logging, LoggingSchema v logging ∧ d' = setLogging logging d := by
  refine (object_only handler_keyed loggingCopy_copies (takes_object .root .logging nofun)
    logging_local).trans ?_
  constructor
  · intro h
    obtain ⟨ms, vs, d₁, rfl, hperm, hlength, hruns, hfinish⟩ := h
    obtain ⟨v₁, v₂, rfl⟩ := List.length_eq_two.mp hlength
    obtain ⟨e₁, h₁, hruns⟩ := Components.runs_cons.mp hruns
    obtain ⟨e₂, h₂, hruns⟩ := Components.runs_cons.mp hruns
    cases hruns
    obtain ⟨u₁, hu₁, rfl⟩ := fits_logging.mp h₁
    obtain ⟨u₂, hu₂, rfl⟩ := fits_logging.mp h₂
    cases hfinish
    cases hu₁ with
    | level level =>
      cases hu₂ with
      | console console => exact ⟨_, .object hperm, rfl⟩
  · intro h
    obtain ⟨logging, hschema, rfl⟩ := h
    cases hschema with
    | object hkeys =>
      rename_i ms level console
      refine ⟨ms, [.string level.text, .boolean console], _, rfl, hkeys, rfl, ?_, rfl⟩
      refine .cons (fits_logging.mpr ⟨_, .level level, rfl⟩) ?_
      exact .cons (fits_logging.mpr ⟨_, .console console, rfl⟩) .nil

/-! ## `telemetry` and `project` -/

def setMetrics (metrics : Bool) (d : Data) : Data :=
  { d with candidate := { d.candidate with metrics } }

def setProjectPath (text : Bytes) (d : Data) : Data := { d with projectPath := text }

inductive SingleUpdate : Context → Field → JsonValue → (Data → Data) → Prop
  | metrics (metrics : Bool) :
      SingleUpdate .telemetry .metrics (.boolean metrics) (setMetrics metrics)
  | path (text : Bytes) (htext : text ≠ []) :
      SingleUpdate .project .path (.string text) (setProjectPath text)

def singleCopy : Field → Data → Data → Data
  | .metrics, e, d => setMetrics e.candidate.metrics d
  | .path, e, d => setProjectPath e.projectPath d
  | _, _, d => d

theorem singleCopy_copies : Components.Copies singleCopy where
  same f d := by cases f <;> rfl
  last f e e' d := by cases f <;> rfl
  comm f g e e' d hne := by
    cases f <;> cases g <;> first | rfl | exact absurd rfl hne

variable {c : Context}

theorem fits_single (hc : c = .telemetry ∨ c = .project) :
    Fits handler c f (.value v) d d' ↔ ∃ u, SingleUpdate c f v u ∧ d' = u d := by
  constructor
  · intro h
    cases h with
    | string h =>
      rename_i value
      have h : string c f value d = .accept d' := h
      cases hc with
      | inl hc =>
        rw [hc] at h
        cases f <;> cases h
      | inr hc =>
        rw [hc] at h ⊢
        cases f <;> simp only [string, wrongFieldType, reduceCtorEq] at h
        split_ifs at h with htext
        exact ⟨_, .path value htext, (Reaction.accept.inj h).symm⟩
    | integer h => cases hc <;> subst c <;> cases f <;> cases h
    | boolean h =>
      rename_i value
      have h : boolean c f value d = .accept d' := h
      cases hc with
      | inl hc =>
        rw [hc] at h ⊢
        cases f <;> simp only [boolean, wrongFieldType, reduceCtorEq] at h
        exact ⟨_, .metrics value, (Reaction.accept.inj h).symm⟩
      | inr hc =>
        rw [hc] at h
        cases f <;> cases h
    | array hne _ => cases hc <;> subst c <;> cases f <;> exact absurd rfl hne
    | object hne _ _ _ => cases hc <;> subst c <;> cases f <;> exact absurd rfl hne
  · intro h
    obtain ⟨u, hu, rfl⟩ := h
    cases hu with
    | metrics metrics => exact .boolean rfl
    | path text htext => exact .string (if_neg htext)

theorem single_local (hc : c = .telemetry ∨ c = .project) (f : Field) (v : JsonValue) :
    Components.LocalTo singleCopy f (Fits handler c f (.value v)) := by
  apply Components.local_of_updates (fits_single hc)
  · intro u hu d
    cases hu <;> rfl
  · intro u hu g e d hne
    cases hu <;> cases g <;> first | rfl | exact absurd rfl hne

theorem fits_telemetry_object : Fits handler .root .telemetry (.value v) d d' ↔
    ∃ metrics, TelemetrySchema v metrics ∧ d' = setMetrics metrics d := by
  refine (object_only handler_keyed singleCopy_copies (takes_object .root .telemetry nofun)
    (single_local (.inl rfl))).trans ?_
  constructor
  · intro h
    obtain ⟨ms, vs, d₁, rfl, hperm, hlength, hruns, hfinish⟩ := h
    obtain ⟨v₁, rfl⟩ := List.length_eq_one_iff.mp hlength
    obtain ⟨e₁, h₁, hruns⟩ := Components.runs_cons.mp hruns
    cases hruns
    obtain ⟨u₁, hu₁, rfl⟩ := (fits_single (.inl rfl)).mp h₁
    cases hfinish
    cases hu₁ with
    | metrics metrics => exact ⟨metrics, .object hperm, rfl⟩
  · intro h
    obtain ⟨metrics, hschema, rfl⟩ := h
    cases hschema with
    | object hkeys =>
      exact ⟨_, [.boolean metrics], _, rfl, hkeys, rfl,
        .cons ((fits_single (.inl rfl)).mpr ⟨_, .metrics metrics, rfl⟩) .nil, rfl⟩

theorem fits_project_object : Fits handler .root .project (.value v) d d' ↔
    ∃ text, PathSchema v text ∧ d' = setProjectPath text d := by
  refine (object_only handler_keyed singleCopy_copies (takes_object .root .project nofun)
    (single_local (.inr rfl))).trans ?_
  constructor
  · intro h
    obtain ⟨ms, vs, d₁, rfl, hperm, hlength, hruns, hfinish⟩ := h
    obtain ⟨v₁, rfl⟩ := List.length_eq_one_iff.mp hlength
    obtain ⟨e₁, h₁, hruns⟩ := Components.runs_cons.mp hruns
    cases hruns
    obtain ⟨u₁, hu₁, rfl⟩ := (fits_single (.inr rfl)).mp h₁
    cases hfinish
    cases hu₁ with
    | path text htext => exact ⟨text, .object hperm htext, rfl⟩
  · intro h
    obtain ⟨text, hschema, rfl⟩ := h
    cases hschema with
    | object hkeys htext =>
      exact ⟨_, [.string text], _, rfl, hkeys, rfl,
        .cons ((fits_single (.inr rfl)).mpr ⟨_, .path text htext, rfl⟩) .nil, rfl⟩

/-! ## The root -/

def setVersion (version : UInt32) (d : Data) : Data :=
  { d with candidate := { d.candidate with version } }

def setCommunication (communication : CommunicationConfiguration) (d : Data) : Data :=
  { d with candidate := { d.candidate with communication } }

def rootCopy : Field → Data → Data → Data
  | .version, e, d => setVersion e.candidate.version d
  | .server, e, d => setCommunication e.candidate.communication (setEndpoint e.endpoint d)
  | .logging, e, d => setLogging e.candidate.logging d
  | .telemetry, e, d => setMetrics e.candidate.metrics d
  | .project, e, d => setProjectPath e.projectPath d
  | _, _, d => d

theorem rootCopy_copies : Components.Copies rootCopy where
  same f d := by cases f <;> rfl
  last f e e' d := by cases f <;> rfl
  comm f g e e' d hne := by
    cases f <;> cases g <;> first | rfl | exact absurd rfl hne

/-- What a value does in the context `root`, the server apart. -/
inductive RootUpdate : Field → JsonValue → (Data → Data) → Prop
  | version (version : UInt32) :
      RootUpdate .version (.integer version.toNat) (setVersion version)
  | logging {v : JsonValue} (logging : LoggingConfiguration) (h : LoggingSchema v logging) :
      RootUpdate .logging v (setLogging logging)
  | telemetry {v : JsonValue} (metrics : Bool) (h : TelemetrySchema v metrics) :
      RootUpdate .telemetry v (setMetrics metrics)
  | project {v : JsonValue} (text : Bytes) (h : PathSchema v text) :
      RootUpdate .project v (setProjectPath text)

theorem fits_version : Fits handler .root .version (.value v) d d' ↔
    ∃ version : UInt32, v = .integer version.toNat ∧ d' = setVersion version d := by
  constructor
  · intro h
    cases h with
    | string h => cases h
    | integer h =>
      rename_i value
      have h : integer .root .version value d = .accept d' := h
      simp only [integer, wrongFieldType] at h
      split_ifs at h with hrange
      rw [toUInt32_eq hrange]
      exact ⟨_, rfl, (Reaction.accept.inj h).symm⟩
    | boolean h => cases h
    | array hc _ => exact absurd rfl hc
    | object hc _ _ _ => exact absurd rfl hc
  · intro h
    obtain ⟨version, rfl, rfl⟩ := h
    refine .integer ((if_neg (toUInt32_range version)).trans ?_)
    rw [toUInt32_toNat]
    rfl

theorem fits_no_field (hf : f ∉ required .root) : ¬ Fits handler .root f (.value v) d d' := by
  intro h
  cases h with
  | string h => cases f <;> cases h
  | integer h => cases f <;> first | exact hf (by decide) | cases h
  | boolean h => cases f <;> cases h
  | array hc _ => cases f <;> exact absurd rfl hc
  | object hc _ _ _ => cases f <;> first | exact hf (by decide) | exact absurd rfl hc

theorem fits_root (hf : f ≠ .server) :
    Fits handler .root f (.value v) d d' ↔ ∃ u, RootUpdate f v u ∧ d' = u d := by
  constructor
  · intro h
    cases f with
    | version =>
      obtain ⟨version, rfl, rfl⟩ := fits_version.mp h
      exact ⟨_, .version version, rfl⟩
    | server => exact absurd rfl hf
    | logging =>
      obtain ⟨logging, hschema, rfl⟩ := fits_logging_object.mp h
      exact ⟨_, .logging logging hschema, rfl⟩
    | telemetry =>
      obtain ⟨metrics, hschema, rfl⟩ := fits_telemetry_object.mp h
      exact ⟨_, .telemetry metrics hschema, rfl⟩
    | project =>
      obtain ⟨text, hschema, rfl⟩ := fits_project_object.mp h
      exact ⟨_, .project text hschema, rfl⟩
    | _ => exact absurd h (fits_no_field (by decide))
  · intro h
    obtain ⟨u, hu, rfl⟩ := h
    cases hu with
    | version version => exact fits_version.mpr ⟨version, rfl, rfl⟩
    | logging logging hschema => exact fits_logging_object.mpr ⟨logging, hschema, rfl⟩
    | telemetry metrics hschema => exact fits_telemetry_object.mpr ⟨metrics, hschema, rfl⟩
    | project text hschema => exact fits_project_object.mpr ⟨text, hschema, rfl⟩

theorem root_endpoints_local (v : JsonValue) :
    Components.LocalTo rootCopy .server (Fits handler .endpoints .none (.value v)) where
  frame := by
    intro d d' h
    obtain ⟨endpoint, -, -, rfl⟩ := fits_endpoint_object.mp h
    rfl
  other := by
    intro d d' g e hne h
    obtain ⟨endpoint, hschema, hnew, rfl⟩ := fits_endpoint_object.mp h
    apply fits_endpoint_object.mpr
    cases g with
    | server => exact absurd rfl hne
    | _ => exact ⟨endpoint, hschema, hnew, rfl⟩

theorem root_local (f : Field) (v : JsonValue) :
    Components.LocalTo rootCopy f (Fits handler .root f (.value v)) := by
  by_cases hf : f = .server
  · rw [hf]
    constructor
    · intro d d' h
      obtain ⟨ms, vs, console, d₁, -, -, hruns, rfl⟩ := fits_server_object.mp h
      have hframe := (Components.local_runs rootCopy_copies root_endpoints_local vs).frame hruns
      calc setServerConsole console d₁ = setServerConsole console (rootCopy .server d₁ d) :=
            congrArg (setServerConsole console) hframe
        _ = rootCopy .server (setServerConsole console d₁) d := rfl
    · intro d d' g e hne h
      obtain ⟨ms, vs, console, d₁, hv, hperm, hruns, rfl⟩ := fits_server_object.mp h
      apply fits_server_object.mpr
      refine ⟨ms, vs, console, rootCopy g e d₁, hv, hperm,
        (Components.local_runs rootCopy_copies root_endpoints_local vs).other e hne hruns, ?_⟩
      cases g <;> first | rfl | exact absurd rfl hne
  · apply Components.local_of_updates (fits_root hf)
    · intro u hu d
      cases hu <;> rfl
    · intro u hu g e d hne
      cases hu <;> cases g <;> first | rfl | exact absurd rfl hne

theorem fits_communication (hempty : d.candidate.communication.endpoints = []) :
    (Fits handler .root .server (.value v) d d' →
      ∃ communication endpoint, CommunicationSchema v communication ∧
        d' = setCommunication communication (setEndpoint endpoint d)) ∧
    ∀ communication, CommunicationSchema v communication → ∃ endpoint,
      Fits handler .root .server (.value v) d
        (setCommunication communication (setEndpoint endpoint d)) := by
  constructor
  · intro h
    obtain ⟨ms, vs, console, d₁, rfl, hperm, hruns, rfl⟩ := fits_server_object.mp h
    obtain ⟨endpoints, hendpoints, hnames, heq⟩ := endpoints_sound hruns (by rw [hempty]; simp)
    rw [hempty, List.nil_append] at hnames heq
    refine ⟨⟨endpoints, console⟩, d₁.endpoint, .object hperm hendpoints hnames, ?_⟩
    exact congrArg (setServerConsole console) heq
  · intro communication hschema
    cases hschema with
    | object hkeys hitems hnames =>
      rename_i ms vs endpoints console
      obtain ⟨d₁, hruns, heq⟩ := endpoints_complete hitems d (by rwa [hempty])
      rw [hempty, List.nil_append] at heq
      refine ⟨d₁.endpoint, fits_server_object.mpr ⟨ms, vs, console, d₁, rfl, hkeys, hruns, ?_⟩⟩
      exact congrArg (setServerConsole console) heq.symm

variable {resolve : Bytes → Option Bytes}

theorem root_sound {path : Bytes} (h : FitsRoot handler v initialData d)
    (hversion : d.candidate.version = currentServerConfigurationVersion)
    (hpath : resolve d.projectPath = some path) :
    ServerSchema resolve v { d.candidate with path } := by
  obtain ⟨ms, vs, d₁, rfl, hperm, hlength, hruns, hfinish⟩ :=
    (root_perm handler_keyed rootCopy_copies root_local).mp h
  match vs, hlength with
  | [v₁, v₂, v₃, v₄, v₅], _ =>
    obtain ⟨e₁, h₁, hruns⟩ := Components.runs_cons.mp hruns
    obtain ⟨e₂, h₂, hruns⟩ := Components.runs_cons.mp hruns
    obtain ⟨e₃, h₃, hruns⟩ := Components.runs_cons.mp hruns
    obtain ⟨e₄, h₄, hruns⟩ := Components.runs_cons.mp hruns
    obtain ⟨e₅, h₅, hruns⟩ := Components.runs_cons.mp hruns
    cases hruns
    cases hfinish
    obtain ⟨version, rfl, rfl⟩ := fits_version.mp h₁
    obtain ⟨communication, endpoint, hserver, rfl⟩ := (fits_communication rfl).1 h₂
    obtain ⟨logging, hlogging, rfl⟩ := fits_logging_object.mp h₃
    obtain ⟨metrics, htelemetry, rfl⟩ := fits_telemetry_object.mp h₄
    obtain ⟨text, hproject, rfl⟩ := fits_project_object.mp h₅
    have heq : version = currentServerConfigurationVersion := hversion
    rw [heq] at hperm ⊢
    exact .object hperm hserver hlogging htelemetry hproject hpath

theorem root_complete {c : ServerConfiguration} (h : ServerSchema resolve v c) :
    ∃ d path, FitsRoot handler v initialData d ∧ resolve d.projectPath = some path ∧
      c = { d.candidate with path } := by
  cases h with
  | object hkeys hserver hlogging htelemetry hproject hpath =>
    rename_i ms v₂ v₃ v₄ v₅ communication logging metrics text path
    obtain ⟨endpoint, hfits⟩ := (@fits_communication v₂
      (setVersion currentServerConfigurationVersion initialData) initialData
      rfl).2 communication hserver
    refine ⟨setProjectPath text (setMetrics metrics (setLogging logging (setCommunication communication
      (setEndpoint endpoint (setVersion currentServerConfigurationVersion initialData))))), path,
      ?_, hpath, rfl⟩
    apply (root_perm handler_keyed rootCopy_copies root_local).mpr
    refine ⟨ms, [.integer currentServerConfigurationVersion.toNat, v₂, v₃, v₄, v₅], _, rfl, hkeys,
      rfl, ?_, rfl⟩
    refine .cons (fits_version.mpr ⟨_, rfl, rfl⟩) (.cons hfits ?_)
    refine .cons (fits_logging_object.mpr ⟨logging, hlogging, rfl⟩) ?_
    refine .cons (fits_telemetry_object.mpr ⟨metrics, htelemetry, rfl⟩) ?_
    exact .cons (fits_project_object.mpr ⟨text, hproject, rfl⟩) .nil

theorem ServerSchema.version_eq {c : ServerConfiguration} (h : ServerSchema resolve v c) :
    c.version = currentServerConfigurationVersion := by
  cases h
  rfl

end ServerLoader

/-! ## The loader -/

open ServerLoader (ServerConfiguration ServerSchema loadServerConfiguration)

/-- A server configuration is loaded exactly if the text is a JSON value of the schema, and what is
loaded is what the value describes; a failure leaves the output as it was. -/
theorem loadServerConfiguration_exact (resolve : Bytes → Option Bytes) (text : Bytes)
    (diagnostics : List LoaderReport) (output : ServerConfiguration) :
    (∀ c, (loadServerConfiguration resolve text diagnostics output).status = none ∧
        (loadServerConfiguration resolve text diagnostics output).output = c ↔
      ∃ v, JsonText text v ∧ ServerSchema resolve v c) ∧
    ((loadServerConfiguration resolve text diagnostics output).status ≠ none →
      (loadServerConfiguration resolve text diagnostics output).output = output) := by
  unfold loadServerConfiguration
  cases hparse : parseJson text with
  | error p =>
    refine ⟨fun c => ⟨fun h => (nomatch h.1), fun h => ?_⟩, fun _ => rfl⟩
    obtain ⟨v, hv, -⟩ := h
    obtain ⟨p', hparse', -⟩ := parseJson_complete hv
    rw [hparse] at hparse'
    cases hparse'
  | ok p =>
    obtain ⟨v, hs, hunique⟩ := parseJson_value hparse
    dsimp only
    have hends := runHandler_ends ServerLoader.handler_lawful hs ServerLoader.initialData
    generalize runHandler ServerLoader.handler ServerLoader.initialData p.events = handler at hends
    cases hends with
    | inr hends =>
      obtain ⟨hnone, hstop⟩ := hends
      have hrefused : ¬ ∃ c v, JsonText text v ∧ ServerSchema resolve v c := by
        intro h
        obtain ⟨c, v', hv', hschema⟩ := h
        rw [(hunique v').mp hv'] at hschema
        obtain ⟨d, path, hfits, -⟩ := ServerLoader.root_complete hschema
        exact hnone d hfits
      rw [SchemaHandler.stopped_invalid hstop]
      split
      · exact ⟨fun c => ⟨fun h => (nomatch h.1), fun h => absurd ⟨c, h⟩ hrefused⟩, fun _ => rfl⟩
      · exact ⟨fun c => ⟨fun h => (nomatch h.1), fun h => absurd ⟨c, h⟩ hrefused⟩, fun _ => rfl⟩
    | inl hends =>
      obtain ⟨d, hfits, hvalid, hrun, hdata⟩ := hends
      have hinternal : handler.internalFailure = false := (Bool.or_eq_false_iff.mp hrun).2
      -- what the value describes is what the handler has, with the path resolved
      have hdescribed : ∀ {v' c}, JsonText text v' → ServerSchema resolve v' c →
          ∃ path, resolve d.projectPath = some path ∧ c = { d.candidate with path } := by
        intro v' c hv' hschema
        rw [(hunique v').mp hv'] at hschema
        obtain ⟨d', path, hfits', hpath, heq⟩ := ServerLoader.root_complete hschema
        rw [fitsRoot_unique hfits hfits']
        exact ⟨path, hpath, heq⟩
      rw [hinternal, hvalid, hdata, if_neg Bool.false_ne_true, if_neg (by simp)]
      by_cases hversion : d.candidate.version = ServerLoader.currentServerConfigurationVersion
      · rw [if_neg (not_not.mpr hversion)]
        cases hpath : resolve d.projectPath with
        | none =>
          refine ⟨fun c => ⟨fun h => (nomatch h.1), fun h => ?_⟩, fun _ => rfl⟩
          obtain ⟨v', hv', hschema⟩ := h
          obtain ⟨path, hsome, -⟩ := hdescribed hv' hschema
          rw [hpath] at hsome
          cases hsome
        | some path =>
          refine ⟨fun c => ⟨fun h => ?_, fun h => ?_⟩, fun h => absurd rfl h⟩
          · obtain ⟨-, rfl⟩ := h
            exact ⟨v, (hunique v).mpr rfl, ServerLoader.root_sound hfits hversion hpath⟩
          · obtain ⟨v', hv', hschema⟩ := h
            obtain ⟨path', hsome, rfl⟩ := hdescribed hv' hschema
            rw [hpath] at hsome
            cases hsome
            exact ⟨rfl, rfl⟩
      · rw [if_pos hversion]
        refine ⟨fun c => ⟨fun h => (nomatch h.1), fun h => ?_⟩, fun _ => rfl⟩
        obtain ⟨v', hv', hschema⟩ := h
        obtain ⟨path, -, rfl⟩ := hdescribed hv' hschema
        exact absurd hschema.version_eq hversion

/-- Both loaders accept exactly the texts of their schemas, return what the text describes, and leave
the output alone when they fail. -/
theorem configuration_loaders_exact :
    (∀ (resolve : Bytes → Option Bytes) (isAbsolute : Bytes → Bool) (text : Bytes)
      (diagnostics : List LoaderReport) (output : ProjectConfiguration),
      let loaded := ProjectLoader.loadProjectConfiguration resolve isAbsolute text diagnostics output
      (∀ c, loaded.status = none ∧ loaded.output = c ↔
        ∃ v, JsonText text v ∧ ProjectSchema resolve isAbsolute v c) ∧
      (loaded.status ≠ none → loaded.output = output)) ∧
    ∀ (resolve : Bytes → Option Bytes) (text : Bytes) (diagnostics : List LoaderReport)
      (output : ServerConfiguration),
      let loaded := loadServerConfiguration resolve text diagnostics output
      (∀ c, loaded.status = none ∧ loaded.output = c ↔
        ∃ v, JsonText text v ∧ ServerSchema resolve v c) ∧
      (loaded.status ≠ none → loaded.output = output) :=
  ⟨loadProjectConfiguration_exact, loadServerConfiguration_exact⟩

end ServerEngine
