import ServerEngine.Config.SchemaHandler
import ServerEngine.Core.Configuration

/-! # The server configuration loader

The tables of `server_configuration_handler` and `load_server_configuration`. The resolution of the
project's path against the configuration's own path stays abstract; it may throw.
-/
namespace ServerEngine

namespace ServerLoader

inductive TransportKind
  | tcp

inductive ProtocolKind
  | json

inductive LogLevel
  | trace | debug | info | warning | error | critical
  deriving DecidableEq

structure EndpointConfiguration where
  name : Bytes
  transport : TransportKind
  protocol : ProtocolKind
  address : Bytes
  port : UInt16

structure CommunicationConfiguration where
  endpoints : List EndpointConfiguration
  console : Bool

structure LoggingConfiguration where
  minimumLevel : LogLevel
  console : Bool

/-- `server_configuration`; `metrics` is all of the telemetry, and `path` of the project. -/
structure ServerConfiguration where
  version : UInt32
  communication : CommunicationConfiguration
  logging : LoggingConfiguration
  metrics : Bool
  path : Bytes

def currentServerConfigurationVersion : UInt32 := 1

inductive Context
  | root | server | endpoints | endpoint | logging | telemetry | project | invalid
  deriving DecidableEq

inductive Field
  | none | version | server | logging | telemetry | project | endpoints | console | name | transport
  | protocol | address | port | level | metrics | path | unknown
  deriving DecidableEq

def endpointDetail : Field → Option String
  | .name => some "server.endpoints[].name: expected a non-empty unique string"
  | .transport => some "server.endpoints[].transport: expected \"tcp\""
  | .protocol => some "server.endpoints[].protocol: expected \"json\""
  | .address => some "server.endpoints[].address: expected a non-empty string"
  | .port => some "server.endpoints[].port: expected integer 1..65535"
  | _ => none

def failureDetail (error : SchemaError Context Field) : String :=
  if error.code = .wrongRootType then "server configuration root must be an object"
  else if error.code = .unknownProperty then "server configuration contains an unknown property"
  else if error.code = .duplicateProperty then "server configuration contains a duplicate property"
  else if error.code = .duplicateEndpointName then "server endpoint names must be unique"
  else if error.code = .nestingTooDeep then "server configuration nesting is too deep"
  else
    match if error.owner = .endpoint then endpointDetail error.member else none with
    | some detail => detail
    | none =>
      if error.owner = .logging ∧ error.member = .level then
        "logging.level: expected trace, debug, info, warning, error, or critical"
      else if error.owner = .project ∧ error.member = .path then
        "project.path: expected a non-empty UTF-8 path string"
      else if error.code = .missingRequiredField then
        "server configuration is missing a required field"
      else if error.code = .wrongFieldType then "server configuration field has the wrong JSON type"
      else if error.code = .invalidEndpoint then "server endpoint configuration is invalid"
      else if error.code = .invalidLogLevel then "logging.level is not supported"
      else if error.code = .invalidProjectPath then "project.path must not be empty"
      else "server configuration is invalid"

structure Data where
  candidate : ServerConfiguration
  endpoint : EndpointConfiguration
  projectPath : Bytes

def emptyEndpoint : EndpointConfiguration := ⟨[], .tcp, .json, [], 0⟩

def initialData : Data where
  candidate :=
    { version := 0, communication := ⟨[], true⟩, logging := ⟨.info, true⟩, metrics := true
      path := [] }
  endpoint := emptyEndpoint
  projectPath := []

/-- `next` in `object_begin`. -/
def objectContext : Context → Field → Context
  | .root, .server => .server
  | .root, .logging => .logging
  | .root, .telemetry => .telemetry
  | .root, .project => .project
  | .endpoints, _ => .endpoint
  | _, _ => .invalid

def arrayContext : Context → Field → Context
  | .server, .endpoints => .endpoints
  | _, _ => .invalid

def parseLevel (value : Bytes) : Option LogLevel :=
  if value = asciiBytes "trace" then some .trace
  else if value = asciiBytes "debug" then some .debug
  else if value = asciiBytes "info" then some .info
  else if value = asciiBytes "warning" then some .warning
  else if value = asciiBytes "error" then some .error
  else if value = asciiBytes "critical" then some .critical
  else none

def identify (owner : Context) (value : Bytes) : Field :=
  match owner with
  | .root =>
    if value = asciiBytes "version" then .version
    else if value = asciiBytes "server" then .server
    else if value = asciiBytes "logging" then .logging
    else if value = asciiBytes "telemetry" then .telemetry
    else if value = asciiBytes "project" then .project
    else .unknown
  | .server =>
    if value = asciiBytes "endpoints" then .endpoints
    else if value = asciiBytes "console" then .console
    else .unknown
  | .endpoint =>
    if value = asciiBytes "name" then .name
    else if value = asciiBytes "transport" then .transport
    else if value = asciiBytes "protocol" then .protocol
    else if value = asciiBytes "address" then .address
    else if value = asciiBytes "port" then .port
    else .unknown
  | .logging =>
    if value = asciiBytes "level" then .level
    else if value = asciiBytes "console" then .console
    else .unknown
  | .telemetry => if value = asciiBytes "metrics" then .metrics else .unknown
  | .project => if value = asciiBytes "path" then .path else .unknown
  | _ => .unknown

def required : Context → List Field
  | .root => [.version, .server, .logging, .telemetry, .project]
  | .server => [.endpoints, .console]
  | .endpoint => [.name, .transport, .protocol, .address, .port]
  | .logging => [.level, .console]
  | .telemetry => [.metrics]
  | .project => [.path]
  | _ => []

def wrongFieldType : Reaction Field Data := .reject .wrongFieldType none false

def string (owner : Context) (pending : Field) (value : Bytes) (data : Data) : Reaction Field Data :=
  match owner, pending with
  | .endpoint, .name =>
    if value = [] then .reject .invalidEndpoint (some .name) false
    else .accept { data with endpoint := { data.endpoint with name := value } }
  | .endpoint, .transport =>
    if value ≠ asciiBytes "tcp" then .reject .invalidEndpoint (some .transport) false
    else .accept { data with endpoint := { data.endpoint with transport := .tcp } }
  | .endpoint, .protocol =>
    if value ≠ asciiBytes "json" then .reject .invalidEndpoint (some .protocol) false
    else .accept { data with endpoint := { data.endpoint with protocol := .json } }
  | .endpoint, .address =>
    if value = [] then .reject .invalidEndpoint (some .address) false
    else .accept { data with endpoint := { data.endpoint with address := value } }
  | .logging, .level =>
    match parseLevel value with
    | none => .reject .invalidLogLevel (some .level) false
    | some minimumLevel =>
      .accept { data with
        candidate := { data.candidate with
          logging := { data.candidate.logging with minimumLevel } } }
  | .project, .path =>
    if value = [] then .reject .invalidProjectPath (some .path) false
    else .accept { data with projectPath := value }
  | _, _ => wrongFieldType

def integer (owner : Context) (pending : Field) (value : Int) (data : Data) : Reaction Field Data :=
  match owner, pending with
  | .root, .version =>
    if value < 0 ∨ 2 ^ 32 - 1 < value then wrongFieldType
    else .accept { data with candidate := { data.candidate with version := value.toNat.toUInt32 } }
  | .endpoint, .port =>
    if value < 1 ∨ 65535 < value then .reject .invalidEndpoint (some .port) false
    else .accept { data with endpoint := { data.endpoint with port := value.toNat.toUInt16 } }
  | _, _ => wrongFieldType

def boolean (owner : Context) (pending : Field) (value : Bool) (data : Data) : Reaction Field Data :=
  match owner, pending with
  | .server, .console =>
    .accept { data with
      candidate := { data.candidate with
        communication := { data.candidate.communication with console := value } } }
  | .logging, .console =>
    .accept { data with
      candidate := { data.candidate with logging := { data.candidate.logging with console := value } } }
  | .telemetry, .metrics => .accept { data with candidate := { data.candidate with metrics := value } }
  | _, _ => wrongFieldType

def finishEndpoint (data : Data) : Reaction Field Data :=
  if data.candidate.communication.endpoints.any fun existing => existing.name = data.endpoint.name then
    .reject .duplicateEndpointName (some .name) true
  else
    .accept { data with
      candidate := { data.candidate with
        communication := { data.candidate.communication with
          endpoints := data.candidate.communication.endpoints ++ [data.endpoint] } } }

def handler : HandlerTable Context Field Data where
  root := .root
  invalid := .invalid
  noField := .none
  unknown := .unknown
  objectContext
  arrayContext
  isArray owner := owner == .endpoints
  isElement owner := owner == .endpoint
  reset data := { data with endpoint := emptyEndpoint }
  identify
  required
  keepsOffset owner pending := owner == .endpoint && pending == .name
  string
  integer
  boolean
  finish owner data := if owner = .endpoint then finishEndpoint data else .accept data

/-- `load_server_configuration`; a resolution that throws ends like any exception. -/
def loadServerConfiguration (resolve : Bytes → Option Bytes) (text : Bytes)
    (diagnostics : List LoaderReport) (output : ServerConfiguration) : Loaded ServerConfiguration :=
  match parseJson text with
  | .error p =>
    let failure := p.result.getD ⟨.internalFailure, 0⟩
    let internal := failure.code = .internalFailure
    { status := some (if internal then .initializationFailed else .configurationFailed)
      diagnostics := emitReport diagnostics
        (if internal then .initializationFailed else .invalidJson) failure.offset ""
      output }
  | .ok p =>
    let handler := runHandler handler initialData p.events
    if handler.internalFailure then
      { status := some .initializationFailed
        diagnostics := emitReport diagnostics .initializationFailed 0 "", output }
    else if !handler.valid then
      { status := some .configurationFailed
        diagnostics := match handler.failure with
          | some error => emitReport diagnostics .invalidConfiguration error.offset
              (failureDetail error)
          | none => emitReport diagnostics .invalidConfiguration 0 "server configuration is invalid"
        output }
    else if handler.data.candidate.version ≠ currentServerConfigurationVersion then
      { status := some .configurationFailed
        diagnostics := emitReport diagnostics .unsupportedConfigurationVersion 0 "", output }
    else
      match resolve handler.data.projectPath with
      | none =>
        { status := some .initializationFailed
          diagnostics := emitReport diagnostics .initializationFailed 0 "", output }
      | some path => { status := none, diagnostics, output := { handler.data.candidate with path } }

end ServerLoader
end ServerEngine
