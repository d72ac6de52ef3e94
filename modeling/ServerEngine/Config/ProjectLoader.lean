import ServerEngine.Config.SchemaHandler
import ServerEngine.Core.Configuration

/-! # The project configuration loader

The tables of `project_configuration_handler` and `load_project_configuration`. The resolution of paths
against the configuration's own path stays abstract; it may throw.
-/
namespace ServerEngine

namespace ProjectLoader

inductive Context
  | root | items | item | configuration | abi | invalid
  deriving DecidableEq

inductive Field
  | none | version | name | project | configuration | path | role | abi | target | pack | unknown
  deriving DecidableEq

def failureDetail (error : SchemaError Context Field) : String :=
  if error.code = .wrongRootType then "project configuration root must be an object"
  else if error.code = .unknownProperty then "project configuration contains an unknown property"
  else if error.code = .duplicateProperty then "project configuration contains a duplicate property"
  else if error.code = .nestingTooDeep then "project configuration nesting is too deep"
  else if error.owner = .root ∧ error.member = .name then "name: expected a non-empty string"
  else if error.owner = .item ∧ error.member = .path then
    "project[].path: expected a non-empty UTF-8 path string"
  else if error.owner = .item ∧ error.member = .role then
    "project[].role: expected type, source, or project"
  else if error.owner = .abi ∧ error.member = .target then
    "configuration.abi.target: expected windows-x64 or posix-x64"
  else if error.owner = .abi ∧ error.member = .pack then
    "configuration.abi.pack: expected 1, 2, 4, 8, or 16"
  else if error.code = .missingRequiredField then "project configuration is missing a required field"
  else if error.code = .wrongFieldType then "project configuration field has the wrong JSON type"
  else "project configuration is invalid"

structure Data where
  candidate : ProjectConfiguration
  item : ProjectItemConfiguration
  itemPath : Bytes

def emptyItem : ProjectItemConfiguration := ⟨[], .source, false⟩

def initialData : Data where
  candidate :=
    { version := 0, name := [], project := [], abiTarget := .windowsX64, abiPack := 8
      materialized := true }
  item := emptyItem
  itemPath := []

/-- `next` in `object_begin`. -/
def objectContext : Context → Field → Context
  | .items, _ => .item
  | .root, .configuration => .configuration
  | .configuration, .abi => .abi
  | _, _ => .invalid

def arrayContext : Context → Field → Context
  | .root, .project => .items
  | _, _ => .invalid

def identify (owner : Context) (value : Bytes) : Field :=
  match owner with
  | .root =>
    if value = asciiBytes "version" then .version
    else if value = asciiBytes "name" then .name
    else if value = asciiBytes "project" then .project
    else if value = asciiBytes "configuration" then .configuration
    else .unknown
  | .item =>
    if value = asciiBytes "path" then .path
    else if value = asciiBytes "role" then .role
    else .unknown
  | .configuration => if value = asciiBytes "abi" then .abi else .unknown
  | .abi =>
    if value = asciiBytes "target" then .target
    else if value = asciiBytes "pack" then .pack
    else .unknown
  | _ => .unknown

def required : Context → List Field
  | .root => [.version, .name, .project, .configuration]
  | .item => [.path, .role]
  | .configuration => [.abi]
  | .abi => [.target, .pack]
  | _ => []

def wrongFieldType : Reaction Field Data := .reject .wrongFieldType none false

def string (owner : Context) (pending : Field) (value : Bytes) (data : Data) :
    Reaction Field Data :=
  match owner, pending with
  | .root, .name =>
    if value = [] then .reject .invalidName (some .name) false
    else .accept { data with candidate := { data.candidate with name := value } }
  | .item, .path =>
    if value = [] then .reject .invalidPath (some .path) false
    else .accept { data with itemPath := value }
  | .item, .role =>
    if value = asciiBytes "type" then .accept { data with item := { data.item with role := .type } }
    else if value = asciiBytes "source" then
      .accept { data with item := { data.item with role := .source } }
    else if value = asciiBytes "project" then
      .accept { data with item := { data.item with role := .project } }
    else .reject .invalidRole (some .role) false
  | .abi, .target =>
    if value = asciiBytes "windows-x64" then
      .accept { data with
        candidate := { data.candidate with abiTarget := .windowsX64 } }
    else if value = asciiBytes "posix-x64" then
      .accept { data with
        candidate := { data.candidate with abiTarget := .posixX64 } }
    else .reject .invalidTarget (some .target) false
  | _, _ => wrongFieldType

def integer (owner : Context) (pending : Field) (value : Int) (data : Data) :
    Reaction Field Data :=
  match owner, pending with
  | .root, .version =>
    if value < 0 ∨ 2 ^ 32 - 1 < value then wrongFieldType
    else .accept { data with candidate := { data.candidate with version := value.toNat.toUInt32 } }
  | .abi, .pack =>
    if value < 0 ∨ 2 ^ 32 - 1 < value ∨ !isSupportedAbiPack value.toNat.toUInt32 then
      .reject .invalidPack (some .pack) false
    else
      .accept { data with
        candidate := { data.candidate with abiPack := value.toNat.toUInt32 } }
  | _, _ => wrongFieldType

/-- `finish_item`; `none` is a resolution that throws. -/
def finishItem (resolve : Bytes → Option Bytes) (isAbsolute : Bytes → Bool) (data : Data) :
    Reaction Field Data :=
  match resolve data.itemPath with
  | none => .throws
  | some path =>
    let item := { data.item with path, canonicalPath := isAbsolute path }
    .accept { data with
      item
      candidate := { data.candidate with project := data.candidate.project ++ [item] } }

def handler (resolve : Bytes → Option Bytes) (isAbsolute : Bytes → Bool) :
    HandlerTable Context Field Data where
  root := .root
  invalid := .invalid
  noField := .none
  unknown := .unknown
  objectContext
  arrayContext
  isArray owner := owner == .items
  isElement owner := owner == .item
  reset data := { data with item := emptyItem, itemPath := [] }
  identify
  required
  keepsOffset _ _ := false
  string
  integer
  boolean _ _ _ _ := wrongFieldType
  finish owner data := if owner = .item then finishItem resolve isAbsolute data else .accept data

def loadProjectConfiguration (resolve : Bytes → Option Bytes)
    (isAbsolute : Bytes → Bool) (text : Bytes) (diagnostics : List LoaderReport)
    (output : ProjectConfiguration) : Loaded ProjectConfiguration :=
  match parseJson text with
  | .error p =>
    let failure := p.result.getD ⟨.internalFailure, 0⟩
    let internal := failure.code = .internalFailure
    { status := some (if internal then .initializationFailed else .configurationFailed)
      diagnostics := emitReport diagnostics
        (if internal then .initializationFailed else .invalidJson) failure.offset ""
      output }
  | .ok p =>
    let handler := runHandler (handler resolve isAbsolute) initialData p.events
    if handler.internalFailure then
      { status := some .initializationFailed
        diagnostics := emitReport diagnostics .initializationFailed 0 "", output }
    else if !handler.valid then
      { status := some .configurationFailed
        diagnostics := match handler.failure with
          | some error => emitReport diagnostics .invalidConfiguration error.offset
              (failureDetail error)
          | none => emitReport diagnostics .invalidConfiguration 0 "project configuration is invalid"
        output }
    else if handler.data.candidate.version ≠ currentProjectConfigurationVersion then
      { status := some .configurationFailed
        diagnostics := emitReport diagnostics .unsupportedConfigurationVersion 0 "", output }
    else { status := none, diagnostics, output := handler.data.candidate }

end ProjectLoader
end ServerEngine
