import ServerEngine.Json.Parser
import Mathlib.Logic.Function.Basic

/-! # The schema handlers

The event handlers of both configuration loaders, which differ in their tables only: which contexts and
fields there are, and what a value does at a field. The masks of seen fields are lists of fields.
-/
namespace ServerEngine

/-- `schema_failure` of both loaders, without `none`. -/
inductive SchemaFailure
  | wrongRootType | unknownProperty | duplicateProperty | wrongFieldType | missingRequiredField
  | invalidName | invalidPath | invalidRole | invalidTarget | invalidPack
  | invalidEndpoint | duplicateEndpointName | invalidLogLevel | invalidProjectPath
  | nestingTooDeep
  deriving DecidableEq

/-- `schema_error` of a failure, over the contexts and the fields. -/
structure SchemaError (C F : Type) where
  code : SchemaFailure
  owner : C
  member : F
  offset : Nat

/-- What a value or the end of an object does: it changes the data, it fails, with the member of the
error if it is not the pending field, or it throws. -/
inductive Reaction (F D : Type)
  | accept (data : D)
  | reject (code : SchemaFailure) (member : Option F) (atName : Bool)
  | throws

structure HandlerTable (C F D : Type) where
  root : C
  /-- `context::invalid`. -/
  invalid : C
  /-- `field::none`. -/
  noField : F
  /-- `field::unknown`. -/
  unknown : F
  /-- `next` in `object_begin`. -/
  objectContext : C → F → C
  /-- What `array_begin` pushes. -/
  arrayContext : C → F → C
  /-- What `array_end` asks for. -/
  isArray : C → Bool
  /-- The context of the elements, whose data and mask `object_begin` resets. -/
  isElement : C → Bool
  reset : D → D
  identify : C → Bytes → F
  /-- The calls of `require`. -/
  required : C → List F
  /-- The offset of this string is kept for the error about its element. -/
  keepsOffset : C → F → Bool
  string : C → F → Bytes → D → Reaction F D
  integer : C → F → Int → D → Reaction F D
  boolean : C → F → Bool → D → Reaction F D
  /-- `finish_item`, `finish_endpoint`. -/
  finish : C → D → Reaction F D

/-- A handler; `stack` has the innermost context first, and its length is `depth`. -/
structure SchemaHandler (C F D : Type) where
  data : D
  stack : List C := []
  currentOffset : Nat := 0
  elementOffset : Nat := 0
  pending : F
  failure : Option (SchemaError C F) := none
  seen : C → List F := fun _ => []
  rootObject : Bool := false
  internalFailure : Bool := false

def maxSchemaDepth : Nat := 8

namespace SchemaHandler

variable {C F D : Type} [DecidableEq C] [DecidableEq F] (T : HandlerTable C F D)

def current (h : SchemaHandler C F D) : C := h.stack.head?.getD T.invalid

def stopped (h : SchemaHandler C F D) : Bool := h.failure.isSome || h.internalFailure

/-- `fail`: the first failure is kept. -/
def fail (h : SchemaHandler C F D) (code : SchemaFailure) (member : Option F) (offset : Nat) :
    SchemaHandler C F D :=
  if h.failure.isSome then h
  else { h with failure := some ⟨code, h.current T, member.getD h.pending, offset⟩ }

/-- `fail` at the current field and offset. -/
def failHere (h : SchemaHandler C F D) (code : SchemaFailure) : SchemaHandler C F D :=
  h.fail T code none h.currentOffset

def push (h : SchemaHandler C F D) (value : C) : SchemaHandler C F D :=
  if h.stack.length = maxSchemaDepth then h.failHere T .nestingTooDeep
  else { h with stack := value :: h.stack }

def pop (h : SchemaHandler C F D) : SchemaHandler C F D := { h with stack := h.stack.tail }

def react (h : SchemaHandler C F D) : Reaction F D → SchemaHandler C F D
  | .accept data => { h with data }
  | .reject code member atName =>
    h.fail T code member (if atName then h.elementOffset else h.currentOffset)
  | .throws => { h with internalFailure := true }

def settle (h : SchemaHandler C F D) : SchemaHandler C F D :=
  if h.stopped then h else { h with pending := T.noField }

/-! ## Events -/

def location (h : SchemaHandler C F D) (offset : Nat) : SchemaHandler C F D :=
  { h with currentOffset := offset }

def objectBegin (h : SchemaHandler C F D) : SchemaHandler C F D :=
  if h.stopped then h
  else if h.stack.isEmpty then { h with rootObject := true }.push T T.root
  else
    let next := T.objectContext (h.current T) h.pending
    if next = T.invalid then h.failHere T .wrongFieldType
    else
      let h := { h with pending := T.noField }.push T next
      if T.isElement next then
        { h with
          data := T.reset h.data
          seen := Function.update h.seen next []
          elementOffset := h.currentOffset }
      else h

def require (h : SchemaHandler C F D) (actual : List F) (member : F) : SchemaHandler C F D :=
  if member ∈ actual then h else h.fail T .missingRequiredField (some member) h.currentOffset

def validateRequired (h : SchemaHandler C F D) (owner : C) : SchemaHandler C F D :=
  (T.required owner).foldl (fun h member => h.require T (h.seen owner) member) h

def objectEnd (h : SchemaHandler C F D) : SchemaHandler C F D :=
  if h.stopped then h
  else if h.stack.isEmpty then h.failHere T .wrongFieldType
  else
    let ending := h.current T
    let h := h.validateRequired T ending
    if h.stopped then h
    else
      let h := h.react T (T.finish ending h.data)
      if h.stopped then h else h.pop

def arrayBegin (h : SchemaHandler C F D) : SchemaHandler C F D :=
  if h.stopped then h
  else if h.stack.isEmpty then h.failHere T .wrongRootType
  else
    let next := T.arrayContext (h.current T) h.pending
    if next = T.invalid then h.failHere T .wrongFieldType
    else { h with pending := T.noField }.push T next

def arrayEnd (h : SchemaHandler C F D) : SchemaHandler C F D :=
  if h.stopped then h
  else if h.stack.isEmpty || !T.isArray (h.current T) then h.failHere T .wrongFieldType
  else h.pop

def key (h : SchemaHandler C F D) (value : Bytes) : SchemaHandler C F D :=
  if h.stopped then h
  else if h.stack.isEmpty then h.failHere T .wrongFieldType
  else
    let owner := h.current T
    let h := { h with pending := T.identify owner value }
    if h.pending = T.unknown then h.failHere T .unknownProperty
    else if h.pending ∈ h.seen owner then h.failHere T .duplicateProperty
    else { h with seen := Function.update h.seen owner (h.pending :: h.seen owner) }

def scalar (h : SchemaHandler C F D) (reaction : D → Reaction F D) : SchemaHandler C F D :=
  if h.stopped then h
  else if h.stack.isEmpty then h.failHere T .wrongRootType
  else (h.react T (reaction h.data)).settle T

def string (h : SchemaHandler C F D) (value : Bytes) : SchemaHandler C F D :=
  let kept := if !h.stopped && T.keepsOffset (h.current T) h.pending
    then { h with elementOffset := h.currentOffset } else h
  kept.scalar T (T.string (h.current T) h.pending value)

def integer (h : SchemaHandler C F D) (value : Int) : SchemaHandler C F D :=
  h.scalar T (T.integer (h.current T) h.pending value)

def boolean (h : SchemaHandler C F D) (value : Bool) : SchemaHandler C F D :=
  h.scalar T (T.boolean (h.current T) h.pending value)

def rejectScalar (h : SchemaHandler C F D) : SchemaHandler C F D :=
  if h.stack.isEmpty then h.failHere T .wrongRootType else h.failHere T .wrongFieldType

def handle (h : SchemaHandler C F D) : JsonEvent → SchemaHandler C F D
  | .location offset => h.location offset
  | .objectBegin => h.objectBegin T
  | .objectEnd => h.objectEnd T
  | .arrayBegin => h.arrayBegin T
  | .arrayEnd => h.arrayEnd T
  | .key value => h.key T value
  | .string value => h.string T value
  | .integer value => h.integer T value
  | .number _ => h.rejectScalar T
  | .boolean value => h.boolean T value
  | .null => h.rejectScalar T

def valid (h : SchemaHandler C F D) : Bool :=
  h.rootObject && h.stack.isEmpty && h.failure.isNone && !h.internalFailure

end SchemaHandler

def runHandler {C F D : Type} [DecidableEq C] [DecidableEq F] (T : HandlerTable C F D) (data : D)
    (events : List JsonEvent) : SchemaHandler C F D :=
  events.foldl (SchemaHandler.handle T) { data, pending := T.noField }

inductive LoaderDiagnostic
  | initializationFailed | invalidJson | invalidConfiguration | unsupportedConfigurationVersion

/-- What a loader tells a `diagnostic_buffer`. -/
structure LoaderReport where
  descriptor : LoaderDiagnostic
  offset : Nat
  detail : String := ""

/-- `emit`: an offset beyond 32 bits is left out. -/
def emitReport (diagnostics : List LoaderReport) (descriptor : LoaderDiagnostic) (offset : Nat)
    (detail : String) : List LoaderReport :=
  diagnostics ++ [⟨descriptor, if offset > 2 ^ 32 - 1 then 0 else offset, detail⟩]

/-- What a loader returns: its status, where `none` is success, the diagnostics, and its output. -/
structure Loaded (R : Type) where
  status : Option StatusCode
  diagnostics : List LoaderReport
  output : R

end ServerEngine
