import ServerEngine.Core.Configuration
import ServerEngine.Contribution.Update
import ServerEngine.Graph.Queries
import ServerEngine.Storage.IndexSlots

/-! # Construction states and helpers of the generation builder

The counters by which the declarations of one type are aggregated, and the pure helpers that the
full and the incremental build share.
-/
namespace ServerEngine
open ErrorFold

/-! ## Failures -/

/-- How a build ends without a result. `diverges` is a loop that never ends; `undefined` is a use of
a reference that a reallocation may have invalidated. -/
inductive BuildFailure
  | failed (code : StatusCode)
  | diverges
  | undefined

abbrev BuildM := Except BuildFailure

namespace BuildM

def fail {α : Type} (code : StatusCode) : BuildM α := .error (.failed code)

def lift {α : Type} : Except StatusCode α → BuildM α
  | .ok value => .ok value
  | .error code => fail code

def ends {α : Type} : Option α → BuildM α
  | some value => .ok value
  | none => .error .diverges

def Ends {α : Type} (x : BuildM α) : Prop := x ≠ .error .diverges

section Ends
variable {α β σ : Type}

theorem ends_ok (value : α) : Ends (.ok value) := by
  simp [Ends]

theorem ends_fail (code : StatusCode) : Ends (fail code : BuildM α) := by
  simp [Ends, fail]

theorem ends_lift (x : Except StatusCode α) : Ends (lift x) := by
  cases x with
  | ok value => exact ends_ok value
  | error code => exact ends_fail code

variable {f : α → BuildM β}

theorem ends_bind {x : BuildM α} (hx : Ends x) (hf : ∀ value, x = .ok value → Ends (f value)) :
    Ends (x >>= f) := by
  cases x with
  | ok value => exact hf value rfl
  | error failure => simpa [Ends, bind, Except.bind] using hx

theorem ends_foldlM {step : σ → α → BuildM σ} {xs : List α}
    (h : ∀ s, ∀ x ∈ xs, Ends (step s x)) (s : σ) : Ends (xs.foldlM step s) := by
  induction xs generalizing s with
  | nil => exact ends_ok s
  | cons x rest ih =>
    rw [List.foldlM_cons]
    refine ends_bind (h s x List.mem_cons_self) fun s' _ => ?_
    exact ih (fun s x hx => h s x (List.mem_cons_of_mem _ hx)) s'

theorem ends_mapM (h : ∀ x, Ends (f x)) (xs : List α) : Ends (xs.mapM f) := by
  induction xs with
  | nil => exact ends_ok []
  | cons x rest ih =>
    rw [List.mapM_cons]
    refine ends_bind (h x) fun y _ => ends_bind ih fun ys _ => ?_
    exact ends_ok (y :: ys)

end Ends

theorem lift_ok {α : Type} {x : Except StatusCode α} {value : α} :
    lift x = .ok value ↔ x = .ok value := by
  cases x with
  | ok a => simp [lift]
  | error code => simp [lift, fail]

end BuildM

def checkedIndexCapacity (count : Nat) : Option Nat :=
  if count = 0 then some 0
  else if count > sizeMax / 2 then none
  else some (bitCeil (if count * 2 < 8 then 8 else count * 2))

def indexCapacity (count : Nat) : BuildM Nat :=
  match checkedIndexCapacity count with
  | some capacity => .ok capacity
  | none => BuildM.fail .notAvailable

theorem indexCapacity_ok {count capacity : Nat} (h : indexCapacity count = .ok capacity) :
    (count = 0 ∧ capacity = 0) ∨ ((∃ n, capacity = 2 ^ n) ∧ 8 ≤ capacity ∧ count * 2 ≤ capacity) := by
  unfold indexCapacity checkedIndexCapacity at h
  by_cases h0 : count = 0
  · rw [if_pos h0] at h
    cases h
    exact .inl ⟨h0, rfl⟩
  rw [if_neg h0] at h
  split at h
  · rename_i hsome
    split at hsome
    · cases hsome
    cases h
    cases hsome
    right
    split
    · obtain ⟨hpow, hle⟩ := @bitCeil_spec 8 (by omega)
      exact ⟨hpow, hle, by omega⟩
    · obtain ⟨hpow, hle⟩ := @bitCeil_spec (count * 2) (by omega)
      exact ⟨hpow, by omega, hle⟩
  · cases h

/-- `checked_add_size` of the builder's counts, which are sums of sizes. -/
def checkedSum (values : List Nat) : BuildM Nat :=
  if values.sum > sizeMax then BuildM.fail .notAvailable else .ok values.sum

/-! ## Aggregation -/

def isUnion (kind : SourceRecordKind) : Bool := kind == .unionType

def compatibleRecordKind (left right : SourceRecordKind) : Bool := isUnion left == isUnion right

def incrementCount (value : Nat) : Except StatusCode Nat :=
  if value = u32Max then .error .notAvailable else .ok (value + 1)

def decrementCount (value : Nat) : Except StatusCode Nat :=
  if value = 0 then .error .invalidArgument else .ok (value - 1)

namespace SourceConstructionState

def countRecord (state : SourceConstructionState) (kind : SourceRecordKind)
    (change : Nat → Except StatusCode Nat) : Except StatusCode SourceConstructionState :=
  match kind with
  | .structType => do return { state with recordStruct := ← change state.recordStruct }
  | .classType => do return { state with recordClass := ← change state.recordClass }
  | .unionType => do return { state with recordUnion := ← change state.recordUnion }

def countEnum (state : SourceConstructionState) (isScoped : Bool)
    (change : Nat → Except StatusCode Nat) : Except StatusCode SourceConstructionState :=
  if isScoped then do return { state with enumScoped := ← change state.enumScoped }
  else do return { state with enumUnscoped := ← change state.enumUnscoped }

def addRecord (state : SourceConstructionState) (contribution : SourceContributionType) :
    Except StatusCode SourceConstructionState := do
  let state ← state.countRecord contribution.recordKind incrementCount
  if state.recordUnion ≠ 0 && (state.recordStruct ≠ 0 || state.recordClass ≠ 0) then
    .error .semanticConflict
  else .ok state

def addUnderlying (state : SourceConstructionState) (contribution : SourceContributionType) :
    Except StatusCode SourceConstructionState :=
  if contribution.explicitUnderlying = .none then .ok state
  else if state.enumFixed ≠ 0 && state.fixedUnderlying ≠ contribution.explicitUnderlying then
    .error .semanticConflict
  else do
    let enumFixed ← incrementCount state.enumFixed
    return { state with enumFixed, fixedUnderlying := contribution.explicitUnderlying }

def addEnum (state : SourceConstructionState) (contribution : SourceContributionType) :
    Except StatusCode SourceConstructionState := do
  let state ← state.countEnum contribution.enumScoped incrementCount
  if state.enumScoped ≠ 0 && state.enumUnscoped ≠ 0 then .error .semanticConflict
  else state.addUnderlying contribution

def addDefinition (state : SourceConstructionState) (contribution : SourceContributionType)
    (oneBasedTypeIndex : Nat) : Except StatusCode SourceConstructionState :=
  if !contribution.definition then .ok state
  else if state.definitions ≠ 0 then .error .semanticConflict
  else .ok { state with definitions := 1, definitionType := oneBasedTypeIndex }

def addConstruction (state : SourceConstructionState) (contribution : SourceContributionType)
    (oneBasedTypeIndex : Nat) : Except StatusCode SourceConstructionState :=
  if contribution.identity = .null || oneBasedTypeIndex = 0 then .error .invalidArgument
  else if state.declarations ≠ 0 && state.kind ≠ contribution.kind then .error .semanticConflict
  else do
    let declarations ← incrementCount state.declarations
    let state := { state with kind := contribution.kind, declarations }
    let state ← match contribution.kind with
      | .record => state.addRecord contribution
      | .enumeration => state.addEnum contribution
    state.addDefinition contribution oneBasedTypeIndex

def removeDefinition (state : SourceConstructionState) (contribution : SourceContributionType)
    (oneBasedTypeIndex : Nat) : Except StatusCode SourceConstructionState :=
  if !contribution.definition then .ok state
  else if state.definitions ≠ 1 || state.definitionType ≠ oneBasedTypeIndex then
    .error .invalidArgument
  else .ok { state with definitions := 0, definitionType := 0 }

def removeUnderlying (state : SourceConstructionState) (contribution : SourceContributionType) :
    Except StatusCode SourceConstructionState :=
  if contribution.explicitUnderlying = .none then .ok state
  else if state.enumFixed = 0 || state.fixedUnderlying ≠ contribution.explicitUnderlying then
    .error .invalidArgument
  else .ok { state with
    enumFixed := state.enumFixed - 1
    fixedUnderlying := if state.enumFixed - 1 = 0 then .none else state.fixedUnderlying }

def removeEnum (state : SourceConstructionState) (contribution : SourceContributionType) :
    Except StatusCode SourceConstructionState := do
  let state ← state.countEnum contribution.enumScoped decrementCount
  state.removeUnderlying contribution

def removeConstruction (state : SourceConstructionState) (contribution : SourceContributionType)
    (oneBasedTypeIndex : Nat) : Except StatusCode SourceConstructionState :=
  if state.declarations = 0 || state.kind ≠ contribution.kind then .error .invalidArgument
  else do
    let state ← state.removeDefinition contribution oneBasedTypeIndex
    let state ← match contribution.kind with
      | .record => state.countRecord contribution.recordKind decrementCount
      | .enumeration => state.removeEnum contribution
    let declarations ← decrementCount state.declarations
    return if declarations = 0 then {} else { state with declarations }

/-! ### The definition a state names -/

def frame (s : SourceConstructionState) : Nat × Nat × Nat × SourceContributionTypeKind :=
  (s.declarations, s.definitions, s.definitionType, s.kind)

variable {s s' : SourceConstructionState} {contribution : SourceContributionType}
variable {change : Nat → Except StatusCode Nat}

theorem countRecord_frame {kind : SourceRecordKind} (h : s.countRecord kind change = .ok s') :
    s'.frame = s.frame := by
  unfold countRecord at h
  cases kind <;>
  · obtain ⟨n, -, h⟩ := bind_ok.mp h
    cases h
    rfl

theorem countEnum_frame {isScoped : Bool} (h : s.countEnum isScoped change = .ok s') :
    s'.frame = s.frame := by
  unfold countEnum at h
  split at h <;>
  · obtain ⟨n, -, h⟩ := bind_ok.mp h
    cases h
    rfl

theorem addRecord_frame (h : s.addRecord contribution = .ok s') : s'.frame = s.frame := by
  obtain ⟨t, hcount, h⟩ := bind_ok.mp h
  split at h
  · cases h
  · cases h
    exact countRecord_frame hcount

theorem addUnderlying_frame (h : s.addUnderlying contribution = .ok s') : s'.frame = s.frame := by
  unfold addUnderlying at h
  split at h
  · cases h
    rfl
  split at h
  · cases h
  · obtain ⟨n, -, h⟩ := bind_ok.mp h
    cases h
    rfl

theorem addEnum_frame (h : s.addEnum contribution = .ok s') : s'.frame = s.frame := by
  obtain ⟨t, hcount, h⟩ := bind_ok.mp h
  split at h
  · cases h
  · exact (addUnderlying_frame h).trans (countEnum_frame hcount)

theorem removeUnderlying_frame (h : s.removeUnderlying contribution = .ok s') :
    s'.frame = s.frame := by
  unfold removeUnderlying at h
  split at h
  · cases h
    rfl
  split at h
  · cases h
  · cases h
    rfl

theorem removeEnum_frame (h : s.removeEnum contribution = .ok s') : s'.frame = s.frame := by
  obtain ⟨t, hcount, h⟩ := bind_ok.mp h
  exact (removeUnderlying_frame h).trans (countEnum_frame hcount)

structure Names (s : SourceConstructionState) (types : List SourceContributionType) : Prop where
  undeclared : s.declarations = 0 → s.definitionType = 0
  definition : s.definitionType ≠ 0 → ∃ t, types[s.definitionType - 1]? = some t ∧ t.kind = s.kind

variable {types : List SourceContributionType}

theorem names_empty (types : List SourceContributionType) :
    ({} : SourceConstructionState).Names types :=
  ⟨fun _ => rfl, fun h => absurd rfl h⟩

theorem Names.append (h : s.Names types) (more : List SourceContributionType) :
    s.Names (types ++ more) := by
  refine ⟨h.undeclared, ?_⟩
  intro hne
  obtain ⟨t, ht, hk⟩ := h.definition hne
  exact ⟨t, by rw [List.getElem?_append_left (List.getElem?_eq_some_iff.mp ht).1, ht], hk⟩

theorem Names.congr (h : s.Names types) (hf : s'.frame = s.frame) : s'.Names types := by
  simp only [frame, Prod.mk.injEq] at hf
  obtain ⟨hdecl, -, htype, hkind⟩ := hf
  refine ⟨?_, ?_⟩
  · rw [hdecl, htype]
    exact h.undeclared
  · rw [htype, hkind]
    exact h.definition

variable {index : Nat}

theorem addDefinition_names (h : s.Names types) (hdeclared : s.declarations ≠ 0)
    (hkind : contribution.kind = s.kind) (hget : types[index - 1]? = some contribution)
    (hstep : s.addDefinition contribution index = .ok s') : s'.Names types := by
  unfold addDefinition at hstep
  split at hstep
  · cases hstep
    exact h
  split at hstep
  · cases hstep
  · cases hstep
    exact ⟨fun h0 => absurd h0 hdeclared, fun _ => ⟨contribution, hget, hkind⟩⟩

theorem addConstruction_names {index : Nat} (h : s.Names types)
    (hget : types[index - 1]? = some contribution)
    (hstep : s.addConstruction contribution index = .ok s') : s'.Names types := by
  unfold addConstruction at hstep
  split at hstep
  · cases hstep
  split at hstep
  · cases hstep
  rename_i hkind
  simp only [Bool.and_eq_true, decide_eq_true_eq, not_and_or, ne_eq, not_not] at hkind
  obtain ⟨n, hn, hstep⟩ := bind_ok.mp hstep
  have hn0 : n ≠ 0 := by
    unfold incrementCount at hn
    split at hn
    · cases hn
    · cases hn
      omega
  have hbase : ({ s with kind := contribution.kind, declarations := n } :
      SourceConstructionState).Names types := by
    refine ⟨fun h0 => absurd h0 hn0, fun hne => ?_⟩
    rcases hkind with h0 | hsame
    · exact absurd (h.undeclared h0) hne
    · rw [← hsame]
      exact h.definition hne
  have hfinish : ∀ t : SourceConstructionState,
      t.frame = ({ s with kind := contribution.kind, declarations := n } :
        SourceConstructionState).frame →
      t.addDefinition contribution index = .ok s' → s'.Names types := by
    intro t hframe ht
    have hfields := hframe
    simp only [frame, Prod.mk.injEq] at hfields
    refine addDefinition_names (hbase.congr hframe) ?_ ?_ hget ht
    · rw [hfields.1]
      exact hn0
    · exact hfields.2.2.2.symm
  dsimp only at hstep
  split at hstep
  · obtain ⟨t, ht, hstep⟩ := bind_ok.mp hstep
    exact hfinish t (addRecord_frame ht) hstep
  · obtain ⟨t, ht, hstep⟩ := bind_ok.mp hstep
    exact hfinish t (addEnum_frame ht) hstep

theorem removeDefinition_names (h : s.Names types)
    (hstep : s.removeDefinition contribution index = .ok s') : s'.Names types := by
  unfold removeDefinition at hstep
  split at hstep
  · cases hstep
    exact h
  split at hstep
  · cases hstep
  · cases hstep
    exact ⟨fun _ => rfl, fun hne => absurd rfl hne⟩

theorem removeConstruction_names (h : s.Names types)
    (hstep : s.removeConstruction contribution index = .ok s') : s'.Names types := by
  unfold removeConstruction at hstep
  split at hstep
  · cases hstep
  obtain ⟨t, ht, hstep⟩ := bind_ok.mp hstep
  have hnames := removeDefinition_names h ht
  have hfinish : ∀ u : SourceConstructionState, u.frame = t.frame →
      (do
        let declarations ← decrementCount u.declarations
        return if declarations = 0 then {} else { u with declarations } :
          Except StatusCode SourceConstructionState) = .ok s' → s'.Names types := by
    intro u hframe hu
    obtain ⟨n, -, hu⟩ := bind_ok.mp hu
    cases hu
    split
    · exact names_empty types
    · rename_i hn
      exact ⟨fun h0 => absurd h0 hn, (hnames.congr hframe).definition⟩
  dsimp only at hstep
  split at hstep
  · obtain ⟨u, hu, hstep⟩ := bind_ok.mp hstep
    exact hfinish u (countRecord_frame hu) hstep
  · obtain ⟨u, hu, hstep⟩ := bind_ok.mp hstep
    exact hfinish u (removeEnum_frame hu) hstep

end SourceConstructionState

def derivedKind : SourceTypeModifierKind → DerivedTypeKind
  | .constQualified => .constQualified
  | .volatileQualified => .volatileQualified
  | .pointer => .pointer
  | .lvalueReference => .lvalueReference
  | .rvalueReference => .rvalueReference
  | .boundedArray => .boundedArray
  | .unboundedArray => .unboundedArray

/-- `static_cast<std::uint8_t>` of a `derived_type_kind`. -/
def DerivedTypeKind.code : DerivedTypeKind → Nat
  | .constQualified => 0
  | .volatileQualified => 1
  | .pointer => 2
  | .lvalueReference => 3
  | .rvalueReference => 4
  | .boundedArray => 5
  | .unboundedArray => 6
  | .unknown code => code

def derivedRecord (modifier : SourceTypeModifier) (child : TypeRef) : CanonicalTypeRecord :=
  { payload := modifier.value, childOrHandle := child, kind := .derived
    detail := (derivedKind modifier.kind).code }

def CanonicalTypeRecord.derivedHash (record : CanonicalTypeRecord) : Nat :=
  ServerEngine.derivedHash record.detail record.childOrHandle record.payload

def intrinsicWidth (type : IntrinsicType) (abi : AbiConfiguration) : Nat :=
  match type with
  | .boolType => 1
  | .charType | .signedChar | .unsignedChar | .char8Type => 8
  | .wcharType => if abi.target = .windowsX64 then 16 else 32
  | .char16Type | .signedShort | .unsignedShort => 16
  | .char32Type | .signedInt | .unsignedInt => 32
  | .signedLong | .unsignedLong => if abi.target = .windowsX64 then 32 else 64
  | .signedLongLong | .unsignedLongLong => 64
  | _ => 0

def intrinsicSigned : IntrinsicType → Bool
  | .charType | .signedChar | .wcharType | .signedShort | .signedInt | .signedLong
  | .signedLongLong => true
  | _ => false

/-- `signed_value`: the low bits, read in two's complement. -/
def signedValue (value : SourceIntegralConstant) (abi : AbiConfiguration) : Int :=
  let width := intrinsicWidth value.intrinsic abi
  if width = 0 then 0
  else
    let low := value.bits % 2 ^ width
    if low < 2 ^ (width - 1) then (low : Int) else (low : Int) - 2 ^ width

structure EnumBounds where
  minimum : Int := 0
  maximum : Nat := 0
  negative : Bool := false

def EnumBounds.extend (abi : AbiConfiguration) (bounds : EnumBounds)
    (item : SourceContributionEnumValue) : Except StatusCode EnumBounds :=
  if intrinsicWidth item.value.intrinsic abi = 0 then .error .invalidArgument
  else if intrinsicSigned item.value.intrinsic then
    let value := signedValue item.value abi
    .ok (if value < 0 then { bounds with negative := true, minimum := min value bounds.minimum }
      else { bounds with maximum := max value.toNat bounds.maximum })
  else .ok { bounds with maximum := max item.value.bits bounds.maximum }

def selectEnumUnderlying (values : List SourceContributionEnumValue) (abi : AbiConfiguration) :
    Except StatusCode IntrinsicType := do
  let bounds ← values.foldlM (EnumBounds.extend abi) {}
  if bounds.minimum ≥ -2147483648 && bounds.maximum ≤ 2147483647 then .ok .signedInt
  else if !bounds.negative && bounds.maximum ≤ u32Max then .ok .unsignedInt
  else if bounds.maximum ≤ 9223372036854775807 then
    .ok (if abi.target = .windowsX64 then .signedLongLong else .signedLong)
  else if !bounds.negative then
    .ok (if abi.target = .windowsX64 then .unsignedLongLong else .unsignedLong)
  else .error .semanticConflict

end ServerEngine
