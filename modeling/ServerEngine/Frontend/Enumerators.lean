import ServerEngine.Frontend.SourceFacts
import ServerEngine.Library.ErrorFold

/-! # Enumerators

The values `parse_enum` gives to the enumerators of one definition: a decimal literal with a sign, or
one more than the value before. Each is recorded as 64 raw bits tagged by an intrinsic type.
-/
namespace ServerEngine
open ErrorFold

structure EnumeratorLiteral where
  negative : Bool := false
  magnitude : Nat := 0

/-- The failures of the loop over enumerators that depend on a value. -/
inductive EnumeratorError
  | invalidDecimalLiteral
  | negativeLiteralRange
  | implicitValueRange
  deriving DecidableEq

/-- `implicit_value` and `have_value`. -/
structure EnumeratorCursor where
  implicitValue : Int := 0
  haveValue : Bool := false

/-- `static_cast<std::uint64_t>` of a signed value. -/
def asBits (z : Int) : Nat := (z % 2 ^ 64).toNat

/-- A signed value is an `int` where it fits, else a `long long`. -/
def signedConstant (z : Int) : SourceIntegralConstant :=
  { intrinsic := if -2147483648 ≤ z && z ≤ 2147483647 then .signedInt else .signedLongLong
    bits := asBits z }

/-- The value of a literal, and what the next implicit value counts from. -/
def literalConstant (literal : EnumeratorLiteral) :
    Except EnumeratorError (Int × SourceIntegralConstant) :=
  if literal.magnitude > 18446744073709551615 then .error .invalidDecimalLiteral
  else if literal.negative then
    if literal.magnitude > 9223372036854775808 then .error .negativeLiteralRange
    else .ok (-(literal.magnitude : Int), signedConstant (-(literal.magnitude : Int)))
  else if literal.magnitude ≤ 9223372036854775807 then
    .ok (literal.magnitude, signedConstant literal.magnitude)
  else .ok (0, { intrinsic := .unsignedLongLong, bits := literal.magnitude })

def parseEnumerator (cursor : EnumeratorCursor) (initializer : Option EnumeratorLiteral) :
    Except EnumeratorError (EnumeratorCursor × SourceIntegralConstant) :=
  match initializer with
  | some literal => do
    let (implicitValue, value) ← literalConstant literal
    return (⟨implicitValue, true⟩, value)
  | none =>
    if cursor.haveValue && cursor.implicitValue == 9223372036854775807 then
      .error .implicitValueRange
    else
      let implicitValue := if cursor.haveValue then cursor.implicitValue + 1 else 0
      .ok (⟨implicitValue, true⟩, signedConstant implicitValue)

def parseNextEnumerator (state : EnumeratorCursor × List SourceIntegralConstant)
    (initializer : Option EnumeratorLiteral) :
    Except EnumeratorError (EnumeratorCursor × List SourceIntegralConstant) := do
  let (cursor, value) ← parseEnumerator state.1 initializer
  return (cursor, state.2 ++ [value])

def parseEnumerators (initializers : List (Option EnumeratorLiteral)) :
    Except EnumeratorError (List SourceIntegralConstant) := do
  let (_, values) ← initializers.foldlM parseNextEnumerator ({}, [])
  return values

/-- The enumerators of a source are those of its enum definitions, one definition after another. -/
def SourceFacts.EnumeratorsParsed (facts : SourceFacts) : Prop :=
  ∃ (definitions : List (List (Option EnumeratorLiteral)))
    (values : List (List SourceIntegralConstant)),
    definitions.mapM parseEnumerators = .ok values ∧
      facts.enumValues.map (·.value) = values.flatten

/-! ## What is recorded -/

inductive SourceIntegralConstant.Encodes : SourceIntegralConstant → Int → Prop
  | signedInt {z : Int} : -2147483648 ≤ z → z ≤ 2147483647 → Encodes ⟨.signedInt, asBits z⟩ z
  | signedLongLong {z : Int} : -9223372036854775808 ≤ z → z ≤ 9223372036854775807 →
    Encodes ⟨.signedLongLong, asBits z⟩ z
  | unsignedLongLong {n : Nat} : n ≤ 18446744073709551615 → Encodes ⟨.unsignedLongLong, n⟩ n

theorem signedConstant_encodes {z : Int} (hmin : -9223372036854775808 ≤ z)
    (hmax : z ≤ 9223372036854775807) : (signedConstant z).Encodes z := by
  unfold signedConstant
  split
  · rename_i hint
    simp only [Bool.and_eq_true, decide_eq_true_eq] at hint
    exact .signedInt hint.1 hint.2
  · exact .signedLongLong hmin hmax

def EnumeratorCursor.InRange (cursor : EnumeratorCursor) : Prop :=
  -9223372036854775808 ≤ cursor.implicitValue ∧ cursor.implicitValue ≤ 9223372036854775807

theorem literalConstant_encodes {literal : EnumeratorLiteral} {implicitValue : Int}
    {value : SourceIntegralConstant} (h : literalConstant literal = .ok (implicitValue, value)) :
    (⟨implicitValue, true⟩ : EnumeratorCursor).InRange ∧ ∃ z, value.Encodes z := by
  unfold literalConstant at h
  split at h
  · cases h
  split at h
  · split at h
    · cases h
    · rename_i hrange
      cases h
      exact ⟨⟨by dsimp only; omega, by dsimp only; omega⟩, _,
        signedConstant_encodes (by omega) (by omega)⟩
  · split at h
    · rename_i hrange
      cases h
      exact ⟨⟨by dsimp only; omega, by dsimp only; omega⟩, _,
        signedConstant_encodes (by omega) (by omega)⟩
    · cases h
      exact ⟨⟨by simp, by simp⟩, _, .unsignedLongLong (by omega)⟩

theorem parseEnumerator_encodes {cursor cursor' : EnumeratorCursor}
    {initializer : Option EnumeratorLiteral} {value : SourceIntegralConstant}
    (hcursor : cursor.InRange) (h : parseEnumerator cursor initializer = .ok (cursor', value)) :
    cursor'.InRange ∧ ∃ z, value.Encodes z := by
  unfold parseEnumerator at h
  cases initializer with
  | some literal =>
    obtain ⟨⟨implicitValue, constant⟩, hliteral, h⟩ := bind_ok.mp h
    cases h
    exact literalConstant_encodes hliteral
  | none =>
    obtain ⟨hmin, hmax⟩ := hcursor
    dsimp only at h
    split at h
    · cases h
    rename_i hlast
    simp only [Bool.and_eq_true, beq_iff_eq, not_and] at hlast
    cases h
    have hrange : -9223372036854775808 ≤ (if cursor.haveValue then cursor.implicitValue + 1 else 0) ∧
        (if cursor.haveValue then cursor.implicitValue + 1 else 0) ≤ 9223372036854775807 := by
      split
      · rename_i hvalue
        have := hlast hvalue
        omega
      · omega
    exact ⟨hrange, _, signedConstant_encodes hrange.1 hrange.2⟩

theorem parseEnumerators_encodes {initializers : List (Option EnumeratorLiteral)}
    {values : List SourceIntegralConstant} (h : parseEnumerators initializers = .ok values) :
    ∀ v ∈ values, ∃ z, v.Encodes z := by
  obtain ⟨⟨cursor, values'⟩, hfold, h⟩ := bind_ok.mp h
  cases h
  have hall := foldlM_ok_invariant
    (fun state : EnumeratorCursor × List SourceIntegralConstant =>
      state.1.InRange ∧ ∀ v ∈ state.2, ∃ z, v.Encodes z) hfold ⟨⟨by simp, by simp⟩, by simp⟩ ?_
  · exact hall.2
  intro initializer state state' _ hstate hstep
  obtain ⟨⟨next, value⟩, hone, hstep⟩ := bind_ok.mp hstep
  cases hstep
  obtain ⟨hrange, hvalue⟩ := parseEnumerator_encodes hstate.1 hone
  refine ⟨hrange, ?_⟩
  intro v hv
  rcases List.mem_append.mp hv with hv | hv
  · exact hstate.2 v hv
  · rw [List.mem_singleton] at hv
    rw [hv]
    exact hvalue

theorem SourceFacts.EnumeratorsParsed.encodes {facts : SourceFacts} (h : facts.EnumeratorsParsed) :
    ∀ v ∈ facts.enumValues, ∃ z, v.value.Encodes z := by
  obtain ⟨definitions, values, hparsed, hvalues⟩ := h
  intro v hv
  have hmem : v.value ∈ values.flatten := by
    rw [← hvalues]
    exact List.mem_map_of_mem hv
  obtain ⟨group, hgroup, hin⟩ := List.mem_flatten.mp hmem
  obtain ⟨i, hi⟩ := List.mem_iff_getElem?.mp hgroup
  obtain ⟨hlength, hget⟩ := mapM_ok_getElem? hparsed
  have hlt := (List.getElem?_eq_some_iff.mp hi).1
  obtain ⟨group', hgroup', hok⟩ := hget i _ (List.getElem?_eq_getElem (by omega))
  rw [hi] at hgroup'
  cases hgroup'
  exact parseEnumerators_encodes hok v.value hin

end ServerEngine
