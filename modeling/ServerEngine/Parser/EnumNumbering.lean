import ServerEngine.Frontend.AggregateInitializer
import ServerEngine.Frontend.Enumerators
import ServerEngine.Library.Slice
import ServerEngine.Parser.TokenScan

/-! # Enumerator numbering

The loop of `parse_enum` over the tokens of a definition, and the numbers its enumerators stand for.
A literal above the signed range resets the count, and a leading zero is read as decimal.
-/
namespace ServerEngine
open Slice ErrorFold

/-! ## The loop over tokens -/

def tokenText (text : Bytes) (token : ParserToken) : Bytes :=
  if text.length < token.offset || text.length - token.offset < token.length then []
  else slice text token.offset token.length

structure EnumeratorSpelling where
  negative : Bool := false
  digits : Bytes := []
  deriving DecidableEq

def EnumeratorSpelling.literal (s : EnumeratorSpelling) : EnumeratorLiteral :=
  ⟨s.negative, decimalValue s.digits⟩

/-- `source_enum_value_fact`, beside the sign and digits its expression spells. -/
structure EnumeratorFact where
  name : Bytes
  value : SourceIntegralConstant
  expression : SourceSpan := {}
  initializer : Option EnumeratorSpelling := none
  deriving DecidableEq

def EnumeratorError.failure (enumeratorSpan expression : SourceSpan) :
    EnumeratorError → ParseFailure
  | .invalidDecimalLiteral => .syntaxError expression "invalid decimal enum literal"
  | .negativeLiteralRange =>
    .unsupported expression "negative enum literal exceeds signed 64-bit range"
  | .implicitValueRange =>
    .unsupported enumeratorSpan "implicit enum value exceeds signed 64-bit range"

/-- The literal behind `=`; the cursor stays on it. -/
def enumeratorLiteral (text : Bytes) (p : TokenCursor) :
    ParseM (EnumeratorSpelling × SourceSpan × TokenCursor) :=
  let expressionStart := p.current.offset
  let negative := p.punctuation .minus
  let p := if p.punctuation .plus || p.punctuation .minus then p.advance else p
  if p.current.kind ≠ .integerLiteral then
    .error (.unsupported p.span "enum expressions currently support decimal integer literals only")
  else
    let number := tokenText text p.current
    match fromCharsUnsigned number with
    | none => .error (.syntaxError p.span "invalid decimal enum literal")
    | some _ =>
      let expressionEnd := p.current.offset + p.current.length
      .ok (⟨negative, number⟩, ⟨expressionStart, positionDifference expressionEnd expressionStart⟩, p)

def enumeratorConstant (enumeratorSpan expression : SourceSpan) (cursor : EnumeratorCursor)
    (initializer : Option EnumeratorSpelling) : ParseM (EnumeratorCursor × SourceIntegralConstant) :=
  match parseEnumerator cursor (initializer.map (·.literal)) with
  | .ok out => .ok out
  | .error e => .error (e.failure enumeratorSpan expression)

def enumeratorValue (text : Bytes) (name : Bytes) (enumeratorSpan : SourceSpan) (p : TokenCursor)
    (cursor : EnumeratorCursor) : ParseM (EnumeratorFact × EnumeratorCursor × TokenCursor) :=
  if p.punctuation .equal then do
    let (literal, expression, p) ← enumeratorLiteral text p.advance
    let (cursor, value) ← enumeratorConstant enumeratorSpan expression cursor (some literal)
    .ok (⟨name, value, expression, some literal⟩, cursor, p.advance)
  else do
    let (cursor, value) ← enumeratorConstant enumeratorSpan {} cursor none
    .ok (⟨name, value, {}, none⟩, cursor, p)

def enumeratorLoop (text : Bytes) :
    Nat → TokenCursor → EnumeratorCursor → List EnumeratorFact →
      ParseM (List EnumeratorFact × TokenCursor)
  | 0, _, _, _ => .error .diverges
  | fuel + 1, p, cursor, enumValues =>
    if p.current.kind = .eof || p.punctuation .rightBrace then .ok (enumValues, p)
    else if p.current.kind ≠ .identifier then
      .error (.syntaxError p.span "expected enumerator identifier")
    else do
      let (fact, cursor, p) ←
        enumeratorValue text (tokenText text p.current) p.span p.advance cursor
      if p.punctuation .comma then
        enumeratorLoop text fuel p.advance cursor (enumValues ++ [fact])
      else if p.punctuation .rightBrace then
        enumeratorLoop text fuel p cursor (enumValues ++ [fact])
      else .error (.syntaxError p.span "expected ',' or '\x7d' after enumerator")

/-- `parse_enum` from behind the opening brace on. -/
def parseEnumBody (text : Bytes) (p : TokenCursor) : ParseM (List EnumeratorFact × TokenCursor) := do
  let (enumValues, p) ← enumeratorLoop text (p.tokens.length + 2) p {} []
  if !p.punctuation .rightBrace then
    .error (.syntaxError p.span "expected '\x7d' after enum definition")
  else
    let p := p.advance
    if !p.punctuation .semicolon then
      .error (.syntaxError p.span "expected ';' after enum definition")
    else .ok (enumValues, p.advance)

def SourceIntegralConstant.denoted (c : SourceIntegralConstant) : Int :=
  if c.intrinsic = .unsignedLongLong || c.bits < 2 ^ 63 then c.bits else c.bits - 2 ^ 64

def EnumeratorLiteral.number (literal : EnumeratorLiteral) : Int :=
  if literal.negative then -literal.magnitude else literal.magnitude

def valueIn (base : Nat) (digits : Bytes) : Nat :=
  digits.foldl (fun value digit => value * base + (digit.toNat - 48)) 0

def cppLiteralValue (digits : Bytes) : Option Nat :=
  if digits.head? = some (ascii '0') then
    if digits.all (· < ascii '8') then some (valueIn 8 digits) else none
  else some (decimalValue digits)

/-- The enumerator's number is that of its literal, or counts on from the number before. -/
def NumberedBy (before : Option Int) (fact : EnumeratorFact) : Prop :=
  match fact.initializer with
  | some spelling => fact.value.denoted = spelling.literal.number ∧
      cppLiteralValue spelling.digits = some (decimalValue spelling.digits)
  | none => fact.value.denoted = before.elim 0 (· + 1)

def numberBefore (enumValues : List EnumeratorFact) (i : Nat) : Option Int :=
  if i = 0 then none else (enumValues[i - 1]?).map (·.value.denoted)

def NumberedAsCpp (enumValues : List EnumeratorFact) : Prop :=
  ∀ i fact, enumValues[i]? = some fact → NumberedBy (numberBefore enumValues i) fact

def EnumeratorSpelling.exceedsSigned (s : EnumeratorSpelling) : Bool :=
  !s.negative && 9223372036854775807 < decimalValue s.digits

/-- A leading zero that means the same in octal: all digits but the last are zeros, and the last is an
octal one. -/
def EnumeratorSpelling.octalSafe (s : EnumeratorSpelling) : Bool :=
  s.digits.head? ≠ some (ascii '0') ||
    (s.digits.dropLast.all (· == ascii '0') && s.digits.all (· < ascii '8'))

/-- No literal above the signed range is followed by an implicit enumerator, and no leading zero
changes a value. -/
structure CppInitializers (initializers : List (Option EnumeratorSpelling)) : Prop where
  counted : ∀ i s, initializers[i]? = some (some s) → s.exceedsSigned = true →
    initializers[i + 1]? ≠ some none
  octal : ∀ s, some s ∈ initializers → s.octalSafe = true

variable {b : UInt8}

theorem isDigit_iff : isDigit b = true ↔ 48 ≤ b.toNat ∧ b.toNat ≤ 57 := by
  rw [isDigit, Bool.and_eq_true, decide_eq_true_eq, decide_eq_true_eq, UInt8.le_iff_toNat_le,
    UInt8.le_iff_toNat_le]
  rfl

theorem digit_zero (h : isDigit b = true) : b.toNat - 48 = 0 ↔ (b == ascii '0') = true := by
  have hdigit := isDigit_iff.mp h
  rw [beq_iff_eq, ← UInt8.toNat_inj]
  have hzero : (ascii '0').toNat = 48 := rfl
  omega

theorem valueIn_append (base : Nat) (digits : Bytes) (d : UInt8) :
    valueIn base (digits ++ [d]) = valueIn base digits * base + (d.toNat - 48) := by
  rw [valueIn, List.foldl_append]
  rfl

theorem valueIn_mono (digits : Bytes) : valueIn 8 digits ≤ valueIn 10 digits := by
  induction digits using List.reverseRecOn with
  | nil => exact Nat.le_refl _
  | append_singleton digits d ih =>
    rw [valueIn_append, valueIn_append]
    omega

variable {digits : Bytes}

theorem valueIn_zero {base : Nat} (hbase : 0 < base) (hdigits : digits.all isDigit = true) :
    valueIn base digits = 0 ↔ digits.all (· == ascii '0') = true := by
  induction digits using List.reverseRecOn with
  | nil => simp [valueIn]
  | append_singleton digits d ih =>
    rw [List.all_append, Bool.and_eq_true] at hdigits
    have hd : isDigit d = true := by simpa using hdigits.2
    rw [valueIn_append, List.all_append, Bool.and_eq_true, ← ih hdigits.1, Nat.add_eq_zero_iff,
      Nat.mul_eq_zero, digit_zero hd]
    simp [Nat.ne_of_gt hbase]

theorem octal_eq_decimal (hdigits : digits.all isDigit = true) (hne : digits ≠ []) :
    valueIn 8 digits = decimalValue digits ↔ digits.dropLast.all (· == ascii '0') = true := by
  have hten : decimalValue digits = valueIn 10 digits := rfl
  have hsplit := List.dropLast_append_getLast hne
  have hall : digits.dropLast.all isDigit = true := by
    rw [List.all_eq_true] at hdigits ⊢
    exact fun b hb => hdigits b (List.dropLast_subset digits hb)
  have hmono := valueIn_mono digits.dropLast
  rw [hten, ← valueIn_zero (by decide : 0 < 10) hall]
  rw [← hsplit, valueIn_append, valueIn_append, hsplit]
  omega

variable {s : EnumeratorSpelling}

theorem cppLiteralValue_iff {n : Nat} (h : fromCharsUnsigned s.digits = some n) :
    cppLiteralValue s.digits = some (decimalValue s.digits) ↔ s.octalSafe = true := by
  unfold fromCharsUnsigned at h
  split at h
  · cases h
  rename_i hdigits
  simp only [Bool.or_eq_true, not_or, List.isEmpty_iff, Bool.not_eq_true', Bool.not_eq_false]
    at hdigits
  unfold cppLiteralValue EnumeratorSpelling.octalSafe
  split
  · rename_i hlead
    split
    · rename_i hoctal
      rw [Option.some.injEq, octal_eq_decimal hdigits.2 hdigits.1]
      simp [hlead, hoctal]
    · rename_i hoctal
      simp [hlead, hoctal]
  · rename_i hlead
    simp [hlead]

/-! ## One enumerator -/

theorem signedConstant_denoted {z : Int} (hmin : -9223372036854775808 ≤ z)
    (hmax : z ≤ 9223372036854775807) : (signedConstant z).denoted = z := by
  have hintrinsic : (signedConstant z).intrinsic ≠ .unsignedLongLong := by
    unfold signedConstant
    split <;> simp
  have hbits : (signedConstant z).bits = asBits z := rfl
  unfold SourceIntegralConstant.denoted
  rw [hbits, asBits]
  simp only [hintrinsic, decide_false, Bool.false_or, decide_eq_true_eq]
  split <;> omega

def EnumeratorFact.counted (fact : EnumeratorFact) : Int :=
  match fact.initializer with
  | some s => if s.exceedsSigned then 0 else fact.value.denoted
  | none => fact.value.denoted

theorem literalConstant_number {implicitValue : Int} {value : SourceIntegralConstant}
    (h : literalConstant s.literal = .ok (implicitValue, value)) :
    value.denoted = s.literal.number ∧
      implicitValue = if s.exceedsSigned then 0 else value.denoted := by
  unfold literalConstant at h
  split at h
  · cases h
  rename_i hmagnitude
  have hsign : s.literal.negative = s.negative := rfl
  have hvalue : s.literal.magnitude = decimalValue s.digits := rfl
  rw [hsign, hvalue] at h
  rw [EnumeratorLiteral.number, EnumeratorSpelling.exceedsSigned, hsign, hvalue]
  cases hnegative : s.negative with
  | true =>
    rw [hnegative, if_pos rfl] at h
    split at h
    · cases h
    · cases h
      rw [signedConstant_denoted (by omega) (by omega)]
      simp
  | false =>
    rw [hnegative, if_neg Bool.false_ne_true] at h
    split at h
    · rename_i hrange
      cases h
      rw [signedConstant_denoted (by omega) (by omega)]
      have hin : decide (9223372036854775807 < decimalValue s.digits) = false := by
        rw [decide_eq_false_iff_not]
        omega
      simp [hin]
    · rename_i hrange
      cases h
      have hout : decide (9223372036854775807 < decimalValue s.digits) = true := by
        rw [decide_eq_true_eq]
        omega
      simp [SourceIntegralConstant.denoted, hout]

structure CountsFrom (before : Option EnumeratorFact) (cursor : EnumeratorCursor) : Prop where
  inRange : cursor.InRange
  haveValue : cursor.haveValue = before.isSome
  implicitValue : ∀ fact, before = some fact → cursor.implicitValue = fact.counted

structure EnumeratorEntry (before : Option EnumeratorFact) (fact : EnumeratorFact) : Prop where
  explicit : ∀ s, fact.initializer = some s →
    fact.value.denoted = s.literal.number ∧ ∃ n, fromCharsUnsigned s.digits = some n
  implicit : fact.initializer = none → fact.value.denoted = before.elim 0 (·.counted + 1)

variable {before : Option EnumeratorFact} {cursor cursor' : EnumeratorCursor}
variable {fact : EnumeratorFact}

theorem parseEnumerator_entry (hcursor : CountsFrom before cursor)
    (hdigits : ∀ s, fact.initializer = some s → ∃ n, fromCharsUnsigned s.digits = some n)
    (h : parseEnumerator cursor (fact.initializer.map (·.literal)) = .ok (cursor', fact.value)) :
    EnumeratorEntry before fact ∧ CountsFrom (some fact) cursor' := by
  have hrange := (parseEnumerator_encodes hcursor.inRange h).1
  cases hinit : fact.initializer with
  | some s =>
    rw [hinit] at h
    obtain ⟨⟨implicitValue, value⟩, hliteral, h⟩ := bind_ok.mp h
    cases h
    obtain ⟨hnumber, hnext⟩ := literalConstant_number hliteral
    refine ⟨⟨fun t ht => ?_, fun hnone => ?_⟩, hrange, rfl, fun other hother => ?_⟩
    · rw [hinit] at ht
      cases ht
      exact ⟨hnumber, hdigits s hinit⟩
    · rw [hinit] at hnone
      cases hnone
    · cases hother
      rw [EnumeratorFact.counted, hinit]
      exact hnext
  | none =>
    rw [hinit] at h
    unfold parseEnumerator at h
    dsimp only [Option.map_none] at h
    split at h
    · cases h
    · rename_i hlast
      simp only [Except.ok.injEq, Prod.mk.injEq] at h
      obtain ⟨hnext, hvalue⟩ := h
      rw [← hnext] at hrange
      have hdenoted := signedConstant_denoted hrange.1 hrange.2
      rw [hvalue] at hdenoted
      refine ⟨⟨fun t ht => ?_, fun _ => ?_⟩, ?_, ?_, fun other hother => ?_⟩
      · rw [hinit] at ht
        cases ht
      · rw [hdenoted, hcursor.haveValue]
        cases hbefore : before with
        | none => rfl
        | some b => simp [hcursor.implicitValue b hbefore]
      · rw [← hnext]
        exact hrange
      · rw [← hnext]
        rfl
      · cases hother
        rw [EnumeratorFact.counted, hinit, ← hnext]
        exact hdenoted.symm

/-! ## The whole definition -/

def enumeratorBefore (enumValues : List EnumeratorFact) (i : Nat) : Option EnumeratorFact :=
  if i = 0 then none else enumValues[i - 1]?

def Enumerated (enumValues : List EnumeratorFact) : Prop :=
  ∀ i fact, enumValues[i]? = some fact → EnumeratorEntry (enumeratorBefore enumValues i) fact

variable {enumValues : List EnumeratorFact}

theorem Enumerated.append (h : Enumerated enumValues)
    (hfact : EnumeratorEntry enumValues.getLast? fact) : Enumerated (enumValues ++ [fact]) := by
  intro i other hother
  by_cases hi : i < enumValues.length
  · rw [List.getElem?_append_left hi] at hother
    have hentry := h i other hother
    unfold enumeratorBefore at hentry ⊢
    rwa [List.getElem?_append_left (by omega)]
  · have hlast : i = enumValues.length := by
      have := (List.getElem?_eq_some_iff.mp hother).1
      rw [List.length_append, List.length_singleton] at this
      omega
    subst hlast
    rw [List.getElem?_concat_length] at hother
    cases hother
    have hbefore : enumeratorBefore (enumValues ++ [fact]) enumValues.length =
        enumValues.getLast? := by
      rw [enumeratorBefore, List.getLast?_eq_getElem?]
      split
      · rename_i hempty
        rw [List.getElem?_eq_none (by omega)]
      · rw [List.getElem?_append_left (by omega)]
    rw [hbefore]
    exact hfact

variable {enumeratorSpan expression : SourceSpan}

theorem enumeratorConstant_ok {initializer : Option EnumeratorSpelling}
    {out : EnumeratorCursor × SourceIntegralConstant}
    (h : enumeratorConstant enumeratorSpan expression cursor initializer = .ok out) :
    parseEnumerator cursor (initializer.map (·.literal)) = .ok out := by
  unfold enumeratorConstant at h
  split at h
  · rename_i hok
    cases h
    exact hok
  · cases h

variable {text : Bytes} {p p' : TokenCursor}

theorem enumeratorLiteral_digits (h : enumeratorLiteral text p = .ok (s, expression, p')) :
    ∃ n, fromCharsUnsigned s.digits = some n := by
  unfold enumeratorLiteral at h
  dsimp only at h
  generalize (if p.punctuation .plus || p.punctuation .minus then p.advance else p) = q at h
  split at h
  · cases h
  · split at h
    · cases h
    · rename_i n hn
      cases h
      exact ⟨n, hn⟩

theorem enumeratorValue_entry {name : Bytes} (hcursor : CountsFrom before cursor)
    (h : enumeratorValue text name enumeratorSpan p cursor = .ok (fact, cursor', p')) :
    EnumeratorEntry before fact ∧ CountsFrom (some fact) cursor' := by
  unfold enumeratorValue at h
  split at h
  · obtain ⟨⟨spelling, expression, q⟩, hliteral, h⟩ := bind_ok.mp h
    obtain ⟨⟨next, value⟩, hconstant, h⟩ := bind_ok.mp h
    cases h
    refine parseEnumerator_entry hcursor (fun s hs => ?_) (enumeratorConstant_ok hconstant)
    cases hs
    exact enumeratorLiteral_digits hliteral
  · obtain ⟨⟨next, value⟩, hconstant, h⟩ := bind_ok.mp h
    cases h
    refine parseEnumerator_entry hcursor (fun s hs => ?_) (enumeratorConstant_ok hconstant)
    cases hs

variable {facts : List EnumeratorFact}

theorem enumeratorLoop_enumerated {fuel : Nat} (hcursor : CountsFrom enumValues.getLast? cursor)
    (henum : Enumerated enumValues)
    (h : enumeratorLoop text fuel p cursor enumValues = .ok (facts, p')) : Enumerated facts := by
  induction fuel generalizing p cursor enumValues with
  | zero => cases h
  | succ fuel ih =>
    rw [enumeratorLoop] at h
    split at h
    · cases h
      exact henum
    · split at h
      · cases h
      · obtain ⟨⟨fact, next, q⟩, hvalue, h⟩ := bind_ok.mp h
        obtain ⟨hentry, hnext⟩ := enumeratorValue_entry hcursor hvalue
        have hlast : CountsFrom (enumValues ++ [fact]).getLast? next := by
          rw [List.getLast?_concat]
          exact hnext
        dsimp only at h
        split at h
        · exact ih hlast (henum.append hentry) h
        · split at h
          · exact ih hlast (henum.append hentry) h
          · cases h

theorem parseEnumBody_enumerated (h : parseEnumBody text p = .ok (facts, p')) :
    Enumerated facts := by
  obtain ⟨⟨enumValues, q⟩, hloop, h⟩ := bind_ok.mp h
  have hstart : Enumerated ([] : List EnumeratorFact) := fun i fact hfact => by cases hfact
  have hcursor : CountsFrom ([] : List EnumeratorFact).getLast? {} :=
    ⟨⟨by decide, by decide⟩, rfl, fun fact hfact => by cases hfact⟩
  have henum := enumeratorLoop_enumerated hcursor hstart hloop
  dsimp only at h
  split at h
  · cases h
  · split at h
    · cases h
    · cases h
      exact henum

theorem EnumeratorEntry.counted_eq (h : EnumeratorEntry before fact) :
    fact.counted = fact.value.denoted ↔
      ∀ s, fact.initializer = some s → s.exceedsSigned = false := by
  unfold EnumeratorFact.counted
  cases hinit : fact.initializer with
  | none => simp
  | some s =>
    cases hexceeds : s.exceedsSigned with
    | false => simp [hexceeds]
    | true =>
      have hnumber := (h.explicit s hinit).1
      simp only [EnumeratorSpelling.exceedsSigned, Bool.and_eq_true, Bool.not_eq_true',
        decide_eq_true_eq] at hexceeds
      have hpositive : s.literal.number = decimalValue s.digits := by
        simp [EnumeratorLiteral.number, EnumeratorSpelling.literal, hexceeds.1]
      simp [EnumeratorSpelling.exceedsSigned, hexceeds.1, hexceeds.2, hnumber]
      omega

theorem numberBefore_eq (enumValues : List EnumeratorFact) (i : Nat) :
    numberBefore enumValues i = (enumeratorBefore enumValues i).map (·.value.denoted) := by
  unfold numberBefore enumeratorBefore
  split <;> rfl

theorem Enumerated.numbered (h : Enumerated enumValues) {i : Nat}
    (hfact : enumValues[i]? = some fact) : NumberedBy (numberBefore enumValues i) fact ↔
      (∀ s, fact.initializer = some s → s.octalSafe = true) ∧
        (fact.initializer = none → ∀ before s, enumeratorBefore enumValues i = some before →
          before.initializer = some s → s.exceedsSigned = false) := by
  have hentry := h i fact hfact
  rw [NumberedBy, numberBefore_eq]
  cases hinit : fact.initializer with
  | some s =>
    obtain ⟨hnumber, n, hn⟩ := hentry.explicit s hinit
    simp [hnumber, cppLiteralValue_iff hn]
  | none =>
    have hvalue := hentry.implicit hinit
    rw [hvalue]
    cases hbefore : enumeratorBefore enumValues i with
    | none => simp
    | some before =>
      have hcounts : EnumeratorEntry (enumeratorBefore enumValues (i - 1)) before := by
        apply h (i - 1) before
        unfold enumeratorBefore at hbefore
        split at hbefore
        · cases hbefore
        · exact hbefore
      have hiff := hcounts.counted_eq
      constructor
      · intro heq
        refine ⟨fun t ht => (by cases ht), fun _ other t hother ht => ?_⟩
        cases hother
        simp only [Option.elim_some, Option.map_some] at heq
        exact hiff.mp (by omega) t ht
      · rintro ⟨-, hsafe⟩
        simp only [Option.elim_some, Option.map_some]
        rw [hiff.mpr fun t ht => hsafe rfl before t rfl ht]

/-- An accepted definition is numbered as in C++ if and only if no literal above the signed range is
followed by an implicit enumerator and no leading zero changes a value. -/
theorem numbering_cpp_iff {text : Bytes} {p p' : TokenCursor} {facts : List EnumeratorFact}
    (h : parseEnumBody text p = .ok (facts, p')) :
    NumberedAsCpp facts ↔ CppInitializers (facts.map (·.initializer)) := by
  have henum := parseEnumBody_enumerated h
  constructor
  · intro hcpp
    constructor
    · intro i s hi hexceeds hnext
      rw [List.getElem?_map] at hi hnext
      obtain ⟨before, hbefore, hinit⟩ := Option.map_eq_some_iff.mp hi
      obtain ⟨fact, hfact, hnone⟩ := Option.map_eq_some_iff.mp hnext
      have hsafe := ((henum.numbered hfact).mp (hcpp (i + 1) fact hfact)).2 hnone before s
        (by simp [enumeratorBefore, hbefore]) hinit
      rw [hsafe] at hexceeds
      cases hexceeds
    · intro s hs
      obtain ⟨fact, hmem, hinit⟩ := List.mem_map.mp hs
      obtain ⟨i, hi⟩ := List.mem_iff_getElem?.mp hmem
      exact ((henum.numbered hi).mp (hcpp i fact hi)).1 s hinit
  · intro hcond i fact hfact
    rw [henum.numbered hfact]
    constructor
    · intro s hs
      exact hcond.octal s (List.mem_map.mpr ⟨fact, List.mem_of_getElem? hfact, hs⟩)
    · intro hnone before s hbefore hinit
      unfold enumeratorBefore at hbefore
      split at hbefore
      · cases hbefore
      · rename_i hi
        cases hexceeds : s.exceedsSigned with
        | false => rfl
        | true =>
          have hno := hcond.counted (i - 1) s (by rw [List.getElem?_map, hbefore]; simp [hinit])
            hexceeds
          rw [Nat.sub_add_cancel (by omega), List.getElem?_map, hfact] at hno
          simp [hnone] at hno

/-- `A=9223372036854775808,B};` -/
def renumberedTokens : List ParserToken :=
  [⟨0, 1, .identifier, .none⟩, ⟨1, 1, .punctuation, .equal⟩, ⟨2, 19, .integerLiteral, .none⟩,
    ⟨21, 1, .punctuation, .comma⟩, ⟨22, 1, .identifier, .none⟩, ⟨23, 1, .punctuation, .rightBrace⟩,
    ⟨24, 1, .punctuation, .semicolon⟩, ⟨25, 0, .eof, .none⟩]

/-- `A=010};` -/
def octalTokens : List ParserToken :=
  [⟨0, 1, .identifier, .none⟩, ⟨1, 1, .punctuation, .equal⟩, ⟨2, 3, .integerLiteral, .none⟩,
    ⟨5, 1, .punctuation, .rightBrace⟩, ⟨6, 1, .punctuation, .semicolon⟩, ⟨7, 0, .eof, .none⟩]

/-- The enumerator behind 2^63 becomes 1, and `010` becomes 10. -/
theorem numbering_differs :
    (∃ facts p', parseEnumBody (asciiBytes "A=9223372036854775808,B\x7d;") ⟨renumberedTokens, 0⟩ =
      .ok (facts, p') ∧ facts.map (·.value.denoted) = [9223372036854775808, 1] ∧
        ¬ NumberedAsCpp facts) ∧
      ∃ facts p', parseEnumBody (asciiBytes "A=010\x7d;") ⟨octalTokens, 0⟩ = .ok (facts, p') ∧
        facts.map (·.value.denoted) = [10] ∧ ¬ NumberedAsCpp facts := by
  constructor
  · refine ⟨[⟨asciiBytes "A", ⟨.unsignedLongLong, 9223372036854775808⟩, ⟨2, 19⟩,
      some ⟨false, asciiBytes "9223372036854775808"⟩⟩, ⟨asciiBytes "B", ⟨.signedInt, 1⟩, {}, none⟩],
      ⟨renumberedTokens, 7⟩, by decide +kernel, by decide, fun h => ?_⟩
    have hsecond : SourceIntegralConstant.denoted ⟨.signedInt, 1⟩ =
        SourceIntegralConstant.denoted ⟨.unsignedLongLong, 9223372036854775808⟩ + 1 := h 1 _ rfl
    exact absurd hsecond (by decide)
  · refine ⟨[⟨asciiBytes "A", ⟨.signedInt, 10⟩, ⟨2, 3⟩, some ⟨false, asciiBytes "010"⟩⟩],
      ⟨octalTokens, 5⟩, by decide +kernel, by decide, fun h => ?_⟩
    have hfirst := (h 0 _ rfl).2
    exact absurd hfirst (by decide)

theorem numbering_cpp_iff_octal :
    ¬ CppInitializers [some ⟨false, asciiBytes "010"⟩] := by
  have hrun : parseEnumBody (asciiBytes "A=010\x7d;") ⟨octalTokens, 0⟩ =
      .ok ([⟨asciiBytes "A", ⟨.signedInt, 10⟩, ⟨2, 3⟩, some ⟨false, asciiBytes "010"⟩⟩],
        ⟨octalTokens, 5⟩) := by decide +kernel
  intro hcond
  have hcpp := (numbering_cpp_iff hrun).mpr hcond
  exact absurd (hcpp 0 _ rfl).2 (by decide)

end ServerEngine
