import ServerEngine.Core.Rounding
import ServerEngine.Frontend.AggregateInitializer

/-! # Initializer text

The printer of aggregate initializers. What it prints is parsed again to the same lists, each leaf
that is no real and no negative number having become an unsigned integer of the same bits. The text
of a real is that of `std::to_chars`.
-/
namespace ServerEngine

/-! ## The printer -/

/-- The last `fuel` decimal digits of a number, without leading zeros. -/
def decimalDigits : Nat → Nat → Bytes
  | 0, _ => []
  | fuel + 1, n =>
    if n < 10 then [(n + 48).toUInt8] else decimalDigits fuel (n / 10) ++ [(n % 10 + 48).toUInt8]

def toCharsUnsigned (bits : Nat) : Bytes := decimalDigits 20 bits

/-- `std::to_chars` of the `std::int64_t` with these bits. -/
def toCharsSigned (bits : Nat) : Bytes :=
  if bits < 2 ^ 63 then toCharsUnsigned bits else ascii '-' :: toCharsUnsigned (2 ^ 64 - bits)

def isRealMark (b : UInt8) : Bool := b == ascii '.' || b == ascii 'e' || b == ascii 'E'

section printer

-- `std::to_chars` of a `double`
variable (toCharsDouble : Nat → Bytes)

def encodeReal (bits : Nat) : Bytes :=
  if (toCharsDouble bits).any isRealMark then toCharsDouble bits
  else toCharsDouble bits ++ asciiBytes ".0"

def encodeScalar (value : ConstructionValue) : Bytes :=
  match value.kind with
  | .real => encodeReal toCharsDouble value.bits
  | .signedInteger => toCharsSigned value.bits
  | _ => toCharsUnsigned value.bits

mutual

def encodeAggregateInitializer : AggregateInitializer → Bytes
  | .scalar value => encodeScalar toCharsDouble value
  | .list children => ascii '{' :: (encodeChildren children ++ [ascii '}'])

def encodeChildren : List AggregateInitializer → Bytes
  | [] => []
  | [child] => encodeAggregateInitializer child
  | child :: next :: rest =>
    encodeAggregateInitializer child ++ ascii ',' :: encodeChildren (next :: rest)

end

end printer

/-! ## The canonical initializer -/

/-- A leaf that is no real and no negative number becomes the unsigned integer of the same bits. -/
def canonicalValue (value : ConstructionValue) : ConstructionValue :=
  if value.kind = .real || (value.kind = .signedInteger && 2 ^ 63 ≤ value.bits) then value
  else .constant .unsignedInteger value.bits

namespace AggregateInitializer

mutual

def canonical : AggregateInitializer → AggregateInitializer
  | .scalar value => .scalar (canonicalValue value)
  | .list children => .list (canonicalChildren children)

def canonicalChildren : List AggregateInitializer → List AggregateInitializer
  | [] => []
  | child :: rest => child.canonical :: canonicalChildren rest

end

inductive Shape
  | leaf
  | node (children : List Shape)

mutual

def shape : AggregateInitializer → Shape
  | .scalar _ => .leaf
  | .list children => .node (shapes children)

def shapes : List AggregateInitializer → List Shape
  | [] => []
  | child :: rest => child.shape :: shapes rest

end

mutual

def leaves : AggregateInitializer → List ConstructionValue
  | .scalar value => [value]
  | .list children => leavesOf children

def leavesOf : List AggregateInitializer → List ConstructionValue
  | [] => []
  | child :: rest => child.leaves ++ leavesOf rest

end

mutual

def depth : AggregateInitializer → Nat
  | .scalar _ => 1
  | .list children => depthOf children + 1

def depthOf : List AggregateInitializer → Nat
  | [] => 0
  | child :: rest => max child.depth (depthOf rest)

end

mutual

def nodes : AggregateInitializer → Nat
  | .scalar _ => 1
  | .list children => nodesOf children + 1

def nodesOf : List AggregateInitializer → Nat
  | [] => 0
  | child :: rest => child.nodes + nodesOf rest

end

mutual

theorem shape_canonical : (v : AggregateInitializer) → v.canonical.shape = v.shape
  | .scalar _ => rfl
  | .list children => by rw [canonical, shape, shape, shapes_canonical children]

theorem shapes_canonical : (children : List AggregateInitializer) →
    shapes (canonicalChildren children) = shapes children
  | [] => rfl
  | child :: rest => by
    rw [canonicalChildren, shapes, shapes, shape_canonical child, shapes_canonical rest]

end

end AggregateInitializer

theorem constant_bits (kind : ConstructionKind) (bits : Nat) :
    (ConstructionValue.constant kind bits).bits = bits % 2 ^ 64 := by
  simp only [ConstructionValue.constant, ConstructionValue.bits]
  omega

variable {value : ConstructionValue}

structure IsLeaf (value : ConstructionValue) : Prop where
  operand : value.operand = 0
  bounded : value.low < 2 ^ 32 ∧ value.high < 2 ^ 32
  kinds : (value.kind = .zero ∧ value.bits = 0) ∨ value.kind = .unsignedInteger ∨
    (value.kind = .signedInteger ∧ (value.bits = 0 ∨ 2 ^ 63 ≤ value.bits)) ∨
    (value.kind = .real ∧ binary64.isFinite value.bits = true)

theorem IsLeaf.bits_lt (h : IsLeaf value) : value.bits < 2 ^ 64 := by
  have hb := h.bounded
  rw [ConstructionValue.bits]
  omega

theorem constant_bounded (kind : ConstructionKind) (bits : Nat) :
    (ConstructionValue.constant kind bits).low < 2 ^ 32 ∧
      (ConstructionValue.constant kind bits).high < 2 ^ 32 := by
  simp only [ConstructionValue.constant]
  omega

theorem IsLeaf.eq_constant (h : IsLeaf value) :
    ConstructionValue.constant value.kind value.bits = value := by
  obtain ⟨low, high, operand, kind⟩ := value
  obtain ⟨hoperand, ⟨hlow, hhigh⟩, -⟩ := h
  simp only [ConstructionValue.constant, ConstructionValue.bits] at hoperand hlow hhigh ⊢
  simp only [ConstructionValue.mk.injEq, hoperand, and_true]
  omega

theorem isFinite_mod (bits : Nat) : binary64.isFinite (bits % 2 ^ 64) = binary64.isFinite bits := by
  simp only [BinaryFormat.isFinite, BinaryFormat.exponentField, binary64]
  have heq : bits % 2 ^ 64 / 2 ^ 52 % 2 ^ 11 = bits / 2 ^ 52 % 2 ^ 11 := by omega
  rw [heq]

variable {token : Bytes} {bits : Nat}

theorem fromCharsNegative_bits (h : fromCharsNegative token = some bits) :
    bits < 2 ^ 64 ∧ (bits = 0 ∨ 2 ^ 63 ≤ bits) := by
  unfold fromCharsNegative at h
  dsimp only at h
  split at h
  · cases h
  · split at h
    · cases h
      omega
    · cases h

theorem scalarValue_isLeaf (h : scalarValue token = some value) : IsLeaf value := by
  unfold scalarValue at h
  split at h
  · cases h
    exact ⟨rfl, by decide, .inl ⟨rfl, rfl⟩⟩
  · split at h
    · cases h
      exact ⟨rfl, constant_bounded _ _, .inr (.inl rfl)⟩
    · dsimp only at h
      generalize (if token.head? = some (ascii '+') then token.tail else token) = token' at h
      split at h
      · cases h
      · split at h
        · split at h
          · split at h
            · rename_i bits _ hfinite
              cases h
              refine ⟨rfl, constant_bounded _ _, .inr (.inr (.inr ⟨rfl, ?_⟩))⟩
              rw [constant_bits, isFinite_mod]
              exact hfinite
            · cases h
          · cases h
        · split at h
          · obtain ⟨bits, hbits, rfl⟩ := Option.map_eq_some_iff.mp h
            obtain ⟨hlt, hrange⟩ := fromCharsNegative_bits hbits
            refine ⟨rfl, constant_bounded _ _, .inr (.inr (.inl ⟨rfl, ?_⟩))⟩
            rwa [constant_bits, Nat.mod_eq_of_lt hlt]
          · obtain ⟨bits, -, rfl⟩ := Option.map_eq_some_iff.mp h
            exact ⟨rfl, constant_bounded _ _, .inr (.inl rfl)⟩

theorem decimalValue_append (digits : Bytes) (d : UInt8) :
    decimalValue (digits ++ [d]) = decimalValue digits * 10 + (d.toNat - 48) := by
  rw [decimalValue, List.foldl_append]
  rfl

variable {n : Nat}

theorem digitByte (h : n < 10) :
    ((n + 48).toUInt8).toNat = n + 48 ∧ isDigit (n + 48).toUInt8 = true := by
  have hnat : ((n + 48).toUInt8).toNat = n + 48 := by
    rw [Nat.toUInt8, UInt8.toNat_ofNat']
    omega
  refine ⟨hnat, ?_⟩
  rw [isDigit, Bool.and_eq_true, decide_eq_true_eq, decide_eq_true_eq, UInt8.le_iff_toNat_le,
    UInt8.le_iff_toNat_le, hnat]
  have hzero : (ascii '0').toNat = 48 := rfl
  have hnine : (ascii '9').toNat = 57 := rfl
  omega

theorem decimalDigits_spec {fuel : Nat} (hfuel : 0 < fuel) (hn : n < 10 ^ fuel) :
    decimalValue (decimalDigits fuel n) = n ∧ (decimalDigits fuel n).all isDigit = true ∧
      decimalDigits fuel n ≠ [] := by
  induction fuel generalizing n with
  | zero => omega
  | succ fuel ih =>
    rw [decimalDigits]
    split
    · rename_i hsmall
      obtain ⟨hnat, hdigit⟩ := digitByte hsmall
      refine ⟨?_, by rw [List.all_cons, hdigit]; rfl, by simp⟩
      rw [decimalValue, List.foldl_cons, hnat, List.foldl_nil]
      omega
    · rename_i hlarge
      have hpos : 0 < fuel := by
        by_contra hzero
        obtain rfl : fuel = 0 := by omega
        omega
      obtain ⟨hvalue, hall, -⟩ := ih hpos (n := n / 10) (by rw [Nat.pow_succ] at hn; omega)
      obtain ⟨hnat, hdigit⟩ := digitByte (Nat.mod_lt n (by decide))
      refine ⟨?_, by rw [List.all_append, hall, List.all_cons, hdigit]; rfl, by simp⟩
      rw [decimalValue_append, hvalue, hnat]
      omega

theorem toCharsUnsigned_spec (h : n < 2 ^ 64) :
    decimalValue (toCharsUnsigned n) = n ∧ (toCharsUnsigned n).all isDigit = true ∧
      toCharsUnsigned n ≠ [] :=
  decimalDigits_spec (by decide) (by omega)

/-! ## Texts of leaves -/

def isNumberByte (b : UInt8) : Bool :=
  isDigit b || b == ascii '-' || b == ascii '+' || b == ascii '.' || b == ascii 'e'

/-- What is relied on of `std::to_chars` for one finite double: a decimal text that begins with a digit
or a minus sign and that `std::from_chars` reads as the same double. -/
structure ReadsBack (toCharsDouble : Nat → Bytes) (bits : Nat) : Prop where
  characters : (toCharsDouble bits).all isNumberByte = true
  leading : ∃ b rest, toCharsDouble bits = b :: rest ∧ (isDigit b || b == ascii '-') = true
  reads : fromCharsDouble (toCharsDouble bits) = some bits

def fractionValue (negative : Bool) (whole fraction : Bytes) (exponent : Int) : Option Nat :=
  let digits := decimalValue (whole ++ fraction)
  let scale := exponent - fraction.length
  let bits := binary64.nearest (digits * 10 ^ scale.toNat) (10 ^ (-scale).toNat)
  if (bits = 0 && digits ≠ 0) || bits = binary64.infinity then none
  else some (binary64.withSign negative bits)

/-- A text behind its sign, cut into digits, fraction and exponent. -/
def doubleText (negative : Bool) (body : Bytes) : Option Nat :=
  let whole := body.takeWhile isDigit
  let rest := body.dropWhile isDigit
  let point := rest.head? = some (ascii '.')
  let fraction := if point then rest.tail.takeWhile isDigit else []
  let tail := if point then rest.tail.dropWhile isDigit else rest
  if whole.isEmpty && fraction.isEmpty then none
  else (exponentValue tail).bind (fractionValue negative whole fraction)

theorem fromCharsDouble_eq (token : Bytes) :
    fromCharsDouble token = doubleText (token.head? = some (ascii '-'))
      (if token.head? = some (ascii '-') then token.tail else token) := by
  unfold fromCharsDouble doubleText
  dsimp only
  refine if_congr Iff.rfl rfl ?_
  generalize exponentValue _ = read
  cases read <;> rfl

variable {negative : Bool} {body : Bytes}

theorem doubleText_digits (hmarks : ∀ b ∈ body, isRealMark b = false)
    (h : doubleText negative body = some bits) : body ≠ [] ∧ ∀ b ∈ body, isDigit b = true := by
  have hrest : body.dropWhile isDigit = [] := by
    cases hdrop : body.dropWhile isDigit with
    | nil => rfl
    | cons mark rest =>
      have hmark : isRealMark mark = false := by
        apply hmarks
        have hmem : mark ∈ body.dropWhile isDigit := by rw [hdrop]; simp
        exact (List.dropWhile_sublist isDigit).subset hmem
      simp only [isRealMark, Bool.or_eq_false_iff, beq_eq_false_iff_ne] at hmark
      obtain ⟨⟨hpoint, he⟩, hE⟩ := hmark
      unfold doubleText at h
      rw [hdrop] at h
      simp [hpoint, exponentValue, he, hE] at h
  refine ⟨?_, List.dropWhile_eq_nil_iff.mp hrest⟩
  rintro rfl
  simp [doubleText] at h

theorem doubleText_whole (hne : body ≠ []) (hdigits : ∀ b ∈ body, isDigit b = true) :
    doubleText negative body = fractionValue negative body [] 0 := by
  unfold doubleText
  rw [List.takeWhile_eq_self_iff.mpr hdigits, List.dropWhile_eq_nil_iff.mpr hdigits]
  simp [hne, exponentValue]

theorem doubleText_point (hdigits : ∀ b ∈ body, isDigit b = true) :
    doubleText negative (body ++ asciiBytes ".0") =
      fractionValue negative body [ascii '0'] 0 := by
  have htext : asciiBytes ".0" = [ascii '.', ascii '0'] := rfl
  have htake : (body ++ asciiBytes ".0").takeWhile isDigit = body := by
    rw [htext, List.takeWhile_append_of_pos hdigits]
    simp [isDigit, ascii]
  have hdrop : (body ++ asciiBytes ".0").dropWhile isDigit = asciiBytes ".0" := by
    rw [htext, List.dropWhile_append_of_pos hdigits]
    simp [isDigit, ascii]
  unfold doubleText
  rw [htake, hdrop, htext]
  have hzero : isDigit (ascii '0') = true := by decide
  simp [hzero, exponentValue]

theorem fractionValue_zero (negative : Bool) (digits : Bytes) :
    fractionValue negative digits [ascii '0'] 0 = fractionValue negative digits [] 0 := by
  have happend : decimalValue (digits ++ [ascii '0']) = 10 * decimalValue digits := by
    rw [decimalValue_append]
    have hzero : (ascii '0').toNat - 48 = 0 := rfl
    omega
  have hscale : binary64.nearest (10 * decimalValue digits) (10 * 1) =
      binary64.nearest (decimalValue digits) 1 :=
    BinaryFormat.nearest_scale binary64 (decimalValue digits) (by decide) (by decide)
  unfold fractionValue
  rw [happend, List.append_nil]
  have hten : (10 : Nat) ^ (-(0 - ((([ascii '0'] : Bytes).length : Nat) : Int))).toNat = 10 * 1 := rfl
  have hone : (10 : Nat) ^ (-((0 : Int) - ((([] : Bytes).length : Nat) : Int))).toNat = 1 := rfl
  have hpower : (10 : Nat) ^ ((0 : Int) - ((([ascii '0'] : Bytes).length : Nat) : Int)).toNat = 1 := rfl
  have hpower' : (10 : Nat) ^ ((0 : Int) - ((([] : Bytes).length : Nat) : Int)).toNat = 1 := rfl
  simp only [hten, hone, hpower, hpower', Nat.mul_one] at hscale ⊢
  rw [hscale]
  have hne : 10 * decimalValue digits ≠ 0 ↔ decimalValue digits ≠ 0 := by omega
  simp only [hne]

theorem fromCharsDouble_point (hmarks : token.any isRealMark = false)
    (h : fromCharsDouble token = some bits) :
    fromCharsDouble (token ++ asciiBytes ".0") = some bits := by
  have hmark : ∀ b ∈ token, isRealMark b = false := by
    intro b hb
    have hall : ∀ b ∈ token, ¬ isRealMark b = true := by simpa using hmarks
    simpa using hall b hb
  have hne : token ≠ [] := by
    rintro rfl
    rw [fromCharsDouble_eq] at h
    simp [doubleText] at h
  have hhead : (token ++ asciiBytes ".0").head? = token.head? := by
    cases token with
    | nil => exact absurd rfl hne
    | cons b rest => rfl
  rw [fromCharsDouble_eq] at h ⊢
  rw [hhead]
  by_cases hsign : token.head? = some (ascii '-')
  · rw [if_pos hsign] at h ⊢
    have htail : (token ++ asciiBytes ".0").tail = token.tail ++ asciiBytes ".0" := by
      cases token with
      | nil => exact absurd rfl hne
      | cons b rest => rfl
    obtain ⟨hbody, hdigits⟩ :=
      doubleText_digits (fun b hb => hmark b (List.mem_of_mem_tail hb)) h
    rw [htail, doubleText_point hdigits, fractionValue_zero, ← doubleText_whole hbody hdigits,
      h]
  · rw [if_neg hsign] at h ⊢
    obtain ⟨hbody, hdigits⟩ := doubleText_digits hmark h
    rw [doubleText_point hdigits, fractionValue_zero, ← doubleText_whole hbody hdigits, h]

structure IsNumber (token : Bytes) : Prop where
  characters : token.all isNumberByte = true
  leading : ∃ b rest, token = b :: rest ∧ (isDigit b || b == ascii '-') = true

theorem IsNumber.scalarValue (h : IsNumber token) : scalarValue token =
      if token.any isRealMark then
        match fromCharsDouble token with
        | some bits => if binary64.isFinite bits then some (.constant .real bits) else none
        | none => none
      else if token.head? = some (ascii '-') then
        (fromCharsNegative token).map (.constant .signedInteger)
      else (fromCharsUnsigned token).map (.constant .unsignedInteger) := by
  obtain ⟨b, rest, rfl, hb⟩ := h.leading
  have hword : ∀ c : UInt8, (isDigit c || c == ascii '-') = false → b ≠ c := by
    rintro c hc rfl
    rw [hb] at hc
    cases hc
  have hfalse : b :: rest ≠ asciiBytes "false" := fun heq =>
    hword (ascii 'f') (by decide) (List.cons.inj heq).1
  have hnull : b :: rest ≠ asciiBytes "nullptr" := fun heq =>
    hword (ascii 'n') (by decide) (List.cons.inj heq).1
  have htrue : b :: rest ≠ asciiBytes "true" := fun heq =>
    hword (ascii 't') (by decide) (List.cons.inj heq).1
  have hplus : (b :: rest).head? ≠ some (ascii '+') := by
    intro heq
    exact hword (ascii '+') (by decide) (Option.some.inj heq)
  unfold ServerEngine.scalarValue
  rw [if_neg (by simp [hfalse, hnull]), if_neg htrue, if_neg hplus]
  rfl

theorem digits_isNumber {digits : Bytes} (hall : digits.all isDigit = true) (hne : digits ≠ []) :
    IsNumber digits ∧ digits.any isRealMark = false ∧ digits.head? ≠ some (ascii '-') := by
  rw [List.all_eq_true] at hall
  have hmark : ∀ b : UInt8, isDigit b = true → isRealMark b = false := by
    intro b hb
    have hword : ∀ c : UInt8, isDigit c = false → b ≠ c := by
      rintro c hc rfl
      rw [hb] at hc
      cases hc
    simp [isRealMark, hword (ascii '.') (by decide), hword (ascii 'e') (by decide),
      hword (ascii 'E') (by decide)]
  refine ⟨⟨?_, ?_⟩, ?_, ?_⟩
  · rw [List.all_eq_true]
    intro b hb
    simp [isNumberByte, hall b hb]
  · cases digits with
    | nil => exact absurd rfl hne
    | cons b rest => exact ⟨b, rest, rfl, by simp [hall b (by simp)]⟩
  · rw [List.any_eq_false]
    intro b hb
    simp [hmark b (hall b hb)]
  · intro hhead
    have hminus := hall _ (List.mem_of_mem_head? hhead)
    exact absurd hminus (by decide)

theorem unsigned_scalarValue (h : n < 2 ^ 64) : IsNumber (toCharsUnsigned n) ∧
      scalarValue (toCharsUnsigned n) = some (.constant .unsignedInteger n) := by
  obtain ⟨hvalue, hall, hne⟩ := toCharsUnsigned_spec h
  obtain ⟨hnumber, hmark, hminus⟩ := digits_isNumber hall hne
  refine ⟨hnumber, ?_⟩
  rw [hnumber.scalarValue, hmark, if_neg Bool.false_ne_true, if_neg hminus, fromCharsUnsigned]
  simp only [List.isEmpty_eq_false_iff.mpr hne, hall, hvalue, Bool.not_true, Bool.or_self,
    Bool.false_eq_true, if_false, if_pos h, Option.map_some]

theorem negative_scalarValue (hlow : 2 ^ 63 ≤ bits) (hhigh : bits < 2 ^ 64) :
    IsNumber (toCharsSigned bits) ∧
      scalarValue (toCharsSigned bits) = some (.constant .signedInteger bits) := by
  have htext : toCharsSigned bits = ascii '-' :: toCharsUnsigned (2 ^ 64 - bits) := by
    rw [toCharsSigned, if_neg (by omega)]
  obtain ⟨hvalue, hall, hne⟩ := toCharsUnsigned_spec (n := 2 ^ 64 - bits) (by omega)
  obtain ⟨hnumber, hmark, -⟩ := digits_isNumber hall hne
  have hsigned : IsNumber (toCharsSigned bits) := by
    rw [htext]
    refine ⟨?_, ascii '-', _, rfl, by decide⟩
    rw [List.all_cons, hnumber.characters]
    decide
  refine ⟨hsigned, ?_⟩
  rw [hsigned.scalarValue, htext, List.any_cons, hmark, if_neg (by decide), List.head?_cons,
    if_pos rfl, fromCharsNegative]
  have hback : (2 ^ 64 - (2 ^ 64 - bits)) % 2 ^ 64 = bits := by omega
  have hle : 2 ^ 64 - bits ≤ 2 ^ 63 := by omega
  simp only [List.tail_cons, hvalue, hall, List.isEmpty_eq_false_iff.mpr hne, Bool.not_true,
    Bool.or_self, Bool.false_eq_true, if_false, if_pos hle, hback, Option.map_some]

theorem real_scalarValue {toCharsDouble : Nat → Bytes} (hround : ReadsBack toCharsDouble bits)
    (hfinite : binary64.isFinite bits = true) : IsNumber (encodeReal toCharsDouble bits) ∧
      scalarValue (encodeReal toCharsDouble bits) = some (.constant .real bits) := by
  have hread : fromCharsDouble (encodeReal toCharsDouble bits) = some bits := by
    unfold encodeReal
    split
    · exact hround.reads
    · rename_i hmark
      exact fromCharsDouble_point (by simpa using hmark) hround.reads
  have hmark : (encodeReal toCharsDouble bits).any isRealMark = true := by
    unfold encodeReal
    split
    · rename_i hmark
      exact hmark
    · rw [List.any_append]
      have hpoint : (asciiBytes ".0").any isRealMark = true := by decide
      rw [hpoint, Bool.or_true]
  have hnumber : IsNumber (encodeReal toCharsDouble bits) := by
    unfold encodeReal
    split
    · exact ⟨hround.characters, hround.leading⟩
    · refine ⟨?_, ?_⟩
      · rw [List.all_append, hround.characters]
        decide
      · obtain ⟨b, rest, heq, hb⟩ := hround.leading
        exact ⟨b, rest ++ asciiBytes ".0", by rw [heq]; rfl, hb⟩
  refine ⟨hnumber, ?_⟩
  rw [hnumber.scalarValue, if_pos hmark, hread]
  simp [hfinite]

theorem encodeScalar_value {toCharsDouble : Nat → Bytes} (hleaf : IsLeaf value)
    (hround : value.kind = .real → ReadsBack toCharsDouble value.bits) :
    IsNumber (encodeScalar toCharsDouble value) ∧
      scalarValue (encodeScalar toCharsDouble value) = some (canonicalValue value) := by
  have hlt := hleaf.bits_lt
  have hconstant := hleaf.eq_constant
  rcases hleaf.kinds with ⟨hkind, -⟩ | hkind | ⟨hkind, hbits⟩ | ⟨hkind, hfinite⟩
  · simp only [encodeScalar, canonicalValue, hkind]
    exact unsigned_scalarValue hlt
  · simp only [encodeScalar, canonicalValue, hkind]
    exact unsigned_scalarValue hlt
  · rw [hkind] at hconstant
    simp only [encodeScalar, canonicalValue, hkind]
    rcases hbits with hzero | hnegative
    · have hunsigned := unsigned_scalarValue (n := 0) (by decide)
      rw [hzero]
      exact hunsigned
    · have hsigned := negative_scalarValue hnegative hlt
      rw [hconstant] at hsigned
      rw [if_pos (by simpa using hnegative)]
      exact hsigned
  · rw [hkind] at hconstant
    have hreal := real_scalarValue (hround hkind) hfinite
    rw [hconstant] at hreal
    simp only [encodeScalar, canonicalValue, hkind]
    exact hreal

/-! ## Parsing what was printed -/

def EndsLeaf (tail : Bytes) : Prop := ∀ b, tail.head? = some b → isDelimiter b = true

variable {b : UInt8}

theorem number_not_delimiter (h : isNumberByte b = true) :
    isDelimiter b = false ∧ isSpace b = false ∧ b ≠ ascii '{' ∧ b ≠ ascii '(' := by
  have hword : ∀ c : UInt8, isNumberByte c = false → b ≠ c := by
    rintro c hc rfl
    rw [h] at hc
    cases hc
  have hdelimiter : isDelimiter b = false := by
    simp [isDelimiter, hword (ascii ',') (by decide), hword (ascii '}') (by decide),
      hword (ascii ')') (by decide)]
  have hspace : isSpace b = false := by
    simp [isSpace, hword (ascii ' ') (by decide), hword (ascii '\t') (by decide),
      hword (ascii '\n') (by decide), hword (ascii '\r') (by decide)]
  exact ⟨hdelimiter, hspace, hword _ (by decide), hword _ (by decide)⟩

theorem parseScalar_number {tail : Bytes} (hnumber : IsNumber token) (htail : EndsLeaf tail)
    (hvalue : scalarValue token = some value) (nodes : Nat) :
    parseScalar ⟨token ++ tail, nodes⟩ = some (.scalar value, ⟨tail, nodes⟩) := by
  have hchars : ∀ b ∈ token, (!isDelimiter b) = true := by
    intro b hb
    have := (number_not_delimiter (List.all_eq_true.mp hnumber.characters b hb)).1
    rw [this]
    rfl
  have htake : tail.takeWhile (!isDelimiter ·) = [] ∧ tail.dropWhile (!isDelimiter ·) = tail := by
    cases tail with
    | nil => exact ⟨rfl, rfl⟩
    | cons b rest => simp [htail b rfl]
  have htrim : token.rdropWhile isSpace = token := by
    rw [List.rdropWhile_eq_self_iff]
    intro hne
    have hlast := List.all_eq_true.mp hnumber.characters _ (List.getLast_mem hne)
    rw [(number_not_delimiter hlast).2.1]
    decide
  unfold parseScalar
  rw [List.takeWhile_append_of_pos hchars, List.dropWhile_append_of_pos hchars, htake.1, htake.2,
    List.append_nil, htrim]
  dsimp only
  rw [hvalue]
  rfl

theorem encode_head {toCharsDouble : Nat → Bytes} (v : AggregateInitializer)
    (hleaves : ∀ value ∈ v.leaves, IsLeaf value)
    (hround : ∀ value ∈ v.leaves, value.kind = .real → ReadsBack toCharsDouble value.bits) :
    ∃ b rest, encodeAggregateInitializer toCharsDouble v = b :: rest ∧ isSpace b = false ∧
      b ≠ ascii '}' := by
  cases v with
  | list children => exact ⟨_, _, rfl, by decide, by decide⟩
  | scalar value =>
    have hmem : value ∈ (AggregateInitializer.scalar value).leaves := by
      exact List.mem_singleton.mpr rfl
    obtain ⟨b, rest, heq, -⟩ := (encodeScalar_value (hleaves value hmem) (hround value hmem)).1.leading
    have hnumber := (encodeScalar_value (hleaves value hmem) (hround value hmem)).1.characters
    rw [heq, List.all_cons, Bool.and_eq_true] at hnumber
    obtain ⟨hdelimiter, hspace, -, -⟩ := number_not_delimiter hnumber.1
    refine ⟨b, rest, heq, hspace, ?_⟩
    rintro rfl
    exact absurd hdelimiter (by decide)

open AggregateInitializer in
theorem children_head {toCharsDouble : Nat → Bytes} (child : AggregateInitializer)
    (rest : List AggregateInitializer) (hleaves : ∀ value ∈ leavesOf (child :: rest), IsLeaf value)
    (hround : ∀ value ∈ leavesOf (child :: rest), value.kind = .real →
      ReadsBack toCharsDouble value.bits) :
    ∃ b text, encodeChildren toCharsDouble (child :: rest) = b :: text ∧ isSpace b = false ∧
      b ≠ ascii '}' := by
  obtain ⟨b, text, heq, hspace, hend⟩ := encode_head child
    (fun value hvalue => hleaves value (List.mem_append_left _ hvalue))
    (fun value hvalue => hround value (List.mem_append_left _ hvalue))
  cases rest with
  | nil => exact ⟨b, text, heq, hspace, hend⟩
  | cons next rest =>
    refine ⟨b, text ++ ascii ',' :: encodeChildren toCharsDouble (next :: rest), ?_, hspace, hend⟩
    rw [encodeChildren, heq]
    rfl

theorem skip_cons {rest : Bytes} {nodes : Nat} (h : isSpace b = false) :
    (⟨b :: rest, nodes⟩ : ParseState).skip = ⟨b :: rest, nodes⟩ := by
  simp [ParseState.skip, h]

open AggregateInitializer in
theorem children_length (toCharsDouble : Nat → Bytes) (children : List AggregateInitializer) :
    children.length ≤ (encodeChildren toCharsDouble children).length + 1 := by
  induction children with
  | nil => simp
  | cons child rest ih =>
    cases rest with
    | nil => simp
    | cons next rest =>
      simp only [encodeChildren, List.length_append, List.length_cons] at ih ⊢
      omega

section parsing

open AggregateInitializer

variable {toCharsDouble : Nat → Bytes}

mutual

/-- Recursion over the initializer: the levels bound its depth and the limit its nodes. -/
theorem parseInitializer_encode : (v : AggregateInitializer) → (levels nodes : Nat) →
    (tail : Bytes) → v.depth ≤ levels → nodes + v.nodes ≤ 65536 →
    (∀ value ∈ v.leaves, IsLeaf value) →
    (∀ value ∈ v.leaves, value.kind = .real → ReadsBack toCharsDouble value.bits) →
    EndsLeaf tail →
    parseInitializer levels ⟨encodeAggregateInitializer toCharsDouble v ++ tail, nodes⟩ =
      some (v.canonical, ⟨tail, nodes + v.nodes⟩)
  | .scalar value, levels, nodes, tail, hdepth, hnodes, hleaves, hround, htail => by
    have hmem : value ∈ (AggregateInitializer.scalar value).leaves := by
      exact List.mem_singleton.mpr rfl
    obtain ⟨hnumber, hvalue⟩ := encodeScalar_value (hleaves value hmem) (hround value hmem)
    obtain ⟨b, rest, heq, -⟩ := hnumber.leading
    have hb := hnumber.characters
    rw [heq, List.all_cons, Bool.and_eq_true] at hb
    obtain ⟨-, hspace, hbrace, hparenthesis⟩ := number_not_delimiter hb.1
    have hscalar := parseScalar_number hnumber htail hvalue (nodes + 1)
    rw [AggregateInitializer.nodes] at hnodes ⊢
    rw [depth] at hdepth
    obtain ⟨levels, rfl⟩ : ∃ l, levels = l + 1 := ⟨levels - 1, by omega⟩
    rw [encodeAggregateInitializer, parseInitializer, if_neg (by dsimp only; omega)]
    rw [heq, List.cons_append] at hscalar ⊢
    simp only [skip_cons hspace, if_neg hbrace, if_neg hparenthesis]
    rw [hscalar, canonical]
  | .list children, levels, nodes, tail, hdepth, hnodes, hleaves, hround, htail => by
    rw [AggregateInitializer.nodes] at hnodes ⊢
    rw [depth] at hdepth
    obtain ⟨levels, rfl⟩ : ∃ l, levels = l + 1 := ⟨levels - 1, by omega⟩
    have hbrace : isSpace (ascii '{') = false := by decide
    have hclose : isSpace (ascii '}') = false := by decide
    rw [encodeAggregateInitializer, parseInitializer, if_neg (by dsimp only; omega)]
    simp only [List.cons_append, List.append_assoc, List.nil_append, skip_cons hbrace, if_pos]
    cases children with
    | nil =>
      simp only [encodeChildren, List.nil_append, skip_cons hclose, List.head?_cons, if_pos,
        List.tail_cons, canonical, canonicalChildren, nodesOf]
    | cons child rest =>
      obtain ⟨b, text, htext, hspace, hend⟩ := children_head child rest hleaves hround
      have hlength := children_length toCharsDouble (child :: rest)
      have helements := parseElements_encode (child :: rest) levels
        (encodeChildren toCharsDouble (child :: rest) ++ ascii '}' :: tail).length.succ (nodes + 1)
        tail (List.cons_ne_nil _ _) (by omega) (by omega) hleaves hround (by
          rw [List.length_append, List.length_cons]
          rw [List.length_cons] at hlength ⊢
          omega)
      rw [htext, List.cons_append] at helements ⊢
      simp only [skip_cons hspace, List.head?_cons, Option.some.injEq, if_neg hend]
      rw [helements, canonical]
      simp only [Option.map_some, Option.some.injEq, Prod.mk.injEq, ParseState.mk.injEq, true_and]
      omega

theorem parseElements_encode : (children : List AggregateInitializer) →
    (levels fuel nodes : Nat) → (tail : Bytes) → children ≠ [] → depthOf children ≤ levels →
    nodes + nodesOf children ≤ 65536 → (∀ value ∈ leavesOf children, IsLeaf value) →
    (∀ value ∈ leavesOf children, value.kind = .real → ReadsBack toCharsDouble value.bits) →
    children.length ≤ fuel →
    parseElements (parseInitializer levels) fuel
        ⟨encodeChildren toCharsDouble children ++ ascii '}' :: tail, nodes⟩ =
      some (canonicalChildren children, ⟨tail, nodes + nodesOf children⟩)
  | [], _, _, _, _, hne, _, _, _, _, _ => absurd rfl hne
  | [child], levels, fuel, nodes, tail, _, hdepth, hnodes, hleaves, hround, hfuel => by
    obtain ⟨fuel, rfl⟩ : ∃ f, fuel = f + 1 := ⟨fuel - 1, by rw [List.length_singleton] at hfuel; omega⟩
    simp only [depthOf, nodesOf, leavesOf, List.append_nil, Nat.max_zero, Nat.add_zero]
      at hdepth hnodes hleaves hround ⊢
    have hends : EndsLeaf (ascii '}' :: tail) := by
      intro b hb
      cases hb
      decide
    have hchild := parseInitializer_encode child levels nodes (ascii '}' :: tail) hdepth hnodes
      hleaves hround hends
    have hclose : isSpace (ascii '}') = false := by decide
    rw [encodeChildren, parseElements, hchild]
    simp only [skip_cons hclose, if_pos, canonicalChildren]
  | child :: next :: rest, levels, fuel, nodes, tail, _, hdepth, hnodes, hleaves, hround, hfuel => by
    obtain ⟨fuel, rfl⟩ : ∃ f, fuel = f + 1 := ⟨fuel - 1, by rw [List.length_cons] at hfuel; omega⟩
    rw [depthOf, max_le_iff] at hdepth
    rw [nodesOf] at hnodes ⊢
    have hends : EndsLeaf (ascii ',' :: (encodeChildren toCharsDouble (next :: rest) ++
        ascii '}' :: tail)) := by
      intro b hb
      cases hb
      decide
    have hchild := parseInitializer_encode child levels nodes _ hdepth.1 (by omega)
      (fun value hvalue => hleaves value (List.mem_append_left _ hvalue))
      (fun value hvalue => hround value (List.mem_append_left _ hvalue)) hends
    have hleavesRest : ∀ value ∈ leavesOf (next :: rest), IsLeaf value :=
      fun value hvalue => hleaves value (List.mem_append_right _ hvalue)
    have hroundRest : ∀ value ∈ leavesOf (next :: rest), value.kind = .real →
        ReadsBack toCharsDouble value.bits :=
      fun value hvalue => hround value (List.mem_append_right _ hvalue)
    have helements := parseElements_encode (next :: rest) levels fuel (nodes + child.nodes) tail
      (List.cons_ne_nil _ _) hdepth.2 (by omega) hleavesRest hroundRest
      (by rw [List.length_cons] at hfuel; omega)
    obtain ⟨b, text, htext, hspace, hend⟩ := children_head next rest hleavesRest hroundRest
    have hcomma : isSpace (ascii ',') = false := by decide
    have hother : ascii ',' ≠ ascii '}' := by decide
    rw [encodeChildren, parseElements]
    simp only [List.append_assoc, List.cons_append] at hchild ⊢
    rw [hchild]
    rw [htext, List.cons_append] at helements ⊢
    simp only [skip_cons hcomma, if_neg hother, ne_eq, not_true_eq_false, if_false, skip_cons hspace,
      List.head?_cons, Option.some.injEq, if_neg hend, helements, Option.map_some]
    simp only [canonicalChildren, Nat.add_assoc]

end

/-! ## What the parser accepts -/

structure ParsedWithin (levels : Nat) (s : ParseState) (depth nodes : Nat)
    (leaves : List ConstructionValue) (s' : ParseState) : Prop where
  depth : depth ≤ levels
  nodes : s.nodes + nodes ≤ s'.nodes
  limit : s'.nodes ≤ 65536
  leaves : ∀ value ∈ leaves, IsLeaf value

variable {levels : Nat} {s s' : ParseState}

theorem parseElements_within {parse : ParseState → Option (AggregateInitializer × ParseState)}
    (hparse : ∀ s v s', parse s = some (v, s') → ParsedWithin levels s v.depth v.nodes v.leaves s')
    {fuel : Nat} {children : List AggregateInitializer}
    (h : parseElements parse fuel s = some (children, s')) :
    ParsedWithin levels s (depthOf children) (nodesOf children) (leavesOf children) s' := by
  induction fuel generalizing s children with
  | zero => cases h
  | succ fuel ih =>
    rw [parseElements] at h
    split at h
    · cases h
    · rename_i child mid hchild
      have hfirst := hparse s child mid hchild
      have hsingle : ParsedWithin levels s (depthOf [child]) (nodesOf [child]) (leavesOf [child])
          mid := by
        simp only [depthOf, nodesOf, leavesOf, List.append_nil, Nat.max_zero, Nat.add_zero]
        exact hfirst
      split at h
      · cases h
      · rename_i next rest hrest
        split at h
        · cases h
          exact ⟨hsingle.depth, hsingle.nodes, hsingle.limit, hsingle.leaves⟩
        · split at h
          · cases h
          · dsimp only at h
            split at h
            · cases h
              exact ⟨hsingle.depth, hsingle.nodes, hsingle.limit, hsingle.leaves⟩
            · obtain ⟨⟨others, last⟩, hothers, heq⟩ := Option.map_eq_some_iff.mp h
              cases heq
              have hlater := ih hothers
              have hnodes := hlater.nodes
              simp only [ParseState.skip] at hnodes
              refine ⟨?_, ?_, hlater.limit, ?_⟩
              · rw [depthOf]
                exact max_le hfirst.depth hlater.depth
              · have := hfirst.nodes
                rw [nodesOf]
                dsimp only
                omega
              · rw [leavesOf]
                intro value hvalue
                cases List.mem_append.mp hvalue with
                | inl hvalue => exact hfirst.leaves value hvalue
                | inr hvalue => exact hlater.leaves value hvalue

variable {v : AggregateInitializer}

theorem parseInitializer_within (h : parseInitializer levels s = some (v, s')) :
    ParsedWithin levels s v.depth v.nodes v.leaves s' := by
  induction levels generalizing s v s' with
  | zero => cases h
  | succ levels ih =>
    rw [parseInitializer] at h
    split at h
    · cases h
    · rename_i hlimit
      dsimp only at h
      split at h
      · cases h
      · rename_i next rest hrest
        split at h
        · split at h
          · cases h
            simp only [depth, AggregateInitializer.nodes, leaves, depthOf, nodesOf, leavesOf]
            refine ⟨by omega, ?_, ?_, by simp⟩
            · simp only [ParseState.skip]
              omega
            · simp only [ParseState.skip]
              omega
          · obtain ⟨⟨children, last⟩, hchildren, heq⟩ := Option.map_eq_some_iff.mp h
            cases heq
            have helements := parseElements_within (fun s v s' hv => ih hv) hchildren
            have hnodes := helements.nodes
            simp only [ParseState.skip] at hnodes
            simp only [depth, AggregateInitializer.nodes, leaves]
            refine ⟨?_, ?_, helements.limit, helements.leaves⟩
            · have := helements.depth
              omega
            · omega
        · split at h
          · split at h
            · cases h
            · rename_i value mid hvalue
              split at h
              · cases h
                have hinner := ih hvalue
                have hnodes := hinner.nodes
                simp only [ParseState.skip] at hnodes
                refine ⟨?_, ?_, hinner.limit, hinner.leaves⟩
                · have := hinner.depth
                  omega
                · dsimp only
                  omega
              · cases h
          · unfold parseScalar at h
            obtain ⟨value, hvalue, heq⟩ := Option.map_eq_some_iff.mp h
            cases heq
            simp only [depth, AggregateInitializer.nodes, leaves]
            refine ⟨by omega, ?_, ?_, ?_⟩
            · simp only [ParseState.skip]
              omega
            · simp only [ParseState.skip]
              omega
            · intro leaf hleaf
              rw [List.mem_singleton] at hleaf
              rw [hleaf]
              exact scalarValue_isLeaf hvalue

variable {text : Bytes}

theorem parseAggregateInitializer_within (h : parseAggregateInitializer text = some v) :
    v.depth ≤ 65 ∧ v.nodes ≤ 65536 ∧ ∀ value ∈ v.leaves, IsLeaf value := by
  unfold parseAggregateInitializer at h
  split at h
  · rename_i value s hvalue
    split at h
    · cases h
      have hwithin := parseInitializer_within hvalue
      have hnodes := hwithin.nodes
      have hlimit := hwithin.limit
      exact ⟨hwithin.depth, by omega, hwithin.leaves⟩
    · cases h
  · cases h

theorem encodeScalar_canonical {value : ConstructionValue} (h : IsLeaf value) :
    encodeScalar toCharsDouble (canonicalValue value) = encodeScalar toCharsDouble value := by
  unfold canonicalValue
  split
  · rfl
  · rename_i hkind
    have hbits : (ConstructionValue.constant .unsignedInteger value.bits).bits = value.bits := by
      rw [constant_bits, Nat.mod_eq_of_lt h.bits_lt]
    have hunsigned : (ConstructionValue.constant .unsignedInteger value.bits).kind =
        .unsignedInteger := rfl
    rcases h.kinds with ⟨hvalue, -⟩ | hvalue | ⟨hvalue, hrange⟩ | ⟨hvalue, -⟩
    · simp only [encodeScalar, hunsigned, hbits, hvalue]
    · simp only [encodeScalar, hunsigned, hbits, hvalue]
    · simp only [hvalue, decide_true, Bool.true_and, Bool.or_eq_true, decide_eq_true_eq] at hkind
      have hsmall : value.bits < 2 ^ 63 := by
        by_contra hlarge
        exact hkind (.inr (by omega))
      simp only [encodeScalar, hunsigned, hbits, hvalue, toCharsSigned, if_pos hsmall]
    · simp [hvalue] at hkind

mutual

theorem encode_canonical : (v : AggregateInitializer) → (∀ value ∈ v.leaves, IsLeaf value) →
    encodeAggregateInitializer toCharsDouble v.canonical = encodeAggregateInitializer toCharsDouble v
  | .scalar value, h => by
    apply encodeScalar_canonical
    apply h
    exact List.mem_singleton.mpr rfl
  | .list children, h => by
    rw [canonical, encodeAggregateInitializer, encodeAggregateInitializer,
      encodeChildren_canonical children h]

theorem encodeChildren_canonical : (children : List AggregateInitializer) →
    (∀ value ∈ leavesOf children, IsLeaf value) →
    encodeChildren toCharsDouble (canonicalChildren children) = encodeChildren toCharsDouble children
  | [], _ => rfl
  | [child], h => by
    exact encode_canonical child fun value hvalue => h value (List.mem_append_left _ hvalue)
  | child :: next :: rest, h => by
    rw [leavesOf] at h
    have hrest := encodeChildren_canonical (next :: rest)
      fun value hvalue => h value (List.mem_append_right _ hvalue)
    rw [canonicalChildren] at hrest
    rw [canonicalChildren, canonicalChildren, encodeChildren, hrest,
      encode_canonical child fun value hvalue => h value (List.mem_append_left _ hvalue),
      encodeChildren]

end

theorem parse_encode (h : parseAggregateInitializer text = some v)
    (hround : ∀ value ∈ v.leaves, value.kind = .real → ReadsBack toCharsDouble value.bits) :
    parseAggregateInitializer (encodeAggregateInitializer toCharsDouble v) = some v.canonical := by
  obtain ⟨hdepth, hnodes, hleaves⟩ := parseAggregateInitializer_within h
  have hends : EndsLeaf [] := fun b hb => by cases hb
  have hparse := parseInitializer_encode v 65 0 [] hdepth (by omega) hleaves hround hends
  rw [List.append_nil] at hparse
  rw [parseAggregateInitializer, hparse]
  rfl

end parsing

end ServerEngine
