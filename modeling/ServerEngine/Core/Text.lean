import ServerEngine.Core.Floating

/-! # Text

ASCII characters as bytes, and `std::from_chars` on a whole token: unsigned and negative integers as
their bits, and decimal fractions as the double they round to.
-/
namespace ServerEngine

/-! ## Characters -/

def ascii (c : Char) : UInt8 := c.toNat.toUInt8

def asciiBytes (s : String) : Bytes := s.toList.map ascii

def isSpace (b : UInt8) : Bool :=
  b == ascii ' ' || b == ascii '\t' || b == ascii '\n' || b == ascii '\r'

def isDigit (b : UInt8) : Bool := ascii '0' ≤ b && b ≤ ascii '9'

def decimalValue (digits : Bytes) : Nat :=
  digits.foldl (fun value digit => value * 10 + (digit.toNat - 48)) 0

/-- `std::from_chars` of a whole token into `std::uint64_t`. -/
def fromCharsUnsigned (token : Bytes) : Option Nat :=
  if token.isEmpty || !token.all isDigit then none
  else if decimalValue token < 2 ^ 64 then some (decimalValue token) else none

/-- `std::from_chars` of a whole token into `std::int64_t`, for a token with a minus sign; the result
is the bits of the number. -/
def fromCharsNegative (token : Bytes) : Option Nat :=
  let digits := token.tail
  if digits.isEmpty || !digits.all isDigit then none
  else if decimalValue digits ≤ 2 ^ 63 then some ((2 ^ 64 - decimalValue digits) % 2 ^ 64)
  else none

/-- The decimal exponent that ends a real token, with its sign. -/
def exponentValue : Bytes → Option Int
  | [] => some 0
  | mark :: rest =>
    let digits := if rest.head? = some (ascii '-') || rest.head? = some (ascii '+')
      then rest.tail else rest
    if !(mark == ascii 'e' || mark == ascii 'E') || digits.isEmpty || !digits.all isDigit then none
    else if rest.head? = some (ascii '-') then some (-decimalValue digits)
    else some (decimalValue digits)

/-- `std::from_chars` of a whole token into `double`: a decimal fraction, rounded once. A magnitude
that rounds to zero or to the infinity is out of range. -/
def fromCharsDouble (token : Bytes) : Option Nat :=
  let negative := token.head? = some (ascii '-')
  let body := if negative then token.tail else token
  let whole := body.takeWhile isDigit
  let rest := body.dropWhile isDigit
  let point := rest.head? = some (ascii '.')
  let fraction := if point then rest.tail.takeWhile isDigit else []
  let tail := if point then rest.tail.dropWhile isDigit else rest
  if whole.isEmpty && fraction.isEmpty then none
  else match exponentValue tail with
    | none => none
    | some exponent =>
      let digits := decimalValue (whole ++ fraction)
      let scale := exponent - fraction.length
      let bits := binary64.nearest (digits * 10 ^ scale.toNat) (10 ^ (-scale).toNat)
      if (bits = 0 && digits ≠ 0) || bits = binary64.infinity then none
      else some (binary64.withSign negative bits)

end ServerEngine
