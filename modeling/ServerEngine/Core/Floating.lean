import ServerEngine.Core.Status

/-! # Floating values

A `float` or `double` is the bits of its IEEE pattern. Conversions round to the nearest pattern, ties
to even, and a magnitude beyond the largest finite one becomes the infinity.
-/
namespace ServerEngine

structure BinaryFormat where
  mantissaBits : Nat
  exponentBits : Nat

def binary64 : BinaryFormat := ⟨52, 11⟩

def binary32 : BinaryFormat := ⟨23, 8⟩

namespace BinaryFormat

def bias (f : BinaryFormat) : Int := 2 ^ (f.exponentBits - 1) - 1

def topExponent (f : BinaryFormat) : Nat := 2 ^ f.exponentBits - 1

def infinity (f : BinaryFormat) : Nat := f.topExponent * 2 ^ f.mantissaBits

def signBit (f : BinaryFormat) : Nat := 2 ^ (f.mantissaBits + f.exponentBits)

/-! ## Rounding -/

def roundHalfEven (num den : Nat) : Nat :=
  let quotient := num / den
  let rest := num % den
  if den < 2 * rest || (2 * rest = den && quotient % 2 = 1) then quotient + 1 else quotient

/-- `num * 2 ^ e / den` as a pair, for any sign of `e`. -/
def scaled (num den : Nat) (e : Int) : Nat × Nat :=
  if 0 ≤ e then (num * 2 ^ e.toNat, den) else (num, den * 2 ^ (-e).toNat)

/-- The exponent of the greatest power of two that is at most `num / den`. -/
def floorLog2 (num den : Nat) : Int :=
  let e : Int := num.log2 - den.log2
  let power := scaled den num e
  if power.1 ≤ power.2 then e else e - 1

/-- The pattern, without sign, that is nearest to `num / den`. -/
def nearest (f : BinaryFormat) (num den : Nat) : Nat :=
  if num = 0 then 0
  else
    let e := max (floorLog2 num den) (1 - f.bias)
    let last := scaled num den (f.mantissaBits - e)
    let bits := (e + f.bias - 1).toNat * 2 ^ f.mantissaBits + roundHalfEven last.1 last.2
    min bits f.infinity

def withSign (f : BinaryFormat) (negative : Bool) (magnitude : Nat) : Nat :=
  if negative then f.signBit + magnitude else magnitude

def exponentField (f : BinaryFormat) (bits : Nat) : Nat :=
  bits / 2 ^ f.mantissaBits % 2 ^ f.exponentBits

def mantissaField (f : BinaryFormat) (bits : Nat) : Nat := bits % 2 ^ f.mantissaBits

def negative (f : BinaryFormat) (bits : Nat) : Bool := bits / f.signBit % 2 == 1

def isFinite (f : BinaryFormat) (bits : Nat) : Bool := f.exponentField bits != f.topExponent

def magnitude (f : BinaryFormat) (bits : Nat) : Nat × Nat :=
  let exponent := f.exponentField bits
  let mantissa := f.mantissaField bits
  if exponent = 0 then scaled mantissa 1 (1 - f.bias - f.mantissaBits)
  else scaled (2 ^ f.mantissaBits + mantissa) 1 (exponent - f.bias - f.mantissaBits)

/-- `static_cast` between floating types. -/
def convert (source target : BinaryFormat) (bits : Nat) : Nat :=
  let rounded :=
    if source.isFinite bits then
      let value := source.magnitude bits
      target.nearest value.1 value.2
    else if source.mantissaField bits = 0 then target.infinity
    else target.infinity + 2 ^ (target.mantissaBits - 1)
  target.withSign (source.negative bits) rounded

def ofInt (f : BinaryFormat) (value : Int) : Nat :=
  f.withSign (value < 0) (f.nearest value.natAbs 1)

example : binary64.ofInt 5 = 0x4014000000000000 := by decide +kernel
example : binary64.convert binary32 0xBFF8000000000000 = 0xBFC00000 := by decide +kernel

end BinaryFormat

end ServerEngine
