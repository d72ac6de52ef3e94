import ServerEngine.Core.Text

/-! # The JSON parser

The recursive descent of `parse_json` over a text, with the events its handler receives. A function
that returns false in the source is an error here, which carries the parser with its failure noted.
-/
namespace ServerEngine

/-- `json_error_code`, without `none`. -/
inductive JsonErrorCode
  | unexpectedEnd | unexpectedToken | invalidString | invalidEscape | invalidUnicode
  | invalidNumber | nestingTooDeep | internalFailure
  deriving DecidableEq

/-- `json_parse_result` of a failure. -/
structure JsonFailure where
  code : JsonErrorCode
  offset : Nat

/-- The calls on a `json_event_handler`; a number is the bits of its double. -/
inductive JsonEvent
  | location (offset : Nat)
  | objectBegin | objectEnd | arrayBegin | arrayEnd
  | key (value : Bytes)
  | string (value : Bytes)
  | integer (value : Int)
  | number (bits : Nat)
  | boolean (value : Bool)
  | null
  deriving DecidableEq

/-- `parser`: the position with what is left of the text there, the events so far, and the result. -/
structure JsonParser where
  position : Nat := 0
  rest : Bytes
  events : List JsonEvent := []
  result : Option JsonFailure := none

def maxJsonDepth : Nat := 64

/-- `hex_value`; `none` is -1. -/
def hexValue (b : UInt8) : Option Nat :=
  if isDigit b then some (b.toNat - 48)
  else if ascii 'a' ≤ b && b ≤ ascii 'f' then some (b.toNat - 97 + 10)
  else if ascii 'A' ≤ b && b ≤ ascii 'F' then some (b.toNat - 65 + 10)
  else none

/-- What `append_utf8` appends. -/
def appendUtf8 (codepoint : Nat) : Bytes :=
  if codepoint ≤ 0x7F then [codepoint.toUInt8]
  else if codepoint ≤ 0x7FF then
    [(0xC0 ||| codepoint >>> 6).toUInt8, (0x80 ||| codepoint &&& 0x3F).toUInt8]
  else if codepoint ≤ 0xFFFF then
    [(0xE0 ||| codepoint >>> 12).toUInt8, (0x80 ||| codepoint >>> 6 &&& 0x3F).toUInt8,
      (0x80 ||| codepoint &&& 0x3F).toUInt8]
  else
    [(0xF0 ||| codepoint >>> 18).toUInt8, (0x80 ||| codepoint >>> 12 &&& 0x3F).toUInt8,
      (0x80 ||| codepoint >>> 6 &&& 0x3F).toUInt8, (0x80 ||| codepoint &&& 0x3F).toUInt8]

/-- `std::from_chars` of a whole token into `std::int64_t`. -/
def fromCharsInt64 (token : Bytes) : Option Int :=
  let negative := token.head? = some (ascii '-')
  let digits := if negative then token.tail else token
  if digits.isEmpty || !digits.all isDigit then none
  else
    let value : Int := if negative then -decimalValue digits else decimalValue digits
    if -2 ^ 63 ≤ value ∧ value < 2 ^ 63 then some value else none

namespace JsonParser

/-! ## Steps -/

/-- `fail`: the first failure is kept. -/
def fail {α : Type} (p : JsonParser) (code : JsonErrorCode) (offset : Nat) : Except JsonParser α :=
  .error { p with result := p.result.or (some ⟨code, offset⟩) }

def advance (p : JsonParser) (count : Nat) : JsonParser :=
  { p with position := p.position + count, rest := p.rest.drop count }

def emit (p : JsonParser) (e : JsonEvent) : JsonParser := { p with events := p.events ++ [e] }

def skipSpace (p : JsonParser) : JsonParser := p.advance (p.rest.takeWhile isSpace).length

def skipDigits (p : JsonParser) : JsonParser := p.advance (p.rest.takeWhile isDigit).length

/-- What `consume` tests; the character is next. -/
def at? (p : JsonParser) (c : Char) : Bool := p.rest.head? == some (ascii c)

def atDigit (p : JsonParser) : Bool := p.rest.head?.any isDigit

def parseHex4 (p : JsonParser) : Except JsonParser (Nat × JsonParser) :=
  if p.rest.length < 4 then p.fail .unexpectedEnd p.position
  else
    match (p.rest.take 4).findIdx? fun b => (hexValue b).isNone with
    | some i => (p.advance (i + 1)).fail .invalidUnicode (p.position + i)
    | none =>
      .ok ((p.rest.take 4).foldl (fun output b => output <<< 4 ||| (hexValue b).getD 0) 0, p.advance 4)

def parseUnicode (p : JsonParser) : Except JsonParser (Bytes × JsonParser) :=
  match p.parseHex4 with
  | .error p => .error p
  | .ok (first, p) =>
    if 0xD800 ≤ first && first ≤ 0xDBFF then
      if p.rest.take 2 ≠ [ascii '\\', ascii 'u'] then p.fail .invalidUnicode p.position
      else
        match (p.advance 2).parseHex4 with
        | .error p => .error p
        | .ok (second, p) =>
          if second < 0xDC00 || 0xDFFF < second then p.fail .invalidUnicode p.position
          else .ok (appendUtf8 (0x10000 + (first - 0xD800) <<< 10 + (second - 0xDC00)), p)
    else if 0xDC00 ≤ first && first ≤ 0xDFFF then p.fail .invalidUnicode p.position
    else .ok (appendUtf8 first, p)

def parseEscape (p : JsonParser) : Except JsonParser (Bytes × JsonParser) :=
  match p.rest with
  | [] => p.fail .unexpectedEnd p.position
  | e :: _ =>
    let p := p.advance 1
    if e = ascii '"' then .ok ([ascii '"'], p)
    else if e = ascii '\\' then .ok ([ascii '\\'], p)
    else if e = ascii '/' then .ok ([ascii '/'], p)
    else if e = ascii 'b' then .ok ([8], p)
    else if e = ascii 'f' then .ok ([12], p)
    else if e = ascii 'n' then .ok ([10], p)
    else if e = ascii 'r' then .ok ([13], p)
    else if e = ascii 't' then .ok ([9], p)
    else if e = ascii 'u' then p.parseUnicode
    else p.fail .invalidEscape (p.position - 1)

/-- The loop of `parse_string`, with the output so far. Every round reads a character, so the length of
the text bounds the rounds. -/
def parseCharacters : Nat → JsonParser → Bytes → Except JsonParser (Bytes × JsonParser)
  | 0, p, _ => .error p
  | rounds + 1, p, output =>
    match p.rest with
    | [] => p.fail .unexpectedEnd p.position
    | value :: _ =>
      let p := p.advance 1
      if value = ascii '"' then .ok (output, p)
      else if value < 0x20 then p.fail .invalidString (p.position - 1)
      else if value ≠ ascii '\\' then parseCharacters rounds p (output ++ [value])
      else
        match p.parseEscape with
        | .error p => .error p
        | .ok (bytes, p) => parseCharacters rounds p (output ++ bytes)

def parseString (p : JsonParser) : Except JsonParser (Bytes × JsonParser) :=
  if p.at? '"' then parseCharacters p.rest.length (p.advance 1) []
  else p.fail .unexpectedToken p.position

def parseDigits (p : JsonParser) : Except JsonParser JsonParser :=
  if p.atDigit then .ok p.skipDigits else p.fail .invalidNumber p.position

def parseInteger (p : JsonParser) : Except JsonParser JsonParser :=
  let signed := p.at? '-'
  let p := if signed then p.advance 1 else p
  if signed && p.rest.isEmpty then p.fail .invalidNumber p.position
  else if p.at? '0' then
    let p := p.advance 1
    if p.atDigit then p.fail .invalidNumber p.position else .ok p
  else p.parseDigits

def parseFraction (p : JsonParser) : Except JsonParser JsonParser :=
  if p.at? '.' then (p.advance 1).parseDigits else .ok p

def parseExponent (p : JsonParser) : Except JsonParser JsonParser :=
  if p.at? 'e' || p.at? 'E' then
    let p := p.advance 1
    (if p.at? '+' || p.at? '-' then p.advance 1 else p).parseDigits
  else .ok p

/-- The conversion of a token; `integral` has neither fraction nor exponent. -/
def convertNumber (p : JsonParser) (begin : Nat) (token : Bytes) (integral : Bool) :
    Except JsonParser JsonParser :=
  if integral then
    match fromCharsInt64 token with
    | some value => .ok (p.emit (.integer value))
    | none => p.fail .invalidNumber begin
  else
    match fromCharsDouble token with
    | some bits =>
      if binary64.isFinite bits then .ok (p.emit (.number bits)) else p.fail .invalidNumber begin
    | none => p.fail .invalidNumber begin

def parseNumber (p : JsonParser) : Except JsonParser JsonParser := do
  let integer ← p.parseInteger
  let fraction ← integer.parseFraction
  let number ← fraction.parseExponent
  number.convertNumber p.position (p.rest.take (number.position - p.position))
    (!integer.at? '.' && !(fraction.at? 'e' || fraction.at? 'E'))

/-! ## Values -/

def parseLiteral (p : JsonParser) (literal : Bytes) (e : JsonEvent) : Except JsonParser JsonParser :=
  if p.rest.take literal.length = literal then .ok ((p.advance literal.length).emit e)
  else p.fail .unexpectedToken p.position

def close (p : JsonParser) (e : JsonEvent) : JsonParser :=
  ((p.advance 1).emit (.location p.position)).emit e

/-- The loop of `parse_array` over the parser of its elements. Every round reads a character. -/
def parseElements (value : JsonParser → Except JsonParser JsonParser) :
    Nat → JsonParser → Except JsonParser JsonParser
  | 0, p => .error p
  | rounds + 1, p => do
    let p ← value p
    let p := p.skipSpace
    if p.at? ']' then .ok (p.close .arrayEnd)
    else if p.at? ',' then parseElements value rounds (p.advance 1)
    else p.fail .unexpectedToken p.position

/-- `parse_array`, below the depth limit. -/
def parseArray (value : JsonParser → Except JsonParser JsonParser) (p : JsonParser) :
    Except JsonParser JsonParser :=
  let p := ((p.advance 1).emit .arrayBegin).skipSpace
  if p.at? ']' then .ok (p.close .arrayEnd) else parseElements value (p.rest.length + 1) p

def parseMembers (value : JsonParser → Except JsonParser JsonParser) :
    Nat → JsonParser → Except JsonParser JsonParser
  | 0, p => .error p
  | rounds + 1, p => do
    let p := p.skipSpace
    if p.rest.isEmpty then p.fail .unexpectedEnd p.position
    else
      let (key, p) ← (p.emit (.location p.position)).parseString
      let p := (p.emit (.key key)).skipSpace
      if !p.at? ':' then p.fail .unexpectedToken p.position
      else
        let p ← value (p.advance 1)
        let p := p.skipSpace
        if p.at? '}' then .ok (p.close .objectEnd)
        else if p.at? ',' then parseMembers value rounds (p.advance 1)
        else p.fail .unexpectedToken p.position

/-- `parse_object`, below the depth limit. -/
def parseObject (value : JsonParser → Except JsonParser JsonParser) (p : JsonParser) :
    Except JsonParser JsonParser :=
  let p := ((p.advance 1).emit .objectBegin).skipSpace
  if p.at? '}' then .ok (p.close .objectEnd) else parseMembers value (p.rest.length + 1) p

/-- The cases of `parse_value` over those for objects and arrays. -/
def parseValueWith (object array : JsonParser → Except JsonParser JsonParser) (p : JsonParser) :
    Except JsonParser JsonParser :=
  let p := p.skipSpace
  match p.rest with
  | [] => p.fail .unexpectedEnd p.position
  | b :: _ =>
    let p := p.emit (.location p.position)
    if b = ascii '{' then object p
    else if b = ascii '[' then array p
    else if b = ascii '"' then do
      let (value, p) ← p.parseString
      .ok (p.emit (.string value))
    else if b = ascii 't' then p.parseLiteral (asciiBytes "true") (.boolean true)
    else if b = ascii 'f' then p.parseLiteral (asciiBytes "false") (.boolean false)
    else if b = ascii 'n' then p.parseLiteral (asciiBytes "null") .null
    else if b = ascii '-' || isDigit b then p.parseNumber
    else p.fail .unexpectedToken p.position

def tooDeep (p : JsonParser) : Except JsonParser JsonParser := p.fail .nestingTooDeep p.position

/-- `parse_value` at the depth `max_json_depth - levels`. -/
def parseValue : Nat → JsonParser → Except JsonParser JsonParser
  | 0 => parseValueWith tooDeep tooDeep
  | levels + 1 => parseValueWith (parseObject (parseValue levels)) (parseArray (parseValue levels))

def run (p : JsonParser) : Except JsonParser JsonParser := do
  let p ← parseValue maxJsonDepth p.skipSpace
  let p := p.skipSpace
  if p.rest.isEmpty then .ok p else p.fail .unexpectedToken p.position

end JsonParser

def parseJson (text : Bytes) : Except JsonParser JsonParser := JsonParser.run { rest := text }

end ServerEngine
