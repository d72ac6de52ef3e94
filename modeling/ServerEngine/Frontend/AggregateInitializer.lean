import ServerEngine.Core.Text
import ServerEngine.Frontend.SourceFacts
import Mathlib.Data.List.DropRight

/-! # Aggregate initializers

The restricted grammar of braced initializers, shared by normalization and managed execution: nested
lists of scalar constants. The parser reads a suffix of the text and counts its nodes.
-/
namespace ServerEngine

def ConstructionValue.constant (kind : ConstructionKind) (bits : Nat) : ConstructionValue :=
  ⟨bits % 2 ^ 32, bits / 2 ^ 32 % 2 ^ 32, 0, kind⟩

/-- `aggregate_initializer`: children are present in a list only. -/
inductive AggregateInitializer
  | scalar (value : ConstructionValue)
  | list (children : List AggregateInitializer)

/-! ## Tokens -/

def isDelimiter (b : UInt8) : Bool := b == ascii ',' || b == ascii '}' || b == ascii ')'

def scalarValue (token : Bytes) : Option ConstructionValue :=
  if token = asciiBytes "false" || token = asciiBytes "nullptr" then some {}
  else if token = asciiBytes "true" then some (.constant .unsignedInteger 1)
  else
    let token := if token.head? = some (ascii '+') then token.tail else token
    if token.isEmpty then none
    else if token.any fun b => b == ascii '.' || b == ascii 'e' || b == ascii 'E' then
      match fromCharsDouble token with
      | some bits => if binary64.isFinite bits then some (.constant .real bits) else none
      | none => none
    else if token.head? = some (ascii '-') then
      (fromCharsNegative token).map (.constant .signedInteger)
    else (fromCharsUnsigned token).map (.constant .unsignedInteger)

structure ParseState where
  rest : Bytes
  nodes : Nat := 0

def ParseState.skip (s : ParseState) : ParseState := { s with rest := s.rest.dropWhile isSpace }

def parseScalar (s : ParseState) : Option (AggregateInitializer × ParseState) :=
  let token := (s.rest.takeWhile (!isDelimiter ·)).rdropWhile isSpace
  (scalarValue token).map fun value =>
    (.scalar value, { s with rest := s.rest.dropWhile (!isDelimiter ·) })

/-- The elements of a list whose first element is next; a comma may stand before the closing brace.
Every round reads a comma, so the length of the text bounds the rounds. -/
def parseElements (parse : ParseState → Option (AggregateInitializer × ParseState)) :
    Nat → ParseState → Option (List AggregateInitializer × ParseState)
  | 0, _ => none
  | fuel + 1, s =>
    match parse s with
    | none => none
    | some (child, s) =>
      match s.skip.rest with
      | [] => none
      | next :: rest =>
        if next = ascii '}' then some ([child], { s with rest := rest })
        else if next ≠ ascii ',' then none
        else
          let s := { s with rest := rest : ParseState }.skip
          if s.rest.head? = some (ascii '}') then some ([child], { s with rest := s.rest.tail })
          else (parseElements parse fuel s).map fun (children, s) => (child :: children, s)

/-- One initializer; the argument is the number of levels left of the sixty-five. -/
def parseInitializer : Nat → ParseState → Option (AggregateInitializer × ParseState)
  | 0, _ => none
  | levels + 1, s =>
    if 65536 < s.nodes + 1 then none
    else
      let s := { s with nodes := s.nodes + 1 : ParseState }.skip
      match s.rest with
      | [] => none
      | next :: rest =>
        if next = ascii '{' then
          let s := { s with rest := rest : ParseState }.skip
          if s.rest.head? = some (ascii '}') then some (.list [], { s with rest := s.rest.tail })
          else (parseElements (parseInitializer levels) (s.rest.length + 1) s).map
            fun (children, s) => (.list children, s)
        else if next = ascii '(' then
          match parseInitializer levels { s with rest := rest } with
          | none => none
          | some (value, s) =>
            if s.skip.rest.head? = some (ascii ')') then
              some (value, { s with rest := s.skip.rest.tail })
            else none
        else parseScalar s

def parseAggregateInitializer (text : Bytes) : Option AggregateInitializer :=
  match parseInitializer 65 { rest := text } with
  | some (value, s) => if s.skip.rest.isEmpty then some value else none
  | none => none

end ServerEngine
