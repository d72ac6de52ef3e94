import ServerEngine.Parser.EnumNumbering

/-! # The lexer

Tokens and directive spans of a source text. One step of the loop reads a lexeme at the front of what
remains: a blank, a newline, a comment or a token.
-/
namespace ServerEngine

/-! ## What it returns -/

/-- `parser_token` with its flags; bit 0 marks the first token on a physical line. -/
structure LexToken extends ParserToken where
  flags : Nat := 0

/-- `directive_span`: the tokens of one directive. -/
structure DirectiveSpan where
  tokenBegin : Nat
  tokenEnd : Nat
  deriving DecidableEq

/-- A diagnostic at a place of the source, with the status that is returned. -/
structure SourceFault where
  status : StatusCode
  location : SourceSpan := {}
  detail : String := ""

def identifierStart (value : UInt8) : Bool :=
  (97 ≤ value && value ≤ 122) || (65 ≤ value && value ≤ 90) || value == 95

def decimalDigit (value : UInt8) : Bool := 48 ≤ value && value ≤ 57

def identifierPart (value : UInt8) : Bool := identifierStart value || decimalDigit value

def blankCharacter (value : UInt8) : Bool :=
  value == 32 || value == 9 || value == 13 || value == 12 || value == 11

def identifierKind (text : Bytes) : ParserTokenKind :=
  if text = [110, 97, 109, 101, 115, 112, 97, 99, 101] then .keywordNamespace
  else if text = [101, 110, 117, 109] then .keywordEnum
  else if text = [99, 108, 97, 115, 115] then .keywordClass
  else if text = [115, 116, 114, 117, 99, 116] then .keywordStruct
  else if text = [117, 110, 105, 111, 110] then .keywordUnion
  else .identifier

def punctuationOf (value : UInt8) : Option ParserPunctuation :=
  match value.toNat with
  | 123 => some .leftBrace
  | 125 => some .rightBrace
  | 91 => some .leftBracket
  | 93 => some .rightBracket
  | 59 => some .semicolon
  | 58 => some .colon
  | 44 => some .comma
  | 46 => some .dot
  | 61 => some .equal
  | 43 => some .plus
  | 45 => some .minus
  | 35 => some .hash
  | 42 => some .asterisk
  | 40 => some .leftParenthesis
  | 41 => some .rightParenthesis
  | 60 => some .less
  | 62 => some .greater
  | 33 => some .bang
  | 37 => some .percent
  | 94 => some .caret
  | 124 => some .pipe
  | 126 => some .tilde
  | 63 => some .question
  | 47 => some .slash
  | 38 => some .ampersand
  | _ => none

inductive Lexeme
  | blank
  | newline
  | lineComment (length : Nat)
  | blockComment (length : Nat) (newline : Bool)
  | token (length : Nat) (kind : ParserTokenKind) (punctuation : ParserPunctuation)
  deriving DecidableEq

def Lexeme.length : Lexeme → Nat
  | .blank => 1
  | .newline => 1
  | .lineComment length => length
  | .blockComment length _ => length
  | .token length _ _ => length

/-- The loop of a block comment behind its opening: how far its end is, and whether a newline was
seen. -/
def scanBlock : Bytes → Bool → Option (Nat × Bool)
  | first :: second :: rest, newline =>
    if first = 42 ∧ second = 47 then some (2, newline || first == 10)
    else (scanBlock (second :: rest) (newline || first == 10)).map fun found =>
      (found.1 + 1, found.2)
  | _, _ => none

def scanQuoted (quote : UInt8) : Bytes → Nat
  | [] => 0
  | [value] => if value = quote ∨ value = 10 then 0 else 1
  | value :: next :: rest =>
    if value = quote ∨ value = 10 then 0
    else if value = 92 then scanQuoted quote rest + 2
    else scanQuoted quote (next :: rest) + 1

def readQuoted (quote : UInt8) (index : Nat) (rest : Bytes) (kind : ParserTokenKind)
    (detail : String) : Except SourceFault Lexeme :=
  let count := scanQuoted quote rest
  if rest[count]? = some quote then .ok (.token (count + 2) kind .none)
  else .error ⟨.configurationFailed, ⟨index, count + 1⟩, detail⟩

def readPunctuation (index : Nat) (value : UInt8) (rest : Bytes) : Except SourceFault Lexeme :=
  match punctuationOf value with
  | none => .error ⟨.configurationFailed, ⟨index, 1⟩, "unsupported lexical character"⟩
  | some .ampersand =>
    if rest.head? = some 38 then .ok (.token 2 .punctuation .ampersandAmpersand)
    else .ok (.token 1 .punctuation .ampersand)
  | some mark => .ok (.token 1 .punctuation mark)

def readLexeme (index : Nat) (value : UInt8) (rest : Bytes) : Except SourceFault Lexeme :=
  if blankCharacter value then .ok .blank
  else if value = 10 then .ok .newline
  else if value = 47 ∧ rest.head? = some 47 then
    .ok (.lineComment (2 + (rest.tail.takeWhile (· ≠ 10)).length))
  else if value = 47 ∧ rest.head? = some 42 then
    match scanBlock rest.tail false with
    | some (length, newline) => .ok (.blockComment (length + 2) newline)
    | none =>
      .error ⟨.configurationFailed, ⟨index, rest.length + 1⟩, "unterminated block comment"⟩
  else if identifierStart value then
    let count := (rest.takeWhile identifierPart).length
    .ok (.token (count + 1) (identifierKind (value :: rest.take count)) .none)
  else if decimalDigit value then
    .ok (.token ((rest.takeWhile decimalDigit).length + 1) .integerLiteral .none)
  else if value = 34 then
    readQuoted 34 index rest .stringLiteral "unterminated string literal"
  else if value = 39 then
    readQuoted 39 index rest .characterLiteral "unterminated character literal"
  else readPunctuation index value rest

structure LexState where
  index : Nat := 0
  lineStart : Bool := true
  directiveOpen : Bool := false
  directiveBegin : Nat := 0
  output : List LexToken := []
  directives : List DirectiveSpan := []

namespace LexState

def close (s : LexState) : List DirectiveSpan :=
  if s.directiveOpen then s.directives ++ [⟨s.directiveBegin, s.output.length⟩] else s.directives

/-- What a turn of the loop leaves behind. A newline inside a block comment starts a line, but does
not end a directive. -/
def accept (s : LexState) : Lexeme → LexState
  | .blank => { s with index := s.index + 1 }
  | .newline =>
    { s with index := s.index + 1, directives := s.close, directiveOpen := false, lineStart := true }
  | .lineComment length => { s with index := s.index + length }
  | .blockComment length newline =>
    { s with index := s.index + length, lineStart := s.lineStart || newline }
  | .token length kind punctuation =>
    let token : LexToken :=
      { offset := s.index, length := length, kind := kind, punctuation := punctuation
        flags := if s.lineStart then 1 else 0 }
    let opens := punctuation == .hash && s.lineStart
    { s with
      index := s.index + length
      lineStart := false
      directiveBegin := if opens then s.output.length else s.directiveBegin
      directiveOpen := opens || s.directiveOpen
      output := s.output ++ [token] }

end LexState

def lexLoop : Nat → Bytes → LexState → Except SourceFault LexState
  | _, [], s => .ok s
  | 0, _ :: _, s => .ok s
  | fuel + 1, value :: rest, s => do
    let lexeme ← readLexeme s.index value rest
    lexLoop fuel ((value :: rest).drop lexeme.length) (s.accept lexeme)

/-- `lex_source`, with the spans of the directives. -/
def lexSource (text : Bytes) : Except SourceFault (List LexToken × List DirectiveSpan) := do
  if text.length > u32Max then
    .error ⟨.configurationFailed, {}, "Source exceeds 32-bit token range"⟩
  else
    let s ← lexLoop text.length text {}
    .ok (s.output ++ [{ offset := text.length }], s.close)

end ServerEngine
