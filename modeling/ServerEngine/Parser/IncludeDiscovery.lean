import ServerEngine.Parser.Lexer

/-! # Include discovery

The directives are interpreted (a quoted include, `#pragma once`) and their tokens removed.
-/
namespace ServerEngine

structure SourceIncludeDirective where
  path : SourceSpan
  visibleFrom : Nat

structure DiscoveryState where
  scan : Nat := 0
  braceDepth : Nat := 0
  includes : List SourceIncludeDirective := []

/-- A failure of `discover_source_includes` at a token. -/
def discoveryFault (token : LexToken) (detail : String) : SourceFault :=
  ⟨.notAvailable, ⟨token.offset, token.length⟩, detail⟩

def discoveryArgument : SourceFault := ⟨.invalidArgument, {}, ""⟩

def countBraces : Nat → List LexToken → Except SourceFault Nat
  | depth, [] => .ok depth
  | depth, token :: rest =>
    if token.is .leftBrace then countBraces (depth + 1) rest
    else if token.is .rightBrace then
      if depth = 0 then .error discoveryArgument else countBraces (depth - 1) rest
    else countBraces depth rest

def includeName : Bytes := [105, 110, 99, 108, 117, 100, 101]

def pragmaName : Bytes := [112, 114, 97, 103, 109, 97]

def onceName : Bytes := [111, 110, 99, 101]

/-- What the tokens of one directive say: an include, or nothing. -/
def interpretDirective (text : Bytes) (braceDepth : Nat) :
    List LexToken → Except SourceFault (Option SourceIncludeDirective)
  | [] => .error discoveryArgument
  | hash :: rest =>
    if !hash.is .hash || hash.flags % 2 = 0 then .error discoveryArgument
    else
      match rest with
      | [] => .error (discoveryFault hash "empty preprocessing directive is unsupported")
      | name :: arguments =>
        if name.kind ≠ .identifier then
          .error (discoveryFault name "expected preprocessing directive name")
        else if tokenText text name.toParserToken = includeName then
          if braceDepth ≠ 0 then
            .error (discoveryFault hash "#include inside a brace/namespace scope is forbidden")
          else
            match arguments with
            | [header] =>
              if header.kind ≠ .stringLiteral || header.length < 2 then
                .error (discoveryFault header "only quoted #include \"file.hpp\" is supported")
              else
                .ok (some ⟨⟨header.offset + 1, header.length - 2⟩, header.offset + header.length⟩)
            | _ =>
              .error (discoveryFault hash
                "only quoted #include with one header-name is supported")
        else if tokenText text name.toParserToken = pragmaName then
          match arguments with
          | [argument] =>
            if tokenText text argument.toParserToken ≠ onceName then
              .error (discoveryFault hash "only #pragma once is supported")
            else .ok none
          | _ => .error (discoveryFault hash "only #pragma once is supported")
        else
          .error (discoveryFault name
            "supported preprocessing directives are #include \"...\" and #pragma once only")

def tokenRange (tokens : List LexToken) (first last : Nat) : List LexToken :=
  (tokens.take last).drop first

def discoverDirective (text : Bytes) (tokens : List LexToken) (s : DiscoveryState)
    (directive : DirectiveSpan) : Except SourceFault DiscoveryState := do
  if directive.tokenBegin ≥ directive.tokenEnd || directive.tokenEnd > tokens.length - 1 ||
      directive.tokenBegin < s.scan then .error discoveryArgument
  else
    let depth ← countBraces s.braceDepth (tokenRange tokens s.scan directive.tokenBegin)
    let found ← interpretDirective text depth
      (tokenRange tokens directive.tokenBegin directive.tokenEnd)
    .ok ⟨directive.tokenEnd, depth, s.includes ++ found.toList⟩

def compactTokens (tokens : List LexToken) : Nat → Nat → List DirectiveSpan → List LexToken
  | 0, _, _ => []
  | fuel + 1, read, directives =>
    if read + 1 < tokens.length then
      match directives with
      | directive :: rest =>
        if read = directive.tokenBegin then compactTokens tokens fuel directive.tokenEnd rest
        else tokens.getD read {} :: compactTokens tokens fuel (read + 1) directives
      | [] => tokens.getD read {} :: compactTokens tokens fuel (read + 1) []
    else []

def discoverSourceIncludes (text : Bytes) (tokens : List LexToken)
    (directives : List DirectiveSpan) :
    Except SourceFault (List LexToken × List SourceIncludeDirective) := do
  match tokens.getLast? with
  | none => .error discoveryArgument
  | some last =>
    if last.kind ≠ .eof then .error discoveryArgument
    else
      let s ← directives.foldlM (discoverDirective text tokens) {}
      .ok (compactTokens tokens tokens.length 0 directives ++ [last], s.includes)

end ServerEngine
