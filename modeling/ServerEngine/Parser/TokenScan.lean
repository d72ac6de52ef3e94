import ServerEngine.Frontend.SourceFacts
import Mathlib.Data.List.Basic

/-! # Initializer scanning

The parser's cursor over the tokens of a source, and the pushdown scan over an initializer: it stops
at the first comma or terminator outside all brackets. An initializer is recorded by its spelling
only.
-/
namespace ServerEngine

/-! ## Tokens -/

inductive ParserTokenKind
  | eof | identifier | integerLiteral | keywordNamespace | keywordEnum | keywordClass
  | keywordStruct | keywordUnion | stringLiteral | punctuation | characterLiteral
  deriving DecidableEq

inductive ParserPunctuation
  | none | leftBrace | rightBrace | leftBracket | rightBracket | semicolon | colon | comma | dot
  | equal | plus | minus | hash | ampersand | ampersandAmpersand | asterisk | leftParenthesis
  | rightParenthesis | less | greater | bang | percent | caret | pipe | tilde | question | slash
  deriving DecidableEq

/-- `parser_token`; offset and length are 32-bit positions in the text. -/
structure ParserToken where
  offset : Nat := 0
  length : Nat := 0
  kind : ParserTokenKind := .eof
  punctuation : ParserPunctuation := .none
  deriving DecidableEq

def ParserToken.is (token : ParserToken) (value : ParserPunctuation) : Bool :=
  token.kind = .punctuation && token.punctuation = value

structure TokenCursor where
  tokens : List ParserToken
  cursor : Nat := 0
  deriving DecidableEq

namespace TokenCursor

def current (p : TokenCursor) : ParserToken :=
  p.tokens.getD (if p.cursor < p.tokens.length then p.cursor else p.tokens.length - 1) {}

def advance (p : TokenCursor) : TokenCursor :=
  if p.cursor + 1 < p.tokens.length then { p with cursor := p.cursor + 1 } else p

def punctuation (p : TokenCursor) (value : ParserPunctuation) : Bool := p.current.is value

/-- `span(current())`. -/
def span (p : TokenCursor) : SourceSpan := ⟨p.current.offset, p.current.length⟩

def rest (p : TokenCursor) : List ParserToken := p.tokens.drop p.cursor

end TokenCursor

def positionDifference (last first : Nat) : Nat := (last + 2 ^ 32 - first) % 2 ^ 32

/-- What `scan_expression` returns: its result, the spelling and where the cursor stands. -/
structure Scan where
  accepted : Bool
  spelling : SourceSpan
  parser : TokenCursor
  deriving DecidableEq

/-- The closing brackets still expected after a punctuation mark, innermost first; `none` is a bracket
that does not match or a semicolon outside all brackets. -/
def nextCloses (closes : List ParserPunctuation) :
    ParserPunctuation → Option (List ParserPunctuation)
  | .leftParenthesis => some (.rightParenthesis :: closes)
  | .leftBrace => some (.rightBrace :: closes)
  | .leftBracket => some (.rightBracket :: closes)
  | .rightParenthesis => if closes.head? = some .rightParenthesis then some closes.tail else none
  | .rightBrace => if closes.head? = some .rightBrace then some closes.tail else none
  | .rightBracket => if closes.head? = some .rightBracket then some closes.tail else none
  | .semicolon => if closes.isEmpty then none else some closes
  | _ => some closes

/-- The loop of `scan_expression`; `none` is a loop that has used up its fuel. -/
def scanLoop (terminator : ParserPunctuation) (begin : Nat) (spelling : SourceSpan) :
    Nat → TokenCursor → List ParserPunctuation → Bool → Option Scan
  | 0, _, _, _ => none
  | fuel + 1, p, closes, consumed =>
    let token := p.current
    if token.kind = .eof then some ⟨false, spelling, p⟩
    else if token.kind = .punctuation then
      if closes.isEmpty && (token.punctuation = terminator || token.punctuation = .comma) then
        some ⟨consumed, ⟨begin, positionDifference token.offset begin⟩, p⟩
      else match nextCloses closes token.punctuation with
        | none => some ⟨false, spelling, p⟩
        | some closes => scanLoop terminator begin spelling fuel p.advance closes true
    else scanLoop terminator begin spelling fuel p.advance closes true

def scanExpression (p : TokenCursor) (spelling : SourceSpan) (terminator : ParserPunctuation) :
    Option Scan :=
  scanLoop terminator p.current.offset spelling (p.tokens.length + 1) p [] false

/-! ## Callers -/

inductive ParseFailure
  | syntaxError (location : SourceSpan) (detail : String)
  | unsupported (location : SourceSpan) (detail : String)
  | diverges
  deriving DecidableEq

abbrev ParseM := Except ParseFailure

def ParseM.scan (p : TokenCursor) (spelling : SourceSpan) (terminator : ParserPunctuation)
    (detail : String) : ParseM (SourceSpan × TokenCursor) :=
  match scanExpression p spelling terminator with
  | none => .error .diverges
  | some r =>
    if r.accepted then .ok (r.spelling, r.parser) else .error (.syntaxError r.parser.span detail)

/-- What a declarator's initializer leaves: whether a comma follows, the spelling and the cursor. -/
structure DeclaratorInitializer where
  comma : Bool := false
  initializer : SourceSpan := {}
  parser : TokenCursor

/-- `skip_declarator_initializer`, with the caller's error. -/
def skipDeclaratorInitializer (p : TokenCursor) (detail : String) :
    ParseM DeclaratorInitializer := do
  let (spelling, p) ← ParseM.scan p {} .semicolon detail
  .ok ⟨p.punctuation .comma, spelling, p⟩

/-- The initializer behind `=`; the recorded spelling begins at the sign. -/
def equalInitializer (p : TokenCursor) (detail : String) : ParseM DeclaratorInitializer := do
  let initializerBegin := p.current.offset
  let r ← skipDeclaratorInitializer p.advance detail
  .ok { r with
    initializer := ⟨initializerBegin, positionDifference r.parser.current.offset initializerBegin⟩ }

def missingInitializer (p : TokenCursor) : ParseM DeclaratorInitializer :=
  if p.punctuation .comma then .ok { comma := true, parser := p }
  else if p.punctuation .semicolon then .ok { parser := p }
  else .error (.unsupported p.span "function-style declarators are not implemented")

def objectInitializer (p : TokenCursor) : ParseM DeclaratorInitializer :=
  if p.punctuation .equal then
    equalInitializer p "expected ',' or ';' after object initializer"
  else if p.punctuation .leftParenthesis || p.punctuation .leftBrace then
    skipDeclaratorInitializer p "unbalanced object initializer"
  else missingInitializer p

def memberInitializer (p : TokenCursor) : ParseM DeclaratorInitializer :=
  if p.punctuation .colon then
    .error (.unsupported p.span "bit-fields are not implemented: width is layout semantics")
  else if p.punctuation .equal then
    equalInitializer p "expected ',' or ';' after member initializer"
  else if p.punctuation .leftBrace then
    skipDeclaratorInitializer p "unbalanced member initializer"
  else missingInitializer p

/-- The default argument of a parameter, behind its `=`. -/
def defaultArgument (p : TokenCursor) : ParseM TokenCursor := do
  let (_, p) ← ParseM.scan p {} .rightParenthesis "empty or unbalanced default argument"
  .ok p

def constructorItems : Nat → TokenCursor → ParseM TokenCursor
  | 0, _ => .error .diverges
  | fuel + 1, p =>
    if p.punctuation .rightBrace then .ok p
    else do
      let (_, p) ← ParseM.scan p {} .rightBrace "invalid constructor initializer list"
      if p.punctuation .comma then constructorItems fuel p.advance else .ok p

def constructorArgument (p : TokenCursor) : ParseM (SourceSpan × TokenCursor) :=
  let expression : SourceSpan := ⟨p.current.offset, 0⟩
  if p.punctuation .rightParenthesis then .ok (expression, p)
  else ParseM.scan p expression .rightParenthesis "invalid constructor initializer"

/-- The initializer behind a field name of a constructor's initializer list. -/
def constructorInitializer (p : TokenCursor) : ParseM (SourceSpan × TokenCursor) :=
  if p.punctuation .leftParenthesis then do
    let (expression, p) ← constructorArgument p.advance
    if p.punctuation .rightParenthesis then .ok (expression, p.advance)
    else .error (.unsupported p.span "use braces for aggregate initializer lists")
  else if p.punctuation .leftBrace then do
    let opening := p.current.offset
    let p ← constructorItems (p.tokens.length + 1) p.advance
    if p.punctuation .rightBrace then
      .ok (⟨opening, positionDifference (p.current.offset + p.current.length) opening⟩, p.advance)
    else .error (.syntaxError p.span "expected '\x7d' in constructor initializer")
  else .error (.syntaxError p.span "expected field initializer")

/-- The value of an assignment in a constructor's body, behind its `=`. -/
def constructorAssignment (p : TokenCursor) : ParseM (SourceSpan × TokenCursor) := do
  let (expression, p) ← ParseM.scan p {} .semicolon "invalid constructor assignment"
  if p.punctuation .semicolon then .ok (expression, p.advance)
  else .error (.syntaxError p.span "invalid constructor assignment")

def ParserToken.opening (token : ParserToken) : Option ParserPunctuation :=
  if token.kind ≠ .punctuation then none
  else match token.punctuation with
    | .leftParenthesis => some .rightParenthesis
    | .leftBrace => some .rightBrace
    | .leftBracket => some .rightBracket
    | _ => none

def ParserToken.closing (token : ParserToken) : Bool :=
  token.is .rightParenthesis || token.is .rightBrace || token.is .rightBracket

/-- Tokens in which `()`, `{}` and `[]` are properly nested and matched by kind. -/
inductive Balanced : List ParserToken → Prop
  | nil : Balanced []
  | token {t : ParserToken} {rest : List ParserToken} : t.kind ≠ .eof → t.opening = none →
    t.closing = false → Balanced rest → Balanced (t :: rest)
  | group {o c : ParserToken} {body rest : List ParserToken} {close : ParserPunctuation} :
    o.opening = some close → c.is close = true → Balanced body → Balanced rest →
    Balanced (o :: (body ++ c :: rest))

def Delimits (terminator : ParserPunctuation) (token : ParserToken) : Prop :=
  token.is terminator = true ∨ token.is .comma = true

/-- The first `n` of the tokens are an initializer: what stands at `n` is the first delimiter outside
all brackets, the tokens before it are balanced and no semicolon is outside their brackets. A token
is outside all brackets where the tokens before it are balanced. -/
structure IsInitializer (terminator : ParserPunctuation) (tokens : List ParserToken) (n : Nat) :
    Prop where
  delimiter : ∃ t, tokens[n]? = some t ∧ Delimits terminator t
  nonempty : 0 < n
  balanced : Balanced (tokens.take n)
  first : ∀ k < n, Balanced (tokens.take k) → ∀ t, tokens[k]? = some t →
    ¬ Delimits terminator t ∧ t.is .semicolon = false

/-! ## The stack of a token sequence -/

/-- The closing brackets expected after a token; `none` is a bracket that does not match or the end of
the file. -/
def nextToken (closes : List ParserPunctuation) (t : ParserToken) :
    Option (List ParserPunctuation) :=
  if t.kind = .eof then none
  else match t.opening with
    | some close => some (close :: closes)
    | none =>
      if t.closing then if closes.head? = some t.punctuation then some closes.tail else none
      else some closes

def stackAfter (closes : List ParserPunctuation) (tokens : List ParserToken) :
    Option (List ParserPunctuation) :=
  tokens.foldlM nextToken closes

theorem stackAfter_cons (closes : List ParserPunctuation) (t : ParserToken)
    (tokens : List ParserToken) :
    stackAfter closes (t :: tokens) = (nextToken closes t).bind fun s => stackAfter s tokens := by
  rfl

theorem stackAfter_append (closes : List ParserPunctuation) (xs ys : List ParserToken) :
    stackAfter closes (xs ++ ys) = (stackAfter closes xs).bind fun s => stackAfter s ys := by
  rw [stackAfter, List.foldlM_append]
  rfl

variable {t : ParserToken} {close : ParserPunctuation}

theorem opening_kind (h : t.opening = some close) : t.kind = .punctuation := by
  unfold ParserToken.opening at h
  split at h
  · cases h
  · rename_i hkind
    exact not_not.mp hkind

theorem opening_closes (h : t.opening = some close) :
    close = .rightParenthesis ∨ close = .rightBrace ∨ close = .rightBracket := by
  unfold ParserToken.opening at h
  split at h
  · cases h
  · split at h <;> simp_all

theorem is_iff {value : ParserPunctuation} :
    t.is value = true ↔ t.kind = .punctuation ∧ t.punctuation = value := by
  rw [ParserToken.is, Bool.and_eq_true, decide_eq_true_eq, decide_eq_true_eq]

variable {closes : List ParserPunctuation}

theorem nextToken_open (h : t.opening = some close) :
    nextToken closes t = some (close :: closes) := by
  simp [nextToken, opening_kind h, h]

theorem nextToken_close
    (hclose : close = .rightParenthesis ∨ close = .rightBrace ∨ close = .rightBracket)
    (h : t.is close = true) : nextToken (close :: closes) t = some closes := by
  obtain ⟨hkind, hmark⟩ := is_iff.mp h
  rcases hclose with rfl | rfl | rfl <;>
    simp [nextToken, hkind, ParserToken.opening, hmark, ParserToken.closing, ParserToken.is]

theorem nextToken_plain (heof : t.kind ≠ .eof) (hopen : t.opening = none)
    (hclose : t.closing = false) : nextToken closes t = some closes := by
  simp [nextToken, heof, hopen, hclose]

variable {tokens : List ParserToken}

theorem Balanced.stack (h : Balanced tokens) (closes : List ParserPunctuation) :
    stackAfter closes tokens = some closes := by
  induction h generalizing closes with
  | nil => rfl
  | token heof hopen hclose _ ih =>
    rw [stackAfter_cons, nextToken_plain heof hopen hclose]
    exact ih closes
  | group hopen hclose _ _ ihbody ihrest =>
    rw [stackAfter_cons, nextToken_open hopen, Option.bind_some, stackAfter_append, ihbody,
      Option.bind_some, stackAfter_cons, nextToken_close (opening_closes hopen) hclose]
    exact ihrest closes

/-- Tokens that close the expected brackets one after the other, each part between being balanced. -/
def Unwinds : List ParserPunctuation → List ParserToken → Prop
  | [], tokens => Balanced tokens
  | close :: closes, tokens => ∃ body c rest, tokens = body ++ c :: rest ∧ Balanced body ∧
      c.is close = true ∧ Unwinds closes rest

theorem Unwinds.prepend {pre : List ParserToken}
    (hpre : ∀ rest, Balanced rest → Balanced (pre ++ rest)) (h : Unwinds closes tokens) :
    Unwinds closes (pre ++ tokens) := by
  cases closes with
  | nil => exact hpre tokens h
  | cons close closes =>
    obtain ⟨body, c, rest, rfl, hbody, hc, hrest⟩ := h
    exact ⟨pre ++ body, c, rest, by simp, hpre body hbody, hc, hrest⟩

theorem unwinds_of_stack (h : stackAfter closes tokens = some []) : Unwinds closes tokens := by
  induction tokens generalizing closes with
  | nil =>
    cases h
    exact Balanced.nil
  | cons t tokens ih =>
    obtain ⟨closes', hnext, h⟩ := Option.bind_eq_some_iff.mp h
    have hrest := ih h
    unfold nextToken at hnext
    split at hnext
    · cases hnext
    · rename_i heof
      split at hnext
      · rename_i close hopen
        cases hnext
        obtain ⟨body, c, rest, rfl, hbody, hc, htail⟩ := hrest
        have hgroup : ∀ q, Balanced q → Balanced ((t :: (body ++ [c])) ++ q) := by
          intro q hq
          have := Balanced.group hopen hc hbody hq
          simpa using this
        have := htail.prepend hgroup
        simpa using this
      · rename_i hopen
        split at hnext
        · rename_i hclosing
          split at hnext
          · rename_i hhead
            cases hnext
            cases closes with
            | nil => cases hhead
            | cons close closes =>
              obtain rfl : t.punctuation = close := by simpa using hhead.symm
              have hkind : t.kind = .punctuation := by
                simp only [ParserToken.closing, Bool.or_eq_true] at hclosing
                rcases hclosing with (hc | hc) | hc <;> exact (is_iff.mp hc).1
              exact ⟨[], t, tokens, rfl, .nil, is_iff.mpr ⟨hkind, rfl⟩, hrest⟩
          · cases hnext
        · rename_i hclosing
          cases hnext
          have hplain : ∀ q, Balanced q → Balanced ([t] ++ q) := fun q hq =>
            Balanced.token heof hopen (by simpa using hclosing) hq
          exact hrest.prepend hplain

theorem balanced_iff : Balanced tokens ↔ stackAfter [] tokens = some [] :=
  ⟨fun h => h.stack [], fun h => unwinds_of_stack h⟩

/-! ## The loop -/

theorem nextCloses_eq (hkind : t.kind = .punctuation) : nextCloses closes t.punctuation =
      if t.punctuation = .semicolon ∧ closes = [] then none else nextToken closes t := by
  cases hmark : t.punctuation <;>
    simp [nextCloses, nextToken, hkind, ParserToken.opening, hmark, ParserToken.closing,
      ParserToken.is]

/-- The scan before its `k`-th token: the stack of the tokens passed, and no token passed outside all
brackets is a delimiter or a semicolon. -/
structure Scanning (terminator : ParserPunctuation) (tokens : List ParserToken) (k : Nat)
    (closes : List ParserPunctuation) : Prop where
  stack : stackAfter [] (tokens.take k) = some closes
  passed : ∀ j < k, Balanced (tokens.take j) → ∀ t, tokens[j]? = some t →
    ¬ Delimits terminator t ∧ t.is .semicolon = false

variable {terminator : ParserPunctuation} {k : Nat}

theorem Scanning.next {closes' : List ParserPunctuation} (h : Scanning terminator tokens k closes)
    (ht : tokens[k]? = some t) (hnext : nextToken closes t = some closes')
    (hpass : closes = [] → ¬ Delimits terminator t ∧ t.is .semicolon = false) :
    Scanning terminator tokens (k + 1) closes' := by
  constructor
  · rw [List.take_add_one, ht, stackAfter_append, h.stack]
    simpa [stackAfter_cons, stackAfter] using hnext
  · intro j hj hbalanced u hu
    by_cases hjk : j = k
    · subst hjk
      have hstack := h.stack.symm.trans (hbalanced.stack [])
      rw [ht] at hu
      obtain rfl := Option.some.inj hu
      exact hpass (Option.some.inj hstack)
    · exact h.passed j (by omega) hbalanced u hu

theorem Scanning.stops (h : Scanning terminator tokens k closes)
    (hstop : ∀ n, k ≤ n → ¬ IsInitializer terminator tokens n) (n : Nat) :
    ¬ IsInitializer terminator tokens n := by
  intro hn
  by_cases hk : k ≤ n
  · exact hstop n hk hn
  · obtain ⟨t, ht, hdelimits⟩ := hn.delimiter
    exact (h.passed n (by omega) hn.balanced t ht).1 hdelimits

theorem Scanning.stuck (h : Scanning terminator tokens k closes) (ht : tokens[k]? = some t)
    (hnext : nextToken closes t = none) (hdelimiter : closes = [] → ¬ Delimits terminator t)
    (n : Nat) : ¬ IsInitializer terminator tokens n := by
  apply h.stops
  intro n hk hn
  by_cases heq : n = k
  · subst heq
    obtain ⟨u, hu, hdelimits⟩ := hn.delimiter
    rw [ht] at hu
    obtain rfl := Option.some.inj hu
    have hstack := h.stack.symm.trans (hn.balanced.stack [])
    exact hdelimiter (Option.some.inj hstack) hdelimits
  · have hsplit : tokens.take n = tokens.take k ++ t :: (tokens.take n).drop (k + 1) := by
      have hlt : k < n := by omega
      have hget : (tokens.take n)[k]? = some t := by rw [List.getElem?_take_of_lt hlt, ht]
      rw [List.getElem?_eq_some_iff] at hget
      obtain ⟨hlen, hget⟩ := hget
      have hcut := List.take_append_drop k (tokens.take n)
      rw [List.take_take, Nat.min_eq_left (by omega), List.drop_eq_getElem_cons hlen, hget] at hcut
      exact hcut.symm
    have hstack := hn.balanced.stack []
    rw [hsplit, stackAfter_append, h.stack, Option.bind_some, stackAfter_cons, hnext] at hstack
    cases hstack

/-- What the scan ends with: acceptance exactly of an initializer, the cursor then on its delimiter and
the spelling up to it. -/
structure Scanned (terminator : ParserPunctuation) (p : TokenCursor) (r : Scan) : Prop where
  tokens : r.parser.tokens = p.tokens
  accepted : r.accepted = true ↔ ∃ n, IsInitializer terminator p.rest n
  stands : ∀ n, IsInitializer terminator p.rest n → r.parser.cursor = p.cursor + n ∧
    r.spelling = ⟨p.current.offset, positionDifference r.parser.current.offset p.current.offset⟩

variable {n : Nat}

theorem IsInitializer.unique {m : Nat} (hn : IsInitializer terminator tokens n)
    (hm : IsInitializer terminator tokens m) : n = m := by
  obtain ⟨t, ht, htd⟩ := hn.delimiter
  obtain ⟨u, hu, hud⟩ := hm.delimiter
  by_contra hne
  by_cases hlt : n < m
  · exact (hm.first n hlt hn.balanced t ht).1 htd
  · exact (hn.first m (by omega) hm.balanced u hu).1 hud

theorem current_rest {p : TokenCursor} {start : Nat} (hcursor : p.cursor = start + k)
    (ht : (p.tokens.drop start)[k]? = some t) : p.current = t := by
  rw [List.getElem?_drop, ← hcursor] at ht
  have hlt := (List.getElem?_eq_some_iff.mp ht).1
  rw [TokenCursor.current, if_pos hlt, List.getD_eq_getElem?_getD, ht]
  rfl

theorem scanLoop_spec {p : TokenCursor} {spelling : SourceSpan} {fuel : Nat} {e : ParserToken}
    (hlast : p.tokens.getLast? = some e) (heof : e.kind = .eof)
    (hscan : Scanning terminator p.rest k closes) (hk : p.cursor + k < p.tokens.length)
    (hfuel : p.tokens.length < fuel + p.cursor + k) :
    ∃ r, scanLoop terminator p.current.offset spelling fuel { p with cursor := p.cursor + k } closes
      (decide (0 < k)) = some r ∧ Scanned terminator p r := by
  induction fuel generalizing k closes with
  | zero => omega
  | succ fuel ih =>
    have hget : p.rest[k]? = some (p.tokens.getD (p.cursor + k) {}) := by
      rw [TokenCursor.rest, List.getElem?_drop, List.getD_eq_getElem?_getD,
        List.getElem?_eq_getElem hk]
      rfl
    have hcurrent : ({ p with cursor := p.cursor + k } : TokenCursor).current =
        p.tokens.getD (p.cursor + k) {} := by
      rw [TokenCursor.current, if_pos hk]
    generalize htoken : p.tokens.getD (p.cursor + k) {} = t at hget hcurrent
    have hfail : (∀ n, ¬ IsInitializer terminator p.rest n) →
        Scanned terminator p ⟨false, spelling, { p with cursor := p.cursor + k }⟩ := by
      intro hno
      refine ⟨rfl, ?_, fun n hn => absurd hn (hno n)⟩
      simp [hno]
    have hnotEof : t.kind ≠ .eof → p.cursor + k + 1 < p.tokens.length := by
      intro hkind
      by_contra hge
      have hend : p.cursor + k = p.tokens.length - 1 := by omega
      rw [List.getLast?_eq_getElem?, ← hend] at hlast
      rw [List.getD_eq_getElem?_getD, hlast, Option.getD_some] at htoken
      exact hkind (htoken ▸ heof)
    have hcontinue : ∀ closes', t.kind ≠ .eof → nextToken closes t = some closes' →
        (closes = [] → ¬ Delimits terminator t ∧ t.is .semicolon = false) →
        ∃ r, scanLoop terminator p.current.offset spelling fuel
          ({ p with cursor := p.cursor + k } : TokenCursor).advance closes' true = some r ∧
            Scanned terminator p r := by
      intro closes' hkind hnext hpass
      have hlt := hnotEof hkind
      have hadvance : ({ p with cursor := p.cursor + k } : TokenCursor).advance =
          { p with cursor := p.cursor + (k + 1) } := by
        rw [TokenCursor.advance, if_pos hlt]
        rfl
      rw [hadvance]
      have hrest := ih (hscan.next hget hnext hpass) (by omega) (by omega)
      simpa using hrest
    rw [scanLoop, hcurrent]
    split
    · rename_i hkind
      refine ⟨_, rfl, hfail (hscan.stuck hget (by simp [nextToken, hkind]) fun _ hd => ?_)⟩
      simp [Delimits, ParserToken.is, hkind] at hd
    · rename_i hkind
      split
      · rename_i hpunctuation
        have hdelimits : Delimits terminator t ↔
            t.punctuation = terminator ∨ t.punctuation = .comma := by
          rw [Delimits, is_iff, is_iff]
          simp [hpunctuation]
        split
        · rename_i hstop
          rw [Bool.and_eq_true, Bool.or_eq_true, decide_eq_true_eq, decide_eq_true_eq,
            ← hdelimits, List.isEmpty_iff] at hstop
          obtain ⟨hempty, hstop⟩ := hstop
          subst hempty
          refine ⟨_, rfl, rfl, ?_, fun n hn => ?_⟩
          · rw [decide_eq_true_eq]
            constructor
            · intro hpos
              exact ⟨k, ⟨t, hget, hstop⟩, hpos, unwinds_of_stack hscan.stack, hscan.passed⟩
            · rintro ⟨n, hn⟩
              by_contra hzero
              obtain rfl : k = 0 := by omega
              exact (hn.first 0 hn.nonempty .nil t hget).1 hstop
          · have hk0 : 0 < k := by
              by_contra hzero
              obtain rfl : k = 0 := by omega
              exact (hn.first 0 hn.nonempty .nil t hget).1 hstop
            have hinit : IsInitializer terminator p.rest k :=
              ⟨⟨t, hget, hstop⟩, hk0, unwinds_of_stack hscan.stack, hscan.passed⟩
            obtain rfl := hn.unique hinit
            rw [hcurrent]
            exact ⟨rfl, rfl⟩
        · rename_i hstop
          have hpass : closes = [] → ¬ Delimits terminator t := by
            rintro rfl hd
            apply hstop
            rw [hdelimits] at hd
            simpa using hd
          split
          · rename_i hnext
            refine ⟨_, rfl, hfail ?_⟩
            rw [nextCloses_eq hpunctuation] at hnext
            split at hnext
            · rename_i hsemicolon
              apply hscan.stops
              intro n hkn hn
              by_cases heq : n = k
              · subst heq
                obtain ⟨u, hu, hud⟩ := hn.delimiter
                rw [hget] at hu
                obtain rfl := Option.some.inj hu
                exact hpass hsemicolon.2 hud
              · have hbalanced : Balanced (p.rest.take k) :=
                  balanced_iff.mpr (hsemicolon.2 ▸ hscan.stack)
                have hno := (hn.first k (by omega) hbalanced t hget).2
                rw [is_iff.mpr ⟨hpunctuation, hsemicolon.1⟩] at hno
                cases hno
            · exact hscan.stuck hget hnext hpass
          · rename_i closes' hnext
            rw [nextCloses_eq hpunctuation] at hnext
            split at hnext
            · cases hnext
            · rename_i hsemicolon
              apply hcontinue closes' hkind hnext
              intro hempty
              refine ⟨hpass hempty, ?_⟩
              cases his : t.is .semicolon with
              | false => rfl
              | true => exact absurd ⟨(is_iff.mp his).2, hempty⟩ hsemicolon
      · rename_i hpunctuation
        have hopen : t.opening = none := by
          rw [ParserToken.opening, if_pos hpunctuation]
        have his : ∀ value, t.is value = false := by
          intro value
          cases h : t.is value with
          | false => rfl
          | true => exact absurd (is_iff.mp h).1 hpunctuation
        apply hcontinue closes hkind
        · exact nextToken_plain hkind hopen (by simp [ParserToken.closing, his])
        · intro _
          refine ⟨?_, his _⟩
          rintro (h | h) <;> simp [his] at h

theorem scanExpression_spec (terminator : ParserPunctuation) {p : TokenCursor}
    (spelling : SourceSpan) {e : ParserToken} (hlast : p.tokens.getLast? = some e)
    (heof : e.kind = .eof) :
    ∃ r, scanExpression p spelling terminator = some r ∧ Scanned terminator p r := by
  by_cases hcursor : p.cursor < p.tokens.length
  · have hstart : Scanning terminator p.rest 0 [] :=
      ⟨rfl, fun j hj => absurd hj (Nat.not_lt_zero j)⟩
    exact scanLoop_spec hlast heof hstart hcursor (by omega)
  · -- behind the tokens the current one is the last
    have hcurrent : p.current = e := by
      rw [TokenCursor.current, if_neg hcursor, List.getD_eq_getElem?_getD,
        ← List.getLast?_eq_getElem?, hlast]
      rfl
    have hno : ∀ n, ¬ IsInitializer terminator p.rest n := by
      intro n hn
      obtain ⟨t, ht, -⟩ := hn.delimiter
      rw [TokenCursor.rest, List.drop_eq_nil_of_le (by omega)] at ht
      cases ht
    refine ⟨⟨false, spelling, p⟩, ?_, rfl, by simp [hno], fun n hn => absurd hn (hno n)⟩
    rw [scanExpression, scanLoop]
    simp [hcurrent, heof]

/-! ## Spellings and rejections -/

/-- The tokens stand one behind the other in a text of at most 32 bits. -/
structure TokensInText (tokens : List ParserToken) : Prop where
  ordered : tokens.Pairwise fun a b => a.offset + a.length ≤ b.offset
  within : ∀ t ∈ tokens, t.offset < 2 ^ 32

/-- The span holds the tokens from `first` on and before `last`, and no part of another. -/
structure Covers (tokens : List ParserToken) (span : SourceSpan) (first last : Nat) : Prop where
  inside : ∀ i t, tokens[i]? = some t → first ≤ i → i < last →
    span.offset ≤ t.offset ∧ t.offset + t.length ≤ span.offset + span.length
  before : ∀ i t, tokens[i]? = some t → i < first → t.offset + t.length ≤ span.offset
  behind : ∀ i t, tokens[i]? = some t → last ≤ i → span.offset + span.length ≤ t.offset

variable {a b : ParserToken}

theorem TokensInText.later (h : TokensInText tokens) {i j : Nat} (ha : tokens[i]? = some a)
    (hb : tokens[j]? = some b) (hij : i < j) : a.offset + a.length ≤ b.offset := by
  obtain ⟨hi, rfl⟩ := List.getElem?_eq_some_iff.mp ha
  obtain ⟨hj, rfl⟩ := List.getElem?_eq_some_iff.mp hb
  exact List.pairwise_iff_getElem.mp h.ordered i j hi hj hij

theorem TokensInText.covers (h : TokensInText tokens) {first last : Nat}
    (ha : tokens[first]? = some a) (hb : tokens[last]? = some b) (hlt : first < last) :
    Covers tokens ⟨a.offset, positionDifference b.offset a.offset⟩ first last := by
  have hab := h.later ha hb hlt
  have hbound := h.within b (List.mem_of_getElem? hb)
  have hlength : a.offset + positionDifference b.offset a.offset = b.offset := by
    unfold positionDifference
    omega
  refine ⟨fun i t ht hi hil => ⟨?_, ?_⟩, fun i t ht hi => h.later ht ha hi, fun i t ht hi => ?_⟩
  · by_cases heq : i = first
    · subst heq
      rw [ha] at ht
      obtain rfl := Option.some.inj ht
      exact Nat.le_refl _
    · have := h.later ha ht (by omega)
      dsimp only
      omega
  · have := h.later ht hb hil
    dsimp only
    omega
  · dsimp only
    rw [hlength]
    by_cases heq : i = last
    · subst heq
      rw [hb] at ht
      obtain rfl := Option.some.inj ht
      exact Nat.le_refl _
    · have := h.later hb ht (by omega)
      omega

theorem Scanned.covers {p : TokenCursor} {r : Scan} (h : Scanned terminator p r)
    (htext : TokensInText p.tokens) (hn : IsInitializer terminator p.rest n) :
    Covers p.tokens r.spelling p.cursor (p.cursor + n) := by
  obtain ⟨hcursor, hspelling⟩ := h.stands n hn
  obtain ⟨t, ht, -⟩ := hn.delimiter
  have hlast : r.parser.current = t := by
    have hthere : (r.parser.tokens.drop p.cursor)[n]? = some t := by
      rw [h.tokens]
      exact ht
    exact current_rest hcursor hthere
  rw [TokenCursor.rest, List.getElem?_drop] at ht
  have hlt : p.cursor < p.tokens.length := by
    have := (List.getElem?_eq_some_iff.mp ht).1
    omega
  have hfirst : p.tokens[p.cursor]? = some p.current := by
    rw [TokenCursor.current, if_pos hlt, List.getD_eq_getElem?_getD, List.getElem?_eq_getElem hlt]
    rfl
  rw [hspelling, hlast]
  have hpos := hn.nonempty
  exact htext.covers hfirst ht (by omega)

def Rejected {α : Type} (x : ParseM α) : Prop :=
  ∃ location detail, x = .error (.syntaxError location detail)

theorem Rejected.bind {α β : Type} {x : ParseM α} (h : Rejected x) (f : α → ParseM β) :
    Rejected (x >>= f) := by
  obtain ⟨location, detail, rfl⟩ := h
  exact ⟨location, detail, rfl⟩

def NoInitializer (terminator : ParserPunctuation) (p : TokenCursor) : Prop :=
  ∀ n, ¬ IsInitializer terminator p.rest n

/-- Each declaration with an initializer here is rejected where the scan finds none. -/
structure RejectsInitializers (p : TokenCursor) : Prop where
  declarator : NoInitializer .semicolon p → ∀ detail, Rejected (skipDeclaratorInitializer p detail)
  memberBraces : p.punctuation .leftBrace = true → NoInitializer .semicolon p →
    Rejected (memberInitializer p)
  objectBrackets : p.punctuation .leftBrace = true ∨ p.punctuation .leftParenthesis = true →
    NoInitializer .semicolon p → Rejected (objectInitializer p)
  equalSign : p.punctuation .equal = true → NoInitializer .semicolon p.advance →
    Rejected (memberInitializer p) ∧ Rejected (objectInitializer p)
  parameter : NoInitializer .rightParenthesis p → Rejected (defaultArgument p)
  argument : p.punctuation .rightParenthesis = false → NoInitializer .rightParenthesis p →
    Rejected (constructorArgument p)
  item : p.punctuation .rightBrace = false → NoInitializer .rightBrace p → ∀ fuel,
    Rejected (constructorItems (fuel + 1) p)
  assignment : NoInitializer .semicolon p → Rejected (constructorAssignment p)

theorem TokenCursor.advance_tokens (p : TokenCursor) : p.advance.tokens = p.tokens := by
  rw [TokenCursor.advance]
  split <;> rfl

theorem TokenCursor.punctuation_ne {p : TokenCursor} {a b : ParserPunctuation}
    (h : p.punctuation a = true) (hne : a ≠ b) : p.punctuation b = false := by
  cases hb : p.punctuation b with
  | false => rfl
  | true => exact absurd ((is_iff.mp h).2.symm.trans (is_iff.mp hb).2) hne

section rejection

variable {p : TokenCursor} {e : ParserToken}

theorem scan_rejected {terminator : ParserPunctuation} (hlast : p.tokens.getLast? = some e)
    (heof : e.kind = .eof) (hno : NoInitializer terminator p) (spelling : SourceSpan)
    (detail : String) : Rejected (ParseM.scan p spelling terminator detail) := by
  obtain ⟨r, hr, hscanned⟩ := scanExpression_spec terminator spelling hlast heof
  have hfalse : r.accepted ≠ true := by
    intro h
    obtain ⟨n, hn⟩ := hscanned.accepted.mp h
    exact hno n hn
  refine ⟨r.parser.span, detail, ?_⟩
  rw [ParseM.scan, hr]
  simp [hfalse]

theorem rejectsInitializers (hlast : p.tokens.getLast? = some e) (heof : e.kind = .eof) :
    RejectsInitializers p := by
  have hskip : ∀ q : TokenCursor, q.tokens = p.tokens → NoInitializer .semicolon q → ∀ detail,
      Rejected (skipDeclaratorInitializer q detail) := by
    intro q hq hno detail
    exact (scan_rejected (hq ▸ hlast) heof hno _ _).bind _
  constructor
  · exact hskip p rfl
  · intro hbrace hno
    rw [memberInitializer, TokenCursor.punctuation_ne hbrace (by decide),
      TokenCursor.punctuation_ne hbrace (by decide), hbrace]
    exact hskip p rfl hno _
  · intro hbracket hno
    have hequal : p.punctuation .equal = false := by
      cases hbracket with
      | inl h => exact TokenCursor.punctuation_ne h (by decide)
      | inr h => exact TokenCursor.punctuation_ne h (by decide)
    have hopen : (p.punctuation .leftParenthesis || p.punctuation .leftBrace) = true := by
      rw [Bool.or_eq_true]
      exact hbracket.symm
    rw [objectInitializer, hequal, hopen]
    exact hskip p rfl hno _
  · intro hequal hno
    have hadvance := hskip p.advance p.advance_tokens hno
    constructor
    · rw [memberInitializer, TokenCursor.punctuation_ne hequal (by decide), hequal]
      exact (hadvance _).bind _
    · rw [objectInitializer, hequal]
      exact (hadvance _).bind _
  · intro hno
    exact (scan_rejected hlast heof hno _ _).bind _
  · intro hclose hno
    rw [constructorArgument, hclose]
    exact scan_rejected hlast heof hno _ _
  · intro hclose hno fuel
    rw [constructorItems, hclose]
    exact (scan_rejected hlast heof hno _ _).bind _
  · intro hno
    exact (scan_rejected hlast heof hno _ _).bind _

end rejection

/-- In every token sequence that ends in the end of the file and from every position the scan ends; it
accepts exactly an initializer, leaves the cursor on the delimiter behind it and records the tokens
before; where there is none the declaration is rejected. -/
theorem scan_exact {p : TokenCursor} {e : ParserToken} (terminator : ParserPunctuation)
    (spelling : SourceSpan) (hlast : p.tokens.getLast? = some e) (heof : e.kind = .eof) :
    (∃ r, scanExpression p spelling terminator = some r ∧ r.parser.tokens = p.tokens ∧
      (r.accepted = true ↔ ∃ n, IsInitializer terminator p.rest n) ∧
      ∀ n, IsInitializer terminator p.rest n → r.parser.cursor = p.cursor + n ∧
        (TokensInText p.tokens → Covers p.tokens r.spelling p.cursor (p.cursor + n))) ∧
      RejectsInitializers p := by
  obtain ⟨r, hr, hscanned⟩ := scanExpression_spec terminator spelling hlast heof
  refine ⟨⟨r, hr, hscanned.tokens, hscanned.accepted, fun n hn => ?_⟩,
    rejectsInitializers hlast heof⟩
  exact ⟨(hscanned.stands n hn).1, fun htext => hscanned.covers htext hn⟩

/-- `(1,2)];`: the first two brackets match, the third does not. -/
def mismatchedTokens : List ParserToken :=
  [⟨0, 1, .punctuation, .leftParenthesis⟩, ⟨1, 1, .integerLiteral, .none⟩,
    ⟨2, 1, .punctuation, .comma⟩, ⟨3, 1, .integerLiteral, .none⟩,
    ⟨4, 1, .punctuation, .rightParenthesis⟩, ⟨5, 1, .punctuation, .rightBracket⟩,
    ⟨6, 1, .punctuation, .semicolon⟩, ⟨7, 0, .eof, .none⟩]

theorem scan_exact_mismatched :
    ∃ r, scanExpression ⟨mismatchedTokens, 0⟩ {} .semicolon = some r ∧ r.accepted = false ∧
      ∀ n, ¬ IsInitializer .semicolon mismatchedTokens n := by
  obtain ⟨⟨r, hr, -, haccepted, -⟩, -⟩ :=
    scan_exact (p := ⟨mismatchedTokens, 0⟩) .semicolon {} rfl rfl
  have hresult : r = ⟨false, {}, ⟨mismatchedTokens, 5⟩⟩ := by
    have heq : scanExpression ⟨mismatchedTokens, 0⟩ {} .semicolon =
        some ⟨false, {}, ⟨mismatchedTokens, 5⟩⟩ := by decide
    exact Option.some.inj (hr.symm.trans heq)
  refine ⟨r, hr, by rw [hresult], fun n hn => ?_⟩
  have htrue := haccepted.mpr ⟨n, hn⟩
  rw [hresult] at htrue
  cases htrue

end ServerEngine
