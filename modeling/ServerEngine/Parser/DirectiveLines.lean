import ServerEngine.Parser.LexicalGaps

/-! # Directive lines

A directive is a logical line that begins with `#`; a newline inside a comment ends no line. The
lexer finds these lines unless a `#` hides behind a comment of several lines.
-/
namespace ServerEngine
open ErrorFold

/-! ## Logical lines -/

def Lexeme.isHash : Lexeme → Bool
  | .token _ _ punctuation => punctuation == .hash
  | _ => false

/-- The lexemes at the front of a text, up to the first that is refused. -/
def lexemes : Nat → Nat → Bytes → List Lexeme
  | _, _, [] => []
  | 0, _, _ :: _ => []
  | fuel + 1, index, value :: rest =>
    match readLexeme index value rest with
    | .ok lexeme =>
      lexeme :: lexemes fuel (index + lexeme.length) ((value :: rest).drop lexeme.length)
    | .error _ => []

def lexemesOf (text : Bytes) : List Lexeme := lexemes text.length 0 text

def logicalLines : List Lexeme → List (List Lexeme)
  | [] => [[]]
  | .newline :: rest => [] :: logicalLines rest
  | lexeme :: rest =>
    match logicalLines rest with
    | [] => [[lexeme]]
    | line :: lines => (lexeme :: line) :: lines

def tokenCount (line : List Lexeme) : Nat := line.countP Lexeme.isToken

/-- The first token of the line is `#`. -/
def isDirectiveLine (line : List Lexeme) : Bool := (line.find? Lexeme.isToken).any Lexeme.isHash

def directiveRuns : Nat → List (List Lexeme) → List DirectiveSpan
  | _, [] => []
  | first, line :: lines =>
    (if isDirectiveLine line then [⟨first, first + tokenCount line⟩] else []) ++
      directiveRuns (first + tokenCount line) lines

/-- The next token of the line is `#` and stands at the start of a physical line. -/
def leads : Bool → List Lexeme → Bool
  | _, [] => false
  | _, .newline :: _ => false
  | start, .token _ _ punctuation :: _ => punctuation == .hash && start
  | start, .blockComment _ newline :: rest => leads (start || newline) rest
  | start, _ :: rest => leads start rest

/-- Behind a token and on the same logical line, a comment of several lines has a `#` as the next
token. -/
def hidesHash : List Lexeme → Bool
  | [] => false
  | .token _ _ _ :: rest => leads false rest || hidesHash rest
  | _ :: rest => hidesHash rest

/-- The last `#` of a line that the lexer takes for the start of a directive. -/
def lastHash : Bool → Nat → List Lexeme → Option Nat
  | _, _, [] => none
  | start, first, .token _ _ punctuation :: rest =>
    match lastHash false (first + 1) rest with
    | some found => some found
    | none => if punctuation == .hash && start then some first else none
  | start, first, .blockComment _ newline :: rest => lastHash (start || newline) first rest
  | start, first, _ :: rest => lastHash start first rest

def lexedRuns : Nat → List (List Lexeme) → List DirectiveSpan
  | _, [] => []
  | first, line :: lines =>
    ((lastHash true first line).map fun found =>
      (⟨found, first + tokenCount line⟩ : DirectiveSpan)).toList ++
      lexedRuns (first + tokenCount line) lines

section Lines
variable {line rest : List Lexeme}

theorem tokenCount_token (length : Nat) (kind : ParserTokenKind) (punctuation : ParserPunctuation)
    (line : List Lexeme) :
    tokenCount (.token length kind punctuation :: line) = tokenCount line + 1 :=
  List.countP_cons_of_pos rfl

theorem logicalLines_cons {l : Lexeme} (h : l ≠ .newline) {first : List Lexeme}
    {lines : List (List Lexeme)} (hrest : logicalLines rest = first :: lines) :
    logicalLines (l :: rest) = (l :: first) :: lines := by
  cases l with
  | newline => exact absurd rfl h
  | _ => simp only [logicalLines, hrest]

theorem logicalLines_single (h : ∀ l ∈ line, l ≠ .newline) : logicalLines line = [line] := by
  induction line with
  | nil => rfl
  | cons l line ih =>
    exact logicalLines_cons (h l List.mem_cons_self)
      (ih fun other hother => h other (List.mem_cons_of_mem _ hother))

theorem logicalLines_newline (h : ∀ l ∈ line, l ≠ .newline) :
    logicalLines (line ++ .newline :: rest) = line :: logicalLines rest := by
  induction line with
  | nil => rfl
  | cons l line ih =>
    exact logicalLines_cons (h l List.mem_cons_self)
      (ih fun other hother => h other (List.mem_cons_of_mem _ hother))

theorem line_induction {P : List Lexeme → Prop}
    (single : ∀ line, (∀ l ∈ line, l ≠ .newline) → P line)
    (more : ∀ line rest, (∀ l ∈ line, l ≠ .newline) → P rest → P (line ++ .newline :: rest)) :
    ∀ ls, P ls := by
  have split : ∀ (ls line : List Lexeme), (∀ l ∈ line, l ≠ .newline) →
      (∀ short : List Lexeme, short.length < ls.length → P short) → P (line ++ ls) := by
    intro ls
    induction ls with
    | nil =>
      intro line hline _
      rw [List.append_nil]
      exact single line hline
    | cons l ls ih =>
      intro line hline hshort
      by_cases hl : l = .newline
      · rw [hl]
        exact more line ls hline (hshort ls (by simp))
      · rw [List.append_cons]
        apply ih
        · intro other hother
          rw [List.mem_append, List.mem_singleton] at hother
          cases hother with
          | inl hmem => exact hline other hmem
          | inr heq => exact heq ▸ hl
        · exact fun short hlt => hshort short (by simp; omega)
  intro ls
  induction hn : ls.length using Nat.strongRecOn generalizing ls with
  | ind n ih =>
    apply split ls [] (fun _ h => absurd h List.not_mem_nil)
    exact fun short hlt => ih short.length (hn ▸ hlt) short rfl

end Lines

section Machine
variable {line rest : List Lexeme} {s : LexState}

/-- A line that the loop has read: how many tokens it put out, and which directive is open. -/
structure Read (line : List Lexeme) (s s' : LexState) : Prop where
  tokens : s'.output.length = s.output.length + tokenCount line
  directives : s'.directives = s.directives
  opened : s'.directiveOpen =
    ((lastHash s.lineStart s.output.length line).isSome || s.directiveOpen)
  begins : s'.directiveBegin =
    (lastHash s.lineStart s.output.length line).getD s.directiveBegin

theorem read_line (h : ∀ l ∈ line, l ≠ .newline) (s : LexState) :
    Read line s (line.foldl LexState.accept s) := by
  induction line generalizing s with
  | nil => exact ⟨rfl, rfl, rfl, rfl⟩
  | cons l line ih =>
    have hread := ih (fun other hother => h other (List.mem_cons_of_mem _ hother)) (s.accept l)
    rw [List.foldl_cons]
    cases l with
    | newline => exact absurd rfl (h _ List.mem_cons_self)
    | blank => exact ⟨hread.tokens, hread.directives, hread.opened, hread.begins⟩
    | lineComment length => exact ⟨hread.tokens, hread.directives, hread.opened, hread.begins⟩
    | blockComment length newline =>
      exact ⟨hread.tokens, hread.directives, hread.opened, hread.begins⟩
    | token length kind punctuation =>
      have hlength : (s.accept (.token length kind punctuation)).output.length =
          s.output.length + 1 := List.length_append
      have hstart : (s.accept (.token length kind punctuation)).lineStart = false := rfl
      obtain ⟨htokens, hdirectives, hopened, hbegins⟩ := hread
      rw [hlength] at htokens hopened hbegins
      rw [hstart] at hopened hbegins
      refine ⟨by rw [htokens, tokenCount_token]; omega, hdirectives, ?_, ?_⟩
      · rw [hopened]
        simp only [lastHash, LexState.accept]
        cases lastHash false (s.output.length + 1) line with
        | some found => rfl
        | none => cases (punctuation == .hash && s.lineStart) <;> rfl
      · rw [hbegins]
        simp only [lastHash, LexState.accept]
        cases lastHash false (s.output.length + 1) line with
        | some found => rfl
        | none => cases (punctuation == .hash && s.lineStart) <;> rfl

theorem close_line (h : ∀ l ∈ line, l ≠ .newline) (hstart : s.lineStart = true)
    (hopen : s.directiveOpen = false) :
    (line.foldl LexState.accept s).close = s.directives ++
      ((lastHash true s.output.length line).map fun found =>
        (⟨found, s.output.length + tokenCount line⟩ : DirectiveSpan)).toList := by
  obtain ⟨htokens, hdirectives, hopened, hbegins⟩ := read_line h s
  rw [hstart] at hopened hbegins
  rw [hopen, Bool.or_false] at hopened
  unfold LexState.close
  rw [htokens, hdirectives, hopened, hbegins]
  cases lastHash true s.output.length line with
  | none => exact (List.append_nil _).symm
  | some found => rfl

theorem close_lines (ls : List Lexeme) :
    ∀ s : LexState, s.lineStart = true → s.directiveOpen = false →
      (ls.foldl LexState.accept s).close =
        s.directives ++ lexedRuns s.output.length (logicalLines ls) := by
  induction ls using line_induction with
  | single line h =>
    intro s hstart hopen
    rw [close_line h hstart hopen, logicalLines_single h]
    simp [lexedRuns]
  | more line rest h ih =>
    intro s hstart hopen
    have hread := (read_line h s).tokens
    have hclose := close_line h hstart hopen
    rw [List.foldl_append, List.foldl_cons, logicalLines_newline h, lexedRuns]
    rw [ih _ rfl rfl]
    show LexState.close _ ++ lexedRuns (line.foldl LexState.accept s).output.length _ = _
    rw [hclose, hread, List.append_assoc]

end Machine

/-! ## Which lines they are -/

section Hidden
variable {line rest : List Lexeme}

theorem leads_newline (h : ∀ l ∈ line, l ≠ .newline) (start : Bool) :
    leads start (line ++ .newline :: rest) = leads start line := by
  induction line generalizing start with
  | nil => cases start <;> rfl
  | cons l line ih =>
    have hline := ih fun other hother => h other (List.mem_cons_of_mem _ hother)
    cases l with
    | newline => exact absurd rfl (h _ List.mem_cons_self)
    | blank => exact hline start
    | lineComment length => exact hline start
    | blockComment length newline => exact hline (start || newline)
    | token length kind punctuation => rfl

theorem hidesHash_newline (h : ∀ l ∈ line, l ≠ .newline) :
    hidesHash (line ++ .newline :: rest) = (hidesHash line || hidesHash rest) := by
  induction line with
  | nil => rfl
  | cons l line ih =>
    have hrest : ∀ other ∈ line, other ≠ .newline :=
      fun other hother => h other (List.mem_cons_of_mem _ hother)
    cases l with
    | newline => exact absurd rfl (h _ List.mem_cons_self)
    | blank => exact ih hrest
    | lineComment length => exact ih hrest
    | blockComment length newline => exact ih hrest
    | token length kind punctuation =>
      show (leads false (line ++ .newline :: rest) || hidesHash (line ++ .newline :: rest)) = _
      rw [leads_newline hrest, ih hrest, ← Bool.or_assoc]
      rfl

theorem hidesHash_lines (ls : List Lexeme) :
    hidesHash ls = (logicalLines ls).any hidesHash := by
  induction ls using line_induction with
  | single line h =>
    rw [logicalLines_single h]
    simp
  | more line rest h ih => rw [hidesHash_newline h, logicalLines_newline h, List.any_cons, ih]

theorem leads_true (h : ∀ l ∈ line, l ≠ .newline) : leads true line = isDirectiveLine line := by
  induction line with
  | nil => rfl
  | cons l line ih =>
    have hline := ih fun other hother => h other (List.mem_cons_of_mem _ hother)
    cases l with
    | newline => exact absurd rfl (h _ List.mem_cons_self)
    | blank => exact hline
    | lineComment length => exact hline
    | blockComment length newline => exact hline
    | token length kind punctuation =>
      have hfirst : (Lexeme.token length kind punctuation :: line).find? Lexeme.isToken =
          some (.token length kind punctuation) := List.find?_cons_of_pos rfl
      rw [isDirectiveLine, hfirst]
      exact Bool.and_true _

theorem lastHash_lt {start : Bool} {first found : Nat} (h : lastHash start first line = some found) :
    first ≤ found ∧ found < first + tokenCount line := by
  induction line generalizing start first with
  | nil => cases h
  | cons l line ih =>
    cases l with
    | newline => exact ih h
    | blank => exact ih h
    | lineComment length => exact ih h
    | blockComment length newline => exact ih h
    | token length kind punctuation =>
      rw [tokenCount_token]
      simp only [lastHash] at h
      split at h
      · rename_i later hlater
        cases h
        have hbounds := ih hlater
        omega
      · split at h
        · cases h
          omega
        · cases h

theorem lastHash_plain (h : ∀ l ∈ line, l ≠ .newline) (hplain : hidesHash line = false)
    (start : Bool) (first : Nat) :
    lastHash start first line = if leads start line then some first else none := by
  induction line generalizing start first with
  | nil => rfl
  | cons l line ih =>
    have hrest : ∀ other ∈ line, other ≠ .newline :=
      fun other hother => h other (List.mem_cons_of_mem _ hother)
    cases l with
    | newline => exact absurd rfl (h _ List.mem_cons_self)
    | blank => exact ih hrest hplain start first
    | lineComment length => exact ih hrest hplain start first
    | blockComment length newline => exact ih hrest hplain (start || newline) first
    | token length kind punctuation =>
      have hboth : leads false line = false ∧ hidesHash line = false := Bool.or_eq_false_iff.mp hplain
      simp only [lastHash, ih hrest hboth.2, hboth.1]
      rfl

theorem lastHash_hidden (h : ∀ l ∈ line, l ≠ .newline) (hhidden : hidesHash line = true)
    (start : Bool) (first : Nat) :
    ∃ found, lastHash start first line = some found ∧ first < found := by
  induction line generalizing start first with
  | nil => cases hhidden
  | cons l line ih =>
    have hrest : ∀ other ∈ line, other ≠ .newline :=
      fun other hother => h other (List.mem_cons_of_mem _ hother)
    cases l with
    | newline => exact absurd rfl (h _ List.mem_cons_self)
    | blank => exact ih hrest hhidden start first
    | lineComment length => exact ih hrest hhidden start first
    | blockComment length newline => exact ih hrest hhidden (start || newline) first
    | token length kind punctuation =>
      cases hlater : hidesHash line with
      | true =>
        obtain ⟨found, hfound, hlt⟩ := ih hrest hlater false (first + 1)
        exact ⟨found, by simp only [lastHash, hfound], by omega⟩
      | false =>
        have hleads : leads false line = true := by
          have hor : (leads false line || hidesHash line) = true := hhidden
          rwa [hlater, Bool.or_false] at hor
        have hfound := lastHash_plain hrest hlater false (first + 1)
        rw [hleads, if_pos rfl] at hfound
        exact ⟨first + 1, by simp only [lastHash, hfound], by omega⟩

end Hidden

/-! ## The reported spans -/

section Runs
variable {lines : List (List Lexeme)} {first : Nat}

theorem directiveLine_tokens {line : List Lexeme} (h : isDirectiveLine line = true) :
    0 < tokenCount line := by
  unfold isDirectiveLine at h
  cases hfind : line.find? Lexeme.isToken with
  | none =>
    rw [hfind] at h
    cases h
  | some l =>
    exact List.countP_pos_iff.mpr ⟨l, List.mem_of_find?_eq_some hfind, List.find?_some hfind⟩

theorem directiveRuns_bounds (lines : List (List Lexeme)) (first : Nat) :
    (directiveRuns first lines).Pairwise (fun a b => a.tokenEnd ≤ b.tokenBegin) ∧
      ∀ run ∈ directiveRuns first lines, first ≤ run.tokenBegin ∧ run.tokenBegin < run.tokenEnd ∧
        run.tokenEnd ≤ first + (lines.map tokenCount).sum := by
  induction lines generalizing first with
  | nil => exact ⟨List.Pairwise.nil, fun _ h => absurd h List.not_mem_nil⟩
  | cons line lines ih =>
    obtain ⟨hpairwise, hbounds⟩ := ih (first + tokenCount line)
    rw [directiveRuns, List.map_cons, List.sum_cons]
    cases hline : isDirectiveLine line with
    | false =>
      refine ⟨hpairwise, fun run hrun => ?_⟩
      have hrun := hbounds run hrun
      omega
    | true =>
      have htokens := directiveLine_tokens hline
      constructor
      · exact List.Pairwise.cons (fun run hrun => (hbounds run hrun).1) hpairwise
      · intro run hrun
        cases hrun with
        | head =>
          dsimp only
          omega
        | tail _ hmem =>
          have hrun := hbounds run hmem
          omega

theorem lexedRuns_iff (hlines : ∀ line ∈ lines, ∀ l ∈ line, l ≠ .newline) (first : Nat) :
    lexedRuns first lines = directiveRuns first lines ↔ lines.any hidesHash = false := by
  induction lines generalizing first with
  | nil => simp [lexedRuns, directiveRuns]
  | cons line lines ih =>
    have hrest := ih (fun other hother => hlines other (List.mem_cons_of_mem _ hother))
      (first + tokenCount line)
    have hline := hlines line List.mem_cons_self
    rw [lexedRuns, directiveRuns, List.any_cons]
    cases hhidden : hidesHash line with
    | false =>
      rw [lastHash_plain hline hhidden, leads_true hline, Bool.false_or, ← hrest]
      cases isDirectiveLine line with
      | false => simp
      | true => simp
    | true =>
      obtain ⟨found, hfound, hlt⟩ := lastHash_hidden hline hhidden true first
      have hbound := (lastHash_lt hfound).2
      rw [hfound, Bool.true_or]
      constructor
      · intro heq
        exfalso
        cases hdirective : isDirectiveLine line with
        | true =>
          rw [hdirective] at heq
          have hhead := congrArg DirectiveSpan.tokenBegin (List.cons.inj heq).1
          exact absurd hhead (Nat.ne_of_gt hlt)
        | false =>
          rw [hdirective] at heq
          have hmem : (⟨found, first + tokenCount line⟩ : DirectiveSpan) ∈
              directiveRuns (first + tokenCount line) lines := by
            have hfirst : (⟨found, first + tokenCount line⟩ : DirectiveSpan) ∈
                (Option.map (fun found => (⟨found, first + tokenCount line⟩ : DirectiveSpan))
                  (some found)).toList ++ lexedRuns (first + tokenCount line) lines :=
              List.mem_cons_self
            rw [heq] at hfirst
            exact hfirst
          have hge := ((directiveRuns_bounds lines (first + tokenCount line)).2 _ hmem).1
          dsimp only at hge
          omega
      · intro h
        cases h

end Runs

theorem logicalLines_no_newline (ls : List Lexeme) :
    ∀ line ∈ logicalLines ls, ∀ l ∈ line, l ≠ .newline := by
  induction ls using line_induction with
  | single line h =>
    rw [logicalLines_single h]
    intro other hother
    rw [List.mem_singleton.mp hother]
    exact h
  | more line rest h ih =>
    rw [logicalLines_newline h]
    intro other hother
    cases hother with
    | head => exact h
    | tail _ hmem => exact ih other hmem

theorem lexLoop_fold {fuel : Nat} {rest : Bytes} {s s' : LexState}
    (h : lexLoop fuel rest s = .ok s') :
    s' = (lexemes fuel s.index rest).foldl LexState.accept s := by
  induction fuel generalizing rest s with
  | zero => cases rest <;> cases h <;> rfl
  | succ fuel ih =>
    cases rest with
    | nil =>
      cases h
      rfl
    | cons value rest =>
      obtain ⟨lexeme, hlexeme, h⟩ := bind_ok.mp h
      rw [lexemes, hlexeme]
      have hrest := ih h
      rw [accept_index] at hrest
      exact hrest

theorem tokenCount_lines (ls : List Lexeme) :
    ((logicalLines ls).map tokenCount).sum = tokenCount ls := by
  induction ls using line_induction with
  | single line h =>
    rw [logicalLines_single h]
    simp
  | more line rest h ih =>
    have hcount : tokenCount (line ++ .newline :: rest) = tokenCount line + tokenCount rest := by
      simp [tokenCount, Lexeme.isToken]
    rw [logicalLines_newline h, List.map_cons, List.sum_cons, ih, hcount]

theorem fold_tokens (ls : List Lexeme) (s : LexState) :
    (ls.foldl LexState.accept s).output.length = s.output.length + tokenCount ls := by
  induction ls generalizing s with
  | nil => rfl
  | cons l ls ih =>
    rw [List.foldl_cons, ih]
    cases l with
    | token length kind punctuation =>
      have hlength : (s.accept (.token length kind punctuation)).output.length =
          s.output.length + 1 := List.length_append
      rw [tokenCount_token, hlength]
      omega
    | _ => rfl

end ServerEngine
