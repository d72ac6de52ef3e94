import ServerEngine.Parser.Lexer

/-! # Tokens in the text

The tokens of a source lie one behind the other in its text, and only blanks, newlines and comments
are between them.
-/
namespace ServerEngine
open ErrorFold

/-! ## What may stand between tokens -/

/-- One blank, newline or comment in front of the rest of a text. -/
inductive Trivia : Bytes → Bytes → Prop
  | blank {c : UInt8} {after : Bytes} : blankCharacter c = true ∨ c = 10 → Trivia [c] after
  | lineComment {body after : Bytes} : (∀ c ∈ body, c ≠ 10) →
      (after = [] ∨ after.head? = some 10) → Trivia (47 :: 47 :: body) after
  | blockComment {body after : Bytes} : ¬ [42, 47] <:+: body ++ [42] →
      Trivia (47 :: 42 :: (body ++ [42, 47])) after

/-- Blanks, newlines and comments in front of the rest of a text. -/
inductive Gap : Bytes → Bytes → Prop
  | nil {after : Bytes} : Gap [] after
  | cons {piece gap after : Bytes} : Trivia piece (gap ++ after) → Gap gap after →
      Gap (piece ++ gap) after

/-- The tokens of a text that begins at an index: each behind a gap, and a gap behind the last. -/
inductive TokensIn : Nat → Bytes → List LexToken → Prop
  | done {index : Nat} {rest : Bytes} : Gap rest [] → TokensIn index rest []
  | token {index : Nat} {gap body after : Bytes} {token : LexToken} {tokens : List LexToken} :
      Gap gap (body ++ after) → body ≠ [] → token.offset = index + gap.length →
      token.length = body.length → TokensIn (token.offset + token.length) after tokens →
      TokensIn index (gap ++ (body ++ after)) (token :: tokens)

variable {index : Nat} {rest : Bytes} {tokens : List LexToken}

theorem TokensIn.trivia {piece : Bytes} (hpiece : Trivia piece rest)
    (h : TokensIn (index + piece.length) rest tokens) : TokensIn index (piece ++ rest) tokens := by
  cases h with
  | done hgap =>
    apply TokensIn.done
    exact Gap.cons ((List.append_nil rest).symm ▸ hpiece) hgap
  | token hgap hbody hoffset hlength hrest =>
    rw [← List.append_assoc]
    apply TokensIn.token (Gap.cons hpiece hgap) hbody _ hlength hrest
    rw [hoffset, List.length_append, Nat.add_assoc]

theorem TokensIn.ordered (h : TokensIn index rest tokens) :
    tokens.Pairwise (fun a b => a.offset + a.length ≤ b.offset) ∧
      ∀ token ∈ tokens, index ≤ token.offset ∧ 0 < token.length ∧
        token.offset + token.length ≤ index + rest.length := by
  induction h with
  | done _ => exact ⟨List.Pairwise.nil, fun _ h => absurd h List.not_mem_nil⟩
  | token _ hbody hoffset hlength _ ih =>
    obtain ⟨hpairwise, hinside⟩ := ih
    have hpositive := List.length_pos_of_ne_nil hbody
    constructor
    · exact List.Pairwise.cons (fun other hother => (hinside other hother).1) hpairwise
    · intro other hother
      simp only [List.length_append]
      cases hother with
      | head => omega
      | tail _ hmem =>
        have hother := hinside other hmem
        omega

/-! ## One lexeme -/

def Lexeme.isToken : Lexeme → Bool
  | .token _ _ _ => true
  | _ => false

theorem takeWhile_length_le {α : Type} (p : α → Bool) (xs : List α) :
    (xs.takeWhile p).length ≤ xs.length :=
  (List.takeWhile_prefix p).length_le

variable {length : Nat}

theorem scanBlock_some {newline : Bool} {found : Bool}
    (h : scanBlock rest newline = some (length, found)) :
    ∃ body after, rest = body ++ [42, 47] ++ after ∧ length = body.length + 2 ∧
      ¬ [42, 47] <:+: body ++ [42] := by
  induction rest generalizing newline length found with
  | nil => cases h
  | cons first rest ih =>
    cases rest with
    | nil => cases h
    | cons second rest =>
      unfold scanBlock at h
      split at h
      · rename_i hclose
        obtain ⟨rfl, rfl⟩ := hclose
        cases h
        exact ⟨[], rest, rfl, rfl, by decide⟩
      · rename_i hopen
        obtain ⟨⟨count, seen⟩, hscan, heq⟩ := Option.map_eq_some_iff.mp h
        cases heq
        obtain ⟨body, after, hrest, hcount, hnone⟩ := ih hscan
        refine ⟨first :: body, after, by rw [hrest]; rfl, by simp [hcount], ?_⟩
        intro hinfix
        rw [List.cons_append, List.infix_cons_iff] at hinfix
        apply hinfix.elim _ hnone
        intro hfront
        rw [List.cons_prefix_cons] at hfront
        apply hopen
        refine ⟨hfront.1.symm, ?_⟩
        cases body with
        | nil =>
          have hhead := hfront.2
          simp at hhead
        | cons c body =>
          have hhead := (List.cons_prefix_cons.mp hfront.2).1
          rw [List.cons_append, List.cons_append, List.cons.injEq] at hrest
          rw [hrest.1, ← hhead]

variable {lexeme : Lexeme}

theorem readQuoted_ok {quote : UInt8} {kind : ParserTokenKind} {detail : String}
    (h : readQuoted quote index rest kind detail = .ok lexeme) :
    lexeme.isToken = true ∧ 0 < lexeme.length ∧ lexeme.length ≤ rest.length + 1 := by
  unfold readQuoted at h
  dsimp only at h
  split at h
  · rename_i hquote
    cases h
    have hlt := (List.getElem?_eq_some_iff.mp hquote).1
    refine ⟨rfl, ?_, ?_⟩
    · simp [Lexeme.length]
    · simp [Lexeme.length]
      omega
  · cases h

variable {value : UInt8}

theorem readPunctuation_ok (h : readPunctuation index value rest = .ok lexeme) :
    lexeme.isToken = true ∧ 0 < lexeme.length ∧ lexeme.length ≤ rest.length + 1 := by
  unfold readPunctuation at h
  split at h
  · cases h
  · split at h
    · rename_i hhead
      cases h
      cases rest with
      | nil => cases hhead
      | cons next rest => simp [Lexeme.isToken, Lexeme.length]
    · cases h
      simp [Lexeme.isToken, Lexeme.length]
  · cases h
    simp [Lexeme.isToken, Lexeme.length]

theorem drop_takeWhile_newline (text : Bytes) :
    text.drop (text.takeWhile (· ≠ 10)).length = [] ∨
      (text.drop (text.takeWhile (· ≠ 10)).length).head? = some 10 := by
  induction text with
  | nil => exact Or.inl rfl
  | cons c rest ih =>
    by_cases hc : c = 10
    · right
      simp [hc]
    · simpa [hc] using ih

variable {tail : Bytes}

theorem lineComment_trivia : Trivia ((47 :: 47 :: tail).take (2 + (tail.takeWhile (· ≠ 10)).length))
      ((47 :: 47 :: tail).drop (2 + (tail.takeWhile (· ≠ 10)).length)) := by
  have htake : tail.take (tail.takeWhile (· ≠ 10)).length = tail.takeWhile (· ≠ 10) :=
    (List.prefix_iff_eq_take.mp (List.takeWhile_prefix _)).symm
  rw [Nat.add_comm, List.take_succ_cons, List.take_succ_cons, List.drop_succ_cons,
    List.drop_succ_cons, htake]
  apply Trivia.lineComment _ (drop_takeWhile_newline tail)
  intro c hc
  simpa using List.mem_takeWhile_imp hc

theorem blockComment_trivia {body after : Bytes} (htail : tail = body ++ [42, 47] ++ after)
    (hlength : length = body.length + 2) (hnone : ¬ [42, 47] <:+: body ++ [42]) :
    Trivia ((47 :: 42 :: tail).take (length + 2)) ((47 :: 42 :: tail).drop (length + 2)) := by
  have hwhole : (body ++ [42, 47]).length = length := by
    rw [hlength, List.length_append]
    rfl
  rw [List.take_succ_cons, List.take_succ_cons, List.drop_succ_cons, List.drop_succ_cons, htail,
    List.take_left' hwhole, List.drop_left' hwhole]
  exact Trivia.blockComment hnone

/-- A lexeme takes bytes of the text, and what is no token is a piece of a gap. -/
theorem readLexeme_ok (h : readLexeme index value rest = .ok lexeme) :
    0 < lexeme.length ∧ lexeme.length ≤ rest.length + 1 ∧ (lexeme.isToken = false →
      Trivia ((value :: rest).take lexeme.length) ((value :: rest).drop lexeme.length)) := by
  unfold readLexeme at h
  split at h
  · rename_i hblank
    cases h
    exact ⟨Nat.one_pos, by simp [Lexeme.length], fun _ => Trivia.blank (Or.inl hblank)⟩
  split at h
  · rename_i hnewline
    cases h
    exact ⟨Nat.one_pos, by simp [Lexeme.length], fun _ => Trivia.blank (Or.inr hnewline)⟩
  split at h
  · rename_i hcomment
    obtain ⟨rfl, hsecond⟩ := hcomment
    cases h
    cases rest with
    | nil => cases hsecond
    | cons second tail =>
      cases hsecond
      have hle := takeWhile_length_le (· ≠ (10 : UInt8)) tail
      refine ⟨?_, ?_, fun _ => lineComment_trivia⟩
      · simp only [Lexeme.length]
        omega
      · simp only [Lexeme.length, List.tail_cons, List.length_cons]
        omega
  split at h
  · rename_i hcomment
    obtain ⟨rfl, hsecond⟩ := hcomment
    split at h
    · rename_i length newline hscan
      cases h
      obtain ⟨body, after, htail, hlength, hnone⟩ := scanBlock_some hscan
      cases rest with
      | nil => cases hsecond
      | cons second tail =>
        cases hsecond
        refine ⟨by simp [Lexeme.length], ?_, fun _ => blockComment_trivia htail hlength hnone⟩
        rw [List.tail_cons] at htail
        simp [Lexeme.length, htail, hlength]
    · cases h
  split at h
  · cases h
    have hle := takeWhile_length_le identifierPart rest
    refine ⟨by simp [Lexeme.length], by simpa [Lexeme.length] using hle, fun hnone => ?_⟩
    cases hnone
  split at h
  · cases h
    have hle := takeWhile_length_le decimalDigit rest
    refine ⟨by simp [Lexeme.length], by simpa [Lexeme.length] using hle, fun hnone => ?_⟩
    cases hnone
  split at h
  · obtain ⟨htoken, hpositive, hle⟩ := readQuoted_ok h
    exact ⟨hpositive, hle, fun hnone => absurd (htoken.symm.trans hnone) (by decide)⟩
  split at h
  · obtain ⟨htoken, hpositive, hle⟩ := readQuoted_ok h
    exact ⟨hpositive, hle, fun hnone => absurd (htoken.symm.trans hnone) (by decide)⟩
  · obtain ⟨htoken, hpositive, hle⟩ := readPunctuation_ok h
    exact ⟨hpositive, hle, fun hnone => absurd (htoken.symm.trans hnone) (by decide)⟩

theorem accept_index (s : LexState) (lexeme : Lexeme) :
    (s.accept lexeme).index = s.index + lexeme.length := by
  cases lexeme <;> rfl

variable {s : LexState}

theorem accept_trivia (h : lexeme.isToken = false) : (s.accept lexeme).output = s.output := by
  cases lexeme <;> first | rfl | cases h

theorem accept_token {s : LexState} {lexeme : Lexeme} (h : lexeme.isToken = true) :
    ∃ token : LexToken, (s.accept lexeme).output = s.output ++ [token] ∧ token.offset = s.index ∧
      token.length = lexeme.length := by
  cases lexeme with
  | token length kind punctuation => exact ⟨_, rfl, rfl, rfl⟩
  | _ => cases h

theorem lexLoop_tokens {fuel : Nat} {s' : LexState} (h : lexLoop fuel rest s = .ok s')
    (hfuel : rest.length ≤ fuel) :
    ∃ tokens, s'.output = s.output ++ tokens ∧ TokensIn s.index rest tokens := by
  induction fuel generalizing rest s with
  | zero =>
    cases rest with
    | nil =>
      cases h
      exact ⟨[], (List.append_nil _).symm, TokensIn.done Gap.nil⟩
    | cons value rest => simp at hfuel
  | succ fuel ih =>
    cases rest with
    | nil =>
      cases h
      exact ⟨[], (List.append_nil _).symm, TokensIn.done Gap.nil⟩
    | cons value rest =>
      obtain ⟨lexeme, hlexeme, h⟩ := bind_ok.mp h
      obtain ⟨hpositive, hle, htrivia⟩ := readLexeme_ok hlexeme
      have hshort : ((value :: rest).drop lexeme.length).length ≤ fuel := by
        simp only [List.length_drop, List.length_cons] at hfuel ⊢
        omega
      have htaken : ((value :: rest).take lexeme.length).length = lexeme.length :=
        List.length_take_of_le hle
      have hsplit := List.take_append_drop lexeme.length (value :: rest)
      obtain ⟨tokens, houtput, hin⟩ := ih h hshort
      rw [accept_index] at hin
      rw [← hsplit]
      cases hkind : lexeme.isToken with
      | false =>
        rw [accept_trivia hkind] at houtput
        refine ⟨tokens, houtput, TokensIn.trivia (htrivia hkind) ?_⟩
        rw [htaken]
        exact hin
      | true =>
        obtain ⟨token, hadded, hoffset, hlength⟩ := @accept_token s lexeme hkind
        rw [hadded, List.append_assoc] at houtput
        refine ⟨token :: tokens, houtput, TokensIn.token Gap.nil ?_ hoffset ?_ ?_⟩
        · apply List.ne_nil_of_length_pos
          omega
        · rw [hlength, htaken]
        · rw [hoffset, hlength]
          exact hin

end ServerEngine
