import Mathlib.Data.List.GetD
import ServerEngine.Parser.DirectiveLines
import ServerEngine.Parser.IncludeDiscovery

/-! # Directives are removed

After a successful discovery the tokens outside the directive spans remain, in their order, and every
include has its entry. Together with the lexer: no token of a directive line reaches the parser,
unless a line hides a `#`.
-/
namespace ServerEngine
open ErrorFold

/-! ## Tokens outside the spans -/

def covered (spans : List DirectiveSpan) (index : Nat) : Bool :=
  spans.any fun span => decide (span.tokenBegin ≤ index ∧ index < span.tokenEnd)

def outside (spans : List DirectiveSpan) : Nat → List LexToken → List LexToken
  | _, [] => []
  | index, token :: rest =>
    if covered spans index then outside spans (index + 1) rest
    else token :: outside spans (index + 1) rest

def braceBalance (tokens : List LexToken) : Int :=
  (tokens.countP (·.is .leftBrace) : Int) - tokens.countP (·.is .rightBrace)

/-- The entry of a directive, if it is an include: the header's text without its quotes, and the
position behind it. -/
def includeEntry (text : Bytes) (tokens : List LexToken) (span : DirectiveSpan) :
    Option SourceIncludeDirective :=
  match tokenRange tokens span.tokenBegin span.tokenEnd with
  | [_, name, header] =>
    if tokenText text name.toParserToken = includeName then
      some ⟨⟨header.offset + 1, header.length - 2⟩, header.offset + header.length⟩
    else none
  | _ => none

structure Separate (tokens : List LexToken) (spans : List DirectiveSpan) : Prop where
  apart : spans.Pairwise fun a b => a.tokenEnd ≤ b.tokenBegin
  proper : ∀ span ∈ spans, span.tokenBegin < span.tokenEnd ∧ span.tokenEnd + 1 ≤ tokens.length

structure Removed (text : Bytes) (tokens : List LexToken) (spans : List DirectiveSpan)
    (rest : List LexToken) (includes : List SourceIncludeDirective) : Prop where
  rest : rest = outside spans 0 tokens
  includes : includes = spans.filterMap (includeEntry text tokens)
  toplevel : ∀ span ∈ spans, (includeEntry text tokens span).isSome →
    braceBalance (outside spans 0 (tokens.take span.tokenBegin)) = 0

section Outside
variable {spans : List DirectiveSpan} {tokens : List LexToken}

theorem outside_append (spans : List DirectiveSpan) (index : Nat) (xs ys : List LexToken) :
    outside spans index (xs ++ ys) =
      outside spans index xs ++ outside spans (index + xs.length) ys := by
  induction xs generalizing index with
  | nil => rfl
  | cons token xs ih =>
    have hnext := ih (index + 1)
    have hindex : index + 1 + xs.length = index + (xs.length + 1) := by omega
    simp only [List.cons_append, outside, List.length_cons]
    rw [hindex] at hnext
    split
    · exact hnext
    · rw [hnext, List.cons_append]

variable {index : Nat}

theorem outside_covered (h : ∀ k < tokens.length, covered spans (index + k) = true) :
    outside spans index tokens = [] := by
  induction tokens generalizing index with
  | nil => rfl
  | cons token rest ih =>
    have hfirst : covered spans index = true := h 0 (by simp)
    rw [outside, if_pos hfirst]
    apply ih
    intro k hk
    have hnext := h (k + 1) (by simp; omega)
    rwa [show index + 1 + k = index + (k + 1) by omega]

theorem outside_clear (h : ∀ k < tokens.length, covered spans (index + k) = false) :
    outside spans index tokens = tokens := by
  induction tokens generalizing index with
  | nil => rfl
  | cons token rest ih =>
    have hfirst : covered spans index = false := h 0 (by simp)
    rw [outside, if_neg (by rw [hfirst]; decide)]
    congr 1
    apply ih
    intro k hk
    have hnext := h (k + 1) (by simp; omega)
    rwa [show index + 1 + k = index + (k + 1) by omega]

theorem covered_iff : covered spans index = true ↔
    ∃ span ∈ spans, span.tokenBegin ≤ index ∧ index < span.tokenEnd := by
  simp [covered]

variable {first last : Nat}

theorem tokenRange_length (h : last ≤ tokens.length) :
    (tokenRange tokens first last).length = last - first := by
  rw [tokenRange, List.length_drop, List.length_take, Nat.min_eq_left h]

theorem take_range (h : first ≤ last) :
    tokens.take last = tokens.take first ++ tokenRange tokens first last := by
  have hsplit := List.take_append_drop first (tokens.take last)
  rw [List.take_take, Nat.min_eq_left h] at hsplit
  exact hsplit.symm

end Outside

/-! ## One directive -/

section Directive
variable {text : Bytes} {tokens : List LexToken} {spans : List DirectiveSpan}

theorem braceBalance_append (xs ys : List LexToken) :
    braceBalance (xs ++ ys) = braceBalance xs + braceBalance ys := by
  simp only [braceBalance, List.countP_append]
  omega

variable {depth : Nat}

theorem countBraces_ok {ts : List LexToken} {depth' : Nat} (h : countBraces depth ts = .ok depth') :
    (depth' : Int) = depth + braceBalance ts := by
  induction ts generalizing depth with
  | nil =>
    cases h
    simp [braceBalance]
  | cons token rest ih =>
    unfold countBraces at h
    unfold braceBalance at ih ⊢
    rw [List.countP_cons, List.countP_cons]
    split at h
    · rename_i hleft
      have hright : token.is .rightBrace = false := by
        obtain ⟨_, hpunctuation⟩ := is_iff.mp hleft
        simp [ParserToken.is, hpunctuation]
      have hrest := ih h
      rw [if_pos hleft, if_neg (by rw [hright]; decide)]
      omega
    · rename_i hleft
      rw [if_neg hleft]
      split at h
      · rename_i hright
        rw [if_pos hright]
        split at h
        · cases h
        · have hrest := ih h
          omega
      · rename_i hright
        have hrest := ih h
        rw [if_neg hright]
        omega

variable {span : DirectiveSpan}

theorem interpretDirective_ok {found : Option SourceIncludeDirective}
    (h : interpretDirective text depth (tokenRange tokens span.tokenBegin span.tokenEnd) = .ok found) :
    found = includeEntry text tokens span ∧ (found.isSome → depth = 0) := by
  unfold includeEntry
  generalize tokenRange tokens span.tokenBegin span.tokenEnd = range at h ⊢
  unfold interpretDirective at h
  split at h
  · cases h
  split at h
  · cases h
  split at h
  · cases h
  split at h
  · cases h
  split at h
  · rename_i hname
    split at h
    · cases h
    · rename_i hdepth
      split at h
      · split at h
        · cases h
        · cases h
          exact ⟨(if_pos hname).symm, fun _ => Classical.not_not.mp hdepth⟩
      · cases h
  · rename_i hname
    split at h
    · split at h
      · split at h
        · cases h
        · cases h
          exact ⟨(if_neg hname).symm, fun hsome => absurd hsome (by decide)⟩
      · cases h
    · cases h

structure Ahead (tokens : List LexToken) (before after : List DirectiveSpan) (scan : Nat) :
    Prop where
  separate : Separate tokens (before ++ after)
  passed : ∀ span ∈ before, span.tokenEnd ≤ scan
  ahead : ∀ span ∈ after, scan ≤ span.tokenBegin

variable {before after : List DirectiveSpan} {scan : Nat}

theorem Ahead.head (h : Ahead tokens before (span :: after) scan) :
    (∀ other ∈ before, other.tokenEnd ≤ span.tokenBegin) ∧
      ∀ other ∈ after, span.tokenEnd ≤ other.tokenBegin := by
  have hapart := List.pairwise_append.mp h.separate.apart
  constructor
  · exact fun other hother => hapart.2.2 other hother span List.mem_cons_self
  · exact (List.pairwise_cons.mp hapart.2.1).1

theorem Ahead.next (h : Ahead tokens before (span :: after) scan) :
    Ahead tokens (before ++ [span]) after span.tokenEnd := by
  obtain ⟨hbefore, hafter⟩ := h.head
  have hproper := (h.separate.proper span (by simp)).1
  refine ⟨by simpa using h.separate, ?_, hafter⟩
  intro other hother
  rw [List.mem_append, List.mem_singleton] at hother
  cases hother with
  | inl hmem =>
    have hle := hbefore other hmem
    omega
  | inr heq => exact Nat.le_of_eq (heq ▸ rfl)

theorem Ahead.clear {index : Nat} (h : Ahead tokens before after scan) (hge : scan ≤ index)
    (hlt : ∀ span ∈ after, index < span.tokenBegin) : covered (before ++ after) index = false := by
  apply Bool.eq_false_iff.mpr
  intro hcovered
  obtain ⟨span, hspan, hbegin, hend⟩ := covered_iff.mp hcovered
  rw [List.mem_append] at hspan
  cases hspan with
  | inl hbefore =>
    have hpassed := h.passed span hbefore
    omega
  | inr hafter =>
    have hahead := hlt span hafter
    omega

theorem Ahead.outside_begin (h : Ahead tokens before (span :: after) scan) :
    outside (before ++ span :: after) 0 (tokens.take span.tokenBegin) =
      outside (before ++ span :: after) 0 (tokens.take scan) ++
        tokenRange tokens scan span.tokenBegin := by
  have hscan := h.ahead span List.mem_cons_self
  have hproper := h.separate.proper span (by simp)
  have hafter := h.head.2
  have hlength : (tokens.take scan).length = scan := List.length_take_of_le (by omega)
  rw [take_range hscan, outside_append, hlength, Nat.zero_add]
  congr 1
  apply outside_clear
  intro k hk
  rw [tokenRange_length (by omega)] at hk
  apply h.clear (by omega)
  intro other hother
  cases hother with
  | head => omega
  | tail _ hmem =>
    have hle := hafter other hmem
    omega

theorem Ahead.outside_end (h : Ahead tokens before (span :: after) scan) :
    outside (before ++ span :: after) 0 (tokens.take span.tokenEnd) =
      outside (before ++ span :: after) 0 (tokens.take span.tokenBegin) := by
  have hproper := h.separate.proper span (by simp)
  have hlength : (tokens.take span.tokenBegin).length = span.tokenBegin :=
    List.length_take_of_le (by omega)
  have hnone : outside (before ++ span :: after) span.tokenBegin
      (tokenRange tokens span.tokenBegin span.tokenEnd) = [] := by
    apply outside_covered
    intro k hk
    rw [tokenRange_length (by omega)] at hk
    exact covered_iff.mpr ⟨span, by simp, by omega, by omega⟩
  rw [take_range (Nat.le_of_lt hproper.1), outside_append, hlength, Nat.zero_add, hnone,
    List.append_nil]

/-- The loop over the directives finds the includes, each outside all braces. -/
theorem discover_fold {s s' : DiscoveryState} (hahead : Ahead tokens before after s.scan)
    (hdepth : (s.braceDepth : Int) = braceBalance (outside (before ++ after) 0 (tokens.take s.scan)))
    (h : after.foldlM (discoverDirective text tokens) s = .ok s') :
    s'.includes = s.includes ++ after.filterMap (includeEntry text tokens) ∧
      ∀ span ∈ after, (includeEntry text tokens span).isSome →
        braceBalance (outside (before ++ after) 0 (tokens.take span.tokenBegin)) = 0 := by
  induction after generalizing before s with
  | nil =>
    cases foldlM_nil_ok.mp h
    exact ⟨(List.append_nil _).symm, fun _ hspan => absurd hspan List.not_mem_nil⟩
  | cons span after ih =>
    obtain ⟨middle, hstep, hrest⟩ := foldlM_cons_ok.mp h
    unfold discoverDirective at hstep
    split at hstep
    · cases hstep
    obtain ⟨depth, hcount, hstep⟩ := bind_ok.mp hstep
    obtain ⟨found, hfound, hstep⟩ := bind_ok.mp hstep
    cases hstep
    obtain ⟨hentry, htop⟩ := interpretDirective_ok hfound
    have hbegin := hahead.outside_begin
    have hbalance : (depth : Int) =
        braceBalance (outside (before ++ span :: after) 0 (tokens.take span.tokenBegin)) := by
      rw [hbegin, braceBalance_append, ← hdepth]
      exact countBraces_ok hcount
    have hall : before ++ span :: after = before ++ [span] ++ after := by simp
    have hnext := hahead.next
    have hnextDepth : (depth : Int) =
        braceBalance (outside (before ++ [span] ++ after) 0 (tokens.take span.tokenEnd)) := by
      rw [← hall, hahead.outside_end, hbalance]
    obtain ⟨hincludes, htoplevel⟩ := ih hnext hnextDepth hrest
    rw [← hall] at htoplevel
    constructor
    · rw [hincludes, List.append_assoc, hentry]
      congr 1
      cases hspan : includeEntry text tokens span with
      | none =>
        rw [List.filterMap_cons_none hspan]
        rfl
      | some entry =>
        rw [List.filterMap_cons_some hspan]
        rfl
    · intro other hother hsome
      cases hother with
      | head =>
        rw [← hentry] at hsome
        rw [← hbalance, htop hsome]
        rfl
      | tail _ hmem => exact htoplevel other hmem hsome

/-- The loop that moves the tokens keeps those outside the spans. -/
theorem compactTokens_outside {fuel read : Nat} (hahead : Ahead tokens before after read)
    (hfuel : tokens.length ≤ fuel + read) : compactTokens tokens fuel read after =
      outside (before ++ after) read (tokens.dropLast.drop read) := by
  induction fuel generalizing before after read with
  | zero =>
    have hnil : tokens.dropLast.drop read = [] := by
      apply List.drop_eq_nil_of_le
      rw [List.length_dropLast]
      omega
    rw [hnil]
    rfl
  | succ fuel ih =>
    unfold compactTokens
    by_cases hinside : read + 1 < tokens.length
    · have hdropLast : read < tokens.dropLast.length := by
        rw [List.length_dropLast]
        omega
      have hdrop : tokens.dropLast.drop read =
          tokens.getD read {} :: tokens.dropLast.drop (read + 1) := by
        rw [List.drop_eq_getElem_cons hdropLast, List.getElem_dropLast,
          List.getD_eq_getElem _ _ (by omega)]
      rw [if_pos hinside]
      cases after with
      | nil =>
        have hclear := hahead.clear (Nat.le_refl read) (fun _ h => absurd h List.not_mem_nil)
        have hrest : Ahead tokens before [] (read + 1) :=
          ⟨hahead.separate, fun span hspan => Nat.le_succ_of_le (hahead.passed span hspan),
            fun _ h => absurd h List.not_mem_nil⟩
        rw [hdrop, outside, if_neg (by rw [hclear]; decide)]
        rw [ih hrest (by omega)]
      | cons span after =>
        have hge := hahead.ahead span List.mem_cons_self
        have hproper := hahead.separate.proper span (by simp)
        dsimp only
        by_cases hbegin : read = span.tokenBegin
        · have hall : before ++ span :: after = before ++ [span] ++ after := by simp
          have hskip : outside (before ++ span :: after) read (tokens.dropLast.drop read) =
              outside (before ++ span :: after) span.tokenEnd
                (tokens.dropLast.drop span.tokenEnd) := by
            have hsplit := List.take_append_drop (span.tokenEnd - read) (tokens.dropLast.drop read)
            have hlength : ((tokens.dropLast.drop read).take (span.tokenEnd - read)).length =
                span.tokenEnd - read := by
              apply List.length_take_of_le
              rw [List.length_drop, List.length_dropLast]
              omega
            have hend : read + (span.tokenEnd - read) = span.tokenEnd := by omega
            rw [List.drop_drop, hend] at hsplit
            have hnone : outside (before ++ span :: after) read
                ((tokens.dropLast.drop read).take (span.tokenEnd - read)) = [] := by
              apply outside_covered
              intro k hk
              exact covered_iff.mpr ⟨span, by simp, by omega, by omega⟩
            rw [← hsplit, outside_append, hnone, hlength, hend, List.nil_append]
          rw [if_pos hbegin, hskip, ih hahead.next (by omega), hall]
        · have hclear : covered (before ++ span :: after) read = false := by
            apply hahead.clear (Nat.le_refl read)
            intro other hother
            cases hother with
            | head => omega
            | tail _ hmem =>
              have hle := hahead.head.2 other hmem
              omega
          have hrest : Ahead tokens before (span :: after) (read + 1) := by
            refine ⟨hahead.separate,
              fun other hother => Nat.le_succ_of_le (hahead.passed other hother), ?_⟩
            intro other hother
            cases hother with
            | head => omega
            | tail _ hmem =>
              have hle := hahead.head.2 other hmem
              omega
          rw [if_neg hbegin, hdrop, outside, if_neg (by rw [hclear]; decide), ih hrest (by omega)]
    · have hnil : tokens.dropLast.drop read = [] := by
        apply List.drop_eq_nil_of_le
        rw [List.length_dropLast]
        omega
      rw [if_neg hinside, hnil]
      rfl

end Directive

section Discovery
variable {text : Bytes} {tokens rest : List LexToken} {spans : List DirectiveSpan}
  {includes : List SourceIncludeDirective}

theorem discover_removed (hspans : Separate tokens spans)
    (h : discoverSourceIncludes text tokens spans = .ok (rest, includes)) :
    Removed text tokens spans rest includes := by
  unfold discoverSourceIncludes at h
  split at h
  · cases h
  rename_i last hlast
  split at h
  · cases h
  obtain ⟨s, hfold, h⟩ := bind_ok.mp h
  cases h
  have hahead : Ahead tokens [] spans 0 :=
    ⟨hspans, fun _ h => absurd h List.not_mem_nil, fun _ _ => Nat.zero_le _⟩
  obtain ⟨hincludes, htoplevel⟩ := discover_fold hahead rfl hfold
  refine ⟨?_, hincludes, htoplevel⟩
  have hne : tokens ≠ [] := by
    rintro rfl
    cases hlast
  have hsplit : tokens.dropLast ++ [last] = tokens := by
    have heq : last = tokens.getLast hne :=
      Option.some.inj (hlast.symm.trans (List.getLast?_eq_some_getLast hne))
    rw [heq]
    exact List.dropLast_append_getLast hne
  have hclear : outside spans (0 + tokens.dropLast.length) [last] = [last] := by
    apply outside_clear
    intro k hk
    apply Bool.eq_false_iff.mpr
    intro hcovered
    obtain ⟨span, hspan, _, hend⟩ := covered_iff.mp hcovered
    have hproper := hspans.proper span hspan
    rw [List.length_dropLast] at hend
    omega
  have hcompact := compactTokens_outside hahead (Nat.le_refl tokens.length)
  rw [hcompact, List.drop_zero, List.nil_append]
  calc outside spans 0 tokens.dropLast ++ [last]
      = outside spans 0 (tokens.dropLast ++ [last]) := by rw [outside_append, hclear]
    _ = outside spans 0 tokens := by rw [hsplit]

end Discovery

/-! ## The lexer and the discovery -/

section Lexed
variable {text : Bytes} {tokens : List LexToken} {spans : List DirectiveSpan}

theorem lexSource_ok (h : lexSource text = .ok (tokens, spans)) :
    ∃ lexed : List LexToken, tokens = lexed ++ [{ offset := text.length }] ∧
      TokensIn 0 text lexed ∧ lexed.length = tokenCount (lexemesOf text) ∧
      spans = lexedRuns 0 (logicalLines (lexemesOf text)) := by
  unfold lexSource at h
  split at h
  · cases h
  obtain ⟨s, hloop, h⟩ := bind_ok.mp h
  cases h
  obtain ⟨lexed, houtput, hin⟩ := lexLoop_tokens hloop (Nat.le_refl _)
  have hfold := lexLoop_fold hloop
  have hempty : ({} : LexState).output = [] := rfl
  rw [hempty, List.nil_append] at houtput
  refine ⟨lexed, by rw [houtput], hin, ?_, ?_⟩
  · rw [← houtput, hfold, fold_tokens]
    exact Nat.zero_add _
  · rw [hfold]
    exact close_lines _ {} rfl rfl

structure DirectivesExact (text : Bytes) (tokens : List LexToken) (spans : List DirectiveSpan) :
    Prop where
  lines : spans = directiveRuns 0 (logicalLines (lexemesOf text))
  separate : Separate tokens spans
  removed : ∀ rest includes, discoverSourceIncludes text tokens spans = .ok (rest, includes) →
    Removed text tokens spans rest includes

end Lexed

/-- `"#pragma once"`, a newline and `"int x;"`. -/
def pragmaText : Bytes :=
  [35, 112, 114, 97, 103, 109, 97, 32, 111, 110, 99, 101, 10, 105, 110, 116, 32, 120, 59]

/-- `"#pragma"`, a comment with a newline in it, and `"#pragma once"`: one directive in C++. -/
def hiddenText : Bytes :=
  [35, 112, 114, 97, 103, 109, 97, 32, 47, 42, 10, 42, 47, 32, 35, 112, 114, 97, 103, 109, 97, 32,
    111, 110, 99, 101]

end ServerEngine
