import ServerEngine.Json.Streams
import ServerEngine.Json.Strings
import ServerEngine.Library.ErrorFold
import Mathlib.Data.List.TakeWhile

/-! # Scalar values of the JSON parser

What the parser takes at whitespace, a number and a literal: the text that the grammar derives there,
as far as it goes. One event follows, and it denotes the value.
-/
namespace ServerEngine

namespace JsonParser

variable {p q r : JsonParser}

structure Yields (p : JsonParser) (t : Bytes) (es : List JsonEvent) (q : JsonParser) : Prop where
  rest : p.rest = t ++ q.rest
  moved : q = { p.advance t.length with events := p.events ++ es }

variable {t : Bytes}

theorem Reads.yields (h : p.Reads t q) : p.Yields t [] q where
  rest := h.rest
  moved := by rw [h.moved, List.append_nil]; rfl

theorem yields_emit (p : JsonParser) (e : JsonEvent) : p.Yields [] [e] (p.emit e) where
  rest := rfl
  moved := by
    cases p
    rfl

variable {es : List JsonEvent}

theorem Yields.trans {u : Bytes} {fs : List JsonEvent} (h : p.Yields t es q)
    (hnext : q.Yields u fs r) : p.Yields (t ++ u) (es ++ fs) r where
  rest := by rw [h.rest, hnext.rest, List.append_assoc]
  moved := by
    rw [hnext.moved, h.moved]
    simp [advance, List.drop_drop, Nat.add_assoc]

theorem Yields.events (h : p.Yields t es q) : q.events = p.events ++ es := by
  rw [h.moved]

variable {after : Bytes}

theorem Yields.rest_eq (h : p.Yields t es q) (hrest : p.rest = t ++ after) : q.rest = after :=
  List.append_cancel_left (h.rest.symm.trans hrest)

theorem Yields.length_le (h : p.Yields t es q) : q.rest.length ≤ p.rest.length := by
  rw [h.rest, List.length_append]
  exact Nat.le_add_left _ _

/-! ## Runs of characters -/

def Stops (f : UInt8 → Bool) (q : JsonParser) : Prop := q.rest.head?.any f = false

variable {b : UInt8}

theorem stops_cons {f : UInt8 → Bool} (hrest : q.rest = b :: after) (hb : f b = false) :
    q.Stops f := by
  unfold Stops
  rw [hrest]
  exact hb

theorem reads_run (f : UInt8 → Bool) (p : JsonParser) :
    p.Reads (p.rest.takeWhile f) (p.advance (p.rest.takeWhile f).length) :=
  reads_advance List.takeWhile_append_dropWhile.symm

theorem run_stops (f : UInt8 → Bool) (p : JsonParser) :
    (p.advance (p.rest.takeWhile f).length).Stops f := by
  have hrest := (reads_run f p).rest_eq List.takeWhile_append_dropWhile.symm
  unfold Stops
  rw [hrest]
  cases hd : p.rest.dropWhile f with
  | nil => rfl
  | cons b after =>
    have hb := List.head?_dropWhile_not f p.rest
    rw [hd] at hb
    exact hb

theorem run_eq {f : UInt8 → Bool} (hreads : p.Reads t q) (ht : ∀ b ∈ t, f b = true)
    (hstops : q.Stops f) : p.advance (p.rest.takeWhile f).length = q := by
  have hnone : q.rest.takeWhile f = [] := by
    unfold Stops at hstops
    cases hq : q.rest with
    | nil => rfl
    | cons b after =>
      rw [hq] at hstops
      exact List.takeWhile_cons_of_neg (by simpa using hstops)
  have htake : p.rest.takeWhile f = t := by
    rw [hreads.rest, List.takeWhile_append_of_pos ht, hnone, List.append_nil]
  rw [htake, hreads.moved]

theorem skipSpace_reads (p : JsonParser) : ∃ w, Whitespace w ∧ p.Reads w p.skipSpace :=
  ⟨p.rest.takeWhile isSpace, fun _ hb => List.mem_takeWhile_imp hb, reads_run isSpace p⟩

theorem skipSpace_stops (p : JsonParser) : p.skipSpace.Stops isSpace := run_stops isSpace p

theorem skipSpace_eq {w : Bytes} (hw : Whitespace w) (hreads : p.Reads w q)
    (hstops : q.Stops isSpace) : p.skipSpace = q := run_eq hreads hw hstops

theorem skipSpace_self (hstops : q.Stops isSpace) : q.skipSpace = q :=
  skipSpace_eq (fun _ hb => absurd hb List.not_mem_nil) (reads_nil q) hstops

/-! ## Numbers -/

theorem parseDigits_sound (h : p.parseDigits = .ok q) :
    (∃ t, Digits t ∧ p.Reads t q) ∧ q.atDigit = false := by
  unfold parseDigits at h
  split at h
  · rename_i hdigit
    cases h
    refine ⟨⟨p.rest.takeWhile isDigit, ⟨?_, ?_⟩, reads_run isDigit p⟩, run_stops isDigit p⟩
    · intro hnil
      unfold atDigit at hdigit
      cases hrest : p.rest with
      | nil =>
        rw [hrest] at hdigit
        cases hdigit
      | cons b after =>
        rw [hrest] at hdigit hnil
        have hb : isDigit b = true := hdigit
        rw [List.takeWhile_cons_of_pos hb] at hnil
        cases hnil
    · intro b hb
      exact List.mem_takeWhile_imp hb
  · cases h

theorem parseDigits_complete (ht : Digits t) (hreads : p.Reads t q) (hends : q.atDigit = false) :
    p.parseDigits = .ok q := by
  have hdigit : p.atDigit = true := by
    unfold atDigit
    rw [hreads.rest]
    cases t with
    | nil => exact absurd rfl ht.1
    | cons b t => exact ht.2 b List.mem_cons_self
  unfold parseDigits
  rw [if_pos hdigit]
  exact congrArg Except.ok (run_eq hreads ht.2 hends)

variable {c : Char}

theorem at_rest (hrest : p.rest = b :: after) : p.at? c = (b == ascii c) := by
  unfold at?
  rw [hrest, List.head?_cons]
  exact Option.some_beq_some

theorem atDigit_rest (hrest : p.rest = b :: after) : p.atDigit = isDigit b := by
  unfold atDigit
  rw [hrest]
  rfl

theorem digit_ne (hb : isDigit b = true) (hc : isDigit (ascii c) = false) : b ≠ ascii c := by
  intro heq
  rw [heq, hc] at hb
  cases hb

theorem integer_ok : (if p.at? '0' then
      if (p.advance 1).atDigit then (p.advance 1).fail .invalidNumber (p.advance 1).position
      else .ok (p.advance 1)
    else p.parseDigits) = .ok q ↔ (∃ t, IntegerText t ∧ p.Reads t q) ∧ q.atDigit = false := by
  constructor
  · intro h
    split at h
    · rename_i hzero
      obtain ⟨after, hrest⟩ := at_iff.mp hzero
      split at h
      · cases h
      · rename_i hends
        cases h
        exact ⟨⟨[ascii '0'], .zero, reads_at hrest⟩, Bool.not_eq_true _ ▸ hends⟩
    · rename_i hzero
      obtain ⟨⟨t, ht, hreads⟩, hends⟩ := parseDigits_sound h
      refine ⟨⟨t, ?_, hreads⟩, hends⟩
      cases t with
      | nil => exact absurd rfl ht.1
      | cons d t =>
        have hrest : p.rest = d :: (t ++ q.rest) := hreads.rest
        rw [at_rest hrest] at hzero
        exact .digits (ht.2 d List.mem_cons_self) (by simpa using hzero) fun b hb =>
          ht.2 b (List.mem_cons_of_mem d hb)
  · intro h
    obtain ⟨⟨t, ht, hreads⟩, hends⟩ := h
    cases ht with
    | zero =>
      rw [if_pos (at_iff.mpr ⟨_, hreads.rest⟩)]
      have hmoved : p.advance 1 = q := hreads.moved.symm
      rw [hmoved, if_neg (by rw [hends]; simp)]
    | digits hd hne ht =>
      rename_i d t
      have hrest : p.rest = d :: (t ++ q.rest) := hreads.rest
      rw [if_neg (by rw [at_rest hrest]; simpa using hne)]
      refine parseDigits_complete ⟨List.cons_ne_nil d t, ?_⟩ hreads hends
      intro b hb
      cases List.mem_cons.mp hb with
      | inl heq => rw [heq]; exact hd
      | inr hmem => exact ht b hmem

theorem integerText_head (h : IntegerText t) :
    ∃ d t', t = d :: t' ∧ isDigit d = true ∧ ∀ b ∈ t', isDigit b = true := by
  cases h with
  | zero => exact ⟨_, [], rfl, by decide, fun _ hb => nomatch hb⟩
  | digits hd _ ht => exact ⟨_, _, rfl, hd, ht⟩

theorem parseInteger_ok : p.parseInteger = .ok q ↔
    (∃ negative t, IntegerText t ∧ p.Reads (signText negative ++ t) q) ∧ q.atDigit = false := by
  unfold parseInteger
  cases hsign : p.at? '-' with
  | true =>
    obtain ⟨after, hrest⟩ := at_iff.mp hsign
    have hread := reads_at hrest
    dsimp only
    rw [if_pos rfl, Bool.true_and]
    constructor
    · intro h
      split at h
      · cases h
      · obtain ⟨⟨t, ht, hreads⟩, hends⟩ := integer_ok.mp h
        exact ⟨⟨true, t, ht, hread.trans hreads⟩, hends⟩
    · intro h
      obtain ⟨⟨negative, t, ht, hreads⟩, hends⟩ := h
      obtain ⟨d, t', rfl, hd, -⟩ := integerText_head ht
      cases negative with
      | true =>
        have hnext := reads_cons hreads
        rw [if_neg (by rw [hnext.rest]; simp)]
        exact integer_ok.mpr ⟨⟨d :: t', ht, hnext⟩, hends⟩
      | false =>
        have hd' : p.rest = d :: (t' ++ q.rest) := hreads.rest
        rw [hrest] at hd'
        exact absurd (List.cons.inj hd').1.symm (digit_ne hd (by decide))
  | false =>
    dsimp only
    constructor
    · intro h
      obtain ⟨⟨t, ht, hreads⟩, hends⟩ := integer_ok.mp h
      exact ⟨⟨false, t, ht, hreads⟩, hends⟩
    · intro h
      obtain ⟨⟨negative, t, ht, hreads⟩, hends⟩ := h
      cases negative with
      | true => exact absurd hreads.rest (not_at_iff.mp hsign _)
      | false => exact integer_ok.mpr ⟨⟨t, ht, hreads⟩, hends⟩

theorem parseFraction_sound (h : p.parseFraction = .ok q) (hdigit : p.atDigit = false) :
    ∃ f, FractionText f ∧ p.Reads f q ∧ (p.at? '.' = true ↔ f ≠ []) ∧ q.atDigit = false := by
  unfold parseFraction at h
  split at h
  · rename_i hpoint
    obtain ⟨after, hrest⟩ := at_iff.mp hpoint
    obtain ⟨⟨t, ht, hreads⟩, hends⟩ := parseDigits_sound h
    exact ⟨ascii '.' :: t, .point ht, (reads_at hrest).trans hreads,
      iff_of_true hpoint (List.cons_ne_nil _ _), hends⟩
  · rename_i hpoint
    cases h
    exact ⟨[], .absent, reads_nil p, iff_of_false hpoint (fun hne => hne rfl), hdigit⟩

theorem parseFraction_complete {f : Bytes} (hf : FractionText f) (hreads : p.Reads f q)
    (hends : q.atDigit = false) (hpoint : q.at? '.' = false) : p.parseFraction = .ok q := by
  unfold parseFraction
  cases hf with
  | absent =>
    have hmoved : q = p := hreads.moved.trans (reads_nil p).moved.symm
    rw [← hmoved, if_neg (by rw [hpoint]; simp)]
  | point ht =>
    rw [if_pos (at_iff.mpr ⟨_, hreads.rest⟩)]
    exact parseDigits_complete ht (reads_cons hreads) hends

theorem parseExponent_sound (h : p.parseExponent = .ok q) (hdigit : p.atDigit = false) :
    ∃ e, ExponentText e ∧ p.Reads e q ∧ ((p.at? 'e' || p.at? 'E') = true ↔ e ≠ []) ∧
      q.atDigit = false := by
  unfold parseExponent at h
  split at h
  · rename_i hmark
    obtain ⟨m, after, hm, hrest⟩ : ∃ m after, (m = ascii 'e' ∨ m = ascii 'E') ∧
        p.rest = m :: after := by
      cases Bool.or_eq_true_iff.mp hmark with
      | inl hlow =>
        obtain ⟨after, hrest⟩ := at_iff.mp hlow
        exact ⟨_, after, .inl rfl, hrest⟩
      | inr hhigh =>
        obtain ⟨after, hrest⟩ := at_iff.mp hhigh
        exact ⟨_, after, .inr rfl, hrest⟩
    have hread : p.Reads [m] (p.advance 1) := reads_advance (t := [m]) hrest
    obtain ⟨sign, hsign, hsigned⟩ : ∃ sign, (sign = [] ∨ sign = [ascii '+'] ∨ sign = [ascii '-']) ∧
        (p.advance 1).Reads sign (if (p.advance 1).at? '+' || (p.advance 1).at? '-' then
          (p.advance 1).advance 1 else p.advance 1) := by
      split
      · rename_i hs
        cases Bool.or_eq_true_iff.mp hs with
        | inl hplus =>
          obtain ⟨after, hrest⟩ := at_iff.mp hplus
          exact ⟨_, .inr (.inl rfl), reads_at hrest⟩
        | inr hminus =>
          obtain ⟨after, hrest⟩ := at_iff.mp hminus
          exact ⟨_, .inr (.inr rfl), reads_at hrest⟩
      · exact ⟨[], .inl rfl, reads_nil _⟩
    obtain ⟨⟨t, ht, hreads⟩, hends⟩ := parseDigits_sound h
    exact ⟨m :: (sign ++ t), .mark hm hsign ht, hread.trans (hsigned.trans hreads),
      iff_of_true hmark (List.cons_ne_nil _ _), hends⟩
  · rename_i hmark
    cases h
    exact ⟨[], .absent, reads_nil p, iff_of_false hmark (fun hne => hne rfl), hdigit⟩

theorem parseExponent_complete {e : Bytes} (he : ExponentText e) (hreads : p.Reads e q)
    (hends : q.atDigit = false) (hmark : (q.at? 'e' || q.at? 'E') = false) :
    p.parseExponent = .ok q := by
  unfold parseExponent
  cases he with
  | absent =>
    have hmoved : q = p := hreads.moved.trans (reads_nil p).moved.symm
    rw [← hmoved, if_neg (by rw [hmark]; simp)]
  | mark hm hsign ht =>
    rename_i m sign t
    have hrest : p.rest = m :: ((sign ++ t) ++ q.rest) := hreads.rest
    have hnext := reads_cons hreads
    obtain ⟨hsigned, hdigits⟩ := hnext.split
    have htrue : (p.at? 'e' || p.at? 'E') = true := by
      rw [at_rest hrest, at_rest hrest]
      simpa using hm
    have hskip : (if (p.advance 1).at? '+' || (p.advance 1).at? '-' then (p.advance 1).advance 1
        else p.advance 1) = (p.advance 1).advance sign.length := by
      obtain rfl | rfl | rfl := hsign
      · obtain ⟨d, t, rfl⟩ := List.exists_cons_of_ne_nil ht.1
        have hd := ht.2 d List.mem_cons_self
        have hrest' : (p.advance 1).rest = d :: (t ++ q.rest) := hnext.rest
        rw [at_rest hrest', at_rest hrest', if_neg]
        · exact (reads_nil _).moved
        · simp [digit_ne hd (c := '+') (by decide), digit_ne hd (c := '-') (by decide)]
      · rw [at_rest hsigned.rest, if_pos (by simp)]
        rfl
      · rw [at_iff.mpr ⟨_, hsigned.rest⟩, Bool.or_true, if_pos rfl]
        rfl
    rw [if_pos htrue]
    dsimp only
    rw [hskip]
    exact parseDigits_complete ht hdigits hends

/-! ## Conversion -/

variable {negative : Bool}

theorem fromCharsInt64_eq (ht : IntegerText t) : fromCharsInt64 (signText negative ++ t) =
      let v : Int := if negative then -(decimalValue t : Int) else decimalValue t
      if -2 ^ 63 ≤ v ∧ v < 2 ^ 63 then some v else none := by
  obtain ⟨d, t', rfl, hd, ht'⟩ := integerText_head ht
  have hall : (d :: t').all isDigit = true := by
    rw [List.all_cons, hd, Bool.true_and]
    exact List.all_eq_true.mpr ht'
  unfold fromCharsInt64
  cases negative with
  | true => simp [signText, hall]
  | false => simp [signText, digit_ne hd (c := '-') (by decide), hall]

variable {f e : Bytes}

theorem convertNumber_sound {d begin : Nat} {integral : Bool} (ht : IntegerText t)
    (hf : FractionText f) (he : ExponentText e) (hintegral : integral = true ↔ f ++ e = [])
    (h : p.convertNumber begin (signText negative ++ (t ++ (f ++ e))) integral = .ok q) :
    ∃ v event, Derives d (signText negative ++ (t ++ (f ++ e))) (.value v) ∧ ScalarEvent event v ∧
      q = p.emit event := by
  unfold convertNumber at h
  cases hi : integral with
  | true =>
    have hnil := hintegral.mp hi
    rw [hi, if_pos rfl, hnil, List.append_nil, fromCharsInt64_eq ht] at h
    rw [hnil, List.append_nil]
    generalize hv : (if negative = true then -(decimalValue t : Int) else decimalValue t) = v at h
    by_cases hfits : -2 ^ 63 ≤ v ∧ v < 2 ^ 63
    · rw [if_pos hfits] at h
      exact ⟨.integer v, .integer v, .integer ht hv.symm hfits, ScalarEvent.integer v,
        (Except.ok.inj h).symm⟩
    · rw [if_neg hfits] at h
      cases h
  | false =>
    have hreal : f ++ e ≠ [] := by
      intro hnil
      rw [hintegral.mpr hnil] at hi
      cases hi
    rw [hi, if_neg Bool.false_ne_true] at h
    cases hbits : fromCharsDouble (signText negative ++ (t ++ (f ++ e))) with
    | none =>
      rw [hbits] at h
      cases h
    | some bits =>
      rw [hbits] at h
      dsimp only at h
      split at h
      · rename_i hfinite
        exact ⟨.number bits, .number bits, .number ht hf he hreal hbits hfinite, ScalarEvent.number bits,
          (Except.ok.inj h).symm⟩
      · cases h

theorem Reads.token (h : p.Reads t q) : p.rest.take (q.position - p.position) = t := by
  have hcount : q.position - p.position = t.length := by
    rw [h.moved, advance_position]
    omega
  rw [hcount, h.rest, List.take_left]

theorem parseNumber_sound (d : Nat) (h : p.parseNumber = .ok q) :
    ∃ t v event, Derives d t (.value v) ∧ ScalarEvent event v ∧ p.Yields t [event] q := by
  obtain ⟨integer, hinteger, h⟩ := ErrorFold.bind_ok.mp h
  obtain ⟨fraction, hfraction, h⟩ := ErrorFold.bind_ok.mp h
  obtain ⟨number, hnumber, h⟩ := ErrorFold.bind_ok.mp h
  obtain ⟨⟨negative, t, ht, hreads⟩, hends⟩ := parseInteger_ok.mp hinteger
  obtain ⟨f, hf, hreadsF, hflagF, hendsF⟩ := parseFraction_sound hfraction hends
  obtain ⟨e, he, hreadsE, hflagE, -⟩ := parseExponent_sound hnumber hendsF
  have hall := hreads.trans (hreadsF.trans hreadsE)
  rw [List.append_assoc] at hall
  rw [hall.token] at h
  have hintegral : (!integer.at? '.' && !(fraction.at? 'e' || fraction.at? 'E')) = true ↔
      f ++ e = [] := by
    rw [Bool.and_eq_true, Bool.not_eq_true', Bool.not_eq_true', ← Bool.not_eq_true, hflagF,
      ← Bool.not_eq_true, hflagE, List.append_eq_nil_iff, Decidable.not_not, Decidable.not_not]
  obtain ⟨v, event, hv, hevent, hq⟩ := convertNumber_sound (d := d) ht hf he hintegral h
  refine ⟨_, v, event, hv, hevent, ?_⟩
  rw [hq, ← List.append_nil (signText negative ++ (t ++ (f ++ e)))]
  exact hall.yields.trans (yields_emit number event)

structure NumberEnds (q : JsonParser) : Prop where
  digit : q.atDigit = false
  point : q.at? '.' = false
  mark : (q.at? 'e' || q.at? 'E') = false

theorem fraction_flag {f : Bytes} (hf : FractionText f) (hreads : p.Reads f q)
    (hpoint : q.at? '.' = false) : (p.at? '.' = true ↔ f ≠ []) := by
  cases hf with
  | absent =>
    have hmoved : q = p := hreads.moved.trans (reads_nil p).moved.symm
    rw [← hmoved, hpoint]
    simp
  | point ht =>
    rw [at_iff.mpr ⟨_, hreads.rest⟩]
    simp

theorem exponent_flag {e : Bytes} (he : ExponentText e) (hreads : p.Reads e q)
    (hmark : (q.at? 'e' || q.at? 'E') = false) : ((p.at? 'e' || p.at? 'E') = true ↔ e ≠ []) := by
  cases he with
  | absent =>
    have hmoved : q = p := hreads.moved.trans (reads_nil p).moved.symm
    rw [← hmoved, hmark]
    simp
  | mark hm hsign ht =>
    rw [at_rest hreads.rest, at_rest hreads.rest]
    simpa using hm

theorem fraction_ends (hf : FractionText f) (hreads : p.Reads f q) (hends : q.atDigit = false) :
    p.atDigit = false := by
  cases hf with
  | absent =>
    have hmoved : q = p := hreads.moved.trans (reads_nil p).moved.symm
    rw [← hmoved]
    exact hends
  | point ht => exact atDigit_rest hreads.rest

theorem exponent_ends (he : ExponentText e) (hreads : p.Reads e q) (hends : q.NumberEnds) :
    p.atDigit = false ∧ p.at? '.' = false := by
  cases he with
  | absent =>
    have hmoved : q = p := hreads.moved.trans (reads_nil p).moved.symm
    rw [← hmoved]
    exact ⟨hends.digit, hends.point⟩
  | mark hm hsign ht =>
    rw [atDigit_rest hreads.rest, at_rest hreads.rest]
    obtain rfl | rfl := hm
    · decide
    · decide

theorem parseNumber_eq (ht : IntegerText t) (hf : FractionText f) (he : ExponentText e)
    (hreads : p.Reads (signText negative ++ (t ++ (f ++ e))) q) (hends : q.NumberEnds) :
    ∃ integral, (integral = true ↔ f ++ e = []) ∧
      p.parseNumber =
        q.convertNumber p.position (signText negative ++ (t ++ (f ++ e))) integral := by
  have hgrouped : p.Reads ((signText negative ++ t) ++ (f ++ e)) q := by
    rw [List.append_assoc]
    exact hreads
  obtain ⟨hinteger, hafter⟩ := hgrouped.split
  obtain ⟨hfraction, hexponent⟩ := hafter.split
  have hendsF := exponent_ends he hexponent hends
  have hendsI := fraction_ends hf hfraction hendsF.1
  have hflags : (!(p.advance (signText negative ++ t).length).at? '.' &&
      !(((p.advance (signText negative ++ t).length).advance f.length).at? 'e' ||
        ((p.advance (signText negative ++ t).length).advance f.length).at? 'E')) = true ↔
      f ++ e = [] := by
    rw [Bool.and_eq_true, Bool.not_eq_true', Bool.not_eq_true', ← Bool.not_eq_true,
      fraction_flag hf hfraction hendsF.2, ← Bool.not_eq_true, exponent_flag he hexponent hends.mark,
      List.append_eq_nil_iff, Decidable.not_not, Decidable.not_not]
  refine ⟨_, hflags, ?_⟩
  unfold parseNumber
  rw [parseInteger_ok.mpr ⟨⟨negative, t, ht, hinteger⟩, hendsI⟩]
  dsimp only [bind, Except.bind]
  rw [parseFraction_complete hf hfraction hendsF.1 hendsF.2]
  dsimp only
  rw [parseExponent_complete he hexponent hends.digit hends.mark]
  dsimp only
  rw [hreads.token]

theorem parseNumber_integer {v : Int} (ht : IntegerText t)
    (hv : v = if negative then -(decimalValue t : Int) else decimalValue t)
    (hfits : -2 ^ 63 ≤ v ∧ v < 2 ^ 63) (hreads : p.Reads (signText negative ++ t) q)
    (hends : q.NumberEnds) : p.parseNumber = .ok (q.emit (.integer v)) := by
  have hreads' : p.Reads (signText negative ++ (t ++ ([] ++ []))) q := by
    rw [List.append_nil, List.append_nil]
    exact hreads
  obtain ⟨integral, hintegral, heq⟩ := parseNumber_eq ht .absent .absent hreads' hends
  rw [heq, hintegral.mpr rfl, List.append_nil, List.append_nil]
  unfold convertNumber
  rw [if_pos rfl, fromCharsInt64_eq ht]
  rw [← hv, if_pos hfits]

theorem parseNumber_real {bits : Nat} (ht : IntegerText t) (hf : FractionText f)
    (he : ExponentText e) (hreal : f ++ e ≠ [])
    (hbits : fromCharsDouble (signText negative ++ (t ++ (f ++ e))) = some bits)
    (hfinite : binary64.isFinite bits = true)
    (hreads : p.Reads (signText negative ++ (t ++ (f ++ e))) q) (hends : q.NumberEnds) :
    p.parseNumber = .ok (q.emit (.number bits)) := by
  obtain ⟨integral, hintegral, heq⟩ := parseNumber_eq ht hf he hreads hends
  have hi : integral = false := by
    rw [← Bool.not_eq_true, hintegral]
    exact hreal
  rw [heq, hi]
  unfold convertNumber
  rw [if_neg Bool.false_ne_true, hbits]
  dsimp only
  rw [if_pos hfinite]

theorem parseLiteral_ok {literal : Bytes} {e : JsonEvent} :
    p.parseLiteral literal e = .ok q ↔ p.Yields literal [e] q := by
  unfold parseLiteral
  constructor
  · intro h
    split at h
    · rename_i htake
      cases h
      have hread : p.Reads literal (p.advance literal.length) := by
        have hsplit := (List.take_append_drop literal.length p.rest).symm
        rw [htake] at hsplit
        exact reads_advance hsplit
      rw [← List.append_nil literal]
      have hall := hread.yields.trans (yields_emit _ e)
      rw [List.append_nil] at hall ⊢
      exact hall
    · cases h
  · intro h
    rw [if_pos (by rw [h.rest, List.take_left]), h.moved]
    rfl

end JsonParser
end ServerEngine
