import ServerEngine.Json.Grammar
import Mathlib.Data.List.Basic
import Mathlib.Tactic.IntervalCases

/-! # Strings of the JSON parser

The parser of strings takes exactly the string that the grammar derives at its position, and outputs
the bytes that it denotes.
-/
namespace ServerEngine

namespace JsonParser

/-! ## Positions -/

variable {p q : JsonParser}

@[simp] theorem advance_rest (p : JsonParser) (n : Nat) : (p.advance n).rest = p.rest.drop n := rfl
@[simp] theorem advance_position (p : JsonParser) (n : Nat) :
    (p.advance n).position = p.position + n := rfl
@[simp] theorem advance_events (p : JsonParser) (n : Nat) : (p.advance n).events = p.events := rfl
@[simp] theorem emit_rest (p : JsonParser) (e : JsonEvent) : (p.emit e).rest = p.rest := rfl
@[simp] theorem emit_position (p : JsonParser) (e : JsonEvent) : (p.emit e).position = p.position := rfl
@[simp] theorem emit_events (p : JsonParser) (e : JsonEvent) :
    (p.emit e).events = p.events ++ [e] := rfl

theorem advance_advance (p : JsonParser) (m n : Nat) : (p.advance m).advance n = p.advance (m + n) := by
  simp [advance, List.drop_drop, Nat.add_assoc]

structure Reads (p : JsonParser) (t : Bytes) (q : JsonParser) : Prop where
  rest : p.rest = t ++ q.rest
  moved : q = p.advance t.length

variable {t : Bytes}

theorem Reads.events (h : p.Reads t q) : q.events = p.events := by
  rw [h.moved, advance_events]

variable {u : Bytes}

theorem Reads.trans {r : JsonParser} (h : p.Reads t q) (hnext : q.Reads u r) :
    p.Reads (t ++ u) r where
  rest := by rw [h.rest, hnext.rest, List.append_assoc]
  moved := by rw [hnext.moved, h.moved, advance_advance, List.length_append]

variable {after : Bytes}

theorem reads_advance (h : p.rest = t ++ after) : p.Reads t (p.advance t.length) where
  rest := by rw [advance_rest, h, List.drop_left]
  moved := rfl

theorem Reads.rest_eq (h : p.Reads t q) (hrest : p.rest = t ++ after) : q.rest = after :=
  List.append_cancel_left (h.rest.symm.trans hrest)

theorem reads_nil (p : JsonParser) : p.Reads [] p where
  rest := rfl
  moved := by cases p; rfl

variable {c : Char}

theorem at_iff : p.at? c = true ↔ ∃ after, p.rest = ascii c :: after := by
  unfold at?
  cases p.rest with
  | nil => simp
  | cons b after =>
    rw [List.head?_cons, beq_iff_eq, Option.some.injEq]
    constructor
    · intro h
      exact ⟨after, by rw [h]⟩
    · intro h
      obtain ⟨after', heq⟩ := h
      exact (List.cons.inj heq).1

theorem not_at_iff : p.at? c = false ↔ ∀ after, p.rest ≠ ascii c :: after := by
  rw [← Bool.not_eq_true, at_iff, not_exists]

theorem reads_at (h : p.rest = ascii c :: after) :
    p.Reads [ascii c] (p.advance 1) := reads_advance (t := [ascii c]) h

/-! ## Hexadecimal digits -/

variable {b : UInt8} {i : Nat}

theorem hexValue_lt (h : hexValue b = some i) : i < 16 := by
  unfold hexValue at h
  have hle : ∀ x y : UInt8, (x ≤ y) = (x.toNat ≤ y.toNat) := fun x y => UInt8.le_iff_toNat_le |> propext
  simp only [isDigit, hle, Bool.and_eq_true, decide_eq_true_eq] at h
  have h0 : (ascii '0').toNat = 48 := rfl
  have h9 : (ascii '9').toNat = 57 := rfl
  have ha : (ascii 'a').toNat = 97 := rfl
  have hf : (ascii 'f').toNat = 102 := rfl
  have hA : (ascii 'A').toNat = 65 := rfl
  have hF : (ascii 'F').toNat = 70 := rfl
  split at h
  · cases h
    omega
  split at h
  · cases h
    omega
  split at h
  · cases h
    omega
  · cases h

variable {x : Nat}

theorem hexDigit_or (hi : i < 16) : x <<< 4 ||| i = x * 16 + i := by
  rw [← Nat.shiftLeft_add_eq_or_of_lt (show i < 2 ^ 4 from hi), Nat.shiftLeft_eq]

theorem hexText_lt {h : Bytes} {c : Nat} (hhex : HexText h c) : h.length = 4 ∧ c < 0x10000 := by
  cases hhex with
  | digits ha hb hc hd =>
    have hi := hexValue_lt ha
    have hj := hexValue_lt hb
    have hk := hexValue_lt hc
    have hl := hexValue_lt hd
    exact ⟨rfl, by omega⟩

variable {a : UInt8}

theorem parseHex4_digits {c d : UInt8} {j k l : Nat} (hrest : p.rest = a :: b :: c :: d :: after)
    (ha : hexValue a = some i) (hb : hexValue b = some j) (hc : hexValue c = some k)
    (hd : hexValue d = some l) :
    p.parseHex4 = .ok (((i * 16 + j) * 16 + k) * 16 + l, p.advance 4) := by
  unfold parseHex4
  rw [hrest, if_neg (by simp)]
  have htake : (a :: b :: c :: d :: after).take 4 = [a, b, c, d] := rfl
  have hnone : [a, b, c, d].findIdx? (fun b => (hexValue b).isNone) = none := by
    simp [List.findIdx?_cons, ha, hb, hc, hd]
  rw [htake, hnone]
  simp only [List.foldl_cons, List.foldl_nil, ha, hb, hc, hd, Option.getD_some,
    hexDigit_or (hexValue_lt ha), hexDigit_or (hexValue_lt hb), hexDigit_or (hexValue_lt hc),
    hexDigit_or (hexValue_lt hd), Nat.zero_mul, Nat.zero_add]

theorem parseHex4_ok {c : Nat} :
    p.parseHex4 = .ok (c, q) ↔ ∃ h, HexText h c ∧ p.Reads h q := by
  constructor
  · intro h
    obtain ⟨a, b, c', d, after, hrest⟩ : ∃ a b c d after, p.rest = a :: b :: c :: d :: after := by
      unfold parseHex4 at h
      match hrest : p.rest with
      | a :: b :: c :: d :: after => exact ⟨a, b, c, d, after, rfl⟩
      | [] | [_] | [_, _] | [_, _, _] =>
        rw [hrest] at h
        cases h
    have hsome : ∀ x ∈ [a, b, c', d], ∃ i, hexValue x = some i := by
      intro x hx
      unfold parseHex4 at h
      rw [hrest, if_neg (by simp)] at h
      have htake : (a :: b :: c' :: d :: after).take 4 = [a, b, c', d] := rfl
      rw [htake] at h
      split at h
      · cases h
      · rename_i hnone
        have hall := List.findIdx?_eq_none_iff.mp hnone x hx
        exact Option.isSome_iff_exists.mp (by simpa using hall)
    obtain ⟨i, ha⟩ := hsome a (by simp)
    obtain ⟨j, hb⟩ := hsome b (by simp)
    obtain ⟨k, hc⟩ := hsome c' (by simp)
    obtain ⟨l, hd⟩ := hsome d (by simp)
    rw [parseHex4_digits hrest ha hb hc hd] at h
    cases h
    exact ⟨[a, b, c', d], .digits ha hb hc hd, reads_advance (t := [a, b, c', d]) hrest⟩
  · intro h
    obtain ⟨h, hhex, hreads⟩ := h
    cases hhex with
    | digits ha hb hc hd =>
      rw [parseHex4_digits hreads.rest ha hb hc hd, hreads.moved]
      rfl

theorem or_base {base : Nat}
    (hbase : base = 0x80 ∨ base = 0xC0 ∧ x < 32 ∨ base = 0xE0 ∧ x < 16 ∨ base = 0xF0 ∧ x < 8)
    (hx : x < 64) : base ||| x = x + base := by
  have h80 : ∀ x < 64, 0x80 ||| x = x + 0x80 := by decide
  have hC0 : ∀ x < 32, 0xC0 ||| x = x + 0xC0 := by decide
  have hE0 : ∀ x < 16, 0xE0 ||| x = x + 0xE0 := by decide
  have hF0 : ∀ x < 8, 0xF0 ||| x = x + 0xF0 := by decide
  obtain rfl | ⟨rfl, hlt⟩ | ⟨rfl, hlt⟩ | ⟨rfl, hlt⟩ := hbase
  · exact h80 x hx
  · exact hC0 x hlt
  · exact hE0 x hlt
  · exact hF0 x hlt

theorem appendUtf8_eq {c : Nat} (h : c < 0xD800 ∨ 0xDFFF < c) (hlt : c < 0x110000) :
    appendUtf8 c = utf8 c := by
  have hvalid : c.isValidChar := by
    cases h with
    | inl hlow => exact .inl hlow
    | inr hhigh => exact .inr ⟨hhigh, hlt⟩
  have hval : (Char.ofNat c).val.toNat = c := by
    rw [Char.ofNat, dif_pos hvalid]
    rfl
  have hmask : ∀ x : Nat, x &&& 0x3F = x % 64 := fun x => Nat.and_two_pow_sub_one_eq_mod x 6
  have hfirst : ∀ {n base m : Nat}, c >>> n < m → (base = 0xC0 ∧ m = 32 ∨ base = 0xE0 ∧ m = 16 ∨
      base = 0xF0 ∧ m = 8) → base ||| c >>> n = c >>> n % m + base := by
    intro n base m hn hbase
    rw [or_base (by omega) (by omega), Nat.mod_eq_of_lt hn]
  have hnext : ∀ x : Nat, 0x80 ||| x &&& 0x3F = x % 64 + 0x80 := by
    intro x
    rw [hmask, or_base (.inl rfl) (Nat.mod_lt x (by decide))]
  unfold utf8 String.utf8EncodeChar appendUtf8
  dsimp only
  rw [hval]
  split
  · rfl
  split
  · have hlead : c >>> 6 < 32 := by
      rw [Nat.shiftRight_eq_div_pow]
      omega
    rw [hfirst hlead (.inl ⟨rfl, rfl⟩), hnext, Nat.shiftRight_eq_div_pow]
  split
  · have hlead : c >>> 12 < 16 := by
      rw [Nat.shiftRight_eq_div_pow]
      omega
    rw [hfirst hlead (.inr (.inl ⟨rfl, rfl⟩)), hnext, hnext, Nat.shiftRight_eq_div_pow,
      Nat.shiftRight_eq_div_pow]
  · have hlead : c >>> 18 < 8 := by
      rw [Nat.shiftRight_eq_div_pow]
      omega
    rw [hfirst hlead (.inr (.inr ⟨rfl, rfl⟩)), hnext, hnext, hnext, Nat.shiftRight_eq_div_pow,
      Nat.shiftRight_eq_div_pow, Nat.shiftRight_eq_div_pow]

/-! ## Escapes -/

/-- What follows `\u`, and the bytes it denotes. -/
inductive UnicodeText : Bytes → Bytes → Prop
  | single {h : Bytes} {c : Nat} (hhex : HexText h c) (hc : c < 0xD800 ∨ 0xDFFF < c) :
      UnicodeText h (utf8 c)
  | pair {h h' : Bytes} {c c' : Nat} (hhex : HexText h c) (hc : 0xD800 ≤ c ∧ c ≤ 0xDBFF)
      (hhex' : HexText h' c') (hc' : 0xDC00 ≤ c' ∧ c' ≤ 0xDFFF) :
      UnicodeText (h ++ ascii '\\' :: ascii 'u' :: h')
        (utf8 (0x10000 + (c - 0xD800) * 1024 + (c' - 0xDC00)))

theorem take_two (h : t.take 2 = [a, b]) : t = a :: b :: t.drop 2 := by
  have hsplit := (List.take_append_drop 2 t).symm
  rw [h] at hsplit
  exact hsplit

variable {bytes : Bytes}

theorem parseUnicode_sound (h : p.parseUnicode = .ok (bytes, q)) :
    ∃ t, UnicodeText t bytes ∧ p.Reads t q := by
  unfold parseUnicode at h
  cases hfirst : p.parseHex4 with
  | error r =>
    rw [hfirst] at h
    cases h
  | ok result =>
  obtain ⟨first, p1⟩ := result
  rw [hfirst] at h
  dsimp only at h
  obtain ⟨t, hhex, hreads⟩ := parseHex4_ok.mp hfirst
  split at h
  · rename_i hhigh
    simp only [Bool.and_eq_true, decide_eq_true_eq] at hhigh
    split at h
    · cases h
    rename_i hmark
    have hrest := take_two (Decidable.not_not.mp hmark)
    have hmarked : p1.Reads [ascii '\\', ascii 'u'] (p1.advance 2) :=
      reads_advance (t := [ascii '\\', ascii 'u']) hrest
    cases hsecond : (p1.advance 2).parseHex4 with
    | error r =>
      rw [hsecond] at h
      cases h
    | ok result =>
    obtain ⟨second, p2⟩ := result
    rw [hsecond] at h
    dsimp only at h
    obtain ⟨t', hhex', hreads'⟩ := parseHex4_ok.mp hsecond
    split at h
    · cases h
    rename_i hlow
    simp only [Bool.or_eq_true, decide_eq_true_eq, not_or] at hlow
    obtain ⟨rfl, rfl⟩ := Prod.mk.inj (Except.ok.inj h)
    have hlt := (hexText_lt hhex').2
    refine ⟨t ++ ascii '\\' :: ascii 'u' :: t', ?_, ?_⟩
    · rw [appendUtf8_eq (.inr (by rw [Nat.shiftLeft_eq]; omega)) (by rw [Nat.shiftLeft_eq]; omega),
        Nat.shiftLeft_eq]
      exact .pair hhex hhigh hhex' (by omega)
    · exact hreads.trans (hmarked.trans hreads')
  · rename_i hhigh
    simp only [Bool.and_eq_true, decide_eq_true_eq, not_and] at hhigh
    split at h
    · cases h
    rename_i hlow
    simp only [Bool.and_eq_true, decide_eq_true_eq, not_and] at hlow
    cases h
    have hlt := (hexText_lt hhex).2
    have hscalar : first < 0xD800 ∨ 0xDFFF < first := by omega
    rw [appendUtf8_eq hscalar (by omega)]
    exact ⟨t, .single hhex hscalar, hreads⟩

theorem parseUnicode_complete (h : UnicodeText t bytes) (hreads : p.Reads t q) :
    p.parseUnicode = .ok (bytes, q) := by
  cases h with
  | single hhex hc =>
    rename_i c
    have hlt := (hexText_lt hhex).2
    unfold parseUnicode
    rw [parseHex4_ok.mpr ⟨t, hhex, hreads⟩]
    dsimp only
    rw [if_neg (by simp only [Bool.and_eq_true, decide_eq_true_eq]; omega),
      if_neg (by simp only [Bool.and_eq_true, decide_eq_true_eq]; omega),
      appendUtf8_eq hc (by omega)]
  | pair hhex hc hhex' hc' =>
    rename_i first rest c c'
    have hread1 : p.Reads first (p.advance first.length) :=
      reads_advance (by rw [hreads.rest, List.append_assoc])
    have hrest1 : (p.advance first.length).rest = ascii '\\' :: ascii 'u' :: (rest ++ q.rest) :=
      hread1.rest_eq (by rw [hreads.rest, List.append_assoc]; rfl)
    have hread2 : ((p.advance first.length).advance 2).Reads rest q := by
      refine ⟨by rw [advance_rest, hrest1]; rfl, ?_⟩
      rw [hreads.moved, advance_advance, advance_advance, List.length_append, List.length_cons,
        List.length_cons, Nat.add_assoc, Nat.add_comm 2]
    have htake : (p.advance first.length).rest.take 2 = [ascii '\\', ascii 'u'] := by
      rw [hrest1]
      rfl
    unfold parseUnicode
    rw [parseHex4_ok.mpr ⟨first, hhex, hread1⟩]
    dsimp only
    rw [if_pos (by simp only [Bool.and_eq_true, decide_eq_true_eq]; omega),
      if_neg (Decidable.not_not.mpr htake), parseHex4_ok.mpr ⟨rest, hhex', hread2⟩]
    dsimp only
    rw [if_neg (by simp only [Bool.or_eq_true, decide_eq_true_eq]; omega),
      appendUtf8_eq (.inr (by rw [Nat.shiftLeft_eq]; omega)) (by rw [Nat.shiftLeft_eq]; omega),
      Nat.shiftLeft_eq]

inductive EscapeText : Bytes → Bytes → Prop
  | short {e b : UInt8} (he : (e, b) ∈ escapes) : EscapeText [e] [b]
  | unicode {t bytes : Bytes} (ht : UnicodeText t bytes) : EscapeText (ascii 'u' :: t) bytes

theorem short_escape {e : UInt8} (hrest : p.rest = e :: after) (he : (e, b) ∈ escapes) :
    ∃ t, EscapeText t [b] ∧ p.Reads t (p.advance 1) :=
  ⟨[e], .short he, reads_advance (t := [e]) hrest⟩

theorem parseEscape_sound (h : p.parseEscape = .ok (bytes, q)) :
    ∃ t, EscapeText t bytes ∧ p.Reads t q := by
  unfold parseEscape at h
  cases hrest : p.rest with
  | nil =>
    rw [hrest] at h
    cases h
  | cons e after =>
    rw [hrest] at h
    dsimp only at h
    split at h
    · rename_i heq
      cases h
      exact short_escape hrest (by rw [heq]; decide)
    split at h
    · rename_i heq
      cases h
      exact short_escape hrest (by rw [heq]; decide)
    split at h
    · rename_i heq
      cases h
      exact short_escape hrest (by rw [heq]; decide)
    split at h
    · rename_i heq
      cases h
      exact short_escape hrest (by rw [heq]; decide)
    split at h
    · rename_i heq
      cases h
      exact short_escape hrest (by rw [heq]; decide)
    split at h
    · rename_i heq
      cases h
      exact short_escape hrest (by rw [heq]; decide)
    split at h
    · rename_i heq
      cases h
      exact short_escape hrest (by rw [heq]; decide)
    split at h
    · rename_i heq
      cases h
      exact short_escape hrest (by rw [heq]; decide)
    split at h
    · rename_i heq
      rw [heq] at hrest
      obtain ⟨t, ht, hreads⟩ := parseUnicode_sound h
      exact ⟨ascii 'u' :: t, .unicode ht, (reads_at hrest).trans hreads⟩
    · cases h

theorem parseEscape_complete (h : EscapeText t bytes) (hreads : p.Reads t q) :
    p.parseEscape = .ok (bytes, q) := by
  cases h with
  | short he =>
    have hrest : p.rest = _ :: q.rest := hreads.rest
    rw [hreads.moved]
    unfold parseEscape
    rw [hrest]
    simp only [escapes, List.mem_cons, Prod.mk.injEq, List.not_mem_nil, or_false] at he
    obtain ⟨rfl, rfl⟩ | ⟨rfl, rfl⟩ | ⟨rfl, rfl⟩ | ⟨rfl, rfl⟩ | ⟨rfl, rfl⟩ | ⟨rfl, rfl⟩ | ⟨rfl, rfl⟩ |
      ⟨rfl, rfl⟩ := he <;> rfl
  | unicode ht =>
    rename_i t
    have hrest : p.rest = ascii 'u' :: (t ++ q.rest) := hreads.rest
    have hnext : (p.advance 1).Reads t q := by
      refine ⟨by rw [advance_rest, hrest]; rfl, ?_⟩
      rw [hreads.moved, advance_advance, List.length_cons, Nat.add_comm]
    unfold parseEscape
    rw [hrest]
    exact parseUnicode_complete ht hnext

/-! ## Characters -/

theorem charactersText_escape {e v : Bytes} (he : EscapeText e bytes) (ht : CharactersText t v) :
    CharactersText (ascii '\\' :: (e ++ t)) (bytes ++ v) := by
  cases he with
  | short he => exact .escape he ht
  | unicode he =>
    cases he with
    | single hhex hc => exact .unicode hhex hc ht
    | pair hhex hc hhex' hc' =>
      rw [List.cons_append, List.append_assoc, List.cons_append, List.cons_append]
      exact .pair hhex hc hhex' hc' ht

variable {value : Bytes}

theorem parseCharacters_sound {rounds : Nat} {output : Bytes}
    (h : parseCharacters rounds p output = .ok (value, q)) :
    ∃ t v, CharactersText t v ∧ value = output ++ v ∧ p.Reads (t ++ [ascii '"']) q := by
  induction rounds generalizing p output with
  | zero => cases h
  | succ rounds ih =>
    unfold parseCharacters at h
    cases hrest : p.rest with
    | nil =>
      rw [hrest] at h
      cases h
    | cons b after =>
    rw [hrest] at h
    dsimp only at h
    split at h
    · rename_i hquote
      cases h
      rw [hquote] at hrest
      exact ⟨[], [], .nil, (List.append_nil _).symm, reads_at hrest⟩
    rename_i hquote
    split at h
    · cases h
    rename_i hcontrol
    split at h
    · rename_i hescape
      obtain ⟨t, v, ht, hvalue, hreads⟩ := ih h
      refine ⟨b :: t, b :: v, .raw ?_ hquote hescape ht, ?_, ?_⟩
      · exact UInt8.not_lt.mp hcontrol
      · rw [hvalue, List.append_assoc, List.singleton_append]
      · exact (reads_advance (t := [b]) hrest).trans hreads
    · rename_i hescape
      have hslash : b = ascii '\\' := Decidable.not_not.mp hescape
      rw [hslash] at hrest
      cases hescaped : (p.advance 1).parseEscape with
      | error r =>
        rw [hescaped] at h
        cases h
      | ok result =>
      obtain ⟨bytes, p1⟩ := result
      rw [hescaped] at h
      obtain ⟨e, he, hreadsE⟩ := parseEscape_sound hescaped
      obtain ⟨t, v, ht, hvalue, hreads⟩ := ih h
      refine ⟨ascii '\\' :: (e ++ t), bytes ++ v, charactersText_escape he ht, ?_, ?_⟩
      · rw [hvalue, List.append_assoc]
      · have hall := (reads_at hrest).trans (hreadsE.trans hreads)
        have heq : [ascii '\\'] ++ (e ++ (t ++ [ascii '"'])) =
            ascii '\\' :: (e ++ t) ++ [ascii '"'] := by simp
        rw [heq] at hall
        exact hall

theorem reads_cons (h : p.Reads (b :: t) q) : (p.advance 1).Reads t q where
  rest := by
    have hrest : p.rest = b :: (t ++ q.rest) := h.rest
    rw [advance_rest, hrest]
    rfl
  moved := by rw [h.moved, advance_advance, List.length_cons, Nat.add_comm]

theorem Reads.split (h : p.Reads (t ++ u) q) :
    p.Reads t (p.advance t.length) ∧ (p.advance t.length).Reads u q := by
  have hrest : p.rest = t ++ (u ++ q.rest) := by rw [h.rest, List.append_assoc]
  have hfirst := reads_advance hrest
  refine ⟨hfirst, hfirst.rest_eq hrest, ?_⟩
  rw [h.moved, advance_advance, List.length_append]

theorem parseCharacters_escape {rounds : Nat} {output bytes e t v : Bytes} (he : EscapeText e bytes)
    (hreads : p.Reads (ascii '\\' :: (e ++ t) ++ [ascii '"']) q)
    (hrounds : (ascii '\\' :: (e ++ t)).length < rounds)
    (hnext : ∀ {p : JsonParser} {rounds : Nat} {output : Bytes}, t.length < rounds →
      p.Reads (t ++ [ascii '"']) q → parseCharacters rounds p output = .ok (output ++ v, q)) :
    parseCharacters rounds p output = .ok (output ++ (bytes ++ v), q) := by
  obtain ⟨rounds, rfl⟩ := Nat.exists_eq_succ_of_ne_zero (Nat.ne_of_gt (Nat.zero_lt_of_lt hrounds))
  have hrest : p.rest = ascii '\\' :: (((e ++ t) ++ [ascii '"']) ++ q.rest) := hreads.rest
  have hescaped : (p.advance 1).Reads (e ++ (t ++ [ascii '"'])) q := by
    rw [← List.append_assoc]
    exact reads_cons hreads
  obtain ⟨hfirst, hafter⟩ := hescaped.split
  rw [List.length_cons, List.length_append] at hrounds
  rw [parseCharacters, hrest]
  dsimp only
  rw [if_neg (by decide), if_neg (by decide), if_neg (by decide), parseEscape_complete he hfirst]
  dsimp only
  rw [hnext (by omega) hafter, List.append_assoc]

theorem parseCharacters_complete {t v : Bytes} (h : CharactersText t v) {rounds : Nat}
    {output : Bytes} (hrounds : t.length < rounds) (hreads : p.Reads (t ++ [ascii '"']) q) :
    parseCharacters rounds p output = .ok (output ++ v, q) := by
  induction h generalizing p rounds output with
  | nil =>
    obtain ⟨rounds, rfl⟩ := Nat.exists_eq_succ_of_ne_zero (Nat.ne_of_gt hrounds)
    have hrest : p.rest = ascii '"' :: q.rest := hreads.rest
    rw [parseCharacters, hrest]
    dsimp only
    rw [if_pos rfl, List.append_nil, hreads.moved]
    rfl
  | raw hcontrol hquote hescape ht ih =>
    rename_i b t v
    obtain ⟨rounds, rfl⟩ := Nat.exists_eq_succ_of_ne_zero (Nat.ne_of_gt (Nat.zero_lt_of_lt hrounds))
    have hrest : p.rest = b :: ((t ++ [ascii '"']) ++ q.rest) := hreads.rest
    rw [parseCharacters, hrest]
    dsimp only
    rw [if_neg hquote, if_neg (UInt8.not_lt.mpr hcontrol), if_pos hescape,
      ih (Nat.lt_of_succ_lt_succ hrounds) (reads_cons hreads), List.append_assoc,
      List.singleton_append]
  | escape he ht ih => exact parseCharacters_escape (.short he) hreads hrounds ih
  | unicode hhex hc ht ih =>
    exact parseCharacters_escape (.unicode (.single hhex hc)) hreads hrounds ih
  | pair hhex hc hhex' hc' ht ih =>
    rename_i h h' t v c c'
    have heq : h ++ ascii '\\' :: ascii 'u' :: (h' ++ t) =
        (h ++ ascii '\\' :: ascii 'u' :: h') ++ t := by simp
    rw [heq] at hreads hrounds
    exact parseCharacters_escape (.unicode (.pair hhex hc hhex' hc')) hreads hrounds ih

theorem parseString_sound (h : p.parseString = .ok (value, q)) :
    ∃ t, StringText t value ∧ p.Reads t q := by
  unfold parseString at h
  split at h
  · rename_i hquote
    obtain ⟨after, hrest⟩ := at_iff.mp hquote
    obtain ⟨t, v, ht, hvalue, hreads⟩ := parseCharacters_sound h
    rw [List.nil_append] at hvalue
    rw [hvalue]
    exact ⟨ascii '"' :: (t ++ [ascii '"']), .quoted ht, (reads_at hrest).trans hreads⟩
  · cases h

theorem parseString_complete (h : StringText t value) (hreads : p.Reads t q) :
    p.parseString = .ok (value, q) := by
  cases h with
  | quoted ht =>
    rename_i t
    have hrest : p.rest = ascii '"' :: ((t ++ [ascii '"']) ++ q.rest) := hreads.rest
    unfold parseString
    rw [if_pos (at_iff.mpr ⟨_, hrest⟩)]
    apply parseCharacters_complete ht ?_ (reads_cons hreads)
    rw [hrest, List.length_cons, List.length_append, List.length_append]
    omega

end JsonParser
end ServerEngine
