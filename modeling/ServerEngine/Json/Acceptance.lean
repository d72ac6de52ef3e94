import ServerEngine.Json.Values

/-! # The JSON parser accepts its grammar

Soundness goes over the levels of nesting and the rounds of the loops; completeness goes over the
derivation. The events are those of the value, so their fold rebuilds it.
-/
namespace ServerEngine

/-! ## Texts -/

variable {w : Bytes}

theorem whitespace_append {w' : Bytes} (hw : Whitespace w) (hw' : Whitespace w') :
    Whitespace (w ++ w') := by
  intro b hb
  cases List.mem_append.mp hb with
  | inl h => exact hw b h
  | inr h => exact hw' b h

variable {t : Bytes}

theorem derives_elements_pad {d : Nat} {vs : List JsonValue} (hw : Whitespace w)
    (h : Derives d t (.elements vs)) : Derives d (w ++ t) (.elements vs) := by
  cases h with
  | lastElement hw₀ ht hw' =>
    rw [← List.append_assoc]
    exact .lastElement (whitespace_append hw hw₀) ht hw'
  | element hw₀ ht hw' hrest =>
    rw [← List.append_assoc]
    exact .element (whitespace_append hw hw₀) ht hw' hrest

theorem derives_members_pad {d : Nat} {ms : List (Bytes × JsonValue)} (hw : Whitespace w)
    (h : Derives d t (.members ms)) : Derives d (w ++ t) (.members ms) := by
  cases h with
  | lastMember hw₀ hk hw₁ hw₂ ht hw' =>
    rw [← List.append_assoc]
    exact .lastMember (whitespace_append hw hw₀) hk hw₁ hw₂ ht hw'
  | member hw₀ hk hw₁ hw₂ ht hw' hrest =>
    rw [← List.append_assoc]
    exact .member (whitespace_append hw hw₀) hk hw₁ hw₂ ht hw' hrest

namespace JsonParser

variable {p q : JsonParser} {d : Nat}

/-! ## Soundness -/

def Sound (d : Nat) (value : JsonParser → Except JsonParser JsonParser) : Prop :=
  ∀ p q, value p = .ok q → ∃ w t v es, Whitespace w ∧ Derives d t (.value v) ∧
    Streams es (.value v) ∧ p.Yields (w ++ t) es q

def SoundAt (d : Nat) (c : Char) (bracket : JsonParser → Except JsonParser JsonParser) : Prop :=
  ∀ p q after, p.rest = ascii c :: after → bracket p = .ok q → ∃ t v es, Derives d t (.value v) ∧
    (∀ offset, Streams (.location offset :: es) (.value v)) ∧ p.Yields t es q

variable {c : Char} {after : Bytes}

theorem yields_close (e : JsonEvent) (hrest : p.rest = ascii c :: after) :
    p.Yields [ascii c] [.location p.position, e] (p.close e) := by
  have hall := (reads_at hrest).yields.trans
    ((yields_emit (p.advance 1) (.location p.position)).trans (yields_emit _ e))
  exact hall

theorem yields_open (e : JsonEvent) (hrest : p.rest = ascii c :: after) :
    p.Yields [ascii c] [e] ((p.advance 1).emit e) :=
  (reads_at hrest).yields.trans (yields_emit (p.advance 1) e)

variable {t u : Bytes}

theorem Yields.cast {es fs : List JsonEvent} (h : p.Yields t es q) (ht : t = u) (hes : es = fs) :
    p.Yields u fs q := by
  rw [← ht, ← hes]
  exact h

variable {value : JsonParser → Except JsonParser JsonParser} {rounds : Nat}

theorem parseElements_sound (hvalue : Sound d value) (h : parseElements value rounds p = .ok q) :
    ∃ t vs es ending, Derives d t (.elements vs) ∧
      Streams es (.elements vs) ∧
      p.Yields (t ++ [ascii ']']) (es ++ [.location ending, .arrayEnd]) q := by
  induction rounds generalizing p with
  | zero => cases h
  | succ rounds ih =>
    obtain ⟨p1, h1, h⟩ := ErrorFold.bind_ok.mp h
    obtain ⟨w, t, v, es, hw, ht, hes, hyields⟩ := hvalue p p1 h1
    obtain ⟨w', hw', hspace⟩ := skipSpace_reads p1
    dsimp only at h
    split at h
    · rename_i hclose
      obtain ⟨after, hrest⟩ := at_iff.mp hclose
      cases h
      refine ⟨_, [v], es ++ [], p1.skipSpace.position, .lastElement hw ht hw',
        .element hes .noElements, ?_⟩
      have hall := hyields.trans (hspace.yields.trans (yields_close .arrayEnd hrest))
      exact hall.cast (by simp) (by simp)
    split at h
    · rename_i hcomma
      obtain ⟨after, hrest⟩ := at_iff.mp hcomma
      obtain ⟨t', vs, fs, ending, ht', hfs, hyields'⟩ := ih h
      refine ⟨_, v :: vs, es ++ fs, ending, .element hw ht hw' ht', .element hes hfs, ?_⟩
      have hall := hyields.trans (hspace.yields.trans ((reads_at hrest).yields.trans hyields'))
      exact hall.cast (by simp) (by simp)
    · cases h

theorem parseArray_sound (hvalue : Sound d value) : SoundAt (d + 1) '[' (parseArray value) := by
  intro p q after hrest h
  have hopen := yields_open .arrayBegin hrest
  obtain ⟨w, hw, hspace⟩ := skipSpace_reads ((p.advance 1).emit .arrayBegin)
  unfold parseArray at h
  dsimp only at h
  split at h
  · rename_i hclose
    obtain ⟨after', hrest'⟩ := at_iff.mp hclose
    cases h
    have hall := hopen.trans (hspace.yields.trans (yields_close .arrayEnd hrest'))
    exact ⟨ascii '[' :: (w ++ [ascii ']']), .array [], _, .emptyArray hw,
      fun offset => .array .noElements, hall⟩
  · obtain ⟨t, vs, es, ending, ht, hes, hyields⟩ := parseElements_sound hvalue h
    have hall : p.Yields (ascii '[' :: ((w ++ t) ++ [ascii ']']))
        (.arrayBegin :: (es ++ [.location ending, .arrayEnd])) q :=
      (hopen.trans (hspace.yields.trans hyields)).cast (by simp) rfl
    exact ⟨_, .array vs, _, .array (derives_elements_pad hw ht), fun offset => .array hes, hall⟩

theorem parseMembers_sound (hvalue : Sound d value) (h : parseMembers value rounds p = .ok q) :
    ∃ t ms es ending, Derives d t (.members ms) ∧
      Streams es (.members ms) ∧
      p.Yields (t ++ [ascii '}']) (es ++ [.location ending, .objectEnd]) q := by
  induction rounds generalizing p with
  | zero => cases h
  | succ rounds ih =>
    rw [parseMembers] at h
    obtain ⟨w, hw, hspace⟩ := skipSpace_reads p
    split at h
    · cases h
    obtain ⟨⟨key, p1⟩, hkey, h⟩ := ErrorFold.bind_ok.mp h
    obtain ⟨k, hk, hreadsK⟩ := parseString_sound hkey
    obtain ⟨w₁, hw₁, hspace₁⟩ := skipSpace_reads (p1.emit (.key key))
    dsimp only at h
    split at h
    · cases h
    rename_i hcolon
    obtain ⟨after, hrest⟩ := at_iff.mp (by simpa using hcolon)
    obtain ⟨p2, h2, h⟩ := ErrorFold.bind_ok.mp h
    obtain ⟨w₂, t, v, es, hw₂, ht, hes, hyields⟩ := hvalue _ p2 h2
    obtain ⟨w', hw', hspace'⟩ := skipSpace_reads p2
    have hmember := hspace.yields.trans ((yields_emit p.skipSpace
      (.location p.skipSpace.position)).trans (hreadsK.yields.trans ((yields_emit p1 (.key key)).trans
        (hspace₁.yields.trans ((reads_at hrest).yields.trans (hyields.trans hspace'.yields))))))
    split at h
    · rename_i hclose
      obtain ⟨after', hrest'⟩ := at_iff.mp hclose
      cases h
      refine ⟨_, [(key, v)], .location p.skipSpace.position :: .key key :: (es ++ []),
        p2.skipSpace.position, .lastMember hw hk hw₁ hw₂ ht hw', .member hes .noMembers, ?_⟩
      exact (hmember.trans (yields_close .objectEnd hrest')).cast (by simp) (by simp)
    split at h
    · rename_i hcomma
      obtain ⟨after', hrest'⟩ := at_iff.mp hcomma
      obtain ⟨t', ms, fs, ending, ht', hfs, hyields'⟩ := ih h
      refine ⟨_, (key, v) :: ms, .location p.skipSpace.position :: .key key :: (es ++ fs), ending,
        .member hw hk hw₁ hw₂ ht hw' ht', .member hes hfs, ?_⟩
      exact (hmember.trans ((reads_at hrest').yields.trans hyields')).cast (by simp) (by simp)
    · cases h

theorem parseObject_sound (hvalue : Sound d value) : SoundAt (d + 1) '{' (parseObject value) := by
  intro p q after hrest h
  have hopen := yields_open .objectBegin hrest
  obtain ⟨w, hw, hspace⟩ := skipSpace_reads ((p.advance 1).emit .objectBegin)
  unfold parseObject at h
  dsimp only at h
  split at h
  · rename_i hclose
    obtain ⟨after', hrest'⟩ := at_iff.mp hclose
    cases h
    have hall := hopen.trans (hspace.yields.trans (yields_close .objectEnd hrest'))
    exact ⟨ascii '{' :: (w ++ [ascii '}']), .object [], _, .emptyObject hw,
      fun offset => .object .noMembers, hall⟩
  · obtain ⟨t, ms, es, ending, ht, hes, hyields⟩ := parseMembers_sound hvalue h
    have hall : p.Yields (ascii '{' :: ((w ++ t) ++ [ascii '}']))
        (.objectBegin :: (es ++ [.location ending, .objectEnd])) q :=
      (hopen.trans (hspace.yields.trans hyields)).cast (by simp) rfl
    exact ⟨_, .object ms, _, .object (derives_members_pad hw ht), fun offset => .object hes, hall⟩

variable {w : Bytes} {v : JsonValue} {e : JsonEvent}

theorem scalar_sound {p0 : JsonParser} (hw : Whitespace w) (hspace : p.Reads w p0)
    (ht : Derives d t (.value v)) (he : ScalarEvent e v)
    (hyields : (p0.emit (.location p0.position)).Yields t [e] q) : ∃ w t v es, Whitespace w ∧
      Derives d t (.value v) ∧ Streams es (.value v) ∧ p.Yields (w ++ t) es q :=
  ⟨w, t, v, _, hw, ht, .scalar he, hspace.yields.trans ((yields_emit p0 _).trans hyields)⟩

theorem parseValueWith_sound {object array : JsonParser → Except JsonParser JsonParser}
    (hobject : SoundAt d '{' object) (harray : SoundAt d '[' array) :
    Sound d (parseValueWith object array) := by
  intro p q h
  obtain ⟨w, hw, hspace⟩ := skipSpace_reads p
  unfold parseValueWith at h
  dsimp only at h
  cases hrest : p.skipSpace.rest with
  | nil =>
    rw [hrest] at h
    cases h
  | cons b after =>
    rw [hrest] at h
    dsimp only at h
    have hlocated := hspace.yields.trans (yields_emit p.skipSpace (.location p.skipSpace.position))
    split at h
    · rename_i hb
      rw [hb] at hrest
      obtain ⟨t, v, es, ht, hes, hyields⟩ := hobject (p.skipSpace.emit (.location _)) q after hrest h
      exact ⟨w, t, v, _, hw, ht, hes p.skipSpace.position,
        (hlocated.trans hyields).cast (by simp) (by simp)⟩
    split at h
    · rename_i hb
      rw [hb] at hrest
      obtain ⟨t, v, es, ht, hes, hyields⟩ := harray (p.skipSpace.emit (.location _)) q after hrest h
      exact ⟨w, t, v, _, hw, ht, hes p.skipSpace.position,
        (hlocated.trans hyields).cast (by simp) (by simp)⟩
    split at h
    · obtain ⟨⟨v, p1⟩, hstring, h⟩ := ErrorFold.bind_ok.mp h
      cases h
      obtain ⟨t, ht, hreads⟩ := parseString_sound hstring
      exact scalar_sound hw hspace (.string ht) (.string v)
        ((hreads.yields.trans (yields_emit p1 (.string v))).cast (List.append_nil t) rfl)
    split at h
    · exact scalar_sound hw hspace .truth (.boolean true) (parseLiteral_ok.mp h)
    split at h
    · exact scalar_sound hw hspace .falsity (.boolean false) (parseLiteral_ok.mp h)
    split at h
    · exact scalar_sound hw hspace .null .null (parseLiteral_ok.mp h)
    split at h
    · obtain ⟨t, v, e, ht, he, hyields⟩ := parseNumber_sound d h
      exact scalar_sound hw hspace ht he hyields
    · cases h

theorem parseValue_sound (d : Nat) : Sound d (parseValue d) := by
  induction d with
  | zero => exact parseValueWith_sound (fun _ _ _ _ h => nomatch h) (fun _ _ _ _ h => nomatch h)
  | succ d ih => exact parseValueWith_sound (parseObject_sound ih) (parseArray_sound ih)

/-! ## Completeness -/

def Follows (after : Bytes) : Prop :=
  ∀ b ∈ after.head?, isSpace b = true ∨ b = ascii ',' ∨ b = ascii ']' ∨ b = ascii '}'

theorem follows_cons {w after : Bytes} {b : UInt8} (hw : Whitespace w)
    (hb : b = ascii ',' ∨ b = ascii ']' ∨ b = ascii '}') : Follows (w ++ b :: after) := by
  intro c hc
  cases w with
  | nil =>
    cases hc
    exact .inr hb
  | cons x w =>
    cases hc
    exact .inl (hw c List.mem_cons_self)

theorem follows_space (hw : Whitespace w) : Follows w := by
  intro c hc
  exact .inl (hw c (List.mem_of_mem_head? hc))

theorem follows_ends (h : Follows q.rest) : q.NumberEnds := by
  have hends : ∀ b : UInt8, (isSpace b = true ∨ b = ascii ',' ∨ b = ascii ']' ∨ b = ascii '}') →
      isDigit b = false ∧ (b == ascii '.') = false ∧
        (b == ascii 'e' || b == ascii 'E') = false := by
    intro b hb
    have hb' : b = ascii ' ' ∨ b = ascii '\t' ∨ b = ascii '\n' ∨ b = ascii '\r' ∨ b = ascii ',' ∨
        b = ascii ']' ∨ b = ascii '}' := by
      simpa [isSpace, or_assoc] using hb
    obtain rfl | rfl | rfl | rfl | rfl | rfl | rfl := hb' <;> decide
  cases hrest : q.rest with
  | nil =>
    refine ⟨?_, ?_, ?_⟩
    · rw [atDigit, hrest]
      rfl
    · rw [at?, hrest]
      rfl
    · rw [at?, at?, hrest]
      rfl
  | cons b after =>
    obtain ⟨hdigit, hpoint, hmark⟩ := hends b (h b (by rw [hrest]; rfl))
    refine ⟨?_, ?_, ?_⟩
    · rw [atDigit_rest hrest, hdigit]
    · rw [at_rest hrest, hpoint]
    · rw [at_rest hrest, at_rest hrest, hmark]

/-- A phrase is taken where it stands; its events are those of the value. -/
def Accepted (d : Nat) (t : Bytes) : JsonPhrase → Prop
  | .value v => ∀ {w after : Bytes} {p : JsonParser}, Whitespace w → p.rest = w ++ (t ++ after) →
      Follows after → ∃ es q, Streams es (.value v) ∧ p.Yields (w ++ t) es q ∧ parseValue d p = .ok q
  | .elements vs => ∀ {after : Bytes} {p : JsonParser} {rounds : Nat},
      p.rest = t ++ ascii ']' :: after → p.skipSpace.rest.length < rounds →
      ∃ es ending q, Streams es (.elements vs) ∧
        p.Yields (t ++ [ascii ']']) (es ++ [.location ending, .arrayEnd]) q ∧
        parseElements (parseValue d) rounds p = .ok q
  | .members ms => ∀ {after : Bytes} {p : JsonParser} {rounds : Nat},
      p.rest = t ++ ascii '}' :: after → p.skipSpace.rest.length < rounds →
      ∃ es ending q, Streams es (.members ms) ∧
        p.Yields (t ++ [ascii '}']) (es ++ [.location ending, .objectEnd]) q ∧
        parseMembers (parseValue d) rounds p = .ok q

theorem value_head (h : Derives d t (.value v)) :
    ∃ b t', t = b :: t' ∧ isSpace b = false ∧ b ≠ ascii ']' := by
  have hdigit : ∀ b : UInt8, isDigit b = true → isSpace b = false ∧ b ≠ ascii ']' := by
    intro b hb
    refine ⟨?_, digit_ne hb (by decide)⟩
    simp [isSpace, digit_ne hb (c := ' ') (by decide), digit_ne hb (c := '\t') (by decide),
      digit_ne hb (c := '\n') (by decide), digit_ne hb (c := '\r') (by decide)]
  have hnumber : ∀ (negative : Bool) {t : Bytes} (u : Bytes), IntegerText t → ∃ b t',
      signText negative ++ (t ++ u) = b :: t' ∧ isSpace b = false ∧ b ≠ ascii ']' := by
    intro negative t u ht
    obtain ⟨b, t', rfl, hb, -⟩ := integerText_head ht
    cases negative with
    | true => exact ⟨_, _, rfl, by decide, by decide⟩
    | false => exact ⟨b, _, rfl, hdigit b hb⟩
  cases h with
  | null => exact ⟨_, _, rfl, by decide, by decide⟩
  | truth => exact ⟨_, _, rfl, by decide, by decide⟩
  | falsity => exact ⟨_, _, rfl, by decide, by decide⟩
  | string ht =>
    cases ht with
    | quoted ht => exact ⟨_, _, rfl, by decide, by decide⟩
  | integer ht hv hfits =>
    rename_i negative t v
    have hhead := hnumber negative [] ht
    rw [List.append_nil] at hhead
    exact hhead
  | number ht hf he hreal hbits hfinite => exact hnumber _ _ ht
  | emptyArray hw => exact ⟨_, _, rfl, by decide, by decide⟩
  | array ht => exact ⟨_, _, rfl, by decide, by decide⟩
  | emptyObject hw => exact ⟨_, _, rfl, by decide, by decide⟩
  | object ht => exact ⟨_, _, rfl, by decide, by decide⟩

variable {b : UInt8}

theorem skipSpace_rest (hw : Whitespace w) (hrest : p.rest = w ++ b :: after)
    (hb : isSpace b = false) :
    p.skipSpace = p.advance w.length ∧ p.skipSpace.rest = b :: after := by
  have hreads := reads_advance hrest
  have hnext := hreads.rest_eq hrest
  have heq := skipSpace_eq hw hreads (stops_cons hnext hb)
  exact ⟨heq, by rw [heq, hnext]⟩

theorem skipSpace_skipSpace (p : JsonParser) : p.skipSpace.skipSpace = p.skipSpace :=
  skipSpace_self (skipSpace_stops p)

theorem parseValueWith_skipSpace (object array : JsonParser → Except JsonParser JsonParser)
    (p : JsonParser) : parseValueWith object array p.skipSpace = parseValueWith object array p := by
  unfold parseValueWith
  rw [skipSpace_skipSpace]

theorem parseValue_skipSpace (d : Nat) (p : JsonParser) :
    parseValue d p.skipSpace = parseValue d p := by
  cases d with
  | zero => exact parseValueWith_skipSpace _ _ p
  | succ d => exact parseValueWith_skipSpace _ _ p

theorem parseValueWith_at (object array : JsonParser → Except JsonParser JsonParser)
    (hstops : p.Stops isSpace) (hrest : p.rest = b :: after) : parseValueWith object array p =
      if b = ascii '{' then object (p.emit (.location p.position))
      else if b = ascii '[' then array (p.emit (.location p.position))
      else if b = ascii '"' then do
        let (value, q) ← (p.emit (.location p.position)).parseString
        .ok (q.emit (.string value))
      else if b = ascii 't' then
        (p.emit (.location p.position)).parseLiteral (asciiBytes "true") (.boolean true)
      else if b = ascii 'f' then
        (p.emit (.location p.position)).parseLiteral (asciiBytes "false") (.boolean false)
      else if b = ascii 'n' then (p.emit (.location p.position)).parseLiteral (asciiBytes "null") .null
      else if b = ascii '-' || isDigit b then (p.emit (.location p.position)).parseNumber
      else (p.emit (.location p.position)).fail .unexpectedToken p.position := by
  unfold parseValueWith
  dsimp only
  rw [skipSpace_self hstops, hrest]
  rfl

theorem parseValue_at (d : Nat) :
    ∃ object array, parseValue d = parseValueWith object array := by
  cases d with
  | zero => exact ⟨_, _, rfl⟩
  | succ d => exact ⟨_, _, rfl⟩

theorem accepted_value (h : Derives d t (.value v))
    (htake : ∀ {p : JsonParser} {after : Bytes}, p.Stops isSpace → p.rest = t ++ after → Follows after → ∃ es q, (∀ offset, Streams (.location offset :: es) (.value v)) ∧ (p.emit (.location p.position)).Yields t es q ∧ parseValue d p = .ok q) :
    Accepted d t (.value v) := by
  intro w after p hw hrest hafter
  obtain ⟨b, t', rfl, hb, -⟩ := value_head h
  obtain ⟨heq, hnext⟩ := skipSpace_rest hw hrest hb
  obtain ⟨es, q, hes, hyields, hparse⟩ := htake (skipSpace_stops p) hnext hafter
  have hspace : p.Reads w p.skipSpace := by
    rw [heq]
    exact reads_advance hrest
  refine ⟨.location p.skipSpace.position :: es, q, hes _, ?_, ?_⟩
  · exact (hspace.yields.trans ((yields_emit _ _).trans hyields)).cast rfl rfl
  · rw [← parseValue_skipSpace, hparse]

theorem accepted_scalar (h : Derives d t (.value v)) (he : ScalarEvent e v)
    (htake : ∀ {object array : JsonParser → Except JsonParser JsonParser} {p q : JsonParser}, p.Stops isSpace → (p.emit (.location p.position)).Reads t q → Follows q.rest → parseValueWith object array p = .ok (q.emit e)) :
    Accepted d t (.value v) := by
  apply accepted_value h
  intro p after hstops hrest hafter
  have hreads : (p.emit (.location p.position)).Reads t _ := reads_advance hrest
  have hnext := hreads.rest_eq hrest
  obtain ⟨object, array, heq⟩ := parseValue_at d
  refine ⟨[e], _, fun offset => .scalar he, (hreads.yields.trans (yields_emit _ e)).cast ?_ rfl, ?_⟩
  · rw [List.append_nil]
  · rw [heq]
    exact htake hstops hreads (by rw [hnext]; exact hafter)

theorem accepted_number {text : Bytes} {negative : Bool}
    (htext : text = signText negative ++ (t ++ u)) (ht : IntegerText t)
    (h : Derives d text (.value v)) (he : ScalarEvent e v)
    (htake : ∀ {p q : JsonParser}, p.Reads text q → q.NumberEnds → p.parseNumber = .ok (q.emit e)) :
    Accepted d text (.value v) := by
  apply accepted_scalar h he
  intro object array p q hstops hreads hafter
  have hparse := htake hreads (follows_ends hafter)
  obtain ⟨b, t', rfl, hb, -⟩ := integerText_head ht
  have hrest : p.rest = signText negative ++ (b :: t' ++ u) ++ q.rest := by
    rw [← htext]
    exact hreads.rest
  cases negative with
  | true =>
    rw [parseValueWith_at object array hstops hrest, if_neg (by decide), if_neg (by decide),
      if_neg (by decide), if_neg (by decide), if_neg (by decide), if_neg (by decide),
      if_pos (by decide)]
    exact hparse
  | false =>
    rw [parseValueWith_at object array hstops hrest, if_neg (digit_ne hb (by decide)),
      if_neg (digit_ne hb (by decide)), if_neg (digit_ne hb (by decide)),
      if_neg (digit_ne hb (by decide)), if_neg (digit_ne hb (by decide)),
      if_neg (digit_ne hb (by decide)), if_pos (by rw [hb, Bool.or_true])]
    exact hparse

theorem accepted_literal (h : Derives d (ascii c :: t) (.value v)) (he : ScalarEvent e v)
    (hcase : ∀ (object array : JsonParser → Except JsonParser JsonParser) {p : JsonParser} {after : Bytes}, p.Stops isSpace → p.rest = ascii c :: after → parseValueWith object array p = (p.emit (.location p.position)).parseLiteral (ascii c :: t) e) :
    Accepted d (ascii c :: t) (.value v) := by
  apply accepted_scalar h he
  intro object array p q hstops hreads hafter
  have hrest : p.rest = ascii c :: (t ++ q.rest) := hreads.rest
  rw [hcase object array hstops hrest]
  apply parseLiteral_ok.mpr
  exact (hreads.yields.trans (yields_emit q e)).cast (List.append_nil _) rfl

theorem accepted_array {t : Bytes} {vs : List JsonValue} (h : Derives (d + 1) t (.value (.array vs)))
    (hhead : ∃ t', t = ascii '[' :: t')
    (htake : ∀ {p : JsonParser} {after : Bytes}, p.rest = t ++ after → ∃ es ending q,
      Streams es (.elements vs) ∧
      p.Yields t (.arrayBegin :: (es ++ [.location ending, .arrayEnd])) q ∧
      parseArray (parseValue d) p = .ok q) : Accepted (d + 1) t (.value (.array vs)) := by
  apply accepted_value h
  intro p after hstops hrest hafter
  obtain ⟨es, ending, q, hes, hyields, hparse⟩ :=
    @htake (p.emit (.location p.position)) after hrest
  obtain ⟨t', rfl⟩ := hhead
  refine ⟨_, q, fun offset => .array hes, hyields, ?_⟩
  rw [parseValue, parseValueWith_at _ _ hstops hrest, if_neg (by decide), if_pos rfl, hparse]

theorem accepted_object {t : Bytes} {ms : List (Bytes × JsonValue)}
    (h : Derives (d + 1) t (.value (.object ms))) (hhead : ∃ t', t = ascii '{' :: t')
    (htake : ∀ {p : JsonParser} {after : Bytes}, p.rest = t ++ after → ∃ es ending q,
      Streams es (.members ms) ∧
      p.Yields t (.objectBegin :: (es ++ [.location ending, .objectEnd])) q ∧
      parseObject (parseValue d) p = .ok q) : Accepted (d + 1) t (.value (.object ms)) := by
  apply accepted_value h
  intro p after hstops hrest hafter
  obtain ⟨es, ending, q, hes, hyields, hparse⟩ :=
    @htake (p.emit (.location p.position)) after hrest
  obtain ⟨t', rfl⟩ := hhead
  refine ⟨_, q, fun offset => .object hes, hyields, ?_⟩
  rw [parseValue, parseValueWith_at _ _ hstops hrest, if_pos rfl, hparse]

theorem parseElements_skipSpace (d rounds : Nat) (p : JsonParser) :
    parseElements (parseValue d) (rounds + 1) p.skipSpace =
      parseElements (parseValue d) (rounds + 1) p := by
  rw [parseElements, parseElements, parseValue_skipSpace]

theorem parseMembers_skipSpace (d rounds : Nat) (p : JsonParser) :
    parseMembers (parseValue d) (rounds + 1) p.skipSpace =
      parseMembers (parseValue d) (rounds + 1) p := by
  rw [parseMembers, parseMembers, skipSpace_skipSpace]

theorem separator_next {w after : Bytes} {b : UInt8} (hw : Whitespace w)
    (hb : b = ascii ',' ∨ b = ascii ']' ∨ b = ascii '}') (hrest : q.rest = w ++ b :: after) :
    q.Yields w [] q.skipSpace ∧ q.skipSpace.rest = b :: after := by
  have hspace : isSpace b = false := by
    obtain rfl | rfl | rfl := hb <;> decide
  obtain ⟨heq, hnext⟩ := skipSpace_rest hw hrest hspace
  refine ⟨?_, hnext⟩
  rw [heq]
  exact (reads_advance hrest).yields

theorem not_at (hrest : p.rest = b :: after) (hb : b ≠ ascii c) : ¬ p.at? c = true := by
  rw [at_rest hrest, beq_iff_eq]
  exact hb

theorem shorter_rest (hw : Whitespace w) (hb : isSpace b = false)
    (hrest : p.rest = w ++ b :: (u ++ after)) (hrounds : p.skipSpace.rest.length < rounds + 1)
    (hq : q.rest = after) : q.skipSpace.rest.length < rounds := by
  obtain ⟨-, hnext⟩ := skipSpace_rest hw hrest hb
  obtain ⟨w', -, hskip⟩ := skipSpace_reads q
  have hle := hskip.yields.length_le
  rw [hnext, List.length_cons, List.length_append] at hrounds
  rw [hq] at hle
  omega

theorem accepted_emptyArray (hw : Whitespace w) :
    Accepted (d + 1) (ascii '[' :: (w ++ [ascii ']'])) (.value (.array [])) := by
  apply accepted_array (.emptyArray hw) ⟨_, rfl⟩
  intro p after hrest
  have hopen := yields_open (p := p) .arrayBegin hrest
  have hinner : ((p.advance 1).emit .arrayBegin).rest = w ++ ascii ']' :: after := by
    apply hopen.rest_eq
    rw [hrest]
    simp
  obtain ⟨hspace, hnext⟩ := separator_next hw (.inr (.inl rfl)) hinner
  have hall := hopen.trans (hspace.trans (yields_close .arrayEnd hnext))
  refine ⟨[], _, _, .noElements, hall, ?_⟩
  exact if_pos (at_iff.mpr ⟨_, hnext⟩)

theorem accepted_emptyObject (hw : Whitespace w) :
    Accepted (d + 1) (ascii '{' :: (w ++ [ascii '}'])) (.value (.object [])) := by
  apply accepted_object (.emptyObject hw) ⟨_, rfl⟩
  intro p after hrest
  have hopen := yields_open (p := p) .objectBegin hrest
  have hinner : ((p.advance 1).emit .objectBegin).rest = w ++ ascii '}' :: after := by
    apply hopen.rest_eq
    rw [hrest]
    simp
  obtain ⟨hspace, hnext⟩ := separator_next hw (.inr (.inr rfl)) hinner
  have hall := hopen.trans (hspace.trans (yields_close .objectEnd hnext))
  refine ⟨[], _, _, .noMembers, hall, ?_⟩
  exact if_pos (at_iff.mpr ⟨_, hnext⟩)

variable {vs : List JsonValue}

theorem elements_head (h : Derives d t (.elements vs)) :
    ∃ w b t', t = w ++ b :: t' ∧ Whitespace w ∧ isSpace b = false ∧ b ≠ ascii ']' := by
  cases h with
  | lastElement hw ht hw' =>
    obtain ⟨b, t', rfl, hb, hne⟩ := value_head ht
    exact ⟨_, b, _, rfl, hw, hb, hne⟩
  | element hw ht hw' hrest =>
    obtain ⟨b, t', rfl, hb, hne⟩ := value_head ht
    exact ⟨_, b, _, rfl, hw, hb, hne⟩

variable {ms : List (Bytes × JsonValue)}

theorem members_head (h : Derives d t (.members ms)) :
    ∃ w t', t = w ++ ascii '"' :: t' ∧ Whitespace w := by
  cases h with
  | lastMember hw hk hw₁ hw₂ ht hw' =>
    cases hk with
    | quoted hk => exact ⟨_, _, rfl, hw⟩
  | member hw hk hw₁ hw₂ ht hw' hrest =>
    cases hk with
    | quoted hk => exact ⟨_, _, rfl, hw⟩

theorem accepted_filledArray (ht : Derives d t (.elements vs)) (ih : Accepted d t (.elements vs)) :
    Accepted (d + 1) (ascii '[' :: (t ++ [ascii ']'])) (.value (.array vs)) := by
  apply accepted_array (.array ht) ⟨_, rfl⟩
  intro p after hrest
  have hopen := yields_open (p := p) .arrayBegin hrest
  have hinner : ((p.advance 1).emit .arrayBegin).rest = t ++ ascii ']' :: after := by
    apply hopen.rest_eq
    rw [hrest]
    simp
  obtain ⟨es, ending, q, hes, hyields, hparse⟩ := ih hinner (Nat.lt_succ_self _)
  refine ⟨es, ending, q, hes, (hopen.trans hyields).cast rfl rfl, ?_⟩
  obtain ⟨w, b, t', rfl, hw, hb, hne⟩ := elements_head ht
  rw [List.append_assoc] at hinner
  obtain ⟨-, hnext⟩ := skipSpace_rest hw hinner hb
  unfold parseArray
  rw [if_neg (not_at hnext hne), parseElements_skipSpace, hparse]

theorem accepted_filledObject (ht : Derives d t (.members ms)) (ih : Accepted d t (.members ms)) :
    Accepted (d + 1) (ascii '{' :: (t ++ [ascii '}'])) (.value (.object ms)) := by
  apply accepted_object (.object ht) ⟨_, rfl⟩
  intro p after hrest
  have hopen := yields_open (p := p) .objectBegin hrest
  have hinner : ((p.advance 1).emit .objectBegin).rest = t ++ ascii '}' :: after := by
    apply hopen.rest_eq
    rw [hrest]
    simp
  obtain ⟨es, ending, q, hes, hyields, hparse⟩ := ih hinner (Nat.lt_succ_self _)
  refine ⟨es, ending, q, hes, (hopen.trans hyields).cast rfl rfl, ?_⟩
  obtain ⟨w, t', rfl, hw⟩ := members_head ht
  rw [List.append_assoc] at hinner
  obtain ⟨-, hnext⟩ := skipSpace_rest hw hinner (by decide)
  unfold parseObject
  rw [if_neg (not_at hnext (by decide)), parseMembers_skipSpace, hparse]

theorem element_next {w t w' after : Bytes} {v : JsonValue} {b : UInt8} (hw : Whitespace w)
    (ih : Accepted d t (.value v)) (hw' : Whitespace w')
    (hb : b = ascii ',' ∨ b = ascii ']' ∨ b = ascii '}')
    (hrest : p.rest = w ++ (t ++ (w' ++ b :: after))) :
    ∃ es q, Streams es (.value v) ∧ p.Yields (w ++ (t ++ w')) es q.skipSpace ∧
      q.skipSpace.rest = b :: after ∧ parseValue d p = .ok q := by
  obtain ⟨es, q, hes, hyields, hparse⟩ := ih hw hrest (follows_cons hw' hb)
  have hrest' : q.rest = w' ++ b :: after := hyields.rest_eq (by rw [hrest]; simp)
  obtain ⟨hspace, hnext⟩ := separator_next hw' hb hrest'
  exact ⟨es, q, hes, (hyields.trans hspace).cast (by simp) (by simp), hnext, hparse⟩

variable {w' : Bytes}

theorem accepted_lastElement (hw : Whitespace w) (ih : Accepted d t (.value v))
    (hw' : Whitespace w') : Accepted d (w ++ (t ++ w')) (.elements [v]) := by
  intro after p rounds hrest hrounds
  obtain ⟨rounds, rfl⟩ := Nat.exists_eq_succ_of_ne_zero (Nat.ne_of_gt (Nat.zero_lt_of_lt hrounds))
  obtain ⟨es, q, hes, hyields, hnext, hparse⟩ :=
    element_next hw ih hw' (.inr (.inl rfl))
      (by rw [hrest]; simp : p.rest = w ++ (t ++ (w' ++ ascii ']' :: after)))
  refine ⟨es ++ [], _, _, .element hes .noElements,
    (hyields.trans (yields_close .arrayEnd hnext)).cast rfl (by rw [List.append_nil]), ?_⟩
  rw [parseElements, hparse]
  exact if_pos (at_iff.mpr ⟨_, hnext⟩)

variable {rest : Bytes}

theorem accepted_element (hw : Whitespace w) (ht : Derives d t (.value v))
    (ih : Accepted d t (.value v)) (hw' : Whitespace w') (ihrest : Accepted d rest (.elements vs)) :
    Accepted d (w ++ (t ++ (w' ++ ascii ',' :: rest))) (.elements (v :: vs)) := by
  intro after p rounds hrest hrounds
  obtain ⟨rounds, rfl⟩ := Nat.exists_eq_succ_of_ne_zero (Nat.ne_of_gt (Nat.zero_lt_of_lt hrounds))
  obtain ⟨es, q, hes, hyields, hnext, hparse⟩ := element_next hw ih hw' (.inl rfl)
    (by rw [hrest]; simp : p.rest = w ++ (t ++ (w' ++ ascii ',' :: (rest ++ ascii ']' :: after))))
  have hafter : (q.skipSpace.advance 1).rest = rest ++ ascii ']' :: after :=
    (reads_at hnext).rest_eq hnext
  have hshorter : (q.skipSpace.advance 1).skipSpace.rest.length < rounds := by
    obtain ⟨b, t', rfl, hb, -⟩ := value_head ht
    exact shorter_rest (u := t' ++ w' ++ [ascii ',']) hw hb (by rw [hrest]; simp) hrounds hafter
  obtain ⟨fs, ending, r, hfs, hyields', hparse'⟩ := ihrest hafter hshorter
  refine ⟨es ++ fs, ending, r, .element hes hfs,
    (hyields.trans ((reads_at hnext).yields.trans hyields')).cast (by simp) (by simp), ?_⟩
  rw [parseElements, hparse]
  dsimp only [bind, Except.bind]
  rw [if_neg (not_at hnext (by decide)), if_pos (at_iff.mpr ⟨_, hnext⟩), hparse']

theorem member_next {w k w₁ w₂ t w' name after : Bytes} {v : JsonValue} {b : UInt8}
    (hw : Whitespace w) (hk : StringText k name) (hw₁ : Whitespace w₁) (hw₂ : Whitespace w₂)
    (ih : Accepted d t (.value v)) (hw' : Whitespace w')
    (hb : b = ascii ',' ∨ b = ascii ']' ∨ b = ascii '}')
    (hrest : p.rest = w ++ (k ++ (w₁ ++ ascii ':' :: (w₂ ++ (t ++ (w' ++ b :: after)))))) :
    ∃ offset es q, Streams es (.value v) ∧
      p.Yields (w ++ (k ++ (w₁ ++ ascii ':' :: (w₂ ++ (t ++ w')))))
        (.location offset :: .key name :: es) q ∧ q.rest = b :: after ∧
      ∀ rounds, parseMembers (parseValue d) (rounds + 1) p =
        if q.at? '}' then .ok (q.close .objectEnd)
        else if q.at? ',' then parseMembers (parseValue d) rounds (q.advance 1)
        else q.fail .unexpectedToken q.position := by
  obtain ⟨k', hk'⟩ : ∃ k', k = ascii '"' :: k' := by
    cases hk with
    | quoted hk => exact ⟨_, rfl⟩
  obtain ⟨hskip, hquote⟩ := skipSpace_rest hw (by rw [hrest, hk']; rfl) (b := ascii '"') (by decide)
  have hspace : p.Reads w p.skipSpace := by
    rw [hskip]
    exact reads_advance hrest
  have hlocated := hspace.yields.trans (yields_emit p.skipSpace (.location p.skipSpace.position))
  have hkeyed : (p.skipSpace.emit (.location p.skipSpace.position)).rest = k ++ (w₁ ++ ascii ':' ::
      (w₂ ++ (t ++ (w' ++ b :: after)))) := by
    apply hlocated.rest_eq
    rw [hrest, List.append_nil]
  have hkey := reads_advance hkeyed
  have hname := hlocated.trans (hkey.yields.trans (yields_emit _ (.key name)))
  have hcolon : (((p.skipSpace.emit (.location p.skipSpace.position)).advance k.length).emit
      (.key name)).rest = w₁ ++ ascii ':' :: (w₂ ++ (t ++ (w' ++ b :: after))) := by
    apply hname.rest_eq
    rw [hrest]
    simp
  obtain ⟨hskip₁, hnext₁⟩ := skipSpace_rest hw₁ hcolon (by decide)
  have hspace₁ : Reads _ w₁ _ := reads_advance hcolon
  rw [← hskip₁] at hspace₁
  have hafter := (reads_at hnext₁).rest_eq hnext₁
  obtain ⟨es, q, hes, hyields, hnext, hparse⟩ := element_next hw₂ ih hw' hb hafter
  refine ⟨p.skipSpace.position, es, q.skipSpace, hes, ?_, hnext, ?_⟩
  · exact (hname.trans (hspace₁.yields.trans ((reads_at hnext₁).yields.trans hyields))).cast
      (by simp) (by simp)
  · intro rounds
    rw [parseMembers]
    rw [if_neg (by rw [hquote]; simp), parseString_complete hk hkey]
    dsimp only [bind, Except.bind]
    rw [if_neg (by rw [at_iff.mpr ⟨_, hnext₁⟩]; simp), hparse]

variable {k w₁ w₂ name : Bytes}

theorem accepted_lastMember (hw : Whitespace w) (hk : StringText k name) (hw₁ : Whitespace w₁)
    (hw₂ : Whitespace w₂) (ih : Accepted d t (.value v)) (hw' : Whitespace w') :
    Accepted d (w ++ (k ++ (w₁ ++ ascii ':' :: (w₂ ++ (t ++ w'))))) (.members [(name, v)]) := by
  intro after p rounds hrest hrounds
  obtain ⟨rounds, rfl⟩ := Nat.exists_eq_succ_of_ne_zero (Nat.ne_of_gt (Nat.zero_lt_of_lt hrounds))
  obtain ⟨offset, es, q, hes, hyields, hnext, hparse⟩ := member_next hw hk hw₁ hw₂ ih hw'
    (.inr (.inr rfl)) (by rw [hrest]; simp :
      p.rest = w ++ (k ++ (w₁ ++ ascii ':' :: (w₂ ++ (t ++ (w' ++ ascii '}' :: after))))))
  refine ⟨.location offset :: .key name :: (es ++ []), q.position, _, .member hes .noMembers,
    (hyields.trans (yields_close .objectEnd hnext)).cast rfl (by simp), ?_⟩
  rw [hparse]
  exact if_pos (at_iff.mpr ⟨_, hnext⟩)

theorem accepted_member (hw : Whitespace w) (hk : StringText k name) (hw₁ : Whitespace w₁)
    (hw₂ : Whitespace w₂) (ih : Accepted d t (.value v)) (hw' : Whitespace w')
    (ihrest : Accepted d rest (.members ms)) :
    Accepted d (w ++ (k ++ (w₁ ++ ascii ':' :: (w₂ ++ (t ++ (w' ++ ascii ',' :: rest))))))
      (.members ((name, v) :: ms)) := by
  intro after p rounds hrest hrounds
  obtain ⟨rounds, rfl⟩ := Nat.exists_eq_succ_of_ne_zero (Nat.ne_of_gt (Nat.zero_lt_of_lt hrounds))
  obtain ⟨offset, es, q, hes, hyields, hnext, hparse⟩ := member_next hw hk hw₁ hw₂ ih hw'
    (.inl rfl) (by rw [hrest]; simp : p.rest = w ++ (k ++ (w₁ ++ ascii ':' :: (w₂ ++ (t ++ (w' ++
      ascii ',' :: (rest ++ ascii '}' :: after)))))))
  have hafter : (q.advance 1).rest = rest ++ ascii '}' :: after := (reads_at hnext).rest_eq hnext
  have hspace : isSpace (ascii '"') = false := by decide
  have hshorter : (q.advance 1).skipSpace.rest.length < rounds := by
    cases hk with
    | quoted hk =>
      rename_i k
      exact shorter_rest (u := k ++ [ascii '"'] ++ w₁ ++ [ascii ':'] ++ w₂ ++ t ++ w' ++ [ascii ','])
        hw hspace (by rw [hrest]; simp) hrounds hafter
  obtain ⟨fs, ending, r, hfs, hyields', hparse'⟩ := ihrest hafter hshorter
  refine ⟨.location offset :: .key name :: (es ++ fs), ending, r, .member hes hfs,
    (hyields.trans ((reads_at hnext).yields.trans hyields')).cast (by simp) (by simp), ?_⟩
  rw [hparse, if_neg (not_at hnext (by decide)), if_pos (at_iff.mpr ⟨_, hnext⟩), hparse']

theorem derives_accepted {phrase : JsonPhrase} (h : Derives d t phrase) : Accepted d t phrase := by
  induction h with
  | null =>
    apply accepted_literal .null .null
    intro object array p after hstops hrest
    rw [parseValueWith_at object array hstops hrest]
    rfl
  | truth =>
    apply accepted_literal .truth (.boolean true)
    intro object array p after hstops hrest
    rw [parseValueWith_at object array hstops hrest]
    rfl
  | falsity =>
    apply accepted_literal .falsity (.boolean false)
    intro object array p after hstops hrest
    rw [parseValueWith_at object array hstops hrest]
    rfl
  | string ht =>
    apply accepted_scalar (.string ht) (.string _)
    intro object array p q hstops hreads hafter
    have hparse := parseString_complete ht hreads
    have hhead : ∃ after, p.rest = ascii '"' :: after := by
      cases ht with
      | quoted ht => exact ⟨_, hreads.rest⟩
    obtain ⟨after, hrest⟩ := hhead
    rw [parseValueWith_at object array hstops hrest, if_neg (by decide), if_neg (by decide),
      if_pos rfl, hparse]
    rfl
  | integer ht hv hfits =>
    apply accepted_number (u := []) (by rw [List.append_nil]) ht (.integer ht hv hfits) (.integer _)
    intro p q hreads hends
    exact parseNumber_integer ht hv hfits hreads hends
  | number ht hf he hreal hbits hfinite =>
    apply accepted_number rfl ht (.number ht hf he hreal hbits hfinite) (.number _)
    intro p q hreads hends
    exact parseNumber_real ht hf he hreal hbits hfinite hreads hends
  | emptyArray hw => exact accepted_emptyArray hw
  | array ht ih => exact accepted_filledArray ht ih
  | emptyObject hw => exact accepted_emptyObject hw
  | object ht ih => exact accepted_filledObject ht ih
  | lastElement hw ht hw' ih => exact accepted_lastElement hw ih hw'
  | element hw ht hw' hrest ih ihrest => exact accepted_element hw ht ih hw' ihrest
  | lastMember hw hk hw₁ hw₂ ht hw' ih => exact accepted_lastMember hw hk hw₁ hw₂ ih hw'
  | member hw hk hw₁ hw₂ ht hw' hrest ih ihrest =>
    exact accepted_member hw hk hw₁ hw₂ ih hw' ihrest

end JsonParser
end ServerEngine
