import ServerEngine.Json.Acceptance

/-! # The JSON parser decides its grammar

A loop of the parser never runs out of rounds: whatever does not succeed has a failure noted. So the
parser accepts the grammar's texts, refuses all others, and its events rebuild the one value.
-/
namespace ServerEngine

namespace JsonParser

variable {p : JsonParser} {α β : Type}

def Fails (r : Except JsonParser α) : Prop := ∀ q, r = .error q → q.result.isSome = true

theorem fails_ok (a : α) : Fails (.ok a) := by
  intro q h
  cases h

theorem fails_fail (p : JsonParser) (code : JsonErrorCode) (offset : Nat) :
    Fails (p.fail code offset : Except JsonParser α) := by
  intro q h
  cases h
  cases p.result <;> rfl

theorem fails_bind {x : Except JsonParser α} {f : α → Except JsonParser β} (hx : Fails x)
    (hf : ∀ a, x = .ok a → Fails (f a)) : Fails (x >>= f) := by
  cases x with
  | error e =>
    intro q h
    cases h
    exact hx e rfl
  | ok a => exact hf a rfl

theorem fails_ite {c : Prop} [Decidable c] {x y : Except JsonParser α} (hx : c → Fails x)
    (hy : ¬ c → Fails y) : Fails (if c then x else y) := by
  split
  · rename_i h
    exact hx h
  · rename_i h
    exact hy h

/-! ## Strings -/

theorem parseHex4_fails (p : JsonParser) : Fails p.parseHex4 := by
  apply fails_ite (fun _ => fails_fail p _ _)
  intro _
  split
  · exact fails_fail _ _ _
  · exact fails_ok _

theorem parseUnicode_fails (p : JsonParser) : Fails p.parseUnicode := by
  unfold parseUnicode
  cases hfirst : p.parseHex4 with
  | error e =>
    intro q h
    cases h
    exact parseHex4_fails p e hfirst
  | ok result =>
  obtain ⟨first, p1⟩ := result
  apply fails_ite
  · intro _
    apply fails_ite (fun _ => fails_fail p1 _ _)
    intro _
    cases hsecond : (p1.advance 2).parseHex4 with
    | error e =>
      intro q h
      cases h
      exact parseHex4_fails _ e hsecond
    | ok result =>
      obtain ⟨second, p2⟩ := result
      exact fails_ite (fun _ => fails_fail p2 _ _) (fun _ => fails_ok _)
  · intro _
    exact fails_ite (fun _ => fails_fail p1 _ _) (fun _ => fails_ok _)

theorem parseEscape_fails (p : JsonParser) : Fails p.parseEscape := by
  unfold parseEscape
  split
  · exact fails_fail p _ _
  · exact fails_ite (fun _ => fails_ok _) fun _ => fails_ite (fun _ => fails_ok _) fun _ =>
      fails_ite (fun _ => fails_ok _) fun _ => fails_ite (fun _ => fails_ok _) fun _ =>
      fails_ite (fun _ => fails_ok _) fun _ => fails_ite (fun _ => fails_ok _) fun _ =>
      fails_ite (fun _ => fails_ok _) fun _ => fails_ite (fun _ => fails_ok _) fun _ =>
      fails_ite (fun _ => parseUnicode_fails _) fun _ => fails_fail _ _ _

theorem parseCharacters_fails {rounds : Nat} (hrounds : p.rest.length < rounds) (output : Bytes) :
    Fails (parseCharacters rounds p output) := by
  induction rounds generalizing p output with
  | zero => exact absurd hrounds (Nat.not_lt_zero _)
  | succ rounds ih =>
    rw [parseCharacters]
    cases hrest : p.rest with
    | nil => exact fails_fail p _ _
    | cons b after =>
    have hnext : (p.advance 1).rest = after := by rw [advance_rest, hrest]; rfl
    rw [hrest, List.length_cons] at hrounds
    apply fails_ite (fun _ => fails_ok _)
    intro _
    apply fails_ite (fun _ => fails_fail _ _ _)
    intro _
    apply fails_ite
    · intro _
      exact ih (by rw [hnext]; omega) _
    · intro _
      cases hescape : (p.advance 1).parseEscape with
      | error e =>
        intro q h
        cases h
        exact parseEscape_fails _ e hescape
      | ok result =>
        obtain ⟨t, -, hreads⟩ := parseEscape_sound hescape
        have hle := hreads.yields.length_le
        rw [hnext] at hle
        exact ih (by omega) _

theorem parseString_fails (p : JsonParser) : Fails p.parseString := by
  apply fails_ite
  · intro hquote
    obtain ⟨after, hrest⟩ := at_iff.mp hquote
    apply parseCharacters_fails
    rw [(reads_at hrest).rest_eq hrest, hrest]
    exact Nat.lt_succ_self _
  · intro _
    exact fails_fail p _ _

theorem parseDigits_fails (p : JsonParser) : Fails p.parseDigits :=
  fails_ite (fun _ => fails_ok _) (fun _ => fails_fail p _ _)

theorem parseInteger_fails (p : JsonParser) : Fails p.parseInteger := by
  apply fails_ite (fun _ => fails_fail _ _ _)
  intro _
  apply fails_ite
  · intro _
    exact fails_ite (fun _ => fails_fail _ _ _) (fun _ => fails_ok _)
  · intro _
    exact parseDigits_fails _

theorem parseFraction_fails (p : JsonParser) : Fails p.parseFraction :=
  fails_ite (fun _ => parseDigits_fails _) (fun _ => fails_ok _)

theorem parseExponent_fails (p : JsonParser) : Fails p.parseExponent :=
  fails_ite (fun _ => parseDigits_fails _) (fun _ => fails_ok _)

theorem convertNumber_fails (p : JsonParser) (begin : Nat) (token : Bytes) (integral : Bool) :
    Fails (p.convertNumber begin token integral) := by
  apply fails_ite
  · intro _
    cases fromCharsInt64 token with
    | none => exact fails_fail p _ _
    | some value => exact fails_ok _
  · intro _
    cases fromCharsDouble token with
    | none => exact fails_fail p _ _
    | some bits => exact fails_ite (fun _ => fails_ok _) (fun _ => fails_fail p _ _)

theorem parseNumber_fails (p : JsonParser) : Fails p.parseNumber := by
  apply fails_bind (parseInteger_fails p)
  intro integer _
  apply fails_bind (parseFraction_fails integer)
  intro fraction _
  apply fails_bind (parseExponent_fails fraction)
  intro number _
  exact convertNumber_fails number _ _ _

theorem parseLiteral_fails (p : JsonParser) (literal : Bytes) (e : JsonEvent) :
    Fails (p.parseLiteral literal e) :=
  fails_ite (fun _ => fails_ok _) (fun _ => fails_fail p _ _)

/-! ## Arrays and objects -/

variable {value : JsonParser → Except JsonParser JsonParser} {d : Nat}

theorem skipSpace_length (p : JsonParser) : p.skipSpace.rest.length ≤ p.rest.length := by
  obtain ⟨w, -, hspace⟩ := skipSpace_reads p
  exact hspace.yields.length_le

theorem Sound.length_le (hsound : Sound d value) {q : JsonParser} (h : value p = .ok q) :
    q.rest.length ≤ p.rest.length := by
  obtain ⟨w, t, v, es, -, -, -, hyields⟩ := hsound p q h
  exact hyields.length_le

theorem at_advance {c : Char} (h : p.at? c = true) : (p.advance 1).rest.length < p.rest.length := by
  obtain ⟨after, hrest⟩ := at_iff.mp h
  rw [(reads_at hrest).rest_eq hrest, hrest]
  exact Nat.lt_succ_self _

theorem parseElements_fails (hvalue : ∀ p, Fails (value p)) (hsound : Sound d value) {rounds : Nat}
    (hrounds : p.rest.length < rounds) : Fails (parseElements value rounds p) := by
  induction rounds generalizing p with
  | zero => exact absurd hrounds (Nat.not_lt_zero _)
  | succ rounds ih =>
    apply fails_bind (hvalue p)
    intro p1 h1
    apply fails_ite (fun _ => fails_ok _)
    intro _
    apply fails_ite
    · intro hcomma
      have hle := hsound.length_le h1
      have hspace := skipSpace_length p1
      have hlt := at_advance hcomma
      exact ih (by omega)
    · intro _
      exact fails_fail _ _ _

theorem parseArray_fails (hvalue : ∀ p, Fails (value p)) (hsound : Sound d value) (p : JsonParser) :
    Fails (parseArray value p) :=
  fails_ite (fun _ => fails_ok _) (fun _ => parseElements_fails hvalue hsound (Nat.lt_succ_self _))

theorem parseMembers_fails (hvalue : ∀ p, Fails (value p)) (hsound : Sound d value) {rounds : Nat}
    (hrounds : p.rest.length < rounds) : Fails (parseMembers value rounds p) := by
  induction rounds generalizing p with
  | zero => exact absurd hrounds (Nat.not_lt_zero _)
  | succ rounds ih =>
    apply fails_ite (fun _ => fails_fail _ _ _)
    intro _
    apply fails_bind (parseString_fails _)
    intro result hkey
    obtain ⟨key, p1⟩ := result
    obtain ⟨k, -, hreads⟩ := parseString_sound hkey
    apply fails_ite (fun _ => fails_fail _ _ _)
    intro hcolon
    apply fails_bind (hvalue _)
    intro p2 h2
    apply fails_ite (fun _ => fails_ok _)
    intro _
    apply fails_ite
    · intro hcomma
      have hspace := skipSpace_length p
      have hname : p1.rest.length ≤ p.skipSpace.rest.length := hreads.yields.length_le
      have hspace₁ : (p1.emit (.key key)).skipSpace.rest.length ≤ p1.rest.length :=
        skipSpace_length _
      have hlt₁ := at_advance (by simpa using hcolon)
      have hle := hsound.length_le h2
      have hspace₂ := skipSpace_length p2
      have hlt := at_advance hcomma
      exact ih (by omega)
    · intro _
      exact fails_fail _ _ _

theorem parseObject_fails (hvalue : ∀ p, Fails (value p)) (hsound : Sound d value)
    (p : JsonParser) : Fails (parseObject value p) :=
  fails_ite (fun _ => fails_ok _) (fun _ => parseMembers_fails hvalue hsound (Nat.lt_succ_self _))

theorem parseValueWith_fails {object array : JsonParser → Except JsonParser JsonParser}
    (hobject : ∀ p, Fails (object p)) (harray : ∀ p, Fails (array p)) (p : JsonParser) :
    Fails (parseValueWith object array p) := by
  unfold parseValueWith
  dsimp only
  split
  · exact fails_fail _ _ _
  · apply fails_ite (fun _ => hobject _)
    intro _
    apply fails_ite (fun _ => harray _)
    intro _
    apply fails_ite
    · intro _
      exact fails_bind (parseString_fails _) (fun _ _ => fails_ok _)
    intro _
    exact fails_ite (fun _ => parseLiteral_fails _ _ _) fun _ =>
      fails_ite (fun _ => parseLiteral_fails _ _ _) fun _ =>
      fails_ite (fun _ => parseLiteral_fails _ _ _) fun _ =>
      fails_ite (fun _ => parseNumber_fails _) fun _ => fails_fail _ _ _

theorem parseValue_fails (d : Nat) (p : JsonParser) : Fails (parseValue d p) := by
  induction d generalizing p with
  | zero =>
    exact parseValueWith_fails (fun p => fails_fail p _ _) (fun p => fails_fail p _ _) p
  | succ d ih =>
    exact parseValueWith_fails (parseObject_fails ih (parseValue_sound d))
      (parseArray_fails ih (parseValue_sound d)) p

theorem run_fails (p : JsonParser) : Fails p.run := by
  apply fails_bind (parseValue_fails _ _)
  intro q _
  exact fails_ite (fun _ => fails_ok _) (fun _ => fails_fail _ _ _)

end JsonParser

/-! ## The parser -/

theorem parseJson_sound {text : Bytes} {p : JsonParser} (h : parseJson text = .ok p) :
    ∃ v, JsonText text v ∧ Streams p.events (.value v) := by
  obtain ⟨p1, hvalue, h⟩ := ErrorFold.bind_ok.mp h
  rw [JsonParser.parseValue_skipSpace] at hvalue
  obtain ⟨w, t, v, es, hw, ht, hes, hyields⟩ := JsonParser.parseValue_sound _ _ p1 hvalue
  obtain ⟨w', hw', hspace⟩ := JsonParser.skipSpace_reads p1
  dsimp only at h
  split at h
  · rename_i hend
    cases h
    have hall := hyields.trans hspace.yields
    have htext : text = w ++ (t ++ w') := by
      have hrest := hall.rest
      rw [List.isEmpty_iff.mp hend, List.append_nil, List.append_assoc] at hrest
      exact hrest
    refine ⟨v, ?_, ?_⟩
    · rw [htext]
      exact .padded hw ht hw'
    · have hevents : p1.skipSpace.events = [] ++ (es ++ []) := hall.events
      rw [hevents, List.append_nil]
      exact hes
  · cases h

theorem parseJson_complete {text : Bytes} {v : JsonValue} (h : JsonText text v) :
    ∃ p, parseJson text = .ok p ∧ Streams p.events (.value v) := by
  cases h with
  | padded hw ht hw' =>
    rename_i w t w'
    obtain ⟨es, q, hes, hyields, hparse⟩ := JsonParser.derives_accepted ht
      (p := { rest := w ++ (t ++ w') }) hw rfl (JsonParser.follows_space hw')
    have hrest : q.rest = w' := hyields.rest_eq (List.append_assoc _ _ _).symm
    obtain ⟨w₁, hw₁, hspace⟩ := JsonParser.skipSpace_reads q
    have hend : q.skipSpace.rest = [] := by
      have hreads : q.Reads w' (q.advance w'.length) :=
        JsonParser.reads_advance (by rw [hrest, List.append_nil])
      have hnil : (q.advance w'.length).rest = [] := hreads.rest_eq (by rw [hrest, List.append_nil])
      rw [JsonParser.skipSpace_eq hw' hreads (by unfold JsonParser.Stops; rw [hnil]; rfl), hnil]
    refine ⟨q.skipSpace, ?_, ?_⟩
    · unfold parseJson JsonParser.run
      rw [JsonParser.parseValue_skipSpace, hparse]
      dsimp only [bind, Except.bind]
      rw [hend]
      rfl
    · have hevents : q.skipSpace.events = [] ++ es := hspace.events.trans hyields.events
      rw [hevents]
      exact hes

theorem parseJson_value {text : Bytes} {p : JsonParser} (h : parseJson text = .ok p) :
    ∃ v, Streams p.events (.value v) ∧ ∀ v', JsonText text v' ↔ v' = v := by
  obtain ⟨v, hv, hes⟩ := parseJson_sound h
  refine ⟨v, hes, fun v' => ⟨?_, ?_⟩⟩
  · intro hv'
    obtain ⟨p', h', hes'⟩ := parseJson_complete hv'
    have heq : p' = p := Except.ok.inj (h'.symm.trans h)
    rw [heq] at hes'
    exact Option.some.inj ((streams_rebuild hes').2.symm.trans (streams_rebuild hes).2)
  · intro heq
    rw [heq]
    exact hv

/-- The parser accepts exactly its grammar: a text has at most one value, a success emits events that
are well nested and rebuild that value, and any other text ends with a failure noted. -/
theorem parse_json_accepts (text : Bytes) :
    ((∃ p, parseJson text = .ok p) ↔ ∃ v, JsonText text v) ∧
    (∀ p, parseJson text = .ok p → WellNested p.events ∧
      ∃ v, rebuildJson p.events = some v ∧ ∀ v', JsonText text v' ↔ v' = v) ∧
    ∀ p, parseJson text = .error p → p.result.isSome = true := by
  refine ⟨⟨?_, ?_⟩, ?_, JsonParser.run_fails _⟩
  · intro h
    obtain ⟨p, h⟩ := h
    obtain ⟨v, hv, -⟩ := parseJson_sound h
    exact ⟨v, hv⟩
  · intro h
    obtain ⟨v, hv⟩ := h
    obtain ⟨p, h, -⟩ := parseJson_complete hv
    exact ⟨p, h⟩
  · intro p h
    obtain ⟨v, hes, hunique⟩ := parseJson_value h
    obtain ⟨hnested, hbuild⟩ := streams_rebuild hes
    exact ⟨hnested, v, hbuild, hunique⟩

end ServerEngine
