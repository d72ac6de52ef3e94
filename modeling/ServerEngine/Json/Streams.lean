import ServerEngine.Json.Grammar

/-! # Event streams of JSON values

The events that a parser emits for a value, whatever the locations between them: they are well nested,
and their fold places that value.
-/
namespace ServerEngine

inductive ScalarEvent : JsonEvent → JsonValue → Prop
  | null : ScalarEvent .null .null
  | boolean (value : Bool) : ScalarEvent (.boolean value) (.boolean value)
  | integer (value : Int) : ScalarEvent (.integer value) (.integer value)
  | number (bits : Nat) : ScalarEvent (.number bits) (.number bits)
  | string (value : Bytes) : ScalarEvent (.string value) (.string value)

inductive Streams : List JsonEvent → JsonPhrase → Prop
  | scalar {offset : Nat} {e : JsonEvent} {v : JsonValue} (h : ScalarEvent e v) :
      Streams [.location offset, e] (.value v)
  | array {offset ending : Nat} {es : List JsonEvent} {vs : List JsonValue}
      (h : Streams es (.elements vs)) :
      Streams (.location offset :: .arrayBegin :: (es ++ [.location ending, .arrayEnd]))
        (.value (.array vs))
  | object {offset ending : Nat} {es : List JsonEvent} {ms : List (Bytes × JsonValue)}
      (h : Streams es (.members ms)) :
      Streams (.location offset :: .objectBegin :: (es ++ [.location ending, .objectEnd]))
        (.value (.object ms))
  | noElements : Streams [] (.elements [])
  | element {es fs : List JsonEvent} {v : JsonValue} {vs : List JsonValue}
      (hv : Streams es (.value v)) (hvs : Streams fs (.elements vs)) :
      Streams (es ++ fs) (.elements (v :: vs))
  | noMembers : Streams [] (.members [])
  | member {offset : Nat} {es fs : List JsonEvent} {key : Bytes} {v : JsonValue}
      {ms : List (Bytes × JsonValue)} (hv : Streams es (.value v)) (hms : Streams fs (.members ms)) :
      Streams (.location offset :: .key key :: (es ++ fs)) (.members ((key, v) :: ms))

def Builds (es : List JsonEvent) : JsonPhrase → Prop
  | .value v => ∀ b : JsonBuilder, es.foldlM JsonBuilder.step b = b.place v
  | .elements vs => ∀ us frames root, es.foldlM JsonBuilder.step ⟨.array us :: frames, root⟩ =
      some ⟨.array (us ++ vs) :: frames, root⟩
  | .members ms => ∀ us frames root, es.foldlM JsonBuilder.step ⟨.object us none :: frames, root⟩ =
      some ⟨.object (us ++ ms) none :: frames, root⟩

theorem streams_builds {es : List JsonEvent} {phrase : JsonPhrase} (h : Streams es phrase) :
    Builds es phrase := by
  induction h with
  | scalar h =>
    intro b
    cases h <;> simp [JsonBuilder.step]
  | array h ih =>
    intro b
    rw [List.foldlM_cons, JsonBuilder.step, Option.bind_eq_bind, Option.bind_some, List.foldlM_cons,
      JsonBuilder.step, Option.bind_eq_bind, Option.bind_some, List.foldlM_append, ih []]
    simp [JsonBuilder.step]
  | object h ih =>
    intro b
    rw [List.foldlM_cons, JsonBuilder.step, Option.bind_eq_bind, Option.bind_some, List.foldlM_cons,
      JsonBuilder.step, Option.bind_eq_bind, Option.bind_some, List.foldlM_append, ih []]
    simp [JsonBuilder.step]
  | noElements => exact fun us frames root => by simp
  | element hv hvs ihv ihvs =>
    rename_i v vs
    intro us frames root
    rw [List.foldlM_append, ihv]
    have hnext := ihvs (us ++ [v]) frames root
    simp only [JsonBuilder.place, Option.bind_eq_bind, Option.bind_some]
    rw [hnext, List.append_assoc, List.singleton_append]
  | noMembers => exact fun us frames root => by simp
  | member hv hms ihv ihms =>
    rename_i key v ms
    intro us frames root
    rw [List.foldlM_cons, JsonBuilder.step, Option.bind_eq_bind, Option.bind_some, List.foldlM_cons]
    simp only [JsonBuilder.step, Option.bind_eq_bind, Option.bind_some]
    rw [List.foldlM_append, ihv]
    have hnext := ihms (us ++ [(key, v)]) frames root
    simp only [JsonBuilder.place, Option.bind_eq_bind, Option.bind_some]
    rw [hnext, List.append_assoc, List.singleton_append]

theorem streams_nested {es : List JsonEvent} {phrase : JsonPhrase} (h : Streams es phrase)
    (opened : List JsonEvent) : es.foldlM nestStep opened = some opened := by
  induction h generalizing opened with
  | scalar h => cases h <;> simp [nestStep]
  | array h ih => simp [nestStep, List.foldlM_append, ih]
  | object h ih => simp [nestStep, List.foldlM_append, ih]
  | noElements => simp
  | element hv hvs ihv ihvs => simp [List.foldlM_append, ihv, ihvs]
  | noMembers => simp
  | member hv hms ihv ihms => simp [nestStep, List.foldlM_append, ihv, ihms]

theorem streams_rebuild {es : List JsonEvent} {v : JsonValue} (h : Streams es (.value v)) :
    WellNested es ∧ rebuildJson es = some v := by
  refine ⟨streams_nested h [], ?_⟩
  unfold rebuildJson
  rw [streams_builds h]
  rfl

end ServerEngine
