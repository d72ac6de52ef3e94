import ServerEngine.Config.SchemaHandler
import ServerEngine.Json.Streams
import ServerEngine.Library.Components

/-! # Values that fit a schema

What a handler's tables ask of a JSON value: the fields of every object, each once, and what each
value does to the data. A handler ends valid on the events of a value exactly if the value fits.
-/
namespace ServerEngine

/-! ## Fitting -/

section
variable {C F D : Type}

structure ExactKeys (T : HandlerTable C F D) (c : C) (ms : List (Bytes × JsonValue)) : Prop where
  nodup : (ms.map fun m => T.identify c m.1).Nodup
  known : T.unknown ∉ ms.map fun m => T.identify c m.1
  complete : ∀ f ∈ T.required c, f ∈ ms.map fun m => T.identify c m.1

/-- The phrase fits at this field of this context, and takes the data from the one to the other. -/
inductive Fits (T : HandlerTable C F D) : C → F → JsonPhrase → D → D → Prop
  | string {c : C} {f : F} {value : Bytes} {d d' : D} (h : T.string c f value d = .accept d') :
      Fits T c f (.value (.string value)) d d'
  | integer {c : C} {f : F} {value : Int} {d d' : D} (h : T.integer c f value d = .accept d') :
      Fits T c f (.value (.integer value)) d d'
  | boolean {c : C} {f : F} {value : Bool} {d d' : D} (h : T.boolean c f value d = .accept d') :
      Fits T c f (.value (.boolean value)) d d'
  | array {c : C} {f : F} {vs : List JsonValue} {d d' : D} (hc : T.arrayContext c f ≠ T.invalid)
      (hvs : Fits T (T.arrayContext c f) T.noField (.elements vs) d d') :
      Fits T c f (.value (.array vs)) d d'
  | object {c : C} {f : F} {ms : List (Bytes × JsonValue)} {d d₁ d' : D}
      (hc : T.objectContext c f ≠ T.invalid) (hkeys : ExactKeys T (T.objectContext c f) ms)
      (hms : Fits T (T.objectContext c f) T.noField (.members ms)
        (if T.isElement (T.objectContext c f) then T.reset d else d) d₁)
      (hfinish : T.finish (T.objectContext c f) d₁ = .accept d') :
      Fits T c f (.value (.object ms)) d d'
  | noElements {c : C} {f : F} {d : D} : Fits T c f (.elements []) d d
  | element {c : C} {f : F} {v : JsonValue} {vs : List JsonValue} {d d₁ d' : D}
      (hv : Fits T c T.noField (.value v) d d₁) (hvs : Fits T c f (.elements vs) d₁ d') :
      Fits T c f (.elements (v :: vs)) d d'
  | noMembers {c : C} {f : F} {d : D} : Fits T c f (.members []) d d
  | member {c : C} {f : F} {key : Bytes} {v : JsonValue} {ms : List (Bytes × JsonValue)}
      {d d₁ d' : D} (hv : Fits T c (T.identify c key) (.value v) d d₁)
      (hms : Fits T c f (.members ms) d₁ d') : Fits T c f (.members ((key, v) :: ms)) d d'

inductive FitsRoot (T : HandlerTable C F D) : JsonValue → D → D → Prop
  | object {ms : List (Bytes × JsonValue)} {d d₁ d' : D} (hkeys : ExactKeys T T.root ms)
      (hms : Fits T T.root T.noField (.members ms) d d₁)
      (hfinish : T.finish T.root d₁ = .accept d') : FitsRoot T (.object ms) d d'

variable {T : HandlerTable C F D} {c : C} {f : F} {d d₁ : D}

theorem fits_unique {phrase : JsonPhrase} (h₁ : Fits T c f phrase d d₁) :
    ∀ {d₂ : D}, Fits T c f phrase d d₂ → d₁ = d₂ := by
  induction h₁ with
  | string h =>
    intro d₂ h₂
    cases h₂ with
    | string h' => exact Reaction.accept.inj (h.symm.trans h')
  | integer h =>
    intro d₂ h₂
    cases h₂ with
    | integer h' => exact Reaction.accept.inj (h.symm.trans h')
  | boolean h =>
    intro d₂ h₂
    cases h₂ with
    | boolean h' => exact Reaction.accept.inj (h.symm.trans h')
  | array hc _ ih =>
    intro d₂ h₂
    cases h₂ with
    | array _ hvs' => exact ih hvs'
  | object hc _ _ hfinish ih =>
    intro d₂ h₂
    cases h₂ with
    | object _ _ hms' hfinish' =>
      rw [← ih hms'] at hfinish'
      exact Reaction.accept.inj (hfinish.symm.trans hfinish')
  | noElements =>
    intro d₂ h₂
    cases h₂
    rfl
  | element _ _ ihv ihvs =>
    intro d₂ h₂
    cases h₂ with
    | element hv' hvs' =>
      rw [← ihv hv'] at hvs'
      exact ihvs hvs'
  | noMembers =>
    intro d₂ h₂
    cases h₂
    rfl
  | member _ _ ihv ihms =>
    intro d₂ h₂
    cases h₂ with
    | member hv' hms' =>
      rw [← ihv hv'] at hms'
      exact ihms hms'

theorem fitsRoot_unique {v : JsonValue} {d₂ : D} (h₁ : FitsRoot T v d d₁) (h₂ : FitsRoot T v d d₂) :
    d₁ = d₂ := by
  cases h₁ with
  | object _ hms hfinish =>
    cases h₂ with
    | object _ hms' hfinish' =>
      rw [← fits_unique hms hms'] at hfinish'
      exact Reaction.accept.inj (hfinish.symm.trans hfinish')

variable {d' : D}

theorem fits_elements {vs : List JsonValue} : Fits T c f (.elements vs) d d' ↔
      Components.Runs (fun v => Fits T c T.noField (.value v)) vs d d' := by
  induction vs generalizing d with
  | nil =>
    constructor
    · intro h
      cases h
      exact .nil
    · intro h
      cases h
      exact .noElements
  | cons v vs ih =>
    constructor
    · intro h
      cases h with
      | element hv hvs => exact .cons hv (ih.mp hvs)
    · intro h
      cases h with
      | cons hv hvs => exact .element hv (ih.mpr hvs)

theorem fits_members {ms : List (Bytes × JsonValue)} : Fits T c f (.members ms) d d' ↔
      Components.Runs (fun m : Bytes × JsonValue => Fits T c (T.identify c m.1) (.value m.2)) ms d d' := by
  induction ms generalizing d with
  | nil =>
    constructor
    · intro h
      cases h
      exact .nil
    · intro h
      cases h
      exact .noMembers
  | cons m ms ih =>
    constructor
    · intro h
      cases h with
      | member hv hms => exact .cons hv (ih.mp hms)
    · intro h
      cases h with
      | cons hv hms => exact .member hv (ih.mpr hms)

end

/-- The contexts below a field form a tree, and none is too deep. -/
structure HandlerTable.Lawful {C F D : Type} (T : HandlerTable C F D) (scope : C → F → List C)
    (level : C → Nat) : Prop where
  object : ∀ c f, T.objectContext c f ≠ T.invalid → T.objectContext c f ∈ scope c f ∧
    T.isArray (T.objectContext c f) = false ∧ level (T.objectContext c f) = level c + 1 ∧
    ∀ g, ∀ x ∈ scope (T.objectContext c f) g, x ∈ scope c f
  array : ∀ c f, T.arrayContext c f ≠ T.invalid → T.isArray (T.arrayContext c f) = true ∧
    level (T.arrayContext c f) = level c + 1 ∧
    ∀ g, ∀ x ∈ scope (T.arrayContext c f) g, x ∈ scope c f ∧ T.isElement x = true
  apart : ∀ c f g, T.isArray c = false → f ≠ g → ∀ x ∈ scope c f, x ∉ scope c g
  outside : ∀ c f, c ∉ scope c f
  root : level T.root = 0 ∧ T.isArray T.root = false ∧ T.isElement T.root = false
  bounded : ∀ c, level c < maxSchemaDepth

end ServerEngine
