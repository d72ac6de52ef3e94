import ServerEngine.Frontend.InitializerText
import ServerEngine.Runtime.Managed

/-! # Bytes of canonical initializers

An initializer and its canonical form are applied to the same fields and leave values that fill the
storage with the same bytes, so the text that is kept says what the source said.
-/
namespace ServerEngine
open AggregateInitializer

/-! ## One field -/

theorem toInt64_nonneg {bits : Nat} (h : bits < 2 ^ 63) : toInt64 bits = bits := by
  rw [toInt64, if_pos h]

theorem initializeStorage_scalar {field : ManagedFieldLayout} {value : ConstructionValue}
    (hvalid : validConstruction value = true)
    (hkind : value.kind = .zero ∨ value.kind = .unsignedInteger ∨ value.kind = .signedInteger)
    (haggregate : field.aggregate = false) (hreference : field.reference = false) :
    initializeStorage { field with initial := value } =
      if field.floating then
        initializeReal field (binary64.ofInt
          (if value.kind = .signedInteger then toInt64 value.bits else value.bits))
      else if !integerFits field value.bits
          (value.kind = .signedInteger && toInt64 value.bits < 0) then none
      else some (littleEndian value.bits field.size) := by
  unfold initializeStorage
  dsimp only
  rcases hkind with hkind | hkind | hkind <;>
  · simp only [hvalid, hkind, haggregate, hreference, Bool.not_true, reduceCtorEq, decide_false,
      decide_true, Bool.or_self, Bool.false_or, Bool.false_eq_true, if_false, if_true]
    rfl

theorem initializeStorage_canonical {field : ManagedFieldLayout} {value : ConstructionValue}
    (hleaf : IsLeaf value) (haggregate : field.aggregate = false)
    (hreference : field.reference = false) :
    initializeStorage { field with initial := canonicalValue value } =
      initializeStorage { field with initial := value } := by
  unfold canonicalValue
  split
  · rfl
  · rename_i hkind
    have hbits : (ConstructionValue.constant .unsignedInteger value.bits).bits = value.bits := by
      rw [constant_bits, Nat.mod_eq_of_lt hleaf.bits_lt]
    have hunsigned : (ConstructionValue.constant .unsignedInteger value.bits).kind =
        .unsignedInteger := rfl
    have hcanonical := @initializeStorage_scalar field (.constant .unsignedInteger value.bits) rfl
      (.inr (.inl rfl)) haggregate hreference
    rw [hcanonical, hbits, hunsigned]
    rcases hleaf.kinds with ⟨hvalue, hzero⟩ | hvalue | ⟨hvalue, hrange⟩ | ⟨hvalue, -⟩
    · have hok : validConstruction value = true := by
        simp [validConstruction, hvalue, hzero, hleaf.operand]
      rw [initializeStorage_scalar hok (.inl hvalue) haggregate hreference, hvalue]
      simp
    · have hok : validConstruction value = true := by
        simp [validConstruction, hvalue, hleaf.operand]
      rw [initializeStorage_scalar hok (.inr (.inl hvalue)) haggregate hreference, hvalue]
    · simp only [hvalue, decide_true, Bool.true_and, Bool.or_eq_true, decide_eq_true_eq] at hkind
      have hsmall : value.bits < 2 ^ 63 := by
        by_contra hlarge
        exact hkind (.inr (by omega))
      have hok : validConstruction value = true := by
        simp [validConstruction, hvalue, hleaf.operand]
      have hnonneg : decide ((value.bits : Int) < 0) = false := decide_eq_false (by omega)
      rw [initializeStorage_scalar hok (.inr (.inr hvalue)) haggregate hreference, hvalue,
        toInt64_nonneg hsmall]
      simp [hnonneg]
    · simp [hvalue] at hkind

structure FillsAlike (f g : ManagedFieldLayout) : Prop where
  place : { f with initial := {} } = { g with initial := {} }
  bytes : initializeStorage f = initializeStorage g

theorem fillsAlike_refl (f : ManagedFieldLayout) : FillsAlike f f := ⟨rfl, rfl⟩

structure AllAlike (fields fields' : List ManagedFieldLayout) : Prop where
  length : fields.length = fields'.length
  fields : ∀ i, FillsAlike (fields.getD i {}) (fields'.getD i {})

theorem allAlike_refl (fields : List ManagedFieldLayout) : AllAlike fields fields :=
  ⟨rfl, fun _ => fillsAlike_refl _⟩

theorem FillsAlike.same {f g : ManagedFieldLayout} (h : FillsAlike f g) :
    f.aggregate = g.aggregate ∧ f.reference = g.reference ∧ f.childCount = g.childCount ∧
      f.firstChild = g.firstChild := by
  obtain ⟨hplace, -⟩ := h
  simp only [ManagedFieldLayout.mk.injEq] at hplace
  tauto

theorem getD_setInitial (fields : List ManagedFieldLayout) (i j : Nat) (v : ConstructionValue) :
    (setInitial fields i v).getD j {} =
      if i = j ∧ i < fields.length then { fields.getD j {} with initial := v }
      else fields.getD j {} := by
  rw [setInitial, List.getD_eq_getElem?_getD, List.getElem?_modify, List.getD_eq_getElem?_getD]
  by_cases hij : i = j
  · subst hij
    by_cases hi : i < fields.length
    · simp [hi]
    · simp [hi]
  · simp [hij]

theorem AllAlike.setInitial {fields fields' : List ManagedFieldLayout} (h : AllAlike fields fields')
    {i : Nat} {a b : ConstructionValue}
    (hab : initializeStorage { fields.getD i {} with initial := a } =
      initializeStorage { fields'.getD i {} with initial := b }) :
    AllAlike (setInitial fields i a) (setInitial fields' i b) := by
  constructor
  · rw [ServerEngine.setInitial, ServerEngine.setInitial, List.length_modify, List.length_modify,
      h.length]
  · intro j
    rw [getD_setInitial, getD_setInitial, ← h.length]
    by_cases hij : i = j ∧ i < fields.length
    · rw [if_pos hij, if_pos hij]
      obtain ⟨rfl, -⟩ := hij
      exact ⟨(h.fields i).place, hab⟩
    · rw [if_neg hij, if_neg hij]
      exact h.fields j

theorem FillsAlike.withInitial {f g : ManagedFieldLayout} (h : FillsAlike f g)
    (value : ConstructionValue) : { f with initial := value } = { g with initial := value } := by
  have hplace := h.place
  simp only [ManagedFieldLayout.mk.injEq] at hplace ⊢
  tauto

/-! ## The applied initializers -/

/-- Both applications fail, or both succeed with fields that fill the storage alike. -/
def BothAlike (a b : Option (List ManagedFieldLayout)) : Prop :=
  (a = none ∧ b = none) ∨ ∃ fields fields', a = some fields ∧ b = some fields' ∧
    AllAlike fields fields'

theorem BothAlike.map {a b : Option (List ManagedFieldLayout)} (h : BothAlike a b)
    {f : List ManagedFieldLayout → List ManagedFieldLayout}
    (hf : ∀ fields fields', AllAlike fields fields' → AllAlike (f fields) (f fields')) :
    BothAlike (a.map f) (b.map f) := by
  cases h with
  | inl h => exact .inl ⟨by rw [h.1]; rfl, by rw [h.2]; rfl⟩
  | inr h =>
    obtain ⟨fields, fields', rfl, rfl, halike⟩ := h
    exact .inr ⟨_, _, rfl, rfl, hf fields fields' halike⟩

theorem AllAlike.clear {fields fields' : List ManagedFieldLayout} (h : AllAlike fields fields')
    (i : Nat) : AllAlike (ServerEngine.setInitial fields i {})
      (ServerEngine.setInitial fields' i {}) := by
  apply h.setInitial
  rw [(h.fields i).withInitial]

theorem canonicalChildren_length (children : List AggregateInitializer) :
    (canonicalChildren children).length = children.length := by
  induction children with
  | nil => rfl
  | cons child rest ih => rw [canonicalChildren, List.length_cons, List.length_cons, ih]

mutual

theorem applyInitializer_canonical {fields fields' : List ManagedFieldLayout} {index : Nat}
    (h : AllAlike fields fields') : (v : AggregateInitializer) →
    (∀ value ∈ v.leaves, IsLeaf value) →
    BothAlike (applyInitializer fields index v) (applyInitializer fields' index v.canonical)
  | .scalar value, hleaves => by
    obtain ⟨haggregate, hreference, -, -⟩ := (h.fields index).same
    rw [canonical, applyInitializer, applyInitializer, ← haggregate, ← hreference]
    split
    · exact .inl ⟨rfl, rfl⟩
    · rename_i hscalar
      simp only [Bool.or_eq_true, not_or, Bool.not_eq_true] at hscalar
      refine .inr ⟨_, _, rfl, rfl, h.setInitial ?_⟩
      have hleaf : IsLeaf value := by
        apply hleaves
        rw [leaves]
        exact List.mem_singleton.mpr rfl
      rw [← initializeStorage_canonical hleaf hscalar.1 hscalar.2, (h.fields index).withInitial]
  | .list [], hleaves => by
    obtain ⟨haggregate, -, hcount, hfirst⟩ := (h.fields index).same
    rw [canonical, canonicalChildren, applyInitializer, applyInitializer, ← haggregate, ← hcount,
      ← hfirst]
    split
    · split
      · exact .inl ⟨rfl, rfl⟩
      · rw [applyChildren, applyChildren]
        exact .inr ⟨_, _, rfl, rfl, h.clear index⟩
    · exact .inr ⟨_, _, rfl, rfl, h.clear index⟩
  | .list [child], hleaves => by
    obtain ⟨haggregate, -, hcount, hfirst⟩ := (h.fields index).same
    rw [leaves] at hleaves
    have hchild : ∀ value ∈ child.leaves, IsLeaf value := fun value hvalue =>
      hleaves value (by rw [leavesOf]; exact List.mem_append_left _ hvalue)
    rw [canonical, canonicalChildren, canonicalChildren, applyInitializer, applyInitializer,
      ← haggregate, ← hcount, ← hfirst, List.length_singleton, List.length_singleton]
    split
    · split
      · exact .inl ⟨rfl, rfl⟩
      · have hchildren :
            BothAlike (applyChildren fields (fields.getD index {}).firstChild [child])
              (applyChildren fields' (fields.getD index {}).firstChild
                (canonicalChildren [child])) :=
          applyChildren_canonical h [child] hleaves
        rw [canonicalChildren, canonicalChildren] at hchildren
        exact hchildren.map fun _ _ halike => halike.clear index
    · exact applyInitializer_canonical h child hchild
  | .list (first :: second :: rest), hleaves => by
    obtain ⟨haggregate, -, hcount, hfirst⟩ := (h.fields index).same
    rw [leaves] at hleaves
    have hlength := canonicalChildren_length (first :: second :: rest)
    have hchildren :
        BothAlike (applyChildren fields (fields.getD index {}).firstChild (first :: second :: rest))
          (applyChildren fields' (fields.getD index {}).firstChild
            (canonicalChildren (first :: second :: rest))) :=
      applyChildren_canonical h (first :: second :: rest) hleaves
    rw [canonicalChildren, canonicalChildren] at hlength hchildren
    rw [canonical, canonicalChildren, canonicalChildren, applyInitializer, applyInitializer,
      ← haggregate, ← hcount, ← hfirst, hlength]
    · split
      · split
        · exact .inl ⟨rfl, rfl⟩
        · exact hchildren.map fun _ _ halike => halike.clear index
      · exact .inl ⟨rfl, rfl⟩
    all_goals simp

theorem applyChildren_canonical {fields fields' : List ManagedFieldLayout} {index : Nat}
    (h : AllAlike fields fields') : (children : List AggregateInitializer) →
    (∀ value ∈ leavesOf children, IsLeaf value) →
    BothAlike (applyChildren fields index children)
      (applyChildren fields' index (canonicalChildren children))
  | [], _ => by
    rw [canonicalChildren, applyChildren, applyChildren]
    exact .inr ⟨_, _, rfl, rfl, h⟩
  | child :: rest, hleaves => by
    rw [leavesOf] at hleaves
    have hchild : BothAlike (applyInitializer fields index child)
        (applyInitializer fields' index child.canonical) :=
      applyInitializer_canonical h child fun value hvalue =>
        hleaves value (List.mem_append_left _ hvalue)
    rw [canonicalChildren, applyChildren, applyChildren]
    cases hchild with
    | inl hnone =>
      rw [hnone.1, hnone.2]
      exact .inl ⟨rfl, rfl⟩
    | inr hsome =>
      obtain ⟨next, next', hnext, hnext', halike⟩ := hsome
      rw [hnext, hnext']
      exact applyChildren_canonical halike rest
        fun value hvalue => hleaves value (List.mem_append_right _ hvalue)

end

/-- The printed text of an accepted initializer is accepted again, as the canonical initializer of the
same shape; printing that gives the same text, and both are applied to any fields with the same
result and the same bytes. -/
theorem initializer_text_canonical {toCharsDouble : Nat → Bytes} {text : Bytes}
    {v : AggregateInitializer} (h : parseAggregateInitializer text = some v)
    (hround : ∀ value ∈ v.leaves, value.kind = .real → ReadsBack toCharsDouble value.bits) :
    parseAggregateInitializer (encodeAggregateInitializer toCharsDouble v) = some v.canonical ∧
      v.canonical.shape = v.shape ∧
      (∀ w, parseAggregateInitializer (encodeAggregateInitializer toCharsDouble v) = some w →
        encodeAggregateInitializer toCharsDouble w = encodeAggregateInitializer toCharsDouble v) ∧
      ∀ fields index,
        BothAlike (applyInitializer fields index v) (applyInitializer fields index v.canonical) := by
  have hleaves := (parseAggregateInitializer_within h).2.2
  have hparse := parse_encode h hround
  refine ⟨hparse, shape_canonical v, fun w hw => ?_, fun fields index => ?_⟩
  · rw [hparse] at hw
    cases hw
    exact encode_canonical v hleaves
  · exact applyInitializer_canonical (allAlike_refl fields) v hleaves

/-- `{1.5, -2, false, (3),}` -/
theorem initializer_text_canonical_mixed :
    ∃ v, parseAggregateInitializer (asciiBytes "{1.5, -2, false, (3),}") = some v ∧
      encodeAggregateInitializer (fun _ => asciiBytes "1.5") v = asciiBytes "{1.5,-2,0,3}" ∧
      parseAggregateInitializer (encodeAggregateInitializer (fun _ => asciiBytes "1.5") v) =
        some v.canonical := by
  have hleaves : (parseAggregateInitializer (asciiBytes "{1.5, -2, false, (3),}")).map leaves =
      some [.constant .real 0x3FF8000000000000, .constant .signedInteger (2 ^ 64 - 2), {},
        .constant .unsignedInteger 3] := by decide +kernel
  have htext : (parseAggregateInitializer (asciiBytes "{1.5, -2, false, (3),}")).map
      (encodeAggregateInitializer fun _ => asciiBytes "1.5") = some (asciiBytes "{1.5,-2,0,3}") := by
    decide +kernel
  obtain ⟨v, hv, hv'⟩ := Option.map_eq_some_iff.mp hleaves
  rw [hv, Option.map_some, Option.some.injEq] at htext
  have hround : ∀ value ∈ v.leaves, value.kind = .real →
      ReadsBack (fun _ => asciiBytes "1.5") value.bits := by
    intro value hvalue hreal
    rw [hv'] at hvalue
    simp only [List.mem_cons, List.not_mem_nil, or_false] at hvalue
    rcases hvalue with rfl | rfl | rfl | rfl
    · exact ⟨by decide, ⟨_, _, rfl, by decide⟩, by decide +kernel⟩
    all_goals cases hreal
  exact ⟨v, hv, htext, (initializer_text_canonical hv hround).1⟩

end ServerEngine
