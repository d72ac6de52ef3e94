import ServerEngine.Config.SchemaFits

/-! # Keys in any order

The members of an object with exactly its keys are a permutation of the fields in their own order, and
the object fits exactly if it fits in that order.
-/
namespace ServerEngine

/-! ## Integers of 32 bits -/

variable {value : Int}

theorem toUInt32_eq (h : ¬ (value < 0 ∨ 2 ^ 32 - 1 < value)) :
    value = (value.toNat.toUInt32.toNat : Int) := by
  have hlt : value.toNat < 2 ^ 32 := by omega
  have hround : value.toNat.toUInt32.toNat = value.toNat := by
    rw [Nat.toUInt32_eq, UInt32.toNat_ofNat', Nat.mod_eq_of_lt hlt]
  omega

theorem toUInt32_range (n : UInt32) : ¬ ((n.toNat : Int) < 0 ∨ 2 ^ 32 - 1 < (n.toNat : Int)) := by
  have hlt := n.toNat_lt
  omega

theorem toUInt32_toNat (n : UInt32) : (n.toNat : Int).toNat.toUInt32 = n := by
  rw [Int.toNat_natCast, Nat.toUInt32_eq, UInt32.ofNat_toNat]

theorem toUInt16_eq (h : ¬ (value < 1 ∨ 65535 < value)) :
    value = (value.toNat.toUInt16.toNat : Int) ∧ 0 < value.toNat.toUInt16 := by
  have hround : value.toNat.toUInt16.toNat = value.toNat := by
    rw [Nat.toUInt16_eq, UInt16.toNat_ofNat', Nat.mod_eq_of_lt (by omega)]
  rw [UInt16.lt_iff_toNat_lt, hround]
  constructor
  · omega
  · change 0 < value.toNat
    omega

theorem toUInt16_range {n : UInt16} (hn : 0 < n) :
    ¬ ((n.toNat : Int) < 1 ∨ 65535 < (n.toNat : Int)) := by
  have hlt := n.toNat_lt
  have hpos : 0 < n.toNat := UInt16.lt_iff_toNat_lt.mp hn
  omega

theorem toUInt16_toNat (n : UInt16) : (n.toNat : Int).toNat.toUInt16 = n := by
  rw [Int.toNat_natCast, Nat.toUInt16_eq, UInt16.ofNat_toNat]

/-! ## Permutations -/

variable {C F D : Type}

/-- Every field of a context is required there, and has one key. -/
structure HandlerTable.Keyed (T : HandlerTable C F D) (keyText : F → Bytes) : Prop where
  identify : ∀ c key f, f ≠ T.unknown →
    (T.identify c key = f ↔ f ∈ T.required c ∧ key = keyText f)
  nodup : ∀ c, (T.required c).Nodup
  known : ∀ c, T.unknown ∉ T.required c

variable {T : HandlerTable C F D} {keyText : F → Bytes} {c : C} {ms : List (Bytes × JsonValue)}

theorem exactKeys_perm (hT : T.Keyed keyText) (h : ExactKeys T c ms) :
    ∃ cs, ms.Perm cs ∧ cs.map Prod.fst = (T.required c).map keyText := by
  have hfield : ∀ m ∈ ms, T.identify c m.1 ∈ T.required c ∧ m.1 = keyText (T.identify c m.1) := by
    intro m hm
    refine (hT.identify c m.1 _ ?_).mp rfl
    intro heq
    exact h.known (heq ▸ List.mem_map_of_mem hm)
  have hperm : (ms.map fun m => T.identify c m.1).Perm (T.required c) := by
    apply (List.perm_ext_iff_of_nodup h.nodup (hT.nodup c)).mpr
    intro f
    constructor
    · intro hf
      obtain ⟨m, hm, rfl⟩ := List.mem_map.mp hf
      exact (hfield m hm).1
    · exact h.complete f
  have hkeys : ms.map Prod.fst = (ms.map fun m => T.identify c m.1).map keyText := by
    rw [List.map_map]
    exact List.map_congr_left fun m hm => (hfield m hm).2
  apply Components.exists_perm_of_map
  rw [hkeys]
  exact hperm.map keyText

theorem exactKeys_of_perm (hT : T.Keyed keyText) {cs : List (Bytes × JsonValue)}
    (hperm : ms.Perm cs) (hkeys : cs.map Prod.fst = (T.required c).map keyText) :
    ExactKeys T c ms := by
  have hself : ∀ f ∈ T.required c, T.identify c (keyText f) = f := by
    intro f hf
    refine (hT.identify c _ f ?_).mpr ⟨hf, rfl⟩
    intro heq
    exact hT.known c (heq ▸ hf)
  have hfields : (cs.map fun m => T.identify c m.1) = T.required c := by
    calc (cs.map fun m => T.identify c m.1) = (cs.map Prod.fst).map (T.identify c) := by
          rw [List.map_map]
          rfl
      _ = (T.required c).map fun f => T.identify c (keyText f) := by
          rw [hkeys, List.map_map]
          rfl
      _ = (T.required c).map id := List.map_congr_left hself
      _ = T.required c := List.map_id _
  have hmap : (ms.map fun m => T.identify c m.1).Perm (T.required c) := by
    rw [← hfields]
    exact hperm.map _
  refine ⟨hmap.nodup_iff.mpr (hT.nodup c), ?_, ?_⟩
  · exact fun hmem => hT.known c (hmap.mem_iff.mp hmem)
  · exact fun f hf => hmap.mem_iff.mpr hf

variable {copy : F → D → D → D} {d d' : D}

/-- What the members do in an order of their own is what they do in the order of the fields. -/
theorem members_perm (hT : T.Keyed keyText) (hcopy : Components.Copies copy)
    (hlocal : ∀ f v, Components.LocalTo copy f (Fits T c f (.value v))) :
    ExactKeys T c ms ∧ Fits T c T.noField (.members ms) d d' ↔
      ∃ vs : List JsonValue, ms.Perm (((T.required c).map keyText).zip vs) ∧
        vs.length = (T.required c).length ∧
        Components.Runs (fun m : F × JsonValue => Fits T c m.1 (.value m.2))
          ((T.required c).zip vs) d d' := by
  have hfields : ∀ {vs : List JsonValue}, Components.Runs
      (fun m : Bytes × JsonValue => Fits T c (T.identify c m.1) (.value m.2))
      (((T.required c).map keyText).zip vs) d d' ↔
      Components.Runs (fun m : F × JsonValue => Fits T c m.1 (.value m.2))
        ((T.required c).zip vs) d d' := by
    intro vs
    have hself : ∀ m ∈ (T.required c).zip vs, T.identify c (keyText m.1) = m.1 := by
      intro m hm
      have hmem : m.1 ∈ T.required c := (List.of_mem_zip hm).1
      exact (hT.identify c _ _ fun heq => hT.known c (heq ▸ hmem)).mpr ⟨hmem, rfl⟩
    rw [List.zip_map_left, Components.runs_map]
    constructor
    · intro h
      refine Components.runs_mono (fun m hm d d' hfits => ?_) h
      dsimp only [Prod.map] at hfits
      rw [hself m hm] at hfits
      exact hfits
    · intro h
      refine Components.runs_mono (fun m hm d d' hfits => ?_) h
      dsimp only [Prod.map]
      rw [hself m hm]
      exact hfits
  constructor
  · intro h
    obtain ⟨hkeys, hfits⟩ := h
    obtain ⟨cs, hperm, hcs⟩ := exactKeys_perm hT hkeys
    have hzip : cs = ((T.required c).map keyText).zip (cs.map Prod.snd) :=
      List.zip_of_prod hcs rfl
    have hlength : (cs.map Prod.snd).length = (T.required c).length := by
      have hlen := congrArg List.length hcs
      rw [List.length_map, List.length_map] at hlen
      rw [List.length_map, hlen]
    have hruns := Components.runs_perm hcopy (fun m => T.identify c m.1) (fun m => hlocal _ m.2)
      hperm hkeys.nodup (fits_members.mp hfits)
    rw [hzip] at hperm hruns
    exact ⟨cs.map Prod.snd, hperm, hlength, hfields.mp hruns⟩
  · intro h
    obtain ⟨vs, hperm, hlength, hruns⟩ := h
    have hkeys : (((T.required c).map keyText).zip vs).map Prod.fst =
        (T.required c).map keyText := by
      apply List.map_fst_zip
      exact Nat.le_of_eq (by rw [List.length_map, hlength])
    have hexact := exactKeys_of_perm hT hperm hkeys
    refine ⟨hexact, fits_members.mpr ?_⟩
    have hnodup := (exactKeys_of_perm hT (List.Perm.refl _) hkeys).nodup
    exact Components.runs_perm hcopy (fun m => T.identify c m.1) (fun m => hlocal _ m.2)
      hperm.symm hnodup (hfields.mpr hruns)

variable {f : F}

structure HandlerTable.TakesObject (T : HandlerTable C F D) (c : C) (f : F) : Prop where
  object : T.objectContext c f ≠ T.invalid
  array : T.arrayContext c f = T.invalid
  string : ∀ value d d', T.string c f value d ≠ .accept d'
  integer : ∀ value d d', T.integer c f value d ≠ .accept d'
  boolean : ∀ value d d', T.boolean c f value d ≠ .accept d'

variable {f : F} {v : JsonValue}

/-- What fits such a field is an object of its keys, over its values in the order of the fields. -/
theorem object_only (hT : T.Keyed keyText) (hcopy : Components.Copies copy)
    (hf : T.TakesObject c f)
    (hlocal : ∀ g v, Components.LocalTo copy g (Fits T (T.objectContext c f) g (.value v))) :
    Fits T c f (.value v) d d' ↔
      ∃ (ms : List (Bytes × JsonValue)) (vs : List JsonValue) (d₁ : D), v = .object ms ∧
        ms.Perm (((T.required (T.objectContext c f)).map keyText).zip vs) ∧
        vs.length = (T.required (T.objectContext c f)).length ∧
        Components.Runs (fun m : F × JsonValue => Fits T (T.objectContext c f) m.1 (.value m.2))
          ((T.required (T.objectContext c f)).zip vs)
          (if T.isElement (T.objectContext c f) then T.reset d else d) d₁ ∧
        T.finish (T.objectContext c f) d₁ = .accept d' := by
  constructor
  · intro h
    cases h with
    | string h => exact absurd h (hf.string _ _ _)
    | integer h => exact absurd h (hf.integer _ _ _)
    | boolean h => exact absurd h (hf.boolean _ _ _)
    | array hne _ => exact absurd hf.array hne
    | object _ hkeys hms hfinish =>
      obtain ⟨vs, hperm, hlength, hruns⟩ := (members_perm hT hcopy hlocal).mp ⟨hkeys, hms⟩
      exact ⟨_, vs, _, rfl, hperm, hlength, hruns, hfinish⟩
  · intro h
    obtain ⟨ms, vs, d₁, rfl, hperm, hlength, hruns, hfinish⟩ := h
    obtain ⟨hkeys, hms⟩ := (members_perm hT hcopy hlocal).mpr ⟨vs, hperm, hlength, hruns⟩
    exact .object hf.object hkeys hms hfinish

theorem root_perm (hT : T.Keyed keyText) (hcopy : Components.Copies copy)
    (hlocal : ∀ g v, Components.LocalTo copy g (Fits T T.root g (.value v))) :
    FitsRoot T v d d' ↔ ∃ (ms : List (Bytes × JsonValue)) (vs : List JsonValue) (d₁ : D),
      v = .object ms ∧ ms.Perm (((T.required T.root).map keyText).zip vs) ∧
      vs.length = (T.required T.root).length ∧
      Components.Runs (fun m : F × JsonValue => Fits T T.root m.1 (.value m.2))
        ((T.required T.root).zip vs) d d₁ ∧
      T.finish T.root d₁ = .accept d' := by
  constructor
  · intro h
    cases h with
    | object hkeys hms hfinish =>
      obtain ⟨vs, hperm, hlength, hruns⟩ := (members_perm hT hcopy hlocal).mp ⟨hkeys, hms⟩
      exact ⟨_, vs, _, rfl, hperm, hlength, hruns, hfinish⟩
  · intro h
    obtain ⟨ms, vs, d₁, rfl, hperm, hlength, hruns, hfinish⟩ := h
    obtain ⟨hkeys, hms⟩ := (members_perm hT hcopy hlocal).mpr ⟨vs, hperm, hlength, hruns⟩
    exact .object hkeys hms hfinish

end ServerEngine
