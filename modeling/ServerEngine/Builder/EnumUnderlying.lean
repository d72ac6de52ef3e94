import ServerEngine.Builder.Construction
import ServerEngine.Frontend.Enumerators

/-! # The underlying type of an enumeration

`select_enum_underlying` folds a minimum and a maximum over the enumerators. It picks the first of
four intrinsic types that represents every value.
-/
namespace ServerEngine
open ErrorFold

def constantValue (abi : AbiConfiguration) (value : SourceIntegralConstant) : Int :=
  if intrinsicSigned value.intrinsic then signedValue value abi else value.bits

def representable (abi : AbiConfiguration) (type : IntrinsicType) (z : Int) : Bool :=
  intrinsicWidth type abi != 0 &&
    if intrinsicSigned type then
      decide (-2 ^ (intrinsicWidth type abi - 1) ≤ z) &&
        decide (z < 2 ^ (intrinsicWidth type abi - 1))
    else decide (0 ≤ z) && decide (z < 2 ^ intrinsicWidth type abi)

/-- The underlying types that are tried, in order: `int`, `unsigned`, and the 64-bit types. -/
def underlyingCandidates (abi : AbiConfiguration) : List IntrinsicType :=
  [.signedInt, .unsignedInt,
    if abi.target = .windowsX64 then .signedLongLong else .signedLong,
    if abi.target = .windowsX64 then .unsignedLongLong else .unsignedLong]

def representsAll (abi : AbiConfiguration) (values : List SourceIntegralConstant)
    (type : IntrinsicType) : Bool :=
  values.all fun value => representable abi type (constantValue abi value)

/-! ## Values -/

section Values
variable {abi : AbiConfiguration} {value : SourceIntegralConstant} {z : Int} {type : IntrinsicType}

theorem representable_signed (hsigned : intrinsicSigned type = true)
    (hwidth : intrinsicWidth type abi ≠ 0) : representable abi type z = true ↔
      -2 ^ (intrinsicWidth type abi - 1) ≤ z ∧ z < 2 ^ (intrinsicWidth type abi - 1) := by
  unfold representable
  rw [if_pos hsigned]
  simp [hwidth]

theorem representable_unsigned (hunsigned : intrinsicSigned type = false)
    (hwidth : intrinsicWidth type abi ≠ 0) : representable abi type z = true ↔
      0 ≤ z ∧ z < 2 ^ intrinsicWidth type abi := by
  unfold representable
  rw [if_neg (by simp [hunsigned])]
  simp [hwidth]

theorem representable_signedInt :
    representable abi .signedInt z = true ↔ -2147483648 ≤ z ∧ z ≤ 2147483647 := by
  have hwidth : intrinsicWidth .signedInt abi = 32 := rfl
  rw [representable_signed rfl (by omega), hwidth]
  omega

theorem representable_unsignedInt :
    representable abi .unsignedInt z = true ↔ 0 ≤ z ∧ z ≤ 4294967295 := by
  have hwidth : intrinsicWidth .unsignedInt abi = 32 := rfl
  rw [representable_unsigned rfl (by omega), hwidth]
  omega

theorem representable_signed64 :
    representable abi (if abi.target = .windowsX64 then .signedLongLong else .signedLong) z = true ↔
      -9223372036854775808 ≤ z ∧ z ≤ 9223372036854775807 := by
  generalize htype : (if abi.target = .windowsX64 then IntrinsicType.signedLongLong else .signedLong) =
    type
  have hwidth : intrinsicWidth type abi = 64 ∧ intrinsicSigned type = true := by
    subst htype
    split
    · exact ⟨rfl, rfl⟩
    · rename_i hposix
      exact ⟨if_neg hposix, rfl⟩
  rw [representable_signed hwidth.2 (by omega), hwidth.1]
  omega

theorem representable_unsigned64 :
    representable abi (if abi.target = .windowsX64 then .unsignedLongLong else .unsignedLong) z =
      true ↔ 0 ≤ z ∧ z ≤ 18446744073709551615 := by
  generalize htype :
    (if abi.target = .windowsX64 then IntrinsicType.unsignedLongLong else .unsignedLong) = type
  have hwidth : intrinsicWidth type abi = 64 ∧ intrinsicSigned type = false := by
    subst htype
    split
    · exact ⟨rfl, rfl⟩
    · rename_i hposix
      exact ⟨if_neg hposix, rfl⟩
  rw [representable_unsigned hwidth.2 (by omega), hwidth.1]
  omega

theorem signedValue_of_width {bits width : Nat} (hwidth : intrinsicWidth type abi = width)
    (hpos : width ≠ 0) : signedValue ⟨type, bits⟩ abi =
      if bits % 2 ^ width < 2 ^ (width - 1) then ((bits % 2 ^ width : Nat) : Int)
      else ((bits % 2 ^ width : Nat) : Int) - 2 ^ width := by
  unfold signedValue
  rw [hwidth]
  exact if_neg hpos

theorem signedValue_int (hmin : -2147483648 ≤ z) (hmax : z ≤ 2147483647) :
    signedValue ⟨.signedInt, asBits z⟩ abi = z := by
  have hwidth : intrinsicWidth .signedInt abi = 32 := rfl
  rw [signedValue_of_width hwidth (by omega), asBits]
  split <;> omega

theorem signedValue_longLong (hmin : -9223372036854775808 ≤ z) (hmax : z ≤ 9223372036854775807) :
    signedValue ⟨.signedLongLong, asBits z⟩ abi = z := by
  have hwidth : intrinsicWidth .signedLongLong abi = 64 := rfl
  rw [signedValue_of_width hwidth (by omega), asBits]
  split <;> omega

theorem SourceIntegralConstant.Encodes.spec (h : value.Encodes z) :
    intrinsicWidth value.intrinsic abi ≠ 0 ∧ constantValue abi value = z ∧
      -9223372036854775808 ≤ z ∧ z ≤ 18446744073709551615 ∧
      (z < 0 → intrinsicSigned value.intrinsic = true) := by
  cases h with
  | signedInt hmin hmax =>
    exact ⟨by simp [intrinsicWidth], signedValue_int hmin hmax, by omega, by omega, fun _ => rfl⟩
  | signedLongLong hmin hmax =>
    exact ⟨by simp [intrinsicWidth], signedValue_longLong hmin hmax, by omega, by omega,
      fun _ => rfl⟩
  | unsignedLongLong hmax =>
    exact ⟨by simp [intrinsicWidth], rfl, by omega, by omega, fun hneg => absurd hneg (by omega)⟩

end Values

/-! ## Bounds -/

/-- The bounds are reached by a value or zero, and enclose zero and every value. -/
structure EnumBounds.Of (abi : AbiConfiguration) (values : List SourceContributionEnumValue)
    (bounds : EnumBounds) : Prop where
  low : bounds.minimum ≤ 0
  negative : bounds.negative = true ↔ bounds.minimum < 0
  encloses : ∀ v ∈ values, bounds.minimum ≤ constantValue abi v.value ∧
    constantValue abi v.value ≤ bounds.maximum
  lowest : bounds.minimum = 0 ∨ ∃ v ∈ values, constantValue abi v.value = bounds.minimum
  highest : bounds.maximum = 0 ∨ ∃ v ∈ values, constantValue abi v.value = bounds.maximum

section Bounds
variable {abi : AbiConfiguration} {values : List SourceContributionEnumValue} {bounds : EnumBounds}
variable {item : SourceContributionEnumValue}

theorem extend_encodes {z : Int} (hz : item.value.Encodes z) :
    bounds.extend abi item = .ok (if z < 0 then
        { bounds with negative := true, minimum := min z bounds.minimum }
      else { bounds with maximum := max z.toNat bounds.maximum }) := by
  obtain ⟨hwidth, hvalue, -, -, hneg⟩ := @SourceIntegralConstant.Encodes.spec abi _ _ hz
  unfold EnumBounds.extend
  rw [if_neg hwidth]
  unfold constantValue at hvalue
  by_cases hsigned : intrinsicSigned item.value.intrinsic = true
  · rw [if_pos hsigned] at hvalue ⊢
    rw [hvalue]
  · rw [if_neg hsigned] at hvalue ⊢
    have hnonneg : ¬z < 0 := fun hlt => hsigned (hneg hlt)
    rw [if_neg hnonneg, ← hvalue, Int.toNat_natCast]

theorem EnumBounds.Of.snoc (h : bounds.Of abi values) {z : Int} (hz : item.value.Encodes z)
    {next : EnumBounds} (hstep : bounds.extend abi item = .ok next) :
    next.Of abi (values ++ [item]) := by
  obtain ⟨-, hvalue, -⟩ := @SourceIntegralConstant.Encodes.spec abi _ _ hz
  rw [extend_encodes hz] at hstep
  obtain rfl := Except.ok.inj hstep
  have hlow := h.low
  have hkeep : ∀ {x : Int}, (∃ v ∈ values, constantValue abi v.value = x) →
      ∃ v ∈ values ++ [item], constantValue abi v.value = x := by
    intro x hx
    obtain ⟨v, hv, heq⟩ := hx
    exact ⟨v, List.mem_append_left _ hv, heq⟩
  have hself : ∃ v ∈ values ++ [item], constantValue abi v.value = z := ⟨item, by simp, hvalue⟩
  by_cases hneg : z < 0
  · rw [if_pos hneg]
    refine ⟨by dsimp only; omega, by dsimp only; simp; omega, ?_, ?_, h.highest.imp_right hkeep⟩
    · intro v hv
      dsimp only
      rcases List.mem_append.mp hv with hv | hv
      · have := h.encloses v hv
        omega
      · rw [List.mem_singleton] at hv
        rw [hv, hvalue]
        omega
    · dsimp only
      right
      rcases Int.le_total z bounds.minimum with hle | hle
      · rwa [Int.min_eq_left hle]
      · rw [Int.min_eq_right hle]
        rcases h.lowest with hzero | hreached
        · omega
        · exact hkeep hreached
  · rw [if_neg hneg]
    refine ⟨hlow, h.negative, ?_, h.lowest.imp_right hkeep, ?_⟩
    · intro v hv
      dsimp only
      rcases List.mem_append.mp hv with hv | hv
      · have := h.encloses v hv
        omega
      · rw [List.mem_singleton] at hv
        rw [hv, hvalue]
        omega
    · dsimp only
      rcases Nat.le_total z.toNat bounds.maximum with hle | hle
      · rw [Nat.max_eq_right hle]
        exact h.highest.imp_right hkeep
      · rw [Nat.max_eq_left hle]
        right
        rw [Int.toNat_of_nonneg (by omega)]
        exact hself

theorem bounds_exist (h : ∀ v ∈ values, ∃ z, v.value.Encodes z) :
    ∃ bounds, values.foldlM (EnumBounds.extend abi) {} = .ok bounds ∧ bounds.Of abi values := by
  have hend : ∀ bounds : EnumBounds, ∃ last, values.foldlM (EnumBounds.extend abi) bounds = .ok last := by
    induction values with
    | nil => exact fun bounds => ⟨bounds, rfl⟩
    | cons item rest ih =>
      intro bounds
      obtain ⟨z, hz⟩ := h item List.mem_cons_self
      obtain ⟨last, hlast⟩ := ih (fun v hv => h v (List.mem_cons_of_mem _ hv)) _
      exact ⟨last, by rw [List.foldlM_cons, extend_encodes hz]; exact hlast⟩
  obtain ⟨bounds, hbounds⟩ := hend {}
  refine ⟨bounds, hbounds, ?_⟩
  refine foldlM_ok_rec (fun done bounds => bounds.Of abi done) hbounds ?_ ?_
  · exact ⟨Int.le_refl _, by simp, by simp, .inl rfl, .inl rfl⟩
  · intro done item bounds next hmem hdone hstep
    obtain ⟨z, hz⟩ := h item hmem
    exact hdone.snoc hz hstep

variable {low high : Int}

theorem EnumBounds.Of.all_within (h : bounds.Of abi values) (hlow : low ≤ 0) (hhigh : 0 ≤ high) :
    (∀ v ∈ values, low ≤ constantValue abi v.value ∧
      constantValue abi v.value ≤ high) ↔ low ≤ bounds.minimum ∧ bounds.maximum ≤ high := by
  constructor
  · intro hall
    refine ⟨?_, ?_⟩
    · rcases h.lowest with hzero | ⟨v, hv, heq⟩
      · omega
      · rw [← heq]
        exact (hall v hv).1
    · rcases h.highest with hzero | ⟨v, hv, heq⟩
      · omega
      · rw [← heq]
        exact (hall v hv).2
  · intro hbounds v hv
    have := h.encloses v hv
    omega

theorem EnumBounds.Of.representsAll (h : bounds.Of abi values) {type : IntrinsicType}
    (hlow : low ≤ 0) (hhigh : 0 ≤ high)
    (htype : ∀ z, representable abi type z = true ↔ low ≤ z ∧ z ≤ high) :
    ServerEngine.representsAll abi (values.map (·.value)) type =
      (decide (low ≤ bounds.minimum) && decide ((bounds.maximum : Int) ≤ high)) := by
  rw [Bool.eq_iff_iff, ServerEngine.representsAll, List.all_eq_true]
  simp only [List.forall_mem_map, htype, Bool.and_eq_true, decide_eq_true_eq]
  exact h.all_within hlow hhigh

/-- The underlying type is the first candidate that represents all values; without one the
definition is rejected. -/
theorem selectEnumUnderlying_find (h : ∀ v ∈ values, ∃ z, v.value.Encodes z) :
    selectEnumUnderlying values abi =
      match (underlyingCandidates abi).find? (representsAll abi (values.map (·.value))) with
      | some type => .ok type
      | none => .error .semanticConflict := by
  obtain ⟨bounds, hfold, hof⟩ := @bounds_exist abi _ h
  have hwide : -9223372036854775808 ≤ bounds.minimum ∧
      (bounds.maximum : Int) ≤ 18446744073709551615 := by
    refine (hof.all_within (by omega) (by omega)).mp ?_
    intro v hv
    obtain ⟨z, hz⟩ := h v hv
    obtain ⟨-, hvalue, hmin, hmax, -⟩ := @SourceIntegralConstant.Encodes.spec abi _ _ hz
    rw [hvalue]
    exact ⟨hmin, hmax⟩
  have hnonneg : bounds.negative = false ↔ 0 ≤ bounds.minimum := by
    rw [← Bool.not_eq_true, hof.negative]
    omega
  -- each test of the code is the question whether one candidate represents all values
  have hint : (decide (bounds.minimum ≥ -2147483648) && decide (bounds.maximum ≤ 2147483647)) =
      representsAll abi (values.map (·.value)) .signedInt := by
    rw [hof.representsAll (by omega) (by omega) fun z => representable_signedInt, Bool.eq_iff_iff]
    simp only [Bool.and_eq_true, decide_eq_true_eq]
    omega
  have hunsigned : (!bounds.negative && decide (bounds.maximum ≤ u32Max)) =
      representsAll abi (values.map (·.value)) .unsignedInt := by
    rw [hof.representsAll (by omega) (by omega) fun z => representable_unsignedInt, Bool.eq_iff_iff]
    simp only [Bool.and_eq_true, decide_eq_true_eq, Bool.not_eq_true', hnonneg]
    have hmax : u32Max = 4294967295 := rfl
    omega
  have hsigned64 : (bounds.maximum ≤ 9223372036854775807) = (representsAll abi
      (values.map (·.value)) (if abi.target = .windowsX64 then .signedLongLong else .signedLong) =
        true) := by
    rw [hof.representsAll (by omega) (by omega) fun z => representable_signed64, eq_iff_iff]
    simp only [Bool.and_eq_true, decide_eq_true_eq]
    omega
  have hunsigned64 : (!bounds.negative) = representsAll abi (values.map (·.value))
      (if abi.target = .windowsX64 then .unsignedLongLong else .unsignedLong) := by
    rw [hof.representsAll (by omega) (by omega) fun z => representable_unsigned64, Bool.eq_iff_iff]
    simp only [Bool.and_eq_true, decide_eq_true_eq, Bool.not_eq_true', hnonneg]
    omega
  unfold selectEnumUnderlying underlyingCandidates
  rw [hfold]
  change (if _ then _ else _) = _
  rw [hint, hunsigned, hunsigned64]
  simp only [hsigned64, List.find?_cons, List.find?_nil]
  cases representsAll abi (values.map (·.value)) .signedInt with
  | true => rfl
  | false =>
    cases representsAll abi (values.map (·.value)) .unsignedInt with
    | true => rfl
    | false =>
      cases representsAll abi (values.map (·.value))
        (if abi.target = .windowsX64 then .signedLongLong else .signedLong) with
      | true => rfl
      | false =>
        cases representsAll abi (values.map (·.value))
          (if abi.target = .windowsX64 then .unsignedLongLong else .unsignedLong) with
        | true => rfl
        | false => rfl

end Bounds

end ServerEngine
