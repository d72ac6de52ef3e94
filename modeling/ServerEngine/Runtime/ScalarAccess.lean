import ServerEngine.Runtime.MemberPaths
import ServerEngine.Runtime.ScalarValues

/-! # Scalar stores and loads

A write of an integer goes through exactly when the field's type has the value, and is then read
back through every alias of the field, unless a value link copies its source over the field.
-/
namespace ServerEngine
open Slice ErrorFold ConstructM

/-! ## The bytes of the fields -/

variable {f : ManagedFieldLayout} {bytes : Bytes}

theorem initializeStorage_own (hs : f.floating = true → f.size = 4 ∨ f.size = 8)
    (h : initializeStorage f = some bytes) :
    bytes = [] ∨ (f.aggregate = false ∧ f.reference = false ∧ bytes.length = f.size) := by
  cases initializeStorage_length hs h with
  | inl hnil => exact .inl hnil
  | inr hfill =>
    cases Bool.eq_false_or_eq_true f.reference with
    | inr hown => exact .inr ⟨hfill.1, hown, hfill.2⟩
    | inl href =>
      rw [initializeStorage] at h
      simp only [hfill.1, href, if_true, Bool.false_eq_true, if_false] at h
      split at h
      · cases h
      · split at h
        · exact .inl (Option.some.inj h).symm
        · cases h

theorem initializeStorage_integral (hf : Integral f) (hown : f.reference = false)
    (hvalid : validConstruction f.initial = true) (hkind : integerKind f.initial.kind = true) :
    initializeStorage f =
      if integerFits f f.initial.bits
          (f.initial.kind = .signedInteger && toInt64 f.initial.bits < 0)
        then some (littleEndian f.initial.bits f.size) else none := by
  rw [initializeStorage]
  rw [hvalid, hf.scalar, hown, hf.fixed]
  cases hk : f.initial.kind <;> rw [hk] at hkind <;> cases hkind
  all_goals
    simp only [Bool.not_true, reduceCtorEq, decide_false, Bool.or_false, Bool.false_or,
      Bool.false_eq_true, if_false]
    cases integerFits f f.initial.bits _ <;> rfl

variable {fields : List ManagedFieldLayout} {storage : Bytes} {i : Nat}

theorem readField_overwrite {j : Nat} (h : Packed fields storage.length) (hi : Cell fields i)
    (hj : j < fields.length)
    (hb : bytes = [] ∨ ((fields.getD j {}).aggregate = false ∧ (fields.getD j {}).reference = false ∧ bytes.length = (fields.getD j {}).size))
    (hne : i ≠ j) : readField fields (overwrite storage (fields.getD j {}).offset bytes) i =
      readField fields storage i := by
  cases hb with
  | inl hnil => rw [hnil, overwrite_nil]
  | inr hfill =>
    obtain ⟨hscalar, hown, hlen⟩ := hfill
    have hfits := h.fits hscalar
    rw [readField, readField, slice_overwrite_of_apart]
    · rw [hlen]
      exact hfits
    · rw [hlen]
      exact h.apart_of_ne hi ⟨hj, hscalar, hown⟩ hne

theorem readField_overwrite_self (h : Packed fields storage.length) (hi : Cell fields i)
    (hlen : bytes.length = (fields.getD i {}).size) :
    readField fields (overwrite storage (fields.getD i {}).offset bytes) i = bytes := by
  have hfits := h.fits hi.scalar
  rw [readField, ← hlen, slice_overwrite_self]
  rw [hlen]
  exact hfits

/-- After the initial values are stored every cell holds its own. -/
theorem storeInitial_cells {total : Nat} (h : Packed fields total)
    (hs : fields.foldlM storeInitial (List.replicate total 0) = .ok storage) (hi : Cell fields i) :
    ∃ bytes, initializeStorage (fields.getD i {}) = some bytes ∧
      (bytes.length = (fields.getD i {}).size → readField fields storage i = bytes) := by
  have hall := foldlM_ok_split
    (fun (pre : List ManagedFieldLayout) (s : Bytes) => s.length = total ∧
      ∀ i < pre.length, Cell fields i → ∃ bytes,
        initializeStorage (fields.getD i {}) = some bytes ∧
          (bytes.length = (fields.getD i {}).size → readField fields s i = bytes))
    hs ⟨List.length_replicate, fun i hi => absurd hi (Nat.not_lt_zero i)⟩ ?_
  · exact hall.2 i hi.lt hi
  · intro pre f post s s' hsplit hpre hstep
    have hlast : fields.getD pre.length {} = f := by
      rw [hsplit, List.getD_eq_getElem?_getD, List.getElem?_append_right (Nat.le_refl _)]
      simp
    have hlt : pre.length < fields.length := by
      rw [hsplit]
      simp
    have hmem : f ∈ fields := by
      rw [hsplit]
      simp
    rw [storeInitial] at hstep
    split at hstep
    · cases hstep
    · rename_i bytes hbytes
      cases hstep
      have hshape := h.shaped f hmem
      have hlen : (overwrite s f.offset bytes).length = total := by
        rw [overwrite_field_length (fun ha => ?_) (initializeStorage_length hshape.floating hbytes),
          hpre.1]
        rw [hpre.1, ← hlast]
        exact h.fits (hlast.symm ▸ ha)
      have hown := initializeStorage_own hshape.floating hbytes
      refine ⟨hlen, ?_⟩
      intro i hi hcell
      rw [List.length_append, List.length_singleton] at hi
      by_cases heq : i = pre.length
      · subst heq
        refine ⟨bytes, by rw [hlast]; exact hbytes, fun hfill => ?_⟩
        have hself := readField_overwrite_self (hpre.1 ▸ h) hcell hfill
        rwa [hlast] at hself
      · obtain ⟨bytes', hbytes', hread⟩ := hpre.2 i (by omega) hcell
        refine ⟨bytes', hbytes', fun hfill => ?_⟩
        have hkeep := readField_overwrite (hpre.1 ▸ h) hcell hlt (by rw [hlast]; exact hown) heq
        rw [hlast] at hkeep
        rw [hkeep]
        exact hread hfill

/-! ## Preparation -/

namespace ManagedRuntime

/-- `construct` up to the storage: the candidate and the bytes it needs. -/
def prepare (fuel : Nat) (graph : ManagedGraphReader) (abi : AbiConfiguration) :
    ConstructM (ManagedRuntime × Nat) :=
  if !abi.supported then fail "Unsupported ABI configuration"
  else do
    let layout ← layoutObjects fuel graph abi
    let fields ← initializeFields graph layout.fieldLayouts
    let b ← bindAll graph fields (endpointField layout.objectSlots layout.objectLayouts)
    let resolved ← resolveReferences fields b.references
    let copies ← orderLinks ((List.range fields.length).map (sourceFor fields b.incoming resolved))
    .ok (⟨layout.objectLayouts, fields, layout.objectSlots, resolved, copies, []⟩, layout.total)

def fill (candidate : ManagedRuntime) (total : Nat) : ConstructM ManagedRuntime := do
  let storage ← candidate.fieldLayouts.foldlM storeInitial (List.replicate total 0)
  .ok { candidate with storage := storage : ManagedRuntime }.propagate

theorem construct_eq (fuel : Nat) (graph : ManagedGraphReader) (abi : AbiConfiguration) :
    construct fuel graph abi = prepare fuel graph abi >>= fun p => p.1.fill p.2 := by
  rw [construct, prepare]
  split
  · rfl
  · simp only [bind_assoc]
    rfl

variable {fuel : Nat} {graph : ManagedGraphReader} {abi : AbiConfiguration}
variable {candidate : ManagedRuntime}

theorem construct_of_prepare {r : ManagedRuntime} {total : Nat}
    (hprepare : prepare fuel graph abi = .ok (candidate, total))
    (h : construct fuel graph abi = .ok r) :
    ∃ storage, candidate.fieldLayouts.foldlM storeInitial (List.replicate total 0) = .ok storage ∧
      r = { candidate with storage := storage : ManagedRuntime }.propagate := by
  rw [construct_eq] at h
  obtain ⟨p, hp, h⟩ := bind_ok.mp h
  rw [hprepare] at hp
  cases hp
  obtain ⟨storage, hstorage, h⟩ := bind_ok.mp h
  cases h
  exact ⟨storage, hstorage, rfl⟩

structure Prepared (candidate : ManagedRuntime) (total : Nat) : Prop where
  packed : Packed candidate.fieldLayouts total
  resolved : ∀ i < candidate.fieldLayouts.length, ∃ t, candidate.resolved.getD i none = some t ∧
    t < candidate.fieldLayouts.length ∧ (candidate.fieldLayouts.getD t {}).reference = false

theorem prepare_prepared {total : Nat} (h : prepare fuel graph abi = .ok (candidate, total)) :
    candidate.Prepared total := by
  rw [prepare] at h
  split at h
  · cases h
  · rename_i habi
    have hpack := AbiConfiguration.supported_pack (by simpa using habi)
    obtain ⟨layout, hlayout, h⟩ := bind_ok.mp h
    obtain ⟨fields, hfields, h⟩ := bind_ok.mp h
    obtain ⟨b, hb, h⟩ := bind_ok.mp h
    obtain ⟨resolved, hresolved, h⟩ := bind_ok.mp h
    obtain ⟨copies, -, h⟩ := bind_ok.mp h
    cases h
    have hpacked := initializeFields_packed (layoutObjects_placed hpack hlayout).packed hfields
    obtain ⟨hres, htotal⟩ := resolveReferences_ok hpacked (bindAll_spec hb).1 hresolved
    refine ⟨hpacked, fun i hi => ?_⟩
    obtain ⟨t, ht⟩ := htotal i hi
    obtain ⟨hlt, hown, -⟩ := hres.target i t ht
    exact ⟨t, ht, hlt, hown⟩

variable {r : ManagedRuntime} {total : Nat} {i : Nat}

theorem Prepared.cell (h : r.Prepared total) (hi : i < r.fieldLayouts.length)
    (hscalar : (r.resolvedField i).aggregate = false) : Cell r.fieldLayouts (r.target i) := by
  obtain ⟨t, ht, hlt, hown⟩ := h.resolved i hi
  have htarget : r.target i = t := by
    rw [target, ht]
    rfl
  rw [resolvedField, htarget] at hscalar
  rw [htarget]
  exact ⟨hlt, hscalar, hown⟩

theorem fill_ok_iff : (∃ r', r.fill total = .ok r') ↔
    ∀ f ∈ r.fieldLayouts, (initializeStorage f).isSome = true := by
  rw [fill]
  generalize List.replicate total (0 : UInt8) = storage
  generalize r.fieldLayouts = fields
  constructor
  · rintro ⟨r', h⟩ f hf
    obtain ⟨storage', hfold, -⟩ := bind_ok.mp h
    obtain ⟨u, v, hstep⟩ := foldlM_ok_mem hfold hf
    rw [storeInitial] at hstep
    split at hstep
    · cases hstep
    · rename_i bytes hbytes
      rw [hbytes]
      rfl
  · intro hall
    have hfold : ∃ storage', fields.foldlM storeInitial storage = .ok storage' := by
      induction fields generalizing storage with
      | nil => exact ⟨storage, rfl⟩
      | cons f fields ih =>
        obtain ⟨bytes, hbytes⟩ := Option.isSome_iff_exists.mp (hall f (by simp))
        obtain ⟨storage', hrest⟩ := ih (overwrite storage f.offset bytes)
          fun g hg => hall g (List.mem_cons_of_mem f hg)
        refine ⟨storage', foldlM_cons_ok.mpr ⟨_, ?_, hrest⟩⟩
        rw [storeInitial, hbytes]
    obtain ⟨storage', hfold⟩ := hfold
    rw [hfold]
    exact ⟨_, rfl⟩

/-! ## Loads and stores -/

variable {endpoint : ObjectEndpoint} {path : List Nat}

theorem readInteger_eq (hi : r.field endpoint path = some i) (hf : Integral (r.resolvedField i)) :
    r.readInteger endpoint path = decodeInteger (r.resolvedField i)
      (ofLittleEndian (readField r.fieldLayouts r.storage (r.target i))) := by
  rw [readInteger, hi]
  dsimp only
  rw [hf.scalar, hf.fixed, hf.direct]
  rfl

theorem toInt64_of_int64 (value : Int64) : toInt64 value.toUInt64.toNat = value.toInt := by
  have hvalue : value.toInt = value.toBitVec.toInt := rfl
  have hbits : value.toUInt64.toNat = value.toBitVec.toNat := rfl
  rw [hvalue, BitVec.toInt_eq_toNat_cond, hbits, toInt64]
  split <;> split <;> omega

theorem writeInteger_ok_iff (hi : r.field endpoint path = some i)
    (hf : Integral (r.resolvedField i))
    (hsize : 0 < (r.resolvedField i).size ∧ (r.resolvedField i).size ≤ 8) (value : Int64) :
    (r.writeInteger endpoint path value).1 = .ok () ↔
      ((r.fieldLayouts.getD i {}).readOnly = false ∧ (r.resolvedField i).readOnly = false) ∧
        Representable (r.resolvedField i) value.toInt := by
  have hbits : value.toUInt64.toNat < 2 ^ 64 := value.toUInt64.toNat_lt
  have hvalue := toInt64_of_int64 value
  have hnegative : decide (value < 0) = true ↔ 2 ^ 63 ≤ value.toUInt64.toNat := by
    rw [decide_eq_true_eq, Int64.lt_iff_toInt_lt, ← toInt64_lt_zero hbits, hvalue]
    rfl
  have hfits := integerFits_iff hf hsize hbits hnegative.mp
  have hsame : (if decide (value < 0) = true then toInt64 value.toUInt64.toNat
      else (value.toUInt64.toNat : Int)) = value.toInt := by
    split
    · exact hvalue
    · rename_i hpos
      rw [hnegative, Nat.not_le] at hpos
      rw [← hvalue, toInt64_of_lt hpos]
  rw [hsame] at hfits
  rw [writeInteger, hi]
  dsimp only
  rw [hf.scalar, hf.fixed, hf.direct, ← hfits]
  cases (r.fieldLayouts.getD i {}).readOnly <;> cases (r.resolvedField i).readOnly <;>
    cases integerFits (r.resolvedField i) value.toUInt64.toNat (decide (value < 0)) <;> simp

variable {value : Int64}

theorem writeInteger_rejected {code : StatusCode}
    (h : (r.writeInteger endpoint path value).1 = .error code) :
    (r.writeInteger endpoint path value).2 = r := by
  rw [writeInteger] at h ⊢
  split at h
  · rfl
  · dsimp only at h ⊢
    split at h
    · rename_i hcheck
      rw [if_pos hcheck]
    · cases h

def Uncopied (r : ManagedRuntime) (i : Nat) : Prop := ∀ c ∈ r.copies, r.target i ≠ c.target

theorem writeInteger_bytes (h : r.Planned graph) (hi : r.field endpoint path = some i)
    (hcell : Cell r.fieldLayouts (r.target i)) (hfree : r.Uncopied i)
    (hok : (r.writeInteger endpoint path value).1 = .ok ()) :
    ∃ storage, (r.writeInteger endpoint path value).2 = { r with storage := storage } ∧
      readField r.fieldLayouts storage (r.target i) =
        littleEndian value.toUInt64.toNat (r.resolvedField i).size := by
  rw [writeInteger, hi] at hok ⊢
  dsimp only at hok ⊢
  split at hok
  · cases hok
  · rename_i hcheck
    rw [if_neg hcheck]
    have hlen : (littleEndian value.toUInt64.toNat (r.resolvedField i).size).length =
        (r.fieldLayouts.getD (r.target i) {}).size := littleEndian_length ..
    have hstored : (overwrite r.storage (r.resolvedField i).offset
        (littleEndian value.toUInt64.toNat (r.resolvedField i).size)).length = r.storage.length :=
      overwrite_field_length (fun ha => h.packed.fits ha) (Or.inr ⟨hcell.scalar, hlen⟩)
    refine ⟨_, rfl, ?_⟩
    rw [CopyPlan.run_frame (copyField_laws h.packed h.copies) hstored hcell hfree]
    exact readField_overwrite_self h.packed hcell hlen

theorem writes_storage {limit : Nat} (h : Packed r.fieldLayouts limit) (calls : List Write) :
    ∃ storage, r.writes calls = { r with storage := storage } := by
  induction calls generalizing r with
  | nil => exact ⟨r.storage, rfl⟩
  | cons call calls ih =>
    have hone : ∃ storage, (r.write call).2 = { r with storage := storage } := by
      cases write_cases h call with
      | inl hsame =>
        obtain ⟨code, heq⟩ := hsame
        exact ⟨r.storage, by rw [heq]⟩
      | inr hstore =>
        obtain ⟨i, bytes, -, heq⟩ := hstore
        exact ⟨_, by rw [heq]; rfl⟩
    obtain ⟨storage, heq⟩ := hone
    obtain ⟨storage', hrest⟩ := ih (by rw [heq]; exact h : Packed (r.write call).2.fieldLayouts limit)
    refine ⟨storage', ?_⟩
    change (r.write call).2.writes calls = _
    rw [hrest, heq]

theorem initializer_bits (v : ConstructionValue) :
    (v.bits : Int) % 2 ^ 64 = initializerValue v % 2 ^ 64 := by
  rw [initializerValue]
  split
  · rw [toInt64]
    split <;> omega
  · rfl

variable {f : ManagedFieldLayout}

theorem initializeStorage_isSome_iff (hf : Integral f) (hsize : 0 < f.size ∧ f.size ≤ 8)
    (hown : f.reference = false) (hvalid : validConstruction f.initial = true)
    (hkind : integerKind f.initial.kind = true) (hbits : f.initial.bits < 2 ^ 64) :
    (initializeStorage f).isSome = true ↔ Representable f (initializerValue f.initial) := by
  have hnegative : (f.initial.kind = .signedInteger && toInt64 f.initial.bits < 0) = true →
      2 ^ 63 ≤ f.initial.bits := by
    intro h
    simp only [Bool.and_eq_true, decide_eq_true_eq] at h
    exact (toInt64_lt_zero hbits).mp h.2
  have hfits := integerFits_iff hf hsize hbits hnegative
  have hsame : (if (f.initial.kind = .signedInteger && toInt64 f.initial.bits < 0) = true
      then toInt64 f.initial.bits else (f.initial.bits : Int)) = initializerValue f.initial := by
    rw [initializerValue]
    by_cases hsigned : f.initial.kind = .signedInteger
    · simp only [hsigned, decide_true, Bool.true_and, decide_eq_true_eq, if_true]
      split
      · rfl
      · rename_i hpos
        rw [toInt64_lt_zero hbits, Nat.not_le] at hpos
        rw [toInt64_of_lt hpos]
    · simp only [hsigned, decide_false, Bool.false_and, Bool.false_eq_true, if_false]
  rw [hsame] at hfits
  rw [initializeStorage_integral hf hown hvalid hkind, ← hfits]
  split
  · rename_i hfit
    exact iff_of_true rfl hfit
  · rename_i hfit
    exact iff_of_false (fun h => by cases h) hfit

theorem integerKind_of_stored (hf : Integral f) (hown : f.reference = false)
    (h : (initializeStorage f).isSome = true) :
    validConstruction f.initial = true ∧ integerKind f.initial.kind = true := by
  rw [initializeStorage, hf.scalar, hown, hf.fixed] at h
  cases hvalid : validConstruction f.initial <;> cases hk : f.initial.kind <;>
    simp [hvalid, hk] at h <;> exact ⟨rfl, rfl⟩

theorem Prepared.initial {storage : Bytes} (h : candidate.Prepared total)
    (hstorage : candidate.fieldLayouts.foldlM storeInitial (List.replicate total 0) = .ok storage)
    (hplanned : r.Planned graph)
    (hr : r = { candidate with storage := storage : ManagedRuntime }.propagate)
    (hcell : Cell candidate.fieldLayouts (candidate.target i))
    (hf : Integral (candidate.resolvedField i)) (hfree : candidate.Uncopied i) :
    readField r.fieldLayouts r.storage (r.target i) =
      littleEndian (candidate.resolvedField i).initial.bits (candidate.resolvedField i).size := by
  obtain ⟨bytes, hbytes, hread⟩ := storeInitial_cells h.packed hstorage hcell
  obtain ⟨hvalid, hkind⟩ := integerKind_of_stored hf hcell.own (by
    show (initializeStorage (candidate.resolvedField i)).isSome = true
    rw [resolvedField, hbytes]
    rfl)
  have hstored : bytes =
      littleEndian (candidate.resolvedField i).initial.bits (candidate.resolvedField i).size := by
    have hspec := initializeStorage_integral hf hcell.own hvalid hkind
    rw [resolvedField, hbytes] at hspec
    split at hspec
    · exact Option.some.inj hspec
    · cases hspec
  have hcopies : ∀ c ∈ candidate.copies, Copies candidate.fieldLayouts c := by
    rw [hr] at hplanned
    exact hplanned.copies
  have hlen := storeInitial_length h.packed hstorage
  rw [hr]
  have hlaws := copyField_laws h.packed hcopies
  have hframe := CopyPlan.run_frame hlaws hlen hcell hfree
  refine hframe.trans ?_
  rw [← hstored]
  apply hread
  rw [hstored]
  exact littleEndian_length ..

theorem Planned.writeInteger_agrees (h : r.Planned graph) (hi : r.field endpoint path = some i)
    (hf : Integral (r.resolvedField i))
    (hsize : 0 < (r.resolvedField i).size ∧ (r.resolvedField i).size ≤ 8)
    (hcell : Cell r.fieldLayouts (r.target i)) :
    (∀ value : Int64, (r.writeInteger endpoint path value).1 = .ok () ↔
      ((r.fieldLayouts.getD i {}).readOnly = false ∧ (r.resolvedField i).readOnly = false) ∧
        Representable (r.resolvedField i) value.toInt) ∧
    (∀ (value : Int64) code, (r.writeInteger endpoint path value).1 = .error code →
      (r.writeInteger endpoint path value).2 = r) ∧
    (r.Uncopied i → ∀ value : Int64, (r.writeInteger endpoint path value).1 = .ok () →
      ∀ endpoint' path' j, r.field endpoint' path' = some j → r.target j = r.target i →
        (r.writeInteger endpoint path value).2.readInteger endpoint' path' = .ok value.toInt) := by
  refine ⟨fun value => writeInteger_ok_iff hi hf hsize value,
    fun value code => writeInteger_rejected, ?_⟩
  intro hfree value hok endpoint' path' j hj hsame
  obtain ⟨storage, hstored, hbytes⟩ := writeInteger_bytes h hi hcell hfree hok
  have hvalue := ((writeInteger_ok_iff hi hf hsize value).mp hok).2
  have hfield : r.resolvedField j = r.resolvedField i := congrArg (r.fieldLayouts.getD · {}) hsame
  have hread : ({ r with storage := storage } : ManagedRuntime).readInteger endpoint' path' =
      decodeInteger (r.resolvedField j)
        (ofLittleEndian (readField r.fieldLayouts storage (r.target j))) :=
    readInteger_eq hj (by rw [← hfield] at hf; exact hf)
  have hmod : (value.toUInt64.toNat : Int) % 2 ^ 64 = value.toInt % 2 ^ 64 := by
    rw [← toInt64_of_int64, toInt64]
    split <;> omega
  have hfits : value.toInt < 2 ^ 63 := value.toInt_lt
  rw [hstored, hread, hfield, hsame, hbytes, ofLittleEndian_littleEndian,
    decodeInteger_eq hsize hvalue hmod, if_pos hfits]

/-- Stores and loads of integral fields agree. -/
theorem scalar_stores_agree {fuel : Nat} {graph : ManagedGraphReader} {abi : AbiConfiguration}
    {candidate : ManagedRuntime} {total : Nat}
    (hprepare : prepare fuel graph abi = .ok (candidate, total))
    (hwords : ∀ f ∈ candidate.fieldLayouts, f.initial.bits < 2 ^ 64) :
    ((∃ r, construct fuel graph abi = .ok r) ↔
      ∀ f ∈ candidate.fieldLayouts, (initializeStorage f).isSome = true) ∧
    (∀ f ∈ candidate.fieldLayouts, Integral f → f.reference = false →
      validConstruction f.initial = true → integerKind f.initial.kind = true →
        ((initializeStorage f).isSome = true ↔ Representable f (initializerValue f.initial))) ∧
    ∀ r, construct fuel graph abi = .ok r → ∀ endpoint path i, r.field endpoint path = some i →
      Integral (r.resolvedField i) →
      (r.Uncopied i → r.readInteger endpoint path =
        if initializerValue (r.resolvedField i).initial < 2 ^ 63
          then .ok (initializerValue (r.resolvedField i).initial) else .error .invalidArgument) ∧
      ∀ calls : List Write,
        (∀ value : Int64, ((r.writes calls).writeInteger endpoint path value).1 = .ok () ↔
          ((r.fieldLayouts.getD i {}).readOnly = false ∧ (r.resolvedField i).readOnly = false) ∧
            Representable (r.resolvedField i) value.toInt) ∧
        (∀ (value : Int64) code, ((r.writes calls).writeInteger endpoint path value).1 = .error code →
          ((r.writes calls).writeInteger endpoint path value).2 = r.writes calls) ∧
        (r.Uncopied i → ∀ value : Int64,
          ((r.writes calls).writeInteger endpoint path value).1 = .ok () →
            ∀ endpoint' path' j, r.field endpoint' path' = some j → r.target j = r.target i →
              ((r.writes calls).writeInteger endpoint path value).2.readInteger endpoint' path' =
                .ok value.toInt) ∧
        (r.writes calls).Propagated := by
  have hprepared := prepare_prepared hprepare
  refine ⟨?_, ?_, ?_⟩
  · rw [construct_eq, hprepare]
    exact fill_ok_iff
  · intro f hf hintegral hown hvalid hkind
    have hsize := (hprepared.packed.shaped f hf).scalar hintegral.scalar
    exact initializeStorage_isSome_iff hintegral hsize hown hvalid hkind (hwords f hf)
  · intro r hr endpoint path i hi hf
    obtain ⟨storage, hstorage, rfl⟩ := construct_of_prepare hprepare hr
    obtain ⟨hplanned, hpropagated⟩ := construct_planned hr
    obtain ⟨c, hfilled, hnested, -⟩ := construct_filledFrom hr
    have hlt : i < candidate.fieldLayouts.length := (hfilled.named hnested hi).1
    have hcell : Cell candidate.fieldLayouts (candidate.target i) := hprepared.cell hlt hf.scalar
    have hmem := getD_mem hcell.lt
    have hsize := (hprepared.packed.shaped _ hmem).scalar hcell.scalar
    refine ⟨?_, ?_⟩
    · intro hfree
      have hfill : (initializeStorage (candidate.resolvedField i)).isSome = true := by
        obtain ⟨bytes, hbytes, -⟩ := storeInitial_cells hprepared.packed hstorage hcell
        rw [resolvedField, hbytes]
        rfl
      obtain ⟨hvalid, hkind⟩ := integerKind_of_stored hf hcell.own hfill
      have hvalue := (initializeStorage_isSome_iff hf hsize hcell.own hvalid hkind
        (hwords _ hmem)).mp hfill
      rw [readInteger_eq hi hf, hprepared.initial hstorage hplanned rfl hcell hf hfree,
        ofLittleEndian_littleEndian]
      exact decodeInteger_eq hsize hvalue (initializer_bits _)
    · intro calls
      obtain ⟨hplanned', hpropagated'⟩ := writes_planned hplanned hpropagated calls
      obtain ⟨after, hafter⟩ := writes_storage hplanned.packed calls
      generalize (ManagedRuntime.propagate _).writes calls = s at hplanned' hpropagated' hafter ⊢
      subst hafter
      have hagree := hplanned'.writeInteger_agrees hi hf hsize hcell
      exact ⟨hagree.1, hagree.2.1, hagree.2.2, hpropagated'⟩

/-- A write to the tap is accepted, and the tap still shows the output it copies. -/
theorem linked_write_overwritten : (construct 4 chainedDevices {}).map (fun r =>
    ((r.writeInteger ⟨3, 0⟩ [] 4).1, (r.writeInteger ⟨3, 0⟩ [] 4).2.readInteger ⟨3, 0⟩ [])) =
      .ok (.ok (), .ok 5) := by decide +kernel

/-- The second device's input is an alias of the first one's output. -/
theorem scalar_stores_agree_chain : ∃ r, construct 4 chainedDevices {} = .ok r ∧
    (r.writeInteger ⟨2, 0⟩ [] 17).2.readInteger ⟨1, 1⟩ [] = .ok 17 := by
  have hwords : (prepare 4 chainedDevices {}).toOption.any (fun p =>
      p.1.fieldLayouts.all fun f => decide (f.initial.bits < 2 ^ 64)) = true := by decide +kernel
  have hfields : (construct 4 chainedDevices {}).toOption.any (fun r =>
      decide (r.field ⟨2, 0⟩ [] = some 2 ∧ r.field ⟨1, 1⟩ [] = some 1 ∧ r.target 1 = r.target 2) &&
        decide ((r.resolvedField 2).aggregate = false ∧ (r.resolvedField 2).floating = false ∧
          (r.resolvedField 2).pointer = false) &&
        decide ((r.writeInteger ⟨2, 0⟩ [] 17).1 = .ok ()) &&
        decide (∀ c ∈ r.copies, r.target 2 ≠ c.target)) = true := by decide +kernel
  cases hprepare : prepare 4 chainedDevices {} with
  | error failure =>
    rw [hprepare] at hwords
    cases hwords
  | ok p =>
    cases hr : construct 4 chainedDevices {} with
    | error failure =>
      rw [hr] at hfields
      cases hfields
    | ok r =>
      rw [hprepare] at hwords
      rw [hr] at hfields
      simp only [Except.toOption, Option.any_some, List.all_eq_true, decide_eq_true_eq,
        Bool.and_eq_true] at hwords hfields
      obtain ⟨⟨⟨⟨hinput, houtput, hsame⟩, hscalar, hfixed, hdirect⟩, hok⟩, hfree⟩ := hfields
      have hagree := (scalar_stores_agree hprepare hwords).2.2 r hr ⟨2, 0⟩ [] 2 hinput
        ⟨hscalar, hfixed, hdirect⟩
      exact ⟨r, rfl, (hagree.2 []).2.2.1 hfree 17 hok ⟨1, 1⟩ [] 1 houtput hsame⟩

end ManagedRuntime

end ServerEngine
