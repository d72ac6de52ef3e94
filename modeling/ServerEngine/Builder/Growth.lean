import ServerEngine.Builder.Candidate
import ServerEngine.Builder.TypeExpressions

/-! # Handles and canonical types of a candidate

What the local operations of an incremental build add to a candidate: handles of new identities and
canonical records that were not there. The tables of the committed Graph are exact, and the
candidate's stay so.
-/
namespace ServerEngine
open ErrorFold

/-! ## Indexes by identity -/

structure IdentityIndex (slots : List IndexSlot) (identities : List IdentityRef) : Prop where
  valid : ∀ i ∈ identities, i.valid = true
  index : IndexSlots.Keyed identityHash slots identities

variable {i : IdentityRef}

theorem Graph.findIdentity_iff {g : Graph} (hx : IdentityIndex g.identityIndex g.identities)
    {h : TypeHandle} : g.findIdentity i = some h ↔ h ≠ 0 ∧ g.identities[h - 1]? = some i := by
  unfold Graph.findIdentity
  split
  · rename_i hinvalid
    simp only [reduceCtorEq, false_iff]
    rintro ⟨-, hget⟩
    rw [hx.valid i (List.mem_of_getElem? hget)] at hinvalid
    cases hinvalid
  · exact hx.index.find_iff

theorem Graph.findIdentity_none {g : Graph} (hx : IdentityIndex g.identityIndex g.identities)
    (hi : i.valid = true) : g.findIdentity i = none ↔ i ∉ g.identities := by
  rw [Graph.findIdentity, hi]
  exact hx.index.find_none

theorem Graph.findObjectIdentity_iff {g : Graph}
    (hx : IdentityIndex g.objectIdentityIndex g.objectIdentities) {h : ObjectHandle} :
    g.findObjectIdentity i = some h ↔ h ≠ 0 ∧ g.objectIdentities[h - 1]? = some i := by
  unfold Graph.findObjectIdentity
  split
  · rename_i hinvalid
    simp only [reduceCtorEq, false_iff]
    rintro ⟨-, hget⟩
    rw [hx.valid i (List.mem_of_getElem? hget)] at hinvalid
    cases hinvalid
  · exact hx.index.find_iff

theorem Graph.findObjectIdentity_none {g : Graph}
    (hx : IdentityIndex g.objectIdentityIndex g.objectIdentities) (hi : i.valid = true) :
    g.findObjectIdentity i = none ↔ i ∉ g.objectIdentities := by
  rw [Graph.findObjectIdentity, hi]
  exact hx.index.find_none

theorem IdentityRef.ne_null (h : i.valid = true) : i ≠ .null := by
  rintro rfl
  cases h

/-- The canonical types of a Graph are interned, and every table over them is exact. -/
structure Graph.Canonical (g : Graph) : Prop where
  records : Interned g.types.length g.canonicalTypes
  intrinsic : RefTable (g.intrinsicRefs.getD · 0) intrinsicRecord g.canonicalTypes
  named : RefTable (g.namedRefs.getD · 0) namedRecord g.canonicalTypes
  namedSlots : g.namedRefs.length = g.types.length + 1
  derived : IndexSlots.Table CanonicalTypeRecord.derivedHash g.derivedIndex
    (derivedEntries g.canonicalTypes 0)
  derivedCount : g.derivedIndexEntries = (derivedEntries g.canonicalTypes 0).length
  derivedRoom : (derivedEntries g.canonicalTypes 0).length < g.derivedIndex.length
  derivedSize : 8 ≤ g.derivedIndex.length

section Patches
variable {α : Type} {patches : List (Patch α)} {handle : Nat} {value : α}

theorem findPatch_some (h : findPatch patches handle = some value) :
    ∃ p ∈ patches, p.handle = handle ∧ p.value = value := by
  obtain ⟨p, hp, hvalue⟩ := Option.map_eq_some_iff.mp h
  exact ⟨p, List.mem_of_find?_eq_some hp, by simpa using List.find?_some hp, hvalue⟩

theorem findPatch_none (h : findPatch patches handle = none) : ∀ p ∈ patches, p.handle ≠ handle := by
  rw [findPatch, Option.map_eq_none_iff, List.find?_eq_none] at h
  simpa using h

theorem findPatch_snoc (other : Nat) : findPatch (patches ++ [⟨handle, value⟩]) other =
    match findPatch patches other with
    | some old => some old
    | none => if handle = other then some value else none := by
  rw [findPatch, findPatch, List.find?_append]
  cases hp : patches.find? (·.handle == other) with
  | some p => rfl
  | none => by_cases ho : handle = other <;> simp [ho]

end Patches

namespace Candidate

def core (c : Candidate) : Candidate :=
  { c with
    update := { c.update with
      newTypes := [], newIdentities := [], canonicalTypes := [], intrinsicRefs := []
      namedRefPatches := [] }
    localDerivedIndex := []
    newDerivedCount := 0 }

/-- Handles of new identities and canonical records have been added, nothing else has changed. -/
structure Grows (c c' : Candidate) : Prop where
  handles : ∃ added, c'.update.newIdentities = c.update.newIdentities ++ added ∧
    c'.update.newTypes = c.update.newTypes ++ added.map fun _ => ({} : TypeEntry)
  records : ∃ added, c'.update.canonicalTypes = c.update.canonicalTypes ++ added
  core : c'.core = c.core

namespace Grows

variable {c c' c'' : Candidate}

theorem refl (c : Candidate) : Grows c c := ⟨⟨[], by simp, by simp⟩, ⟨[], by simp⟩, rfl⟩

theorem trans (h : Grows c c') (h' : Grows c' c'') : Grows c c'' := by
  obtain ⟨a, ha, hat⟩ := h.handles
  obtain ⟨b, hb, hbt⟩ := h'.handles
  obtain ⟨r, hr⟩ := h.records
  obtain ⟨s, hs⟩ := h'.records
  refine ⟨⟨a ++ b, ?_, ?_⟩, ⟨r ++ s, ?_⟩, h'.core.trans h.core⟩
  · rw [hb, ha, List.append_assoc]
  · rw [hbt, hat, List.append_assoc, List.map_append]
  · rw [hs, hr, List.append_assoc]

theorem contributions (h : Grows c c') : c'.contributions = c.contributions := by
  have hcore := congrArg Candidate.contributions h.core
  exact hcore

theorem canonical (h : Grows c c') (g : Graph) : ∃ added,
    c'.canonicalTypes g = c.canonicalTypes g ++ added := by
  obtain ⟨added, hadded⟩ := h.records
  exact ⟨added, by rw [Candidate.canonicalTypes, hadded, ← List.append_assoc]; rfl⟩

theorem denotes {g : Graph} {ref : Nat} {base : TypeBase} {modifiers : List (Nat × Nat)}
    (h : Grows c c') (hd : Denotes (c.canonicalTypes g) ref base modifiers) :
    Denotes (c'.canonicalTypes g) ref base modifiers := by
  obtain ⟨added, hadded⟩ := h.canonical g
  rw [hadded]
  exact hd.append added

theorem identities (h : Grows c c') {g : Graph} {handle : Nat} {i : IdentityRef}
    (hi : (g.identities ++ c.update.newIdentities)[handle - 1]? = some i) :
    (g.identities ++ c'.update.newIdentities)[handle - 1]? = some i := by
  obtain ⟨added, hadded, -⟩ := h.handles
  have hlt := (List.getElem?_eq_some_iff.mp hi).1
  rw [hadded, ← List.append_assoc, List.getElem?_append_left hlt, hi]

theorem newTypes_length (h : Grows c c') :
    c.update.newTypes.length ≤ c'.update.newTypes.length := by
  obtain ⟨added, -, hadded⟩ := h.handles
  rw [hadded, List.length_append]
  omega

end Grows

/-- The reference `get_named` finds for a handle. -/
def namedRef (g : Graph) (c : Candidate) (handle : TypeHandle) : Nat :=
  if g.namedRefs.getD handle 0 ≠ 0 then g.namedRefs.getD handle 0
  else (findPatch c.update.namedRefPatches handle).getD 0

structure Types (g : Graph) (c : Candidate) : Prop where
  slots : c.update.newTypes.length = c.update.newIdentities.length
  nodup : (g.identities ++ c.update.newIdentities).Nodup
  valid : ∀ i ∈ c.update.newIdentities, i.valid = true
  records : Interned (g.types.length + c.update.newTypes.length) (c.canonicalTypes g)
  intrinsic : RefTable (c.update.intrinsicRefs.getD · 0) intrinsicRecord (c.canonicalTypes g)
  named : RefTable (c.namedRef g) namedRecord (c.canonicalTypes g)
  patches : ∀ p ∈ c.update.namedRefPatches, p.value ≠ 0 ∧ g.namedRefs.getD p.handle 0 = 0 ∧
    p.handle ≠ 0 ∧ p.handle ≤ g.types.length + c.update.newTypes.length
  patchesNodup : (c.update.namedRefPatches.map (·.handle)).Nodup
  derived : IndexSlots.Table CanonicalTypeRecord.derivedHash c.localDerivedIndex
    (derivedEntries c.update.canonicalTypes g.canonicalTypes.length)
  derivedCount : c.newDerivedCount =
    (derivedEntries c.update.canonicalTypes g.canonicalTypes.length).length

theorem Types.congr {g : Graph} {c c' : Candidate} (hc : c.Types g)
    (hslots : c'.update.newTypes.length = c.update.newTypes.length)
    (hids : c'.update.newIdentities = c.update.newIdentities)
    (hrecords : c'.update.canonicalTypes = c.update.canonicalTypes)
    (hintrinsic : c'.update.intrinsicRefs = c.update.intrinsicRefs)
    (hnamed : c'.update.namedRefPatches = c.update.namedRefPatches)
    (hderived : c'.localDerivedIndex = c.localDerivedIndex)
    (hcount : c'.newDerivedCount = c.newDerivedCount) : c'.Types g := by
  have hcanon : c'.canonicalTypes g = c.canonicalTypes g := by
    rw [canonicalTypes, canonicalTypes, hrecords]
  have href : c'.namedRef g = c.namedRef g := by
    funext handle
    rw [namedRef, namedRef, hnamed]
  refine ⟨?_, ?_, ?_, ?_, ?_, ?_, ?_, ?_, ?_, ?_⟩
  · rw [hslots, hids, hc.slots]
  · rw [hids]
    exact hc.nodup
  · rw [hids]
    exact hc.valid
  · rw [hslots, hcanon]
    exact hc.records
  · rw [hintrinsic, hcanon]
    exact hc.intrinsic
  · rw [href, hcanon]
    exact hc.named
  · rw [hnamed, hslots]
    exact hc.patches
  · rw [hnamed]
    exact hc.patchesNodup
  · rw [hderived, hrecords]
    exact hc.derived
  · rw [hcount, hrecords, hc.derivedCount]

/-! ## New handles -/

section Handles
variable {g : Graph} {c c' : Candidate} {i : IdentityRef}

theorem findOrCreateHandle_spec (hx : IdentityIndex g.identityIndex g.identities)
    (hlen : g.types.length = g.identities.length) (hc : c.Types g) (hi : i.valid = true)
    {handle : Nat} (h : c.findOrCreateHandle g i = .ok (c', handle)) :
    c'.Types g ∧ Grows c c' ∧ handle ≠ 0 ∧
      (g.identities ++ c'.update.newIdentities)[handle - 1]? = some i := by
  unfold findOrCreateHandle at h
  rw [if_neg (IdentityRef.ne_null hi)] at h
  cases hfind : g.findIdentity i with
  | some found =>
    rw [hfind] at h
    cases h
    obtain ⟨hne, hget⟩ := (Graph.findIdentity_iff hx).mp hfind
    refine ⟨hc, .refl c, hne, ?_⟩
    rw [List.getElem?_append_left (List.getElem?_eq_some_iff.mp hget).1, hget]
  | none =>
    have hold := (Graph.findIdentity_none hx hi).mp hfind
    rw [hfind] at h
    cases hidx : c.update.newIdentities.idxOf? i with
    | some position =>
      rw [hidx] at h
      cases h
      refine ⟨hc, .refl c, by omega, ?_⟩
      have hget : c.update.newIdentities[position]? = some i := by
        obtain ⟨hlt, heq, -⟩ := List.findIdx?_eq_some_iff_getElem.mp hidx
        rw [List.getElem?_eq_getElem hlt]
        simpa using heq
      rw [List.getElem?_append_right (by omega)]
      have hpos : g.types.length + position + 1 - 1 - g.identities.length = position := by omega
      rw [hpos, hget]
    | none =>
      rw [hidx] at h
      dsimp only at h
      split at h
      · cases h
      split at h
      · cases h
      cases h
      have hnew : i ∉ c.update.newIdentities := by
        rw [List.idxOf?, List.findIdx?_eq_none_iff] at hidx
        intro hmem
        simpa using hidx i hmem
      refine ⟨?_, ⟨⟨[i], rfl, rfl⟩, ⟨[], by simp⟩, rfl⟩, by omega, ?_⟩
      · refine ⟨?_, ?_, ?_, ?_, hc.intrinsic, hc.named, ?_, hc.patchesNodup, hc.derived,
          hc.derivedCount⟩
        · simp [hc.slots]
        · dsimp only
          rw [← List.append_assoc, List.nodup_append]
          refine ⟨hc.nodup, by simp, ?_⟩
          rintro a ha b hb rfl
          rw [List.mem_singleton] at hb
          subst hb
          rcases List.mem_append.mp ha with ha | ha
          · exact hold ha
          · exact hnew ha
        · intro j hj
          rcases List.mem_append.mp hj with hj | hj
          · exact hc.valid j hj
          · rw [List.mem_singleton] at hj
            rw [hj]
            exact hi
        · exact hc.records.mono (by simp)
        · intro p hp
          obtain ⟨hv, h0, hne, hle⟩ := hc.patches p hp
          refine ⟨hv, h0, hne, ?_⟩
          simp only [List.length_append]
          omega
      · have hpos : g.types.length + c.update.newTypes.length + 1 - 1 =
            (g.identities ++ c.update.newIdentities).length := by
          rw [List.length_append, hc.slots]
          omega
        rw [hpos, ← List.append_assoc, List.getElem?_concat_length]

theorem findOrCreateHandle_rest {handle : Nat} (h : c.findOrCreateHandle g i = .ok (c', handle)) :
    ∃ newTypes newIdentities,
      c' = { c with update := { c.update with newTypes, newIdentities } } := by
  unfold findOrCreateHandle at h
  split at h
  · cases h
  split at h
  · cases h
    exact ⟨_, _, rfl⟩
  split at h
  · cases h
    exact ⟨_, _, rfl⟩
  split at h
  · cases h
  split at h
  · cases h
  cases h
  exact ⟨_, _, rfl⟩

theorem handle_le (hlen : g.types.length = g.identities.length) (hc : c.Types g) {handle : Nat}
    (h : (g.identities ++ c.update.newIdentities)[handle - 1]? = some i) :
    handle ≤ g.types.length + c.update.newTypes.length := by
  have hlt := (List.getElem?_eq_some_iff.mp h).1
  rw [List.length_append] at hlt
  have := hc.slots
  omega

end Handles

/-! ## New canonical records -/

section Records
variable {g : Graph} {c c' : Candidate} {ref : Nat}

theorem appendCanonical_ok {record : CanonicalTypeRecord}
    (h : c.appendCanonical g record = .ok (c', ref)) : ref = (c.canonicalTypes g).length ∧
      c' = { c with update := { c.update with
        canonicalTypes := c.update.canonicalTypes ++ [record] } } := by
  unfold appendCanonical at h
  split at h
  · cases h
  · cases h
    exact ⟨rfl, rfl⟩

theorem canonicalTypes_snoc (record : CanonicalTypeRecord) :
    g.canonicalTypes ++ (c.update.canonicalTypes ++ [record]) = c.canonicalTypes g ++ [record] := by
  rw [canonicalTypes, List.append_assoc]

theorem getIntrinsic_spec (hc : c.Types g) {value : IntrinsicType}
    (h : c.getIntrinsic g value = .ok (c', ref)) : c'.Types g ∧ Grows c c' ∧ ref ≠ 0 ∧
      (c'.canonicalTypes g)[ref]? = some (intrinsicRecord value.code) := by
  unfold getIntrinsic at h
  split at h
  · cases h
  rename_i hguard
  simp only [Bool.or_eq_true, decide_eq_true_eq, not_or, Nat.not_le, ge_iff_le] at hguard
  split at h
  · rename_i hne
    cases h
    exact ⟨hc, .refl c, hne, (hc.intrinsic _ _ hne).mp rfl⟩
  · rename_i hzero
    rw [ne_eq, not_not] at hzero
    obtain ⟨⟨c₁, ref₁⟩, happ, h⟩ := bind_ok.mp h
    obtain ⟨rfl, rfl⟩ := appendCanonical_ok happ
    cases h
    have hpos := hc.records.length_pos
    have hrec : ({ kind := .intrinsic, detail := value.code } : CanonicalTypeRecord) =
      intrinsicRecord value.code := rfl
    refine ⟨⟨hc.slots, hc.nodup, hc.valid, ?_, ?_, ?_, hc.patches, hc.patchesNodup, ?_, ?_⟩,
      ⟨⟨[], by simp, by simp⟩, ⟨_, rfl⟩, rfl⟩, by omega, ?_⟩
    · simp only [canonicalTypes, hrec]
      rw [canonicalTypes_snoc]
      refine hc.records.snoc ⟨value, hguard.1, rfl⟩ ?_
      intro i hi
      exact hc.intrinsic.absent hzero hi
    · simp only [canonicalTypes, hrec]
      rw [canonicalTypes_snoc]
      refine @RefTable.snoc_self (c.update.intrinsicRefs.getD · 0) _ _ _ hc.intrinsic _
        (fun other ho => intrinsicRecord_inj ho) hzero ?_ ?_
      · rw [Slice.getD_set, if_pos ⟨rfl, hguard.2⟩]
        rfl
      · intro other ho
        rw [Slice.getD_set, if_neg]
        rintro ⟨rfl, -⟩
        exact ho rfl
    · simp only [canonicalTypes, hrec]
      rw [canonicalTypes_snoc]
      refine RefTable.snoc_other hc.named ?_
      intro key heq
      cases heq
    · dsimp only
      rw [derivedEntries_snoc_other (by simp)]
      exact hc.derived
    · dsimp only
      rw [derivedEntries_snoc_other (by simp)]
      exact hc.derivedCount
    · simp only [canonicalTypes, hrec]
      rw [canonicalTypes_snoc]
      exact List.getElem?_concat_length

theorem namedRef_snoc {handle ref : Nat} (hzero : g.namedRefs.getD handle 0 = 0)
    (hnone : findPatch c.update.namedRefPatches handle = none) (other : Nat)
    (c' : Candidate) (hc' : c'.update.namedRefPatches = c.update.namedRefPatches ++ [⟨handle, ref⟩]) :
    c'.namedRef g other = if other = handle then ref else c.namedRef g other := by
  rw [namedRef, namedRef, hc', findPatch_snoc]
  by_cases ho : other = handle
  · subst ho
    rw [if_neg (by rw [hzero]; simp), hnone, if_pos rfl, if_pos rfl, Option.getD_some]
  · rw [if_neg (Ne.symm ho), if_neg ho]
    cases findPatch c.update.namedRefPatches other <;> rfl

theorem getNamed_spec (hc : c.Types g) {handle : Nat}
    (h : c.getNamed g handle = .ok (c', ref)) : c'.Types g ∧ Grows c c' ∧ ref ≠ 0 ∧
      (c'.canonicalTypes g)[ref]? = some (namedRecord handle) := by
  unfold getNamed at h
  split at h
  · cases h
  rename_i hguard
  simp only [Bool.or_eq_true, decide_eq_true_eq, not_or, Nat.not_lt, gt_iff_lt] at hguard
  split at h
  · rename_i hfound
    simp only [Bool.and_eq_true, decide_eq_true_eq] at hfound
    cases h
    refine ⟨hc, .refl c, hfound.2, (hc.named _ _ hfound.2).mp ?_⟩
    rw [namedRef, if_pos hfound.2]
  rename_i hmiss
  have hzero : g.namedRefs.getD handle 0 = 0 := by
    by_contra hne
    rcases Nat.lt_or_ge handle g.namedRefs.length with hlt | hge
    · exact hmiss (by rw [decide_eq_true hlt, decide_eq_true hne]; rfl)
    · exact hne (List.getD_eq_default _ _ hge)
  cases hp : findPatch c.update.namedRefPatches handle with
  | some found =>
    rw [hp] at h
    cases h
    have hne : ref ≠ 0 := by
      obtain ⟨p, hmem, rfl, rfl⟩ := findPatch_some hp
      exact (hc.patches p hmem).1
    refine ⟨hc, .refl c, hne, (hc.named _ _ hne).mp ?_⟩
    rw [namedRef, if_neg (by rw [hzero]; simp), hp, Option.getD_some]
  | none =>
    rw [hp] at h
    obtain ⟨⟨c₁, ref₁⟩, happ, h⟩ := bind_ok.mp h
    obtain ⟨rfl, rfl⟩ := appendCanonical_ok happ
    have hpos : (c.canonicalTypes g).length ≠ 0 := Nat.ne_of_gt hc.records.length_pos
    dsimp only at h
    rw [if_neg hpos] at h
    cases h
    have hrec : ({ kind := .named, childOrHandle := handle } : CanonicalTypeRecord) =
      namedRecord handle := rfl
    have hnone : c.namedRef g handle = 0 := by
      rw [namedRef, if_neg (by rw [hzero]; simp), hp, Option.getD_none]
    refine ⟨⟨hc.slots, hc.nodup, hc.valid, ?_, ?_, ?_, ?_, ?_, ?_, ?_⟩,
      ⟨⟨[], by simp, by simp⟩, ⟨_, rfl⟩, rfl⟩, hpos, ?_⟩
    · simp only [canonicalTypes, hrec]
      rw [canonicalTypes_snoc]
      refine hc.records.snoc ⟨rfl, hguard.1, hguard.2⟩ ?_
      intro i hi
      exact hc.named.absent hnone hi
    · simp only [canonicalTypes, hrec]
      rw [canonicalTypes_snoc]
      refine RefTable.snoc_other hc.intrinsic ?_
      intro key heq
      cases heq
    · simp only [canonicalTypes, hrec]
      rw [canonicalTypes_snoc]
      refine RefTable.snoc_self hc.named (fun other ho => namedRecord_inj ho) hnone ?_ ?_
      · rw [namedRef_snoc hzero hp _ _ rfl, if_pos rfl]
        rfl
      · intro other ho
        rw [namedRef_snoc hzero hp _ _ rfl, if_neg ho]
    · intro p hmem
      rcases List.mem_append.mp hmem with hmem | hmem
      · exact hc.patches p hmem
      · rw [List.mem_singleton] at hmem
        subst hmem
        exact ⟨hpos, hzero, hguard.1, hguard.2⟩
    · dsimp only
      rw [List.map_append, List.nodup_append]
      refine ⟨hc.patchesNodup, by simp, ?_⟩
      intro a ha b hb heq
      simp only [List.map_cons, List.map_nil, List.mem_singleton] at hb
      obtain ⟨p, hmem, rfl⟩ := List.mem_map.mp ha
      exact findPatch_none hp p hmem (heq.trans hb)
    · dsimp only
      rw [derivedEntries_snoc_other (by simp)]
      exact hc.derived
    · dsimp only
      rw [derivedEntries_snoc_other (by simp)]
      exact hc.derivedCount
    · simp only [canonicalTypes, hrec]
      rw [canonicalTypes_snoc]
      exact List.getElem?_concat_length

theorem compares_derived (hc : c.Types g) (record : CanonicalTypeRecord) {start : Nat}
    {part : List CanonicalTypeRecord}
    (hpart : ∀ i r, start ≤ i → part[i - start]? = some r → (c.canonicalTypes g)[i]? = some r) :
    IndexSlots.Compares (fun ref => c.canonicalRecord g ref == some record)
      (derivedEntries part start) record := by
  intro e hmem
  obtain ⟨hk, hle, hget⟩ := mem_derivedEntries.mp hmem
  have hat := hpart e.2 e.1 hle hget
  have hne : e.2 ≠ 0 := by
    intro h0
    rw [h0, hc.records.sentinel] at hat
    rw [← Option.some.inj hat] at hk
    cases hk
  simp [canonicalRecord, hne, hat]

variable {i : Nat} {r : CanonicalTypeRecord}

theorem canonicalTypes_old (h : g.canonicalTypes[i]? = some r) :
    (c.canonicalTypes g)[i]? = some r := by
  rw [canonicalTypes, List.getElem?_append_left (List.getElem?_eq_some_iff.mp h).1, h]

theorem canonicalTypes_new (hle : g.canonicalTypes.length ≤ i)
    (h : c.update.canonicalTypes[i - g.canonicalTypes.length]? = some r) :
    (c.canonicalTypes g)[i]? = some r := by
  rw [canonicalTypes, List.getElem?_append_right hle, h]

theorem derivedRecord_kind (modifier : SourceTypeModifier) (child : Nat) :
    (derivedRecord modifier child).kind = .derived := rfl

theorem getDerived_spec (hg : g.Canonical) (hc : c.Types g) {modifier : SourceTypeModifier}
    {child : Nat} (hchild : child < (c.canonicalTypes g).length)
    (h : c.getDerived g modifier child = .ok (c', ref)) : c'.Types g ∧ Grows c c' ∧ ref ≠ 0 ∧
      (c'.canonicalTypes g)[ref]? = some (derivedRecord modifier child) := by
  unfold getDerived at h
  split at h
  · cases h
  rename_i hne
  have hold := @compares_derived g c hc (derivedRecord modifier child) 0 g.canonicalTypes
    fun i r _ hr => canonicalTypes_old hr
  have hnew := @compares_derived g c hc (derivedRecord modifier child) g.canonicalTypes.length
    c.update.canonicalTypes
    fun i r hle hr => canonicalTypes_new hle hr
  have hsome : ∀ {i : Nat}, (c.canonicalTypes g)[i]? = some (derivedRecord modifier child) →
      i ≠ 0 := by
    rintro i hi rfl
    rw [hc.records.sentinel, Option.some.injEq] at hi
    cases congrArg CanonicalTypeRecord.kind hi
  dsimp only at h
  cases hfind : IndexSlots.find g.derivedIndex (derivedRecord modifier child).derivedHash
      (fun ref => c.canonicalRecord g ref == some (derivedRecord modifier child)) with
  | some found =>
    rw [hfind] at h
    cases h
    have hmem := (hg.derived.find_eq hold hg.records.derivedKeys).mp hfind
    obtain ⟨-, -, hget⟩ := mem_derivedEntries.mp hmem
    have hat := canonicalTypes_old (c := c) hget
    exact ⟨hc, .refl c, hsome hat, hat⟩
  | none =>
    have habsent := (hg.derived.find_none hold).mp hfind
    rw [hfind] at h
    cases hp : IndexSlots.probe c.localDerivedIndex (derivedRecord modifier child).derivedHash
        (fun ref => c.canonicalRecord g ref == some (derivedRecord modifier child)) with
    | none =>
      rw [hp] at h
      cases h
    | some pos =>
      rw [hp] at h
      dsimp only at h
      split at h
      · rename_i hocc
        cases h
        have hmem := hc.derived.entry_of_probe hnew hp hocc
        obtain ⟨-, hle, hget⟩ := mem_derivedEntries.mp hmem
        have hat := canonicalTypes_new hle hget
        exact ⟨hc, .refl c, hocc, hat⟩
      · rename_i hfree
        rw [ne_eq, not_not] at hfree
        obtain ⟨⟨c₁, ref₁⟩, happ, h⟩ := bind_ok.mp h
        obtain ⟨rfl, rfl⟩ := appendCanonical_ok happ
        cases h
        have hlocal := hc.derived.not_mem_of_free hnew hp hfree
        have hlen : (c.canonicalTypes g).length =
            g.canonicalTypes.length + c.update.canonicalTypes.length := List.length_append
        refine ⟨⟨hc.slots, hc.nodup, hc.valid, ?_, ?_, ?_, hc.patches, hc.patchesNodup, ?_, ?_⟩,
          ⟨⟨[], by simp, by simp⟩, ⟨_, rfl⟩, rfl⟩, by omega, ?_⟩
        · simp only [canonicalTypes]
          rw [canonicalTypes_snoc]
          refine hc.records.snoc ⟨hne, hchild⟩ ?_
          intro i hi hget
          rw [canonicalTypes, List.getElem?_append] at hget
          split at hget
          · exact habsent i (mem_derivedEntries.mpr ⟨rfl, by omega, hget⟩)
          · exact hlocal i (mem_derivedEntries.mpr ⟨rfl, by omega, hget⟩)
        · simp only [canonicalTypes]
          rw [canonicalTypes_snoc]
          refine RefTable.snoc_other hc.intrinsic ?_
          intro key heq
          cases congrArg CanonicalTypeRecord.kind heq
        · simp only [canonicalTypes]
          rw [canonicalTypes_snoc]
          refine RefTable.snoc_other hc.named ?_
          intro key heq
          cases congrArg CanonicalTypeRecord.kind heq
        · dsimp only
          rw [derivedEntries_snoc_derived (derivedRecord_kind modifier child), hlen]
          exact @IndexSlots.Table.place _ CanonicalTypeRecord.derivedHash _ _ _ _ _ _ hc.derived hp hfree
            (by omega)
        · dsimp only
          rw [derivedEntries_snoc_derived (derivedRecord_kind modifier child), List.length_append,
            hc.derivedCount]
          rfl
        · simp only [canonicalTypes]
          rw [canonicalTypes_snoc]
          exact List.getElem?_concat_length

end Records

section Expressions
variable {g : Graph} {c c' : Candidate} {ref : Nat} {type : SourceContributionTypeRef}

theorem materializeBase_spec (hx : IdentityIndex g.identityIndex g.identities)
    (hlen : g.types.length = g.identities.length) (hc : c.Types g)
    (hvalid : type.identity = .null ∨ type.identity.valid = true)
    (h : c.materializeBase g type = .ok (c', ref)) : c'.Types g ∧ Grows c c' ∧
      ∃ base, type.HasBase (g.identities ++ c'.update.newIdentities) base ∧
        Denotes (c'.canonicalTypes g) ref base [] := by
  unfold materializeBase at h
  split at h
  · rename_i hne
    obtain ⟨⟨c₁, handle⟩, hfind, h⟩ := bind_ok.mp h
    obtain ⟨hc₁, hgrow₁, hhandle, hget⟩ :=
      findOrCreateHandle_spec hx hlen hc (hvalid.resolve_left hne) hfind
    obtain ⟨hc', hgrow, href, hrecord⟩ := getNamed_spec hc₁ h
    exact ⟨hc', hgrow₁.trans hgrow, .named handle, ⟨hne, hhandle, hgrow.identities hget⟩,
      .named href hrecord rfl⟩
  · rename_i hnull
    rw [ne_eq, not_not] at hnull
    obtain ⟨hc', hgrow, href, hrecord⟩ := getIntrinsic_spec hc h
    exact ⟨hc', hgrow, .intrinsic type.intrinsic.code, ⟨hnull, rfl⟩, .intrinsic href hrecord rfl⟩

theorem foldModifiers_spec (hg : g.Canonical) {modifiers : List SourceTypeModifier}
    {base : TypeBase} {done : List (Nat × Nat)} {start : Nat} (hc : c.Types g)
    (hd : Denotes (c.canonicalTypes g) start base done)
    (h : modifiers.foldlM (fun (state : Candidate × TypeRef) modifier =>
      state.1.getDerived g modifier state.2) (c, start) = .ok (c', ref)) : c'.Types g ∧ Grows c c' ∧
      Denotes (c'.canonicalTypes g) ref base ((modifiers.map (·.key)).reverse ++ done) := by
  induction modifiers generalizing c start done with
  | nil =>
    cases h
    exact ⟨hc, .refl _, hd⟩
  | cons modifier rest ih =>
    obtain ⟨⟨c₁, ref₁⟩, hstep, hrest⟩ := foldlM_cons_ok.mp h
    obtain ⟨hc₁, hgrow₁, href₁, hrecord⟩ := getDerived_spec hg hc hd.lt_length hstep
    have hd₁ : Denotes (c₁.canonicalTypes g) ref₁ base (modifier.key :: done) :=
      .derived href₁ hrecord rfl (hgrow₁.denotes hd)
    obtain ⟨hc', hgrow, hd'⟩ := ih hc₁ hd₁ hrest
    refine ⟨hc', hgrow₁.trans hgrow, ?_⟩
    rw [List.map_cons, List.reverse_cons, List.append_assoc]
    exact hd'

theorem materializeType_spec (hx : IdentityIndex g.identityIndex g.identities)
    (hlen : g.types.length = g.identities.length) (hg : g.Canonical) (hc : c.Types g)
    (hvalid : type.identity = .null ∨ type.identity.valid = true)
    (h : c.materializeType g type = .ok (c', ref)) : c'.Types g ∧ Grows c c' ∧
      ∃ base, type.HasBase (g.identities ++ c'.update.newIdentities) base ∧
        Denotes (c'.canonicalTypes g) ref base
          ((c.contributions.modifiers type.modifiers).map (·.key)).reverse := by
  obtain ⟨⟨c₁, ref₁⟩, hbase, hfold⟩ := bind_ok.mp h
  obtain ⟨hc₁, hgrow₁, base, hhas, hd⟩ := materializeBase_spec hx hlen hc hvalid hbase
  obtain ⟨hc', hgrow, hd'⟩ := foldModifiers_spec hg hc₁ hd hfold
  rw [List.append_nil] at hd'
  exact ⟨hc', hgrow₁.trans hgrow, base, hhas.mono hgrow.identities, hd'⟩

end Expressions

end Candidate

end ServerEngine
