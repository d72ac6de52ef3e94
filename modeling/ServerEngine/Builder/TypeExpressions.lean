import Mathlib.Order.Basic
import ServerEngine.Builder.Construction

/-! # Interned type expressions

A list of canonical records in which every record stands once and every derived record after its
child. Two references into it are equal exactly when they denote the same type expression.
-/
namespace ServerEngine

/-! ## Denotation -/

inductive TypeBase
  | intrinsic (code : Nat)
  | named (handle : TypeHandle)

/-- The reference denotes modifiers around a base, the outermost first; a modifier is its kind code
and its payload. -/
inductive Denotes (canonical : List CanonicalTypeRecord) :
    Nat → TypeBase → List (Nat × Nat) → Prop
  | intrinsic {ref : Nat} {r : CanonicalTypeRecord} : ref ≠ 0 → canonical[ref]? = some r →
    r.kind = .intrinsic → Denotes canonical ref (.intrinsic r.detail) []
  | named {ref : Nat} {r : CanonicalTypeRecord} : ref ≠ 0 → canonical[ref]? = some r →
    r.kind = .named → Denotes canonical ref (.named r.childOrHandle) []
  | derived {ref : Nat} {r : CanonicalTypeRecord} {base : TypeBase}
    {modifiers : List (Nat × Nat)} : ref ≠ 0 → canonical[ref]? = some r → r.kind = .derived →
    Denotes canonical r.childOrHandle base modifiers →
    Denotes canonical ref base ((r.detail, r.payload) :: modifiers)

namespace Denotes

variable {canonical : List CanonicalTypeRecord} {ref : Nat} {base base' : TypeBase}
  {modifiers modifiers' : List (Nat × Nat)}

theorem lt_length (h : Denotes canonical ref base modifiers) : ref < canonical.length := by
  cases h <;> exact (List.getElem?_eq_some_iff.mp ‹_›).1

theorem append (h : Denotes canonical ref base modifiers) (more : List CanonicalTypeRecord) :
    Denotes (canonical ++ more) ref base modifiers := by
  have hget : ∀ {i : Nat} {r : CanonicalTypeRecord}, canonical[i]? = some r →
      (canonical ++ more)[i]? = some r := by
    intro i r hi
    rw [List.getElem?_append_left (List.getElem?_eq_some_iff.mp hi).1]
    exact hi
  induction h with
  | intrinsic hne hr hk => exact .intrinsic hne (hget hr) hk
  | named hne hr hk => exact .named hne (hget hr) hk
  | derived hne hr hk _ ih => exact .derived hne (hget hr) hk ih

theorem unique (h : Denotes canonical ref base modifiers)
    (h' : Denotes canonical ref base' modifiers') : base = base' ∧ modifiers = modifiers' := by
  induction h generalizing base' modifiers' with
  | intrinsic hne hr hk =>
    cases h' with
    | intrinsic _ hr' hk' =>
      rw [hr] at hr'
      cases hr'
      exact ⟨rfl, rfl⟩
    | named _ hr' hk' => simp_all
    | derived _ hr' hk' _ => simp_all
  | named hne hr hk =>
    cases h' with
    | intrinsic _ hr' hk' => simp_all
    | named _ hr' hk' =>
      rw [hr] at hr'
      cases hr'
      exact ⟨rfl, rfl⟩
    | derived _ hr' hk' _ => simp_all
  | derived hne hr hk _ ih =>
    cases h' with
    | intrinsic _ hr' hk' => simp_all
    | named _ hr' hk' => simp_all
    | derived _ hr' hk' hrest =>
      rw [hr] at hr'
      cases hr'
      obtain ⟨hb, hm⟩ := ih hrest
      exact ⟨hb, by rw [hm]⟩

end Denotes

def SourceContributionTypeRef.HasBase (type : SourceContributionTypeRef)
    (identities : List IdentityRef) : TypeBase → Prop
  | .intrinsic code => type.identity = .null ∧ code = type.intrinsic.code
  | .named handle => type.identity ≠ .null ∧ handle ≠ 0 ∧
    identities[handle - 1]? = some type.identity

theorem SourceContributionTypeRef.HasBase.mono {type : SourceContributionTypeRef}
    {identities identities' : List IdentityRef} {base : TypeBase} (h : type.HasBase identities base)
    (hmono : ∀ {handle : Nat}, identities[handle - 1]? = some type.identity →
      identities'[handle - 1]? = some type.identity) : type.HasBase identities' base := by
  cases base with
  | intrinsic => exact h
  | named => exact ⟨h.1, h.2.1, hmono h.2.2⟩

def SourceTypeModifier.key (modifier : SourceTypeModifier) : Nat × Nat :=
  ((derivedKind modifier.kind).code, modifier.value)

/-! ## Interned records -/

def intrinsicRecord (code : Nat) : CanonicalTypeRecord := { kind := .intrinsic, detail := code }

def namedRecord (handle : TypeHandle) : CanonicalTypeRecord :=
  { kind := .named, childOrHandle := handle }

def CanonicalTypeRecord.Fits (typeCount position : Nat) (r : CanonicalTypeRecord) : Prop :=
  match r.kind with
  | .intrinsic => ∃ t : IntrinsicType, t ≠ .none ∧ r = intrinsicRecord t.code
  | .named => r = namedRecord r.childOrHandle ∧ r.childOrHandle ≠ 0 ∧ r.childOrHandle ≤ typeCount
  | .derived => r.childOrHandle ≠ 0 ∧ r.childOrHandle < position

variable {r : CanonicalTypeRecord}

theorem CanonicalTypeRecord.Fits.mono {typeCount typeCount' position : Nat}
    (h : r.Fits typeCount position) (hle : typeCount ≤ typeCount') :
    r.Fits typeCount' position := by
  unfold Fits at h ⊢
  cases hk : r.kind <;> simp only [hk] at h ⊢
  · exact h
  · exact ⟨h.1, h.2.1, Nat.le_trans h.2.2 hle⟩
  · exact h

structure Interned (typeCount : Nat) (canonical : List CanonicalTypeRecord) : Prop where
  sentinel : canonical[0]? = some ({} : CanonicalTypeRecord)
  fits : ∀ i r, i ≠ 0 → canonical[i]? = some r → r.Fits typeCount i
  distinct : ∀ i j r, i ≠ 0 → j ≠ 0 → canonical[i]? = some r → canonical[j]? = some r → i = j

namespace Interned

variable {typeCount : Nat} {canonical : List CanonicalTypeRecord}

theorem start (typeCount : Nat) : Interned typeCount [{}] := by
  refine ⟨rfl, ?_, ?_⟩
  · intro i r hi hr
    cases i with
    | zero => exact absurd rfl hi
    | succ i => simp at hr
  · intro i j r hi _ hr _
    cases i with
    | zero => exact absurd rfl hi
    | succ i => simp at hr

theorem mono (h : Interned typeCount canonical) {typeCount' : Nat} (hle : typeCount ≤ typeCount') :
    Interned typeCount' canonical :=
  ⟨h.sentinel, fun i r hi hr => (h.fits i r hi hr).mono hle, h.distinct⟩

theorem length_pos (h : Interned typeCount canonical) : 0 < canonical.length :=
  (List.getElem?_eq_some_iff.mp h.sentinel).1

theorem snoc (h : Interned typeCount canonical) {r : CanonicalTypeRecord}
    (hfits : r.Fits typeCount canonical.length)
    (hnew : ∀ i, i ≠ 0 → canonical[i]? ≠ some r) : Interned typeCount (canonical ++ [r]) := by
  have hget : ∀ i s, (canonical ++ [r])[i]? = some s →
      canonical[i]? = some s ∨ i = canonical.length ∧ s = r := by
    intro i s hi
    rw [List.getElem?_append] at hi
    split at hi
    · exact .inl hi
    · right
      rename_i hlt
      have hzero : i - canonical.length = 0 := by
        by_contra hne
        rw [List.getElem?_eq_none (by simp; omega)] at hi
        cases hi
      rw [hzero] at hi
      simp only [List.getElem?_cons_zero, Option.some.injEq] at hi
      exact ⟨by omega, hi.symm⟩
  refine ⟨?_, ?_, ?_⟩
  · rw [List.getElem?_append_left h.length_pos]
    exact h.sentinel
  · intro i s hi hs
    rcases hget i s hs with hs | ⟨rfl, rfl⟩
    · exact h.fits i s hi hs
    · exact hfits
  · intro i j s hi hj hs hs'
    rcases hget i s hs with hold | ⟨rfl, rfl⟩
    · rcases hget j s hs' with hold' | ⟨rfl, rfl⟩
      · exact h.distinct i j s hi hj hold hold'
      · exact absurd hold (hnew i hi)
    · rcases hget j _ hs' with hs' | ⟨hj', -⟩
      · exact absurd hs' (hnew j hj)
      · exact hj'.symm

theorem denotes_inj (h : Interned typeCount canonical) {ref ref' : Nat} {base base' : TypeBase}
    {modifiers modifiers' : List (Nat × Nat)} (hd : Denotes canonical ref base modifiers)
    (hd' : Denotes canonical ref' base' modifiers') (hbase : base = base')
    (hmods : modifiers = modifiers') : ref = ref' := by
  induction hd generalizing ref' base' modifiers' with
  | @intrinsic ref r hne hr hk =>
    cases hd' with
    | @intrinsic _ r' hne' hr' hk' =>
      have h1 := h.fits ref r hne hr
      have h2 := h.fits ref' r' hne' hr'
      simp only [CanonicalTypeRecord.Fits, hk, hk'] at h1 h2
      obtain ⟨t, -, ht⟩ := h1
      obtain ⟨t', -, ht'⟩ := h2
      have heq : r = r' := by
        have hcode := TypeBase.intrinsic.inj hbase
        rw [ht, ht'] at hcode
        rw [ht, ht', show t.code = t'.code from hcode]
      rw [← heq] at hr'
      exact h.distinct ref ref' r hne hne' hr hr'
    | named => cases hbase
    | derived => cases hmods
  | @named ref r hne hr hk =>
    cases hd' with
    | intrinsic => cases hbase
    | @named _ r' hne' hr' hk' =>
      have h1 := h.fits ref r hne hr
      have h2 := h.fits ref' r' hne' hr'
      simp only [CanonicalTypeRecord.Fits, hk, hk'] at h1 h2
      have heq : r = r' := by rw [h1.1, h2.1, TypeBase.named.inj hbase]
      rw [← heq] at hr'
      exact h.distinct ref ref' r hne hne' hr hr'
    | derived => cases hmods
  | @derived ref r base modifiers hne hr hk _ ih =>
    cases hd' with
    | intrinsic => cases hmods
    | named => cases hmods
    | @derived _ r' _ _ hne' hr' hk' hrest =>
      obtain ⟨hhead, htail⟩ := List.cons.inj hmods
      have hchild := ih hrest hbase htail
      have heq : r = r' := by
        cases r
        cases r'
        simp_all
      rw [← heq] at hr'
      exact h.distinct ref ref' r hne hne' hr hr'

end Interned

/-! ## Reference tables -/

def RefTable (lookup : Nat → Nat) (record : Nat → CanonicalTypeRecord)
    (canonical : List CanonicalTypeRecord) : Prop :=
  ∀ key ref, ref ≠ 0 → (lookup key = ref ↔ canonical[ref]? = some (record key))

namespace RefTable

variable {lookup lookup' : Nat → Nat} {record : Nat → CanonicalTypeRecord}
  {canonical : List CanonicalTypeRecord}

theorem start (h : ∀ key, lookup key = 0) : RefTable lookup record [{}] := by
  intro key ref hne
  rw [h key]
  constructor
  · intro h0
    exact absurd h0.symm hne
  · intro hr
    cases ref with
    | zero => exact absurd rfl hne
    | succ ref => simp at hr

variable {r : CanonicalTypeRecord}

theorem get_snoc {s : CanonicalTypeRecord} {ref : Nat} (hne : s ≠ r) :
    (canonical ++ [r])[ref]? = some s ↔ canonical[ref]? = some s := by
  rw [List.getElem?_append]
  split
  · rfl
  · rename_i hlt
    rw [List.getElem?_eq_none (Nat.le_of_not_lt hlt)]
    cases hi : ref - canonical.length with
    | zero => simp [Ne.symm hne]
    | succ i => simp

theorem snoc_other (h : RefTable lookup record canonical) (hr : ∀ key, record key ≠ r) :
    RefTable lookup record (canonical ++ [r]) := by
  intro key ref hne
  rw [get_snoc (hr key)]
  exact h key ref hne

theorem snoc_self (h : RefTable lookup record canonical) {key : Nat} 
    (hinj : ∀ other, record other = record key → other = key) (hnone : lookup key = 0)
    (hself : lookup' key = canonical.length) (hother : ∀ other, other ≠ key →
      lookup' other = lookup other) : RefTable lookup' record (canonical ++ [record key]) := by
  intro other ref hne
  by_cases ho : other = key
  · subst ho
    rw [hself, List.getElem?_append]
    split
    · rename_i hlt
      have hnot := (not_congr (h other ref hne)).mp (by rw [hnone]; exact Ne.symm hne)
      constructor
      · intro heq
        omega
      · intro hget
        exact absurd hget hnot
    · rename_i hlt
      cases hi : ref - canonical.length with
      | zero =>
        simp only [List.getElem?_cons_zero, iff_true]
        omega
      | succ i =>
        simp only [List.getElem?_cons_succ, List.getElem?_nil, reduceCtorEq, iff_false]
        omega
  · rw [hother other ho, get_snoc fun heq => ho (hinj other heq)]
    exact h other ref hne

theorem absent (h : RefTable lookup record canonical) {key : Nat} (hnone : lookup key = 0) {i : Nat}
    (hi : i ≠ 0) : canonical[i]? ≠ some (record key) := by
  intro hget
  have := (h key i hi).mpr hget
  omega

end RefTable

variable {a b : Nat}

theorem intrinsicRecord_inj (h : intrinsicRecord a = intrinsicRecord b) : a = b :=
  congrArg CanonicalTypeRecord.detail h

theorem namedRecord_inj (h : namedRecord a = namedRecord b) : a = b :=
  congrArg CanonicalTypeRecord.childOrHandle h

/-- The derived records with their references, the first record being at `start`. -/
def derivedEntries (records : List CanonicalTypeRecord) (start : Nat) :
    List (CanonicalTypeRecord × Nat) :=
  (records.zipIdx start).filter (·.1.kind == .derived)

variable {records : List CanonicalTypeRecord} {start : Nat}

theorem mem_derivedEntries {ref : Nat} : (r, ref) ∈ derivedEntries records start ↔
      r.kind = .derived ∧ start ≤ ref ∧ records[ref - start]? = some r := by
  rw [derivedEntries, List.mem_filter, List.mk_mem_zipIdx_iff_le_and_getElem?_sub]
  simp only [beq_iff_eq]
  tauto

theorem derivedEntries_append (a b : List CanonicalTypeRecord) (start : Nat) :
    derivedEntries (a ++ b) start = derivedEntries a start ++ derivedEntries b (start + a.length) := by
  simp only [derivedEntries, List.zipIdx_append, List.filter_append]

theorem derivedEntries_snoc_derived (h : r.kind = .derived) :
    derivedEntries (records ++ [r]) start =
      derivedEntries records start ++ [(r, start + records.length)] := by
  rw [derivedEntries_append]
  simp [derivedEntries, h]

theorem derivedEntries_snoc_other (h : r.kind ≠ .derived) :
    derivedEntries (records ++ [r]) start = derivedEntries records start := by
  rw [derivedEntries_append]
  simp [derivedEntries, h]

theorem Interned.derivedKeys {typeCount : Nat} {canonical : List CanonicalTypeRecord}
    (h : Interned typeCount canonical) :
    ((derivedEntries canonical 0).map Prod.fst).Nodup := by
  have hnodup : (derivedEntries canonical 0).Nodup :=
    (List.Nodup.of_map Prod.snd (by
      rw [List.zipIdx_map_snd]
      exact List.nodup_range')).filter _
  refine hnodup.map_on ?_
  rintro ⟨r, i⟩ hi ⟨s, j⟩ hj heq
  obtain ⟨hk, -, hr⟩ := mem_derivedEntries.mp hi
  obtain ⟨-, -, hs⟩ := mem_derivedEntries.mp hj
  obtain rfl : r = s := heq
  have hne : ∀ {n : Nat}, canonical[n]? = some r → n ≠ 0 := by
    rintro n hn rfl
    rw [h.sentinel] at hn
    cases hn
    cases hk
  rw [Nat.sub_zero] at hr hs
  rw [h.distinct i j r (hne hr) (hne hs) hr hs]

end ServerEngine
