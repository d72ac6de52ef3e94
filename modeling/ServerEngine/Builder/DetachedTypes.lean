import ServerEngine.Builder.SparsePublication

/-! # Types of a detached Graph

The declarations of a full build give every identity one slot and one kind, and the type table
interns the expressions of all members and objects.
-/
namespace ServerEngine
open Slice ErrorFold

namespace FullBuild

/-! ## The type table -/

namespace TypeTable

/-- The records of the table are interned, and its tables are exact. -/
structure Exact (t : TypeTable) (typeCount : Nat) : Prop where
  records : Interned typeCount t.canonicalTypes
  intrinsic : RefTable (t.intrinsicRefs.getD · 0) intrinsicRecord t.canonicalTypes
  named : RefTable (t.namedRefs.getD · 0) namedRecord t.canonicalTypes
  namedSlots : t.namedRefs.length = typeCount + 1
  derived : IndexSlots.Table CanonicalTypeRecord.derivedHash t.derivedIndex
    (derivedEntries t.canonicalTypes 0)
  derivedCount : t.derivedCount = (derivedEntries t.canonicalTypes 0).length

structure Grows (t t' : TypeTable) (modifiers : Nat) : Prop where
  records : ∃ added, t'.canonicalTypes = t.canonicalTypes ++ added
  derivedCount : t'.derivedCount ≤ t.derivedCount + modifiers
  slots : t'.derivedIndex.length = t.derivedIndex.length

section Steps
variable {typeCount : Nat} {t t' t'' : TypeTable} {ref : Nat}

theorem Grows.refl (t : TypeTable) : Grows t t 0 := ⟨⟨[], by simp⟩, Nat.le_refl _, rfl⟩

theorem Grows.trans {m n : Nat} (h : Grows t t' m) (h' : Grows t' t'' n) : Grows t t'' (m + n) := by
  obtain ⟨r, hr⟩ := h.records
  obtain ⟨s, hs⟩ := h'.records
  refine ⟨⟨r ++ s, by rw [hs, hr, List.append_assoc]⟩, ?_, h'.slots.trans h.slots⟩
  have h1 := h.derivedCount
  have h2 := h'.derivedCount
  omega

theorem Grows.denotes {m ref : Nat} {base : TypeBase} {modifiers : List (Nat × Nat)}
    (h : Grows t t' m) (hd : Denotes t.canonicalTypes ref base modifiers) :
    Denotes t'.canonicalTypes ref base modifiers := by
  obtain ⟨added, hadded⟩ := h.records
  rw [hadded]
  exact hd.append added

theorem appendCanonical_ok {record : CanonicalTypeRecord}
    (h : t.appendCanonical record = .ok (t', ref)) : ref = t.canonicalTypes.length ∧
      t' = { t with canonicalTypes := t.canonicalTypes ++ [record] } := by
  unfold appendCanonical at h
  split at h
  · cases h
  · cases h
    exact ⟨rfl, rfl⟩

theorem getIntrinsic_spec (ht : t.Exact typeCount) {value : IntrinsicType}
    (h : t.getIntrinsic value = .ok (t', ref)) : t'.Exact typeCount ∧ Grows t t' 0 ∧ ref ≠ 0 ∧
      t'.canonicalTypes[ref]? = some (intrinsicRecord value.code) := by
  unfold getIntrinsic at h
  split at h
  · cases h
  rename_i hguard
  simp only [Bool.or_eq_true, decide_eq_true_eq, not_or, Nat.not_le, ge_iff_le] at hguard
  split at h
  · rename_i hne
    cases h
    exact ⟨ht, .refl _, hne, (ht.intrinsic _ _ hne).mp rfl⟩
  · rename_i hzero
    rw [ne_eq, not_not] at hzero
    obtain ⟨⟨t₁, ref₁⟩, happ, h⟩ := bind_ok.mp h
    obtain ⟨rfl, rfl⟩ := appendCanonical_ok happ
    cases h
    have hpos := ht.records.length_pos
    refine ⟨⟨?_, ?_, ?_, ht.namedSlots, ?_, ?_⟩, ⟨⟨_, rfl⟩, Nat.le_refl _, rfl⟩, by omega,
      List.getElem?_concat_length⟩
    · refine ht.records.snoc ⟨value, hguard.1, rfl⟩ ?_
      intro i hi
      exact ht.intrinsic.absent hzero hi
    · refine RefTable.snoc_self ht.intrinsic (fun other ho => intrinsicRecord_inj ho) hzero ?_ ?_
      · rw [getD_set, if_pos ⟨rfl, hguard.2⟩]
      · intro other ho
        rw [getD_set, if_neg]
        rintro ⟨rfl, -⟩
        exact ho rfl
    · refine RefTable.snoc_other ht.named ?_
      intro key heq
      cases heq
    · dsimp only
      rw [derivedEntries_snoc_other (by simp)]
      exact ht.derived
    · dsimp only
      rw [derivedEntries_snoc_other (by simp)]
      exact ht.derivedCount

theorem getNamed_spec (ht : t.Exact typeCount) {handle : Nat}
    (h : t.getNamed handle = .ok (t', ref)) : t'.Exact typeCount ∧ Grows t t' 0 ∧ ref ≠ 0 ∧
      t'.canonicalTypes[ref]? = some (namedRecord handle) := by
  unfold getNamed at h
  split at h
  · cases h
  rename_i hguard
  simp only [Bool.or_eq_true, decide_eq_true_eq, not_or, Nat.not_le, ge_iff_le] at hguard
  split at h
  · rename_i hne
    cases h
    exact ⟨ht, .refl _, hne, (ht.named _ _ hne).mp rfl⟩
  · rename_i hzero
    rw [ne_eq, not_not] at hzero
    obtain ⟨⟨t₁, ref₁⟩, happ, h⟩ := bind_ok.mp h
    obtain ⟨rfl, rfl⟩ := appendCanonical_ok happ
    cases h
    have hpos := ht.records.length_pos
    have hslots := ht.namedSlots
    have hlt : handle < t.namedRefs.length := hguard.2
    refine ⟨⟨?_, ?_, ?_, ?_, ?_, ?_⟩, ⟨⟨_, rfl⟩, Nat.le_refl _, rfl⟩, by omega,
      List.getElem?_concat_length⟩
    · refine ht.records.snoc ⟨rfl, hguard.1, ?_⟩ ?_
      · show handle ≤ typeCount
        omega
      · intro i hi
        exact ht.named.absent hzero hi
    · refine RefTable.snoc_other ht.intrinsic ?_
      intro key heq
      cases heq
    · refine RefTable.snoc_self ht.named (fun other ho => namedRecord_inj ho) hzero ?_ ?_
      · rw [getD_set, if_pos ⟨rfl, hlt⟩]
      · intro other ho
        rw [getD_set, if_neg]
        rintro ⟨rfl, -⟩
        exact ho rfl
    · rw [← ht.namedSlots]
      exact List.length_set
    · dsimp only
      rw [derivedEntries_snoc_other (by simp)]
      exact ht.derived
    · dsimp only
      rw [derivedEntries_snoc_other (by simp)]
      exact ht.derivedCount

theorem getDerived_spec (ht : t.Exact typeCount) {modifier : SourceTypeModifier} {child : Nat}
    (hchild : child < t.canonicalTypes.length) (h : t.getDerived modifier child = .ok (t', ref)) :
    t'.Exact typeCount ∧ Grows t t' 1 ∧ ref ≠ 0 ∧
      t'.canonicalTypes[ref]? = some (derivedRecord modifier child) := by
  unfold getDerived at h
  split at h
  · cases h
  rename_i hguard
  simp only [Bool.or_eq_true, decide_eq_true_eq, not_or] at hguard
  have hne : child ≠ 0 := hguard.1
  have hc : IndexSlots.Compares (fun ref => t.canonicalTypes[ref]? ==
      some (derivedRecord modifier child)) (derivedEntries t.canonicalTypes 0)
      (derivedRecord modifier child) := by
    intro e hmem
    obtain ⟨-, -, hget⟩ := mem_derivedEntries.mp hmem
    rw [Nat.sub_zero] at hget
    simp [hget]
  dsimp only at h
  split at h
  · cases h
  rename_i pos hp
  split at h
  · rename_i hocc
    cases h
    obtain ⟨-, -, hget⟩ := mem_derivedEntries.mp (ht.derived.entry_of_probe hc hp hocc)
    exact ⟨ht, ⟨⟨[], by simp⟩, Nat.le_succ _, rfl⟩, hocc, hget⟩
  · rename_i hfree
    rw [ne_eq, not_not] at hfree
    obtain ⟨⟨t₁, ref₁⟩, happ, h⟩ := bind_ok.mp h
    obtain ⟨rfl, rfl⟩ := appendCanonical_ok happ
    cases h
    have hpos := ht.records.length_pos
    have hnew := ht.derived.not_mem_of_free hc hp hfree
    refine ⟨⟨?_, ?_, ?_, ht.namedSlots, ?_, ?_⟩, ⟨⟨_, rfl⟩, Nat.le_refl _, List.length_set⟩,
      by omega, List.getElem?_concat_length⟩
    · refine ht.records.snoc ⟨hne, hchild⟩ ?_
      intro i _ hget
      exact hnew i (mem_derivedEntries.mpr ⟨rfl, Nat.zero_le _, hget⟩)
    · refine RefTable.snoc_other ht.intrinsic ?_
      intro key heq
      cases congrArg CanonicalTypeRecord.kind heq
    · refine RefTable.snoc_other ht.named ?_
      intro key heq
      cases congrArg CanonicalTypeRecord.kind heq
    · dsimp only
      rw [derivedEntries_snoc_derived (Candidate.derivedRecord_kind modifier child), Nat.zero_add]
      have hplace := @IndexSlots.Table.place _ CanonicalTypeRecord.derivedHash _ _ _ _
        t.canonicalTypes.length _ ht.derived hp hfree (by omega)
      exact hplace
    · dsimp only
      rw [derivedEntries_snoc_derived (Candidate.derivedRecord_kind modifier child), List.length_append,
        ht.derivedCount]
      rfl

theorem foldModifiers_spec {modifiers : List SourceTypeModifier} {base : TypeBase}
    {done : List (Nat × Nat)} {start : Nat} (ht : t.Exact typeCount)
    (hd : Denotes t.canonicalTypes start base done)
    (h : modifiers.foldlM (fun (state : TypeTable × TypeRef) modifier =>
      state.1.getDerived modifier state.2) (t, start) = .ok (t', ref)) : t'.Exact typeCount ∧
      Grows t t' modifiers.length ∧
      Denotes t'.canonicalTypes ref base ((modifiers.map (·.key)).reverse ++ done) := by
  induction modifiers generalizing t start done with
  | nil =>
    cases h
    exact ⟨ht, .refl _, hd⟩
  | cons modifier rest ih =>
    obtain ⟨⟨t₁, ref₁⟩, hstep, hrest⟩ := foldlM_cons_ok.mp h
    obtain ⟨ht₁, hgrow₁, href₁, hrecord⟩ := getDerived_spec ht hd.lt_length hstep
    have hd₁ : Denotes t₁.canonicalTypes ref₁ base (modifier.key :: done) :=
      .derived href₁ hrecord rfl (hgrow₁.denotes hd)
    obtain ⟨ht', hgrow, hd'⟩ := ih ht₁ hd₁ hrest
    refine ⟨ht', ?_, ?_⟩
    · rw [List.length_cons, Nat.add_comm]
      exact hgrow₁.trans hgrow
    · rw [List.map_cons, List.reverse_cons, List.append_assoc]
      exact hd'

def baseOf (type : SourceContributionTypeRef) (base : Nat) : TypeBase :=
  if type.identity ≠ .null then .named base else .intrinsic type.intrinsic.code

theorem materializeType_spec (ht : t.Exact typeCount) {storage : Storage}
    {type : SourceContributionTypeRef} {base : Nat}
    (h : t.materializeType storage type base = .ok (t', ref)) : t'.Exact typeCount ∧
      Grows t t' type.modifiers.count ∧ ∃ modifiers,
        Denotes t'.canonicalTypes ref (baseOf type base) modifiers := by
  have hstart : ∀ {t₁ : TypeTable} {start : Nat},
      (if type.identity ≠ .null then t.getNamed base else t.getIntrinsic type.intrinsic) =
        .ok (t₁, start) → t₁.Exact typeCount ∧ Grows t t₁ 0 ∧
          Denotes t₁.canonicalTypes start (baseOf type base) [] := by
    intro t₁ start hs
    unfold baseOf
    split at hs
    · rename_i hne
      obtain ⟨ht₁, hgrow, href, hrecord⟩ := getNamed_spec ht hs
      rw [if_pos hne]
      exact ⟨ht₁, hgrow, .named href hrecord rfl⟩
    · rename_i hne
      obtain ⟨ht₁, hgrow, href, hrecord⟩ := getIntrinsic_spec ht hs
      rw [if_neg hne]
      exact ⟨ht₁, hgrow, .intrinsic href hrecord rfl⟩
  have hrest : ∀ {t₁ : TypeTable} {start : Nat}, t₁.Exact typeCount → Grows t t₁ 0 →
      Denotes t₁.canonicalTypes start (baseOf type base) [] →
      (if type.modifiers.begin > storage.arenas.modifiers.length ||
          type.modifiers.count > storage.arenas.modifiers.length - type.modifiers.begin then
        BuildM.fail .invalidArgument
      else (slice storage.arenas.modifiers type.modifiers.begin type.modifiers.count).foldlM
        (fun (state : TypeTable × TypeRef) modifier => state.1.getDerived modifier state.2)
        (t₁, start)) = .ok (t', ref) →
      t'.Exact typeCount ∧ Grows t t' type.modifiers.count ∧ ∃ modifiers,
        Denotes t'.canonicalTypes ref (baseOf type base) modifiers := by
    intro t₁ start ht₁ hgrow₁ hd hs
    split at hs
    · cases hs
    rename_i hfits
    simp only [Bool.or_eq_true, decide_eq_true_eq, not_or, Nat.not_lt, gt_iff_lt] at hfits
    obtain ⟨ht', hgrow, hd'⟩ := foldModifiers_spec ht₁ hd hs
    rw [slice_length (by omega)] at hgrow
    have hall := hgrow₁.trans hgrow
    rw [Nat.zero_add] at hall
    exact ⟨ht', hall, _, hd'⟩
  unfold materializeType at h
  dsimp only at h
  by_cases hne : type.identity ≠ .null
  · rw [if_pos hne] at h
    obtain ⟨⟨t₁, start⟩, hs, h⟩ := bind_ok.mp h
    obtain ⟨ht₁, hgrow₁, hd⟩ := hstart (by rw [if_pos hne]; exact hs)
    exact hrest ht₁ hgrow₁ hd h
  · rw [if_neg hne] at h
    obtain ⟨⟨t₁, start⟩, hs, h⟩ := bind_ok.mp h
    obtain ⟨ht₁, hgrow₁, hd⟩ := hstart (by rw [if_neg hne]; exact hs)
    exact hrest ht₁ hgrow₁ hd h

end Steps

end TypeTable

/-! ## Declarations -/

def entryShape (e : TypeEntry) : GraphTypeKind × Bool := (e.kind, e.enumScoped)

/-- A declaration has the kind of the entry, and an enumeration its scoping. -/
def Agrees (t : SourceContributionType) (e : TypeEntry) : Prop :=
  match t.kind with
  | .record => e.kind = .record
  | .enumeration => e.kind = .enumeration ∧ e.enumScoped = t.enumScoped

theorem Agrees.congr {t : SourceContributionType} {e e' : TypeEntry} (h : Agrees t e)
    (hshape : entryShape e' = entryShape e) : Agrees t e' := by
  obtain ⟨hkind, hscoped⟩ := Prod.mk.inj hshape
  unfold Agrees at h ⊢
  rw [hkind, hscoped]
  exact h

/-- After some declarations: one slot for each identity, undefined so far, and the handle of every
declaration seen names its slot. -/
structure Declared (types : List SourceContributionType) (d : Declarations) : Prop where
  slots : d.types.length = d.identities.length
  nodup : d.identities.Nodup
  valid : ∀ i ∈ d.identities, i.valid = true
  entries : ∀ e ∈ d.types, e.live = true ∧ e.definition = {}
  states : ∀ s ∈ d.construction, s.Names types
  handlesLength : d.declarationHandles.length = types.length
  handles : ∀ i h : Nat, d.declarationHandles[i]? = some h → h ≠ 0 → ∃ t e,
    types[i]? = some t ∧ d.identities[h - 1]? = some t.identity ∧ d.types[h - 1]? = some e ∧
      Agrees t e

section Declare
variable {types : List SourceContributionType} {capacity : Nat} {d d' : Declarations}
  {item : SourceContributionType × Nat}

theorem firstEntry_spec (t : SourceContributionType) : (firstEntry t).live = true ∧
    (firstEntry t).definition = {} ∧ Agrees t (firstEntry t) := by
  unfold firstEntry Agrees
  cases hk : t.kind with
  | record => exact ⟨rfl, rfl, rfl⟩
  | enumeration => exact ⟨rfl, rfl, rfl, rfl⟩

theorem redeclare_spec {entry entry' : TypeEntry} {t : SourceContributionType}
    (h : redeclare entry t = .ok entry') : entry'.live = entry.live ∧
      entry'.definition = entry.definition ∧ entryShape entry' = entryShape entry ∧ Agrees t entry := by
  unfold redeclare at h
  split at h
  · cases h
  rename_i hkind
  cases hentry : entry.kind with
  | record =>
    have ht : t.kind = .record := by
      cases hk : t.kind <;> simp_all
    have hagrees : Agrees t entry := by
      rw [Agrees, ht]
      exact hentry
    rw [hentry] at h
    dsimp only at h
    split at h
    · cases h
    · cases h
      split
      · exact ⟨rfl, rfl, by simp [entryShape, hentry], hagrees⟩
      · exact ⟨rfl, rfl, rfl, hagrees⟩
  | enumeration =>
    have ht : t.kind = .enumeration := by
      cases hk : t.kind <;> simp_all
    rw [hentry] at h
    dsimp only at h
    split at h
    · cases h
    rename_i hscoped
    have hagrees : Agrees t entry := by
      rw [Agrees, ht]
      exact ⟨hentry, by simpa using hscoped⟩
    split at h
    · cases h
      exact ⟨rfl, rfl, rfl, hagrees⟩
    split at h
    · cases h
    · cases h
      exact ⟨rfl, rfl, by simp [entryShape, hentry], hagrees⟩

theorem insertOrFind_spec {identities : List IdentityRef} {identity : IdentityRef} {handle : Nat}
    {inserted : Bool} (h : insertOrFind capacity identities identity = .ok (handle, inserted)) :
    handle ≠ 0 ∧ if inserted then handle = identities.length + 1 ∧ identity ∉ identities
      else identities[handle - 1]? = some identity := by
  unfold insertOrFind at h
  split at h
  · cases h
  split at h
  · rename_i position hidx
    cases h
    obtain ⟨hlt, heq, -⟩ := List.findIdx?_eq_some_iff_getElem.mp hidx
    refine ⟨by omega, ?_⟩
    rw [if_neg (by simp), Nat.add_sub_cancel, List.getElem?_eq_getElem hlt]
    simpa using heq
  · rename_i hidx
    split at h
    · cases h
    cases h
    refine ⟨by omega, ?_⟩
    rw [if_pos rfl]
    refine ⟨rfl, ?_⟩
    rw [List.idxOf?, List.findIdx?_eq_none_iff] at hidx
    intro hmem
    simpa using hidx identity hmem

theorem declare_spec (hd : Declared types d) (hget : types[item.2]? = some item.1)
    (hvalid : item.1.identity.valid = true) (h : declare capacity d item = .ok d') :
    Declared types d' ∧ d'.declarationHandles.getD item.2 0 ≠ 0 ∧
      ∀ i, d.declarationHandles.getD i 0 ≠ 0 → d'.declarationHandles.getD i 0 ≠ 0 := by
  obtain ⟨⟨handle, inserted⟩, hfind, h⟩ := bind_ok.mp h
  obtain ⟨hne, hcase⟩ := insertOrFind_spec hfind
  obtain ⟨state, hstate, h⟩ := bind_ok.mp h
  have hlt := (List.getElem?_eq_some_iff.mp hget).1
  have hnames : state.Names types := by
    refine @SourceConstructionState.addConstruction_names _ _ _ _ (item.2 + 1) ?_ hget
      (BuildM.lift_ok.mp hstate)
    rw [List.getD_eq_getElem?_getD]
    cases hold : d.construction[handle]? with
    | none => exact SourceConstructionState.names_empty types
    | some s => exact hd.states s (List.mem_of_getElem? hold)
  have hstates : ∀ s ∈ d.construction.set handle state, s.Names types := by
    intro s hs
    rcases List.mem_or_eq_of_mem_set hs with hs | rfl
    · exact hd.states s hs
    · exact hnames
  have hslots := hd.slots
  have hself : (d.declarationHandles.set item.2 handle).getD item.2 0 ≠ 0 := by
    rw [getD_set, if_pos ⟨rfl, by rw [hd.handlesLength]; exact hlt⟩]
    exact hne
  have hothers : ∀ i, d.declarationHandles.getD i 0 ≠ 0 →
      (d.declarationHandles.set item.2 handle).getD i 0 ≠ 0 := by
    intro i hi
    rw [getD_set]
    split
    · exact hne
    · exact hi
  have hsplit : ∀ i h' : Nat, (d.declarationHandles.set item.2 handle)[i]? = some h' →
      (i = item.2 ∧ h' = handle) ∨ d.declarationHandles[i]? = some h' := by
    intro i h' hi
    by_cases hii : item.2 = i
    · subst hii
      rw [List.getElem?_set_self (by rw [hd.handlesLength]; exact hlt)] at hi
      exact .inl ⟨rfl, (Option.some.inj hi).symm⟩
    · rw [List.getElem?_set_ne hii] at hi
      exact .inr hi
  dsimp only at h
  split at h
  · rename_i hins
    rw [if_pos hins] at hcase
    obtain ⟨hhandle, hnew⟩ := hcase
    cases h
    obtain ⟨hlive, hdefinition, hkind⟩ := firstEntry_spec item.1
    refine ⟨⟨?_, ?_, ?_, ?_, hstates, ?_, ?_⟩, hself, hothers⟩
    · simp [hslots]
    · rw [List.nodup_append]
      refine ⟨hd.nodup, by simp, ?_⟩
      intro a ha b hb heq
      rw [List.mem_singleton] at hb
      exact hnew (by rw [← hb, ← heq]; exact ha)
    · intro i hi
      rcases List.mem_append.mp hi with hi | hi
      · exact hd.valid i hi
      · rw [List.mem_singleton] at hi
        rw [hi]
        exact hvalid
    · intro e he
      rcases List.mem_append.mp he with he | he
      · exact hd.entries e he
      · rw [List.mem_singleton] at he
        rw [he]
        exact ⟨hlive, hdefinition⟩
    · rw [List.length_set, hd.handlesLength]
    · intro i h' hi hne'
      rcases hsplit i h' hi with ⟨rfl, rfl⟩ | hold
      · refine ⟨item.1, firstEntry item.1, hget, ?_, ?_, hkind⟩
        · rw [hhandle, Nat.add_sub_cancel, List.getElem?_concat_length]
        · rw [hhandle, Nat.add_sub_cancel, ← hslots, List.getElem?_concat_length]
      · obtain ⟨t, e, ht, hid, he, hk⟩ := hd.handles i h' hold hne'
        refine ⟨t, e, ht, ?_, ?_, hk⟩
        · rw [List.getElem?_append_left (List.getElem?_eq_some_iff.mp hid).1, hid]
        · rw [List.getElem?_append_left (List.getElem?_eq_some_iff.mp he).1, he]
  · rename_i hins
    rw [if_neg hins] at hcase
    obtain ⟨entry, hentry, h⟩ := bind_ok.mp h
    cases h
    have hpos := (List.getElem?_eq_some_iff.mp hcase).1
    have hat : d.types[handle - 1]? = some (d.types.getD (handle - 1) default) := by
      rw [List.getD_eq_getElem _ _ (by omega)]
      exact List.getElem?_eq_getElem (by omega)
    obtain ⟨hlive, hdefinition, hkind, hsame⟩ := redeclare_spec hentry
    obtain ⟨holdLive, holdDefinition⟩ := hd.entries _ (List.mem_of_getElem? hat)
    have hkinds : ∀ (j : Nat) (e : TypeEntry), d.types[j]? = some e →
        ∃ e', (d.types.set (handle - 1) entry)[j]? = some e' ∧ entryShape e' = entryShape e := by
      intro j e hj
      by_cases hj' : handle - 1 = j
      · subst hj'
        rw [hat] at hj
        cases hj
        exact ⟨entry, List.getElem?_set_self (by omega), hkind⟩
      · exact ⟨e, by rw [List.getElem?_set_ne hj', hj], rfl⟩
    refine ⟨⟨?_, hd.nodup, hd.valid, ?_, hstates, ?_, ?_⟩, hself, hothers⟩
    · simp [hslots]
    · intro e he
      rcases List.mem_or_eq_of_mem_set he with he | rfl
      · exact hd.entries e he
      · exact ⟨hlive.trans holdLive, hdefinition.trans holdDefinition⟩
    · rw [List.length_set, hd.handlesLength]
    · intro i h' hi hne'
      rcases hsplit i h' hi with ⟨rfl, rfl⟩ | hold
      · obtain ⟨e', he', hk'⟩ := hkinds (h' - 1) _ hat
        exact ⟨item.1, e', hget, hcase, he', hsame.congr hk'⟩
      · obtain ⟨t, e, ht, hid, he, hk⟩ := hd.handles i h' hold hne'
        obtain ⟨e', he', hk'⟩ := hkinds (h' - 1) e he
        exact ⟨t, e', ht, hid, he', hk.congr hk'⟩

end Declare

end FullBuild

end ServerEngine
