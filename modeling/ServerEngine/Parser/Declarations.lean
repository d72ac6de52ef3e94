import ServerEngine.Frontend.PersistedInterface
import ServerEngine.Parser.BuildPaths

/-! # What an interface declares

However a source interface came to be, from parsed facts or from the build cache image, a lookup in
one of its tables answers exactly what its source declares.
-/
namespace ServerEngine
open ProbedTable Slice ErrorFold

namespace SourceInterface

/-! ## Filled tables -/

section Filled
variable {S κ : Type} [DecidableEq κ] {f : Format S κ} {valid : S → Bool} {declared : S → Prop}

structure Filled (f : Format S κ) (valid : S → Bool) (declared : S → Prop)
    (table : BindingTable S) : Prop where
  slots : Table f table.slots table.inserted
  entries : ∀ e, e ∈ table.inserted ↔ declared e
  checked : ∀ e ∈ table.inserted, valid e = true

structure Answers (f : Format S κ) (valid : S → Bool) (slots : List S)
    (declared : S → Prop) : Prop where
  find : ∀ k e, find f slots k = some e ↔ declared e ∧ f.key e = k
  checked : ∀ e, declared e → valid e = true

omit [DecidableEq κ] in
theorem Filled.congr {declared' : S → Prop} {table : BindingTable S}
    (h : Filled f valid declared table) (hiff : ∀ e, declared e ↔ declared' e) :
    Filled f valid declared' table :=
  ⟨h.slots, fun e => (h.entries e).trans (hiff e), h.checked⟩

variable {table : BindingTable S}

theorem Filled.answers (h : Filled f valid declared table) :
    Answers f valid table.slots declared := by
  refine ⟨?_, fun e he => h.checked e ((h.entries e).mpr he)⟩
  intro k e
  rw [h.slots.find_eq, h.entries]

theorem answers_nothing (hfree : f.free f.empty = true) (hnone : ∀ e, ¬ declared e) :
    Answers f valid [] declared := by
  refine ⟨?_, fun e he => absurd he (hnone e)⟩
  intro k e
  have hfind : ProbedTable.find f [] k = none := find_replicate hfree 0 k
  constructor
  · intro h
    cases h
  · intro h
    exact absurd h.1 (hnone e)

omit [DecidableEq κ] in
theorem filled_fresh (hfree : f.free f.empty = true) {count : Nat} (h : capacityFor count ≠ 0)
    (hnone : ∀ e, ¬ declared e) :
    Filled f valid declared ⟨List.replicate (capacityFor count) f.empty, []⟩ := by
  obtain ⟨htable, -⟩ := @table_fresh _ _ f hfree _ h
  refine ⟨htable, ?_, by simp⟩
  intro e
  simp [hnone e]

variable {table' : BindingTable S}

theorem Filled.bind {agrees : S → S → Bool} {value : S} (h : Filled f valid declared table)
    (hfree : f.free value = false) (hvalid : valid value = true)
    (hagrees : ∀ slot, f.key slot = f.key value → agrees slot value = true → slot = value)
    (hok : bind f agrees table value = .ok table') :
    Filled f valid (fun e => declared e ∨ e = value) table' := by
  unfold SourceInterface.bind at hok
  cases hprobe : probe f table.slots (f.key value) with
  | none =>
    rw [hprobe] at hok
    cases hok
  | some pos =>
    rw [hprobe] at hok
    dsimp only at hok
    split at hok
    · rename_i hslot
      cases hok
      refine ⟨h.slots.place hprobe hslot hfree, ?_, ?_⟩
      · intro e
        rw [List.mem_append, List.mem_singleton, h.entries]
      · intro e he
        rcases List.mem_append.mp he with he | he
        · exact h.checked e he
        · rw [List.mem_singleton.mp he]
          exact hvalid
    · rename_i hslot
      obtain ⟨hmem, hkey⟩ := h.slots.entry_of_occupied hprobe (by simpa using hslot)
      split at hok
      · rename_i hsame
        cases hok
        have hvalue := hagrees _ hkey hsame
        apply h.congr
        intro e
        constructor
        · exact .inl
        · intro he
          rcases he with he | rfl
          · exact he
          · exact (h.entries _).mp (hvalue ▸ hmem)
      · cases hok

omit [DecidableEq κ] in
theorem Filled.loop {α : Type} {step : BindingTable S → α → Except InterfaceStop (BindingTable S)}
    {items : List α} {value : α → S → Prop} (h : Filled f valid declared table)
    (hstep : ∀ x ∈ items, ∀ declared table table', Filled f valid declared table → step table x = .ok table' → Filled f valid (fun e => declared e ∨ value x e) table')
    (hok : items.foldlM step table = .ok table') :
    Filled f valid (fun e => declared e ∨ ∃ x ∈ items, value x e) table' := by
  refine foldlM_ok_rec (fun pre table =>
    Filled f valid (fun e => declared e ∨ ∃ x ∈ pre, value x e) table) hok ?_ ?_
  · apply h.congr
    intro e
    simp
  · intro pre x u v hx hu hv
    apply (hstep x hx _ u v hu hv).congr
    intro e
    simp only [List.mem_append, List.mem_singleton]
    constructor
    · intro he
      rcases he with (he | ⟨y, hy, he⟩) | he
      · exact .inl he
      · exact .inr ⟨y, .inl hy, he⟩
      · exact .inr ⟨x, .inr rfl, he⟩
    · intro he
      rcases he with he | ⟨y, hy | rfl, he⟩
      · exact .inl (.inl he)
      · exact .inl (.inr ⟨y, hy, he⟩)
      · exact .inr he

end Filled

/-- Where an interface comes from: parsed facts, in tables of its own or in the runtime store, or the
build cache image. -/
inductive Origin
  | parsed (facts : SourceFacts) (view : IdentityView) (retainCompactPersistence : Bool)
  | parsedExternal (facts : SourceFacts) (view : IdentityView)
  | persisted (cache : BuildCacheImage) (source : Nat)

def objectSlot (view : IdentityView) (object : SourceObjectFact) : InterfaceObjectSlot :=
  ⟨view.parent object.identity, view.name object.identity, object.identity,
    if object.type.identity.valid && object.type.modifiers.count = 0 then object.type.identity
    else .null⟩

def IsMember (facts : SourceFacts) (item : SourceRecordFact) (slot : InterfaceMemberSlot) : Prop :=
  item.declarationKind = .definition ∧ ∃ member index,
    (slice facts.members item.members.begin item.members.count)[index]? = some member ∧
      slot = ⟨item.identity, member.name, index⟩

def IsPersisted {S : Type} (cache : BuildCacheImage) (source : Nat)
    (count : PersistenceCounts → Nat) (read : Nat → Except StatusCode S) (slot : S) : Prop :=
  ∃ record, cache.source source = .ok record ∧ ∃ index < count record.counts, read index = .ok slot

namespace Origin

def initializeTables (imports : List (Option Nat)) (allocated : Bool) :
    Origin → Except InterfaceStop SourceInterface
  | .parsed facts view retain => initializeInterface facts view imports retain
  | .parsedExternal facts view => initializeExternal facts view imports allocated
  | .persisted cache source => initializePersisted cache source imports allocated

def DeclaresType : Origin → InterfaceTypeSlot → Prop
  | .parsed facts view _, slot => ∃ i ∈ typeIdentities facts, slot = typeSlot view i
  | .parsedExternal facts view, slot => ∃ i ∈ typeIdentities facts, slot = typeSlot view i
  | .persisted cache source, slot =>
    IsPersisted cache source (·.typeSlots) (cache.frontendTypeSlot source) slot

def DeclaresObject : Origin → InterfaceObjectSlot → Prop
  | .parsed facts view _, slot => ∃ object ∈ facts.objects, slot = objectSlot view object
  | .parsedExternal facts view, slot => ∃ object ∈ facts.objects, slot = objectSlot view object
  | .persisted cache source, slot =>
    IsPersisted cache source (·.objectSlots) (cache.frontendObjectSlot source) slot

def DeclaresMember : Origin → InterfaceMemberSlot → Prop
  | .parsed facts _ _, slot => ∃ item ∈ facts.records, IsMember facts item slot
  | .parsedExternal facts _, slot => ∃ item ∈ facts.records, IsMember facts item slot
  | .persisted cache source, slot =>
    IsPersisted cache source (·.memberSlots) (cache.frontendMemberSlot source) slot

def FitsWords : Origin → Prop
  | .parsed facts _ _ => ∀ item ∈ facts.records, item.members.count ≤ u32Max
  | .parsedExternal facts _ => ∀ item ∈ facts.records, item.members.count ≤ u32Max
  | .persisted _ _ => True

end Origin

/-! ## One insertion -/

section Steps
variable {facts : SourceFacts} {view : IdentityView}

theorem insertType_filled {identity : IdentityRef} {declared : InterfaceTypeSlot → Prop}
    {table table' : BindingTable InterfaceTypeSlot}
    (h : Filled typeFormat persistedTypeSlot declared table)
    (hok : insertType view table identity = .ok table') :
    Filled typeFormat persistedTypeSlot (fun e => declared e ∨ e = typeSlot view identity)
      table' := by
  rw [insertType_eq] at hok
  split at hok
  · cases hok
  rename_i hgood
  have hvalid : persistedTypeSlot (typeSlot view identity) = true := by
    unfold persistedTypeSlot typeSlot
    simp only [Bool.or_eq_true, Bool.not_eq_true', decide_eq_true_eq, not_or] at hgood
    simp [hgood.1.1.1, hgood.1.2, hgood.2]
  have hfree : typeFormat.free (typeSlot view identity) = false := by
    unfold persistedTypeSlot at hvalid
    simp only [Bool.and_eq_true] at hvalid
    show (!(typeSlot view identity).identity.valid) = false
    rw [hvalid.2]
    rfl
  refine h.bind hfree hvalid ?_ hok
  intro slot hkey hsame
  obtain ⟨hparent, hname⟩ := Prod.mk.inj hkey
  have hidentity : slot.identity = identity := by simpa [sameType, typeSlot] using hsame
  cases slot
  exact InterfaceTypeSlot.mk.injEq .. ▸ ⟨hparent, hname, hidentity⟩

theorem insertTypeExternal_ok {count : Nat} {identity : IdentityRef}
    {table table' : BindingTable InterfaceTypeSlot}
    (hok : insertTypeExternal view count table identity = .ok table') :
    insertType view table identity = .ok table' := by
  unfold insertTypeExternal at hok
  split at hok
  · cases hok
  · rename_i hgood
    unfold insertType
    rw [if_neg]
    · exact hok
    · simp only [Bool.or_eq_true, not_or] at hgood ⊢
      exact hgood.1.1

theorem insertObject_filled {object : SourceObjectFact} {declared : InterfaceObjectSlot → Prop}
    {table table' : BindingTable InterfaceObjectSlot}
    (h : Filled objectFormat persistedObjectSlot declared table)
    (hok : insertObject view table object = .ok table') :
    Filled objectFormat persistedObjectSlot (fun e => declared e ∨ e = objectSlot view object)
      table' := by
  unfold insertObject at hok
  split at hok
  · cases hok
  rename_i hidentity
  obtain ⟨key, hbinding, hok⟩ := bind_ok.mp hok
  unfold bindingKey at hbinding
  split at hbinding
  · cases hbinding
  rename_i hbound
  cases hbinding
  simp only [Bool.or_eq_true, Bool.not_eq_true', decide_eq_true_eq, not_or] at hidentity hbound
  have hvalid : persistedObjectSlot (objectSlot view object) = true := by
    unfold persistedObjectSlot objectSlot
    simp [hbound.1, hbound.2, hidentity.1]
  have hfree : objectFormat.free (objectSlot view object) = false := by
    show (!object.identity.valid) = false
    simp [hidentity.1]
  refine h.bind hfree hvalid ?_ hok
  intro slot hkey hsame
  obtain ⟨hparent, hname⟩ := Prod.mk.inj hkey
  unfold sameObject at hsame
  simp only [Bool.not_eq_true', Bool.or_eq_false_iff, bne_eq_false_iff_eq] at hsame
  cases slot
  exact InterfaceObjectSlot.mk.injEq .. ▸ ⟨hparent, hname, hsame.1, hsame.2⟩

variable {table table' : BindingTable InterfaceMemberSlot}

theorem insertMember_filled {type : IdentityRef} (htype : type.valid = true)
    {item : SourceMemberFact × Nat} (hindex : item.2 ≠ invalidMember)
    {declared : InterfaceMemberSlot → Prop}
    (h : Filled memberFormat persistedMemberSlot declared table)
    (hok : insertMember type table item = .ok table') : Filled memberFormat persistedMemberSlot
      (fun e => declared e ∨ e = ⟨type, item.1.name, item.2⟩) table' := by
  unfold insertMember at hok
  split at hok
  · cases hok
  rename_i hname
  refine h.bind ?_ ?_ ?_ hok
  · show (!type.valid) = false
    rw [htype]
    rfl
  · unfold persistedMemberSlot
    simp [htype, hname, hindex]
  · intro slot _ hsame
    cases hsame

theorem insertMembers_filled {bad : SourceRecordFact → Bool} {item : SourceRecordFact}
    (hbad : bad item = false → item.identity.valid = true) (hcount : item.members.count ≤ u32Max)
    {declared : InterfaceMemberSlot → Prop}
    (h : Filled memberFormat persistedMemberSlot declared table)
    (hok : insertMembers facts bad table item = .ok table') :
    Filled memberFormat persistedMemberSlot (fun e => declared e ∨ IsMember facts item e)
      table' := by
  unfold insertMembers at hok
  split at hok
  · rename_i hkind
    cases hok
    apply h.congr
    intro e
    constructor
    · exact .inl
    · intro he
      exact he.resolve_right fun hmember => hkind hmember.1
  rename_i hkind
  split at hok
  · cases hok
  rename_i hgood
  have htype := hbad (by simpa using hgood)
  have hlength : (slice facts.members item.members.begin item.members.count).length ≤
      item.members.count := by
    unfold slice
    rw [List.length_take]
    omega
  have hloop : Filled memberFormat persistedMemberSlot (fun e => declared e ∨
      ∃ x ∈ (slice facts.members item.members.begin item.members.count).zipIdx,
        e = ⟨item.identity, x.1.name, x.2⟩) table' := by
    refine h.loop (fun x hx _ _ _ => insertMember_filled htype ?_) hok
    have hget := List.mem_zipIdx_iff_getElem?.mp hx
    obtain ⟨hlt, -⟩ := List.getElem?_eq_some_iff.mp hget
    unfold invalidMember
    omega
  apply hloop.congr
  intro e
  refine or_congr_right ?_
  constructor
  · intro he
    obtain ⟨x, hx, he⟩ := he
    exact ⟨not_not.mp hkind, x.1, x.2, List.mem_zipIdx_iff_getElem?.mp hx, he⟩
  · intro he
    obtain ⟨-, member, index, hget, he⟩ := he
    exact ⟨(member, index), List.mem_zipIdx_iff_getElem?.mpr hget, he⟩

theorem insertPersisted_filled {S κ : Type} [DecidableEq κ] {f : Format S κ} {valid : S → Bool}
    (hfree : ∀ value, valid value = true → f.free value = false)
    {read : Nat → Except StatusCode S} {index : Nat} {declared : S → Prop}
    {table table' : BindingTable S} (h : Filled f valid declared table)
    (hok : insertPersisted f valid read table index = .ok table') :
    Filled f valid (fun e => declared e ∨ read index = .ok e) table' := by
  unfold insertPersisted at hok
  cases hread : read index with
  | error code =>
    rw [hread] at hok
    cases hok
  | ok value =>
    rw [hread] at hok
    dsimp only at hok
    split at hok
    · cases hok
    rename_i hvalid
    have hvalid : valid value = true := by simpa using hvalid
    have hbind : bind f (fun _ _ => false) table value = .ok table' := by
      unfold SourceInterface.bind
      cases hprobe : probe f table.slots (f.key value) with
      | none =>
        rw [hprobe] at hok
        cases hok
      | some pos =>
        rw [hprobe] at hok
        dsimp only at hok ⊢
        split at hok
        · rename_i hslot
          rw [if_pos hslot]
          exact hok
        · cases hok
    have hfilled := h.bind (hfree value hvalid) hvalid (fun _ _ hsame => by cases hsame) hbind
    apply hfilled.congr
    intro e
    refine or_congr_right ?_
    constructor
    · intro he
      rw [he]
    · intro he
      cases he
      rfl

end Steps

/-! ## Whole interfaces -/

structure Declares (origin : Origin) (interface : SourceInterface) : Prop where
  types : Answers typeFormat persistedTypeSlot interface.typeSlots origin.DeclaresType
  objects : Answers objectFormat persistedObjectSlot interface.objectSlots origin.DeclaresObject
  members : Answers memberFormat persistedMemberSlot interface.memberSlots origin.DeclaresMember

section Loops
variable {facts : SourceFacts} {view : IdentityView} {table : BindingTable InterfaceTypeSlot}

theorem types_filled (hcapacity : capacityFor (typeCount facts) ≠ 0)
    (hok : (typeIdentities facts).foldlM (insertType view) ⟨List.replicate (capacityFor (typeCount facts)) {}, []⟩ = .ok table) :
    Filled typeFormat persistedTypeSlot (fun e => ∃ i ∈ typeIdentities facts, e = typeSlot view i)
      table := by
  have hfresh : Filled typeFormat persistedTypeSlot (fun _ => False)
      ⟨List.replicate (capacityFor (typeCount facts)) {}, []⟩ :=
    filled_fresh rfl hcapacity fun _ h => h
  apply (hfresh.loop (fun i _ p u v => @insertType_filled view i p u v) hok).congr
  intro e
  simp

theorem objects_filled {table : BindingTable InterfaceObjectSlot}
    (hcapacity : capacityFor facts.objects.length ≠ 0)
    (hok : facts.objects.foldlM (insertObject view)
      ⟨List.replicate (capacityFor facts.objects.length) {}, []⟩ = .ok table) :
    Filled objectFormat persistedObjectSlot (fun e => ∃ o ∈ facts.objects, e = objectSlot view o)
      table := by
  have hfresh : Filled objectFormat persistedObjectSlot (fun _ => False)
      ⟨List.replicate (capacityFor facts.objects.length) {}, []⟩ :=
    filled_fresh rfl hcapacity fun _ h => h
  apply (hfresh.loop (fun o _ p u v => @insertObject_filled view o p u v) hok).congr
  intro e
  simp

theorem members_filled {bad : SourceRecordFact → Bool}
    (hbad : ∀ item, bad item = false → item.identity.valid = true)
    (hfits : ∀ item ∈ facts.records, item.members.count ≤ u32Max)
    {table : BindingTable InterfaceMemberSlot} (hcapacity : capacityFor (memberCount facts) ≠ 0)
    (hok : facts.records.foldlM (insertMembers facts bad)
      ⟨List.replicate (capacityFor (memberCount facts)) {}, []⟩ = .ok table) :
    Filled memberFormat persistedMemberSlot (fun e => ∃ item ∈ facts.records, IsMember facts item e)
      table := by
  have hfresh : Filled memberFormat persistedMemberSlot (fun _ => False)
      ⟨List.replicate (capacityFor (memberCount facts)) {}, []⟩ :=
    filled_fresh rfl hcapacity fun _ h => h
  apply (hfresh.loop (fun item hitem _ _ _ =>
    insertMembers_filled (hbad item) (hfits item hitem)) hok).congr
  intro e
  simp

variable {item : SourceRecordFact}

theorem badDefinition_valid (h : badDefinition facts item = false) :
    item.identity.valid = true := by
  unfold badDefinition at h
  simp only [Bool.or_eq_false_iff, Bool.not_eq_false'] at h
  exact h.1.1.1.1

theorem badDefinitionExternal_valid (h : badDefinitionExternal facts item = false) :
    item.identity.valid = true := by
  unfold badDefinitionExternal at h
  simp only [Bool.or_eq_false_iff, Bool.not_eq_false'] at h
  exact h.1.1

variable {imports : List (Option Nat)} {interface : SourceInterface}

theorem initializeInterface_declares {retain : Bool}
    (hfits : (Origin.parsed facts view retain).FitsWords)
    (hok : initializeInterface facts view imports retain = .ok interface) :
    Declares (.parsed facts view retain) interface := by
  unfold initializeInterface at hok
  dsimp only at hok
  split at hok
  · cases hok
  rename_i hcapacity
  simp only [Bool.or_eq_true, decide_eq_true_eq, not_or] at hcapacity
  obtain ⟨⟨htypeCapacity, hobjectCapacity⟩, hmemberCapacity⟩ := hcapacity
  obtain ⟨records, hrecords, hok⟩ := bind_ok.mp hok
  obtain ⟨types, htypes, hok⟩ := bind_ok.mp hok
  obtain ⟨objects, hobjects, hok⟩ := bind_ok.mp hok
  obtain ⟨members, hmembers, hok⟩ := bind_ok.mp hok
  obtain ⟨imported, -, hok⟩ := bind_ok.mp hok
  cases hok
  have hboth := foldlM_append_ok.mpr ⟨records, hrecords, htypes⟩
  exact ⟨(types_filled htypeCapacity hboth).answers, (objects_filled hobjectCapacity hobjects).answers,
    (members_filled (fun _ => badDefinition_valid) hfits hmemberCapacity hmembers).answers⟩

variable {count : Nat}

theorem insertTypesExternal_ok {identities : List IdentityRef}
    {table' : BindingTable InterfaceTypeSlot}
    (hok : identities.foldlM (insertTypeExternal view count) table = .ok table') :
    identities.foldlM (insertType view) table = .ok table' := by
  induction identities generalizing table with
  | nil => exact hok
  | cons identity rest ih =>
    obtain ⟨next, hfirst, hrest⟩ := foldlM_cons_ok.mp hok
    exact foldlM_cons_ok.mpr ⟨next, insertTypeExternal_ok hfirst, ih hrest⟩

theorem isMember_count {slot : InterfaceMemberSlot} (hitem : item ∈ facts.records)
    (h : IsMember facts item slot) : memberCount facts ≠ 0 := by
  intro hzero
  obtain ⟨hkind, member, index, hget, -⟩ := h
  have hweight := List.sum_eq_zero_iff_forall_eq_nat.mp hzero _ (List.mem_map_of_mem hitem)
  rw [if_pos hkind] at hweight
  rw [hweight, slice_zero] at hget
  cases hget

variable {allocated : Bool}

theorem initializeExternal_declares (hfits : (Origin.parsedExternal facts view).FitsWords)
    (hok : initializeExternal facts view imports allocated = .ok interface) :
    Declares (.parsedExternal facts view) interface := by
  unfold initializeExternal at hok
  dsimp only at hok
  generalize htypeCapacity : (if typeCount facts = 0 then 0 else capacityFor (typeCount facts)) =
    typeCapacity at hok
  generalize hobjectCapacity : (if facts.objects.isEmpty then 0
    else capacityFor facts.objects.length) = objectCapacity at hok
  generalize hmemberCapacity : (if memberCount facts = 0 then 0
    else capacityFor (memberCount facts)) = memberCapacity at hok
  split at hok
  · cases hok
  rename_i hcapacity
  split at hok
  · cases hok
  obtain ⟨records, hrecords, hok⟩ := bind_ok.mp hok
  obtain ⟨types, htypes, hok⟩ := bind_ok.mp hok
  split at hok
  · cases hok
  obtain ⟨objects, hobjects, hok⟩ := bind_ok.mp hok
  obtain ⟨members, hmembers, hok⟩ := bind_ok.mp hok
  obtain ⟨imported, -, hok⟩ := bind_ok.mp hok
  cases hok
  simp only [Bool.or_eq_true, Bool.and_eq_true, decide_eq_true_eq, Bool.not_eq_true',
    List.isEmpty_eq_false_iff, not_or, not_and] at hcapacity
  have hboth := insertTypesExternal_ok (foldlM_append_ok.mpr ⟨records, hrecords, htypes⟩)
  refine ⟨?_, ?_, ?_⟩
  · by_cases hzero : typeCount facts = 0
    · have hnil : typeIdentities facts = [] := by
        apply List.eq_nil_of_length_eq_zero
        rw [typeIdentities_length]
        exact hzero
      have hnone : ∀ e, ¬ (Origin.parsedExternal facts view).DeclaresType e := by
        intro e he
        obtain ⟨i, hi, -⟩ := he
        rw [hnil] at hi
        cases hi
      rw [if_pos hzero] at htypeCapacity
      have hempty : (typeIdentities facts).foldlM (insertType view)
          ⟨List.replicate typeCapacity {}, []⟩ = .ok types := hboth
      rw [hnil, ← htypeCapacity] at hempty
      cases hempty
      exact answers_nothing rfl hnone
    · rw [if_neg hzero] at htypeCapacity
      rw [← htypeCapacity] at hcapacity hboth
      exact (types_filled (hcapacity.1.1 hzero) hboth).answers
  · by_cases hnil : facts.objects = []
    · have hnone : ∀ e, ¬ (Origin.parsedExternal facts view).DeclaresObject e := by
        intro e he
        obtain ⟨o, ho, -⟩ := he
        rw [hnil] at ho
        cases ho
      rw [hnil, List.isEmpty_nil, if_pos rfl] at hobjectCapacity
      rw [if_pos hobjectCapacity.symm] at hobjects
      cases hobjects
      exact answers_nothing rfl hnone
    · have hsome := hcapacity.1.2 hnil
      rw [if_neg (by simpa using hnil)] at hobjectCapacity
      rw [if_neg hsome] at hobjects
      rw [← hobjectCapacity] at hsome hobjects
      exact (objects_filled hsome hobjects).answers
  · by_cases hzero : memberCount facts = 0
    · rw [if_pos hzero] at hmemberCapacity
      rw [if_pos hmemberCapacity.symm] at hmembers
      cases hmembers
      apply answers_nothing rfl
      intro e he
      obtain ⟨item, hitem, hmember⟩ := he
      exact isMember_count hitem hmember hzero
    · have hsome := hcapacity.2 hzero
      rw [if_neg hzero] at hmemberCapacity
      rw [if_neg hsome] at hmembers
      rw [← hmemberCapacity] at hsome hmembers
      exact (members_filled (fun _ => badDefinitionExternal_valid) hfits hsome hmembers).answers

theorem persisted_filled {S κ : Type} [DecidableEq κ] {f : Format S κ} {valid : S → Bool}
    (hempty : f.free f.empty = true) (hfree : ∀ value, valid value = true → f.free value = false)
    {read : Nat → Except StatusCode S} (hcapacity : capacityFor count ≠ 0)
    {table : BindingTable S}
    (hok : (List.range count).foldlM (insertPersisted f valid read) ⟨List.replicate (capacityFor count) f.empty, []⟩ = .ok table) :
    Filled f valid (fun e => ∃ index < count, read index = .ok e) table := by
  have hfresh : Filled f valid (fun _ => False)
      ⟨List.replicate (capacityFor count) f.empty, []⟩ :=
    filled_fresh hempty hcapacity fun _ h => h
  apply (hfresh.loop (fun _ _ _ _ _ => insertPersisted_filled hfree) hok).congr
  intro e
  simp

theorem initializePersisted_declares {cache : BuildCacheImage} {source : Nat}
    (hok : initializePersisted cache source imports allocated = .ok interface) :
    Declares (.persisted cache source) interface := by
  unfold initializePersisted at hok
  split at hok
  · cases hok
  cases hrecord : cache.source source with
  | error code =>
    rw [hrecord] at hok
    cases hok
  | ok record =>
  rw [hrecord] at hok
  dsimp only at hok
  split at hok
  · cases hok
  split at hok
  · cases hok
  rename_i hcapacity
  simp only [Bool.or_eq_true, decide_eq_true_eq, not_or] at hcapacity
  split at hok
  · cases hok
  obtain ⟨localTypes, -, hok⟩ := bind_ok.mp hok
  obtain ⟨types, htypes, hok⟩ := bind_ok.mp hok
  obtain ⟨objects, hobjects, hok⟩ := bind_ok.mp hok
  obtain ⟨members, hmembers, hok⟩ := bind_ok.mp hok
  obtain ⟨imported, -, hok⟩ := bind_ok.mp hok
  cases hok
  have hdeclared : ∀ {S : Type} (count : PersistenceCounts → Nat) (read : Nat → Except StatusCode S)
      (e : S), (∃ index < count record.counts, read index = .ok e) ↔
        IsPersisted cache source count read e := by
    intro S count read e
    unfold IsPersisted
    rw [hrecord]
    simp
  refine ⟨?_, ?_, ?_⟩
  · have hfilled := persisted_filled (f := typeFormat) rfl (fun value hvalue => by
      unfold persistedTypeSlot at hvalue
      simp only [Bool.and_eq_true] at hvalue
      simp [typeFormat, hvalue.2]) hcapacity.1.1 htypes
    exact (hfilled.congr (hdeclared (·.typeSlots) _)).answers
  · have hfilled := persisted_filled (f := objectFormat) rfl (fun value hvalue => by
      unfold persistedObjectSlot at hvalue
      simp only [Bool.and_eq_true] at hvalue
      simp [objectFormat, hvalue.2]) hcapacity.1.2 hobjects
    exact (hfilled.congr (hdeclared (·.objectSlots) _)).answers
  · have hfilled := persisted_filled (f := memberFormat) rfl (fun value hvalue => by
      unfold persistedMemberSlot at hvalue
      simp only [Bool.and_eq_true] at hvalue
      simp [memberFormat, hvalue.1.1]) hcapacity.2 hmembers
    exact (hfilled.congr (hdeclared (·.memberSlots) _)).answers

theorem initializeTables_declares {origin : Origin} (hfits : origin.FitsWords)
    (hok : origin.initializeTables imports allocated = .ok interface) :
    Declares origin interface := by
  cases origin with
  | parsed facts view retain => exact initializeInterface_declares hfits hok
  | parsedExternal facts view => exact initializeExternal_declares hfits hok
  | persisted cache source => exact initializePersisted_declares hok

end Loops

end SourceInterface
end ServerEngine
