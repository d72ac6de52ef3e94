import ServerEngine.Parser.InterfaceTables

/-! # Two builds of one interface

The incremental and the full build agree on every source but those that declare a type twice: the
full build counts the declarations and fails where it has bound fewer types.
-/
namespace ServerEngine
open ProbedTable Slice

namespace SourceInterface

def typeIdentities (facts : SourceFacts) : List IdentityRef :=
  facts.records.map (·.identity) ++ facts.enums.map (·.identity)

/-- Every one is a type with a parent and a name, which no other type of the list has. -/
structure Bindable (view : IdentityView) (identities : List IdentityRef) : Prop where
  type : ∀ i ∈ identities, i.valid = true ∧ i.kind = .type
  named : ∀ i ∈ identities, (view.parent i).valid = true ∧ view.name i ≠ 0
  apart : ∀ i ∈ identities, ∀ j ∈ identities, view.parent i = view.parent j →
    view.name i = view.name j → i = j

def HasCapacity (facts : SourceFacts) : Prop :=
  capacityFor (typeCount facts) ≠ 0 ∧ capacityFor facts.objects.length ≠ 0 ∧
    capacityFor (memberCount facts) ≠ 0

/-! ## The types -/

section Types
variable {view : IdentityView}

def typeSlot (view : IdentityView) (identity : IdentityRef) : InterfaceTypeSlot :=
  ⟨view.parent identity, view.name identity, identity⟩

structure BindsTypes (view : IdentityView) (table : BindingTable InterfaceTypeSlot)
    (identities : List IdentityRef) : Prop where
  bindable : Bindable view identities
  entries : ∀ e ∈ table.inserted, ∃ i ∈ identities, e = typeSlot view i
  bound : ∀ i ∈ identities, typeSlot view i ∈ table.inserted

variable {table : BindingTable InterfaceTypeSlot}

theorem insertType_eq {identity : IdentityRef} : insertType view table identity =
      if !identity.valid || identity.kind ≠ .type || !(view.parent identity).valid ||
          view.name identity = 0 then .error (.failed .invalidArgument)
      else bind typeFormat sameType table (typeSlot view identity) := by
  unfold insertType bindingKey
  by_cases hidentity : (!identity.valid || decide (identity.kind ≠ .type)) = true
  · simp only [hidentity, if_true, Bool.true_or]
  · rw [if_neg hidentity]
    have hfalse : (!identity.valid || decide (identity.kind ≠ .type)) = false := by
      simpa using hidentity
    rw [hfalse, Bool.false_or]
    split
    · rfl
    · rfl

theorem insertType_binds {table : BindingTable InterfaceTypeSlot} {identities : List IdentityRef}
    {identity : IdentityRef} (t : Table typeFormat table.slots table.inserted)
    (hroom : table.inserted.length < table.slots.length) (h : BindsTypes view table identities) :
    (∀ table', insertType view table identity = .ok table' →
      BindsTypes view table' (identities ++ [identity])) ∧
    (Bindable view (identities ++ [identity]) → ∃ table',
      insertType view table identity = .ok table') := by
  rw [insertType_eq]
  split
  · rename_i hbad
    refine ⟨fun _ hok => (by cases hok), ?_⟩
    intro hbindable
    obtain ⟨hvalid, hkind⟩ := hbindable.type identity (by simp)
    obtain ⟨hparent, hname⟩ := hbindable.named identity (by simp)
    simp [hvalid, hkind, hparent, hname] at hbad
  rename_i hgood
  have hvalid : identity.valid = true := by
    cases hvalid : identity.valid with
    | true => rfl
    | false => simp [hvalid] at hgood
  have hkind : identity.kind = .type := by
    by_contra hne
    simp [hne] at hgood
  have hparent : (view.parent identity).valid = true := by
    cases hparent : (view.parent identity).valid with
    | true => rfl
    | false => simp [hparent] at hgood
  have hname : view.name identity ≠ 0 := by
    intro hzero
    simp [hzero] at hgood
  have hfree : typeFormat.free (typeSlot view identity) = false := by
    show (!identity.valid) = false
    rw [hvalid]
    rfl
  have hmore : ∀ {table' : BindingTable InterfaceTypeSlot},
      (∀ j ∈ identities, view.parent identity = view.parent j → view.name identity = view.name j →
        identity = j) →
      (∀ e ∈ table'.inserted, e ∈ table.inserted ∨ e = typeSlot view identity) →
      (∀ e ∈ table.inserted, e ∈ table'.inserted) → typeSlot view identity ∈ table'.inserted →
      BindsTypes view table' (identities ++ [identity]) := by
    intro table' hapart hentries hkept hnew
    refine ⟨⟨?_, ?_, ?_⟩, ?_, ?_⟩
    · intro i hi
      rcases List.mem_append.mp hi with hi | hi
      · exact h.bindable.type i hi
      · rw [List.mem_singleton.mp hi]
        exact ⟨hvalid, hkind⟩
    · intro i hi
      rcases List.mem_append.mp hi with hi | hi
      · exact h.bindable.named i hi
      · rw [List.mem_singleton.mp hi]
        exact ⟨hparent, hname⟩
    · intro i hi j hj hp hn
      rcases List.mem_append.mp hi with hi | hi
      · rcases List.mem_append.mp hj with hj | hj
        · exact h.bindable.apart i hi j hj hp hn
        · rw [List.mem_singleton.mp hj] at hp hn ⊢
          exact (hapart i hi hp.symm hn.symm).symm
      · rw [List.mem_singleton.mp hi] at hp hn ⊢
        rcases List.mem_append.mp hj with hj | hj
        · exact hapart j hj hp hn
        · exact (List.mem_singleton.mp hj).symm
    · intro e he
      rcases hentries e he with he | rfl
      · obtain ⟨i, hi, heq⟩ := h.entries e he
        exact ⟨i, List.mem_append_left _ hi, heq⟩
      · exact ⟨identity, by simp, rfl⟩
    · intro i hi
      rcases List.mem_append.mp hi with hi | hi
      · exact hkept _ (h.bound i hi)
      · rw [List.mem_singleton.mp hi]
        exact hnew
  rcases @bind_cases _ _ _ _ sameType table (typeSlot view identity) t hroom hfree with
    ⟨slot, hslot, hkey, heq⟩ | ⟨habsent, slots, heq, -, -⟩
  · -- the parent and name are bound: to this type, or in conflict with it
    obtain ⟨i, hi, rfl⟩ := h.entries slot hslot
    have hboth : view.parent i = view.parent identity ∧ view.name i = view.name identity :=
      Prod.mk.inj hkey
    rw [heq]
    constructor
    · intro table' hok
      split at hok
      · rename_i hsame
        have hidentity : i = identity := by simpa [sameType, typeSlot] using hsame
        cases hok
        refine hmore ?_ (fun e he => .inl he) (fun e he => he) (hidentity ▸ hslot)
        intro j hj hp hn
        exact h.bindable.apart identity (hidentity ▸ hi) j hj hp hn
      · cases hok
    · intro hbindable
      have hsame := hbindable.apart i (List.mem_append_left _ hi) identity (by simp) hboth.1 hboth.2
      have htrue : sameType (typeSlot view i) (typeSlot view identity) = true := by
        rw [hsame]
        simp [sameType]
      rw [if_pos htrue]
      exact ⟨table, rfl⟩
  · rw [heq]
    refine ⟨?_, fun _ => ⟨_, rfl⟩⟩
    intro table' hok
    cases hok
    refine hmore ?_ ?_ ?_ ?_
    · intro j hj hp hn
      exact absurd (Prod.ext hp.symm hn.symm) (habsent _ (h.bound j hj))
    · intro e he
      rcases List.mem_append.mp he with he | he
      · exact .inl he
      · exact .inr (List.mem_singleton.mp he)
    · intro e he
      exact List.mem_append_left _ he
    · simp

theorem insertTypes_binds {table : BindingTable InterfaceTypeSlot}
    {processed identities : List IdentityRef} (t : Table typeFormat table.slots table.inserted)
    (hroom : table.inserted.length + identities.length < table.slots.length)
    (h : BindsTypes view table processed) :
    (∀ table', identities.foldlM (insertType view) table = .ok table' →
      BindsTypes view table' (processed ++ identities)) ∧
    (Bindable view (processed ++ identities) → ∃ table',
      identities.foldlM (insertType view) table = .ok table') := by
  induction identities generalizing table processed with
  | nil =>
    rw [List.append_nil]
    refine ⟨?_, fun _ => ⟨table, rfl⟩⟩
    intro table' hok
    cases hok
    exact h
  | cons identity rest ih =>
    rw [List.length_cons] at hroom
    have hlist : processed ++ identity :: rest = processed ++ [identity] ++ rest := by simp
    obtain ⟨hbinds, hexists⟩ := @insertType_binds _ _ _ identity t (by omega) h
    have houtcome := @insertType_outcome view _ identity t (by omega)
    rw [hlist, List.foldlM_cons]
    cases hstep : insertType view table identity with
    | error stop =>
      refine ⟨fun _ hok => (by cases hok), ?_⟩
      intro hbindable
      have hfirst : Bindable view (processed ++ [identity]) :=
        ⟨fun i hi => hbindable.type i (List.mem_append_left _ hi),
          fun i hi => hbindable.named i (List.mem_append_left _ hi),
          fun i hi j hj => hbindable.apart i (List.mem_append_left _ hi) j
            (List.mem_append_left _ hj)⟩
      obtain ⟨table', hok⟩ := hexists hfirst
      rw [hstep] at hok
      cases hok
    | ok next =>
      rw [hstep] at houtcome
      obtain ⟨hnext, hlength, hcount⟩ := houtcome
      exact ih hnext (by omega) (hbinds next hstep)

theorem bindsTypes_nil (slots : List InterfaceTypeSlot) : BindsTypes view ⟨slots, []⟩ [] :=
  ⟨⟨by simp, by simp, by simp⟩, by simp, by simp⟩

theorem BindsTypes.count_iff {identities : List IdentityRef}
    (h : BindsTypes view table identities) (t : Table typeFormat table.slots table.inserted) :
    table.inserted.length = identities.length ↔ identities.Nodup := by
  have hentries : ∀ e ∈ table.inserted, e = typeSlot view e.identity := by
    intro e he
    obtain ⟨i, -, rfl⟩ := h.entries e he
    rfl
  have hnodup : (table.inserted.map (·.identity)).Nodup := by
    refine List.Nodup.map_on ?_ t.keys.of_map
    intro e he e' he' heq
    rw [hentries e he, hentries e' he', heq]
  have hmem : ∀ i, i ∈ table.inserted.map (·.identity) ↔ i ∈ identities := by
    intro i
    constructor
    · intro hi
      obtain ⟨e, he, rfl⟩ := List.mem_map.mp hi
      obtain ⟨j, hj, rfl⟩ := h.entries e he
      exact hj
    · intro hi
      exact List.mem_map.mpr ⟨typeSlot view i, h.bound i hi, rfl⟩
  have hlength : (table.inserted.map (·.identity)).length = table.inserted.length :=
    List.length_map _
  constructor
  · intro heq
    have hsub : (table.inserted.map (·.identity)).Subperm identities :=
      List.subperm_of_subset hnodup fun i hi => (hmem i).mp hi
    exact (hsub.perm_of_length_le (by omega)).nodup_iff.mp hnodup
  · intro hdistinct
    have hperm := (List.perm_ext_iff_of_nodup hnodup hdistinct).mpr hmem
    rw [← hlength, hperm.length_eq]

theorem insertTypesExternal_eq {table : BindingTable InterfaceTypeSlot} {count : Nat}
    {identities : List IdentityRef} (t : Table typeFormat table.slots table.inserted)
    (hroom : table.inserted.length + identities.length < table.slots.length)
    (hcount : table.inserted.length + identities.length ≤ count) :
    identities.foldlM (insertTypeExternal view count) table =
      identities.foldlM (insertType view) table := by
  induction identities generalizing table with
  | nil => rfl
  | cons identity rest ih =>
    rw [List.length_cons] at hroom hcount
    have hslots : table.slots.isEmpty = false := by
      rw [List.isEmpty_eq_false_iff]
      intro hnil
      rw [hnil] at hroom
      simp at hroom
    have hrange : decide (table.inserted.length ≥ count) = false := by
      rw [decide_eq_false_iff_not]
      omega
    have hstep : insertTypeExternal view count table identity = insertType view table identity := by
      unfold insertTypeExternal insertType
      rw [hslots, hrange, Bool.or_false, Bool.or_false]
    have houtcome := @insertType_outcome view _ identity t (by omega)
    rw [List.foldlM_cons, List.foldlM_cons, hstep]
    cases hresult : insertType view table identity with
    | error stop => rfl
    | ok next =>
      rw [hresult] at houtcome
      obtain ⟨hnext, hlength, hinserted⟩ := houtcome
      exact ih hnext (by omega) (by omega)

end Types

/-! ## The members of validated records -/

section Members
variable {facts : SourceFacts}

theorem badRange_eq (range : SourceFactRange) (size : Nat) :
    badRange range size = !validRange range size := by
  unfold badRange validRange
  by_cases hbegin : range.begin ≤ size <;> by_cases hcount : range.count ≤ size - range.begin <;>
    simp [hbegin, hcount] <;> omega

open ErrorFold in
theorem validated_ranges (hvalid : Validated facts) {item : SourceRecordFact}
    (hitem : item ∈ facts.records) : validRange item.members facts.members.length = true ∧
      validRange item.bases facts.bases.length = true ∧
        validRange item.methods facts.methods.length = true := by
  have hrecords := hvalid.records
  obtain ⟨cursor, hloop, -⟩ := bind_ok.mp hrecords
  obtain ⟨index, hget⟩ := List.mem_iff_getElem?.mp hitem
  have hmem : (item, index) ∈ facts.records.zipIdx := by
    rw [List.mem_zipIdx_iff_getElem?]
    exact hget
  obtain ⟨before, after, hstep⟩ := foldlM_ok_mem hloop hmem
  obtain ⟨_, -, hstep⟩ := bind_ok.mp hstep
  obtain ⟨_, -, hstep⟩ := bind_ok.mp hstep
  obtain ⟨_, -, hstep⟩ := bind_ok.mp hstep
  obtain ⟨_, -, hstep⟩ := bind_ok.mp hstep
  obtain ⟨_, hmembers, hstep⟩ := bind_ok.mp hstep
  obtain ⟨_, -, hstep⟩ := bind_ok.mp hstep
  obtain ⟨_, hbases, hstep⟩ := bind_ok.mp hstep
  obtain ⟨_, -, hstep⟩ := bind_ok.mp hstep
  obtain ⟨_, hmethods, -⟩ := bind_ok.mp hstep
  rw [failIf_ok, Bool.not_eq_false'] at hmembers hbases hmethods
  exact ⟨hmembers, hbases, hmethods⟩

theorem insertMembers_agree (hvalid : Validated facts) (table : BindingTable InterfaceMemberSlot) :
    facts.records.foldlM (insertMembers facts (badDefinition facts)) table =
      facts.records.foldlM (insertMembers facts (badDefinitionExternal facts)) table := by
  have hsame : ∀ item ∈ facts.records, badDefinition facts item = badDefinitionExternal facts item := by
    intro item hitem
    obtain ⟨-, hbases, hmethods⟩ := validated_ranges hvalid hitem
    unfold badDefinition badDefinitionExternal
    rw [badRange_eq item.bases, badRange_eq item.methods, hbases, hmethods]
    simp
  have hloop : ∀ items : List SourceRecordFact, (∀ item ∈ items, item ∈ facts.records) →
      ∀ table, items.foldlM (insertMembers facts (badDefinition facts)) table =
        items.foldlM (insertMembers facts (badDefinitionExternal facts)) table := by
    intro items
    induction items with
    | nil => exact fun _ _ => rfl
    | cons item rest ih =>
      intro hsub table
      have hstep : insertMembers facts (badDefinition facts) table item =
          insertMembers facts (badDefinitionExternal facts) table item := by
        unfold insertMembers
        rw [hsame item (hsub item List.mem_cons_self)]
      rw [List.foldlM_cons, List.foldlM_cons, hstep]
      cases insertMembers facts (badDefinitionExternal facts) table item with
      | error stop => rfl
      | ok next => exact ih (fun item hitem => hsub item (List.mem_cons_of_mem _ hitem)) next
  exact hloop facts.records (fun _ h => h) table

theorem insertMembers_none (hvalid : Validated facts) (hcount : memberCount facts = 0)
    (htypes : ∀ item ∈ facts.records, item.identity.valid = true ∧ item.identity.kind = .type)
    (table : BindingTable InterfaceMemberSlot) :
    facts.records.foldlM (insertMembers facts (badDefinitionExternal facts)) table = .ok table := by
  have hstep : ∀ item ∈ facts.records, ∀ table,
      insertMembers facts (badDefinitionExternal facts) table item = .ok table := by
    intro item hitem table
    unfold insertMembers
    split
    · rfl
    rename_i hkind
    have hmembers : item.members.count = 0 := by
      have hweight := List.sum_eq_zero_iff_forall_eq_nat.mp hcount _ (List.mem_map_of_mem hitem)
      rwa [if_pos (not_not.mp hkind)] at hweight
    obtain ⟨hrange, -, -⟩ := validated_ranges hvalid hitem
    obtain ⟨htype, htypeKind⟩ := htypes item hitem
    have hgood : badDefinitionExternal facts item = false := by
      unfold badDefinitionExternal
      rw [badRange_eq, hrange, htype, htypeKind]
      simp
    rw [hgood, if_neg (by simp), hmembers, slice_zero]
    rfl
  have hloop : ∀ items : List SourceRecordFact, (∀ item ∈ items, item ∈ facts.records) →
      items.foldlM (insertMembers facts (badDefinitionExternal facts)) table = .ok table := by
    intro items
    induction items with
    | nil => exact fun _ => rfl
    | cons item rest ih =>
      intro hsub
      rw [List.foldlM_cons, hstep item (hsub item List.mem_cons_self)]
      exact ih fun item hitem => hsub item (List.mem_cons_of_mem _ hitem)
  exact hloop facts.records fun _ h => h

end Members

/-! ## The two interfaces -/

structure SameInterface (a b : SourceInterface) : Prop where
  localTypes : a.localTypes = b.localTypes
  findType : ∀ interfaces scope name, findType interfaces a scope name =
    findType interfaces b scope name
  findObject : ∀ interfaces scope name, findObject interfaces a scope name =
    findObject interfaces b scope name
  findMember : ∀ interfaces type name, findMember interfaces a type name =
    findMember interfaces b type name
  localTypeCount : a.persistenceLocalTypeCount = b.persistenceLocalTypeCount
  typeSlotCount : a.persistenceTypeSlotCount = b.persistenceTypeSlotCount
  objectSlotCount : a.persistenceObjectSlotCount = b.persistenceObjectSlotCount
  memberSlotCount : a.persistenceMemberSlotCount = b.persistenceMemberSlotCount

def SameOutcome : Except InterfaceStop SourceInterface → Except InterfaceStop SourceInterface → Prop
  | .ok a, .ok b => SameInterface a b
  | .error (.failed code), .error (.failed code') => code = code'
  | _, _ => False

variable {a b : SourceInterface}

theorem findType_congr
    (hfind : ∀ k, find typeFormat a.typeSlots k = find typeFormat b.typeSlots k)
    (himports : a.imports = b.imports) (interfaces : Interfaces) (scope : IdentityRef)
    (name : Nat) : findType interfaces a scope name = findType interfaces b scope name := by
  unfold findType searchDepth
  rw [findTypeRecursive, findTypeRecursive, hfind, himports]

theorem findObject_congr
    (hfind : ∀ k, find objectFormat a.objectSlots k = find objectFormat b.objectSlots k)
    (himports : a.imports = b.imports) (interfaces : Interfaces) (scope : IdentityRef)
    (name : Nat) : findObject interfaces a scope name = findObject interfaces b scope name := by
  unfold findObject searchDepth
  rw [findObjectRecursive, findObjectRecursive, hfind, himports]

theorem findMember_congr
    (hfind : ∀ k, find memberFormat a.memberSlots k = find memberFormat b.memberSlots k)
    (himports : a.imports = b.imports) (interfaces : Interfaces) (type : IdentityRef) (name : Nat) :
    findMember interfaces a type name = findMember interfaces b type name := by
  unfold findMember searchDepth
  rw [findMemberRecursive, findMemberRecursive, hfind, himports]

section Paths
variable {facts : SourceFacts} {view : IdentityView} {imports : List Nat}
  {retainCompactPersistence : Bool}

theorem initializeInterface_eq (hcapacity : HasCapacity facts) :
    initializeInterface facts view (imports.map some) retainCompactPersistence = (do
      let types ← (typeIdentities facts).foldlM (insertType view)
        ⟨List.replicate (capacityFor (typeCount facts)) {}, []⟩
      let objects ← facts.objects.foldlM (insertObject view)
        ⟨List.replicate (capacityFor facts.objects.length) {}, []⟩
      let members ← facts.records.foldlM (insertMembers facts (badDefinition facts))
        ⟨List.replicate (capacityFor (memberCount facts)) {}, []⟩
      return {
        localTypes := types.inserted.map (·.identity)
        typeSlots := types.slots
        objectSlots := objects.slots
        memberSlots := members.slots
        persistenceTypeSlots := if retainCompactPersistence then types.inserted else []
        persistenceObjectSlots := if retainCompactPersistence then objects.inserted else []
        persistenceMemberSlots := if retainCompactPersistence then members.inserted else []
        persistenceLocalTypeCount := types.inserted.length
        persistenceTypeSlotCount := types.inserted.length
        persistenceObjectSlotCount := objects.inserted.length
        persistenceMemberSlotCount := members.inserted.length
        persistenceCompactState := retainCompactPersistence
        imports := imports }) := by
  obtain ⟨htypes, hobjects, hmembers⟩ := hcapacity
  unfold initializeInterface typeIdentities
  rw [List.foldlM_append, collectImports_some]
  simp [htypes, hobjects, hmembers]
  rfl

theorem initializeExternal_eq (hcapacity : HasCapacity facts) :
    initializeExternal facts view (imports.map some) true = (do
      let types ← (typeIdentities facts).foldlM (insertTypeExternal view (typeCount facts))
        ⟨List.replicate (if typeCount facts = 0 then 0 else capacityFor (typeCount facts)) {}, []⟩
      if types.inserted.length ≠ typeCount facts then
        throw (.failed .initializationFailed)
      let objects ← (if facts.objects = [] then .ok ⟨[], []⟩
        else facts.objects.foldlM (insertObject view)
          ⟨List.replicate (capacityFor facts.objects.length) {}, []⟩)
      let members ← (if memberCount facts = 0 then .ok ⟨[], []⟩
        else facts.records.foldlM (insertMembers facts (badDefinitionExternal facts))
          ⟨List.replicate (capacityFor (memberCount facts)) {}, []⟩)
      return {
        localTypes := types.inserted.map (·.identity)
        typeSlots := types.slots
        objectSlots := objects.slots
        memberSlots := members.slots
        persistenceLocalTypeCount := typeCount facts
        persistenceTypeSlotCount := types.inserted.length
        persistenceObjectSlotCount := objects.inserted.length
        persistenceMemberSlotCount := members.inserted.length
        persistenceCompactState := false
        runtimeExternalizedState := true
        imports := imports }) := by
  obtain ⟨htypes, hobjects, hmembers⟩ := hcapacity
  unfold initializeExternal typeIdentities
  rw [List.foldlM_append, collectImports_some]
  by_cases hnoTypes : typeCount facts = 0 <;> by_cases hnoObjects : facts.objects = [] <;>
    by_cases hnoMembers : memberCount facts = 0 <;>
      simp [hnoTypes, hnoObjects, hnoMembers, htypes, hobjects, hmembers] <;> rfl

/-! ## Agreement -/

def Alike {S κ : Type} [DecidableEq κ] (f : Format S κ) :
    Except InterfaceStop (BindingTable S) → Except InterfaceStop (BindingTable S) → Prop
  | .ok a, .ok b => a.inserted = b.inserted ∧ ∀ k, find f a.slots k = find f b.slots k
  | .error stop, .error stop' => stop' = stop ∧
      (stop = .failed .invalidArgument ∨ stop = .failed .semanticConflict)
  | _, _ => False

variable {S κ : Type} {f : Format S κ}

theorem alike_self [DecidableEq κ] {table : BindingTable S} {weight : Nat}
    {result : Except InterfaceStop (BindingTable S)} (h : Outcome f table weight result) :
    Alike f result result := by
  cases result with
  | ok table' => exact ⟨rfl, fun _ => rfl⟩
  | error stop => exact ⟨rfl, h⟩

theorem table_fresh {S κ : Type} {f : Format S κ} (hfree : f.free f.empty = true) {count : Nat}
    (hcapacity : capacityFor count ≠ 0) :
    Table f (List.replicate (capacityFor count) f.empty) [] ∧
      count < (List.replicate (capacityFor count) f.empty).length := by
  obtain ⟨n, heq, hlt⟩ := capacityFor_spec hcapacity
  rw [heq, List.length_replicate]
  exact ⟨table_replicate hfree n, hlt⟩

theorem typeIdentities_length : (typeIdentities facts).length = typeCount facts := by
  unfold typeIdentities typeCount
  rw [List.length_append, List.length_map, List.length_map]

theorem sum_ones {α : Type} (items : List α) : (items.map fun _ => 1).sum = items.length := by
  rw [List.map_const', List.sum_replicate_nat, Nat.mul_one]

theorem types_outcome (hcapacity : capacityFor (typeCount facts) ≠ 0) :
    Outcome typeFormat ⟨List.replicate (capacityFor (typeCount facts)) {}, []⟩ (typeCount facts)
      ((typeIdentities facts).foldlM (insertType view)
        ⟨List.replicate (capacityFor (typeCount facts)) {}, []⟩) := by
  obtain ⟨htable, hroom⟩ := @table_fresh _ _ typeFormat rfl _ hcapacity
  have hsum := sum_ones (typeIdentities facts)
  have hlength := @typeIdentities_length facts
  have hfold := @foldlM_outcome _ _ _ typeFormat (fun _ => 1) (insertType view) (typeIdentities facts)
    ⟨List.replicate (capacityFor (typeCount facts)) {}, []⟩
    (fun x _ table t hroom => insertType_outcome x t hroom) htable
    (by rw [hsum, hlength]; simpa using hroom)
  rwa [hsum, hlength] at hfold

theorem types_alike (hcapacity : capacityFor (typeCount facts) ≠ 0) :
    Alike typeFormat
      ((typeIdentities facts).foldlM (insertType view)
        ⟨List.replicate (capacityFor (typeCount facts)) {}, []⟩)
      ((typeIdentities facts).foldlM (insertTypeExternal view (typeCount facts))
        ⟨List.replicate (if typeCount facts = 0 then 0 else capacityFor (typeCount facts)) {}, []⟩) := by
  have houtcome := @types_outcome facts view hcapacity
  obtain ⟨htable, hroom⟩ := @table_fresh _ _ typeFormat rfl _ hcapacity
  have hlength := @typeIdentities_length facts
  by_cases hzero : typeCount facts = 0
  · have hnil : typeIdentities facts = [] := by
      apply List.eq_nil_of_length_eq_zero
      omega
    rw [if_pos hzero, hnil]
    exact ⟨rfl, fun k => (find_replicate rfl _ k).trans (find_replicate rfl 0 k).symm⟩
  · have hroom : typeCount facts < (List.replicate (capacityFor (typeCount facts))
        ({} : InterfaceTypeSlot)).length := hroom
    have hsame := @insertTypesExternal_eq view ⟨List.replicate (capacityFor (typeCount facts)) {}, []⟩
      (typeCount facts) (typeIdentities facts) htable
      (by rw [hlength]; simpa using hroom) (by rw [hlength]; simp)
    rw [if_neg hzero, hsame]
    exact alike_self houtcome

theorem objects_alike (hcapacity : capacityFor facts.objects.length ≠ 0) :
    Alike objectFormat
      (facts.objects.foldlM (insertObject view)
        ⟨List.replicate (capacityFor facts.objects.length) {}, []⟩)
      (if facts.objects = [] then .ok ⟨[], []⟩
        else facts.objects.foldlM (insertObject view)
          ⟨List.replicate (capacityFor facts.objects.length) {}, []⟩) := by
  by_cases hnil : facts.objects = []
  · rw [if_pos hnil, hnil]
    exact ⟨rfl, fun k => (find_replicate rfl _ k).trans (find_replicate rfl 0 k).symm⟩
  · rw [if_neg hnil]
    obtain ⟨htable, hroom⟩ := @table_fresh _ _ objectFormat rfl _ hcapacity
    have hsum := sum_ones facts.objects
    have hfold := @foldlM_outcome _ _ _ objectFormat (fun _ => 1) (insertObject view) facts.objects
      ⟨List.replicate (capacityFor facts.objects.length) {}, []⟩
      (fun x _ table t hroom => insertObject_outcome x t hroom) htable
      (by rw [hsum]; simpa using hroom)
    exact alike_self hfold

theorem members_alike (hvalid : Validated facts) (hcapacity : capacityFor (memberCount facts) ≠ 0)
    (htypes : ∀ item ∈ facts.records, item.identity.valid = true ∧ item.identity.kind = .type) :
    Alike memberFormat
      (facts.records.foldlM (insertMembers facts (badDefinition facts))
        ⟨List.replicate (capacityFor (memberCount facts)) {}, []⟩)
      (if memberCount facts = 0 then .ok ⟨[], []⟩
        else facts.records.foldlM (insertMembers facts (badDefinitionExternal facts))
          ⟨List.replicate (capacityFor (memberCount facts)) {}, []⟩) := by
  rw [insertMembers_agree hvalid]
  by_cases hzero : memberCount facts = 0
  · rw [if_pos hzero, insertMembers_none hvalid hzero htypes]
    exact ⟨rfl, fun k => (find_replicate rfl _ k).trans (find_replicate rfl 0 k).symm⟩
  · rw [if_neg hzero]
    obtain ⟨htable, hroom⟩ := @table_fresh _ _ memberFormat rfl _ hcapacity
    have hbad : ∀ item, badDefinitionExternal facts item = false → item.identity.valid = true := by
      intro item hgood
      unfold badDefinitionExternal at hgood
      cases hidentity : item.identity.valid with
      | true => rfl
      | false => simp [hidentity] at hgood
    have hfold := @foldlM_outcome _ _ _ memberFormat memberWeight
      (insertMembers facts (badDefinitionExternal facts)) facts.records
      ⟨List.replicate (capacityFor (memberCount facts)) {}, []⟩
      (fun x _ table t hroom => insertMembers_outcome hbad x t hroom) htable (by
        have hsum : (facts.records.map memberWeight).sum = memberCount facts := rfl
        rw [hsum]
        simpa using hroom)
    exact alike_self hfold

theorem not_available (hcapacity : ¬ HasCapacity facts) :
    initializeInterface facts view (imports.map some) retainCompactPersistence =
        .error (.failed .notAvailable) ∧
      initializeExternal facts view (imports.map some) true = .error (.failed .notAvailable) := by
  have hsixteen : capacityFor 0 = 16 := by decide
  have hcases : capacityFor (typeCount facts) = 0 ∨ capacityFor facts.objects.length = 0 ∨
      capacityFor (memberCount facts) = 0 := by
    unfold HasCapacity at hcapacity
    by_contra hnone
    exact hcapacity (by simpa [not_or] using hnone)
  have htypes : capacityFor (typeCount facts) = 0 → typeCount facts ≠ 0 := by
    intro hzero heq
    rw [heq, hsixteen] at hzero
    cases hzero
  have hobjects : capacityFor facts.objects.length = 0 → facts.objects ≠ [] := by
    intro hzero heq
    rw [heq, List.length_nil, hsixteen] at hzero
    cases hzero
  have hmembers : capacityFor (memberCount facts) = 0 → memberCount facts ≠ 0 := by
    intro hzero heq
    rw [heq, hsixteen] at hzero
    cases hzero
  constructor
  · unfold initializeInterface
    rcases hcases with hzero | hzero | hzero <;> simp [hzero] <;> rfl
  · unfold initializeExternal
    rcases hcases with hzero | hzero | hzero
    · simp [hzero, htypes hzero]
      rfl
    · simp [hzero, hobjects hzero]
      rfl
    · simp [hzero, hmembers hzero]
      rfl

theorem alike_cases [DecidableEq κ] {a b : Except InterfaceStop (BindingTable S)}
    (h : Alike f a b) : (∃ stop, a = .error stop ∧ b = .error stop ∧
      (stop = .failed .invalidArgument ∨ stop = .failed .semanticConflict)) ∨
    (∃ x y, a = .ok x ∧ b = .ok y ∧ x.inserted = y.inserted ∧
      ∀ k, find f x.slots k = find f y.slots k) := by
  cases a with
  | error stop =>
    cases b with
    | error stop' =>
      obtain ⟨rfl, hstop⟩ := h
      exact .inl ⟨_, rfl, rfl, hstop⟩
    | ok y => cases h
  | ok x =>
    cases b with
    | error stop' => cases h
    | ok y => exact .inr ⟨x, y, rfl, rfl, h⟩

/-- The two builds agree except where the types can be bound and one of them comes twice. -/
theorem interfaces_agree_iff (hvalid : validateSourceFacts facts = .ok ()) :
    SameOutcome (initializeInterface facts view (imports.map some) retainCompactPersistence)
        (initializeExternal facts view (imports.map some) true) ↔
      ¬ (HasCapacity facts ∧ Bindable view (typeIdentities facts) ∧
        ¬ (typeIdentities facts).Nodup) := by
  have hvalidated := validated_of_ok hvalid
  by_cases hcapacity : HasCapacity facts
  case neg =>
    obtain ⟨hincremental, hfull⟩ := @not_available facts view imports retainCompactPersistence hcapacity
    rw [hincremental, hfull]
    exact iff_of_true rfl fun h => hcapacity h.1
  have hlength := @typeIdentities_length facts
  obtain ⟨hfresh, hroom⟩ := @table_fresh _ _ typeFormat rfl _ hcapacity.1
  obtain ⟨hbinds, hexists⟩ := @insertTypes_binds view
    ⟨List.replicate (capacityFor (typeCount facts)) {}, []⟩ [] (typeIdentities facts) hfresh
      (by rw [hlength]; simpa using hroom) (bindsTypes_nil _)
  have houtcome := @types_outcome facts view hcapacity.1
  rw [initializeInterface_eq hcapacity, initializeExternal_eq hcapacity]
  rcases alike_cases (@types_alike facts view hcapacity.1) with
    ⟨stop, htypes, htypes', hstop⟩ | ⟨types, types', htypes, htypes', hinserted, hfindType⟩
  · -- both loops over the types fail alike
    rw [htypes, htypes']
    refine iff_of_true ?_ ?_
    · rcases hstop with rfl | rfl <;> rfl
    · intro h
      obtain ⟨table, hok⟩ := hexists h.2.1
      rw [htypes] at hok
      cases hok
  have hbound := hbinds types htypes
  rw [List.nil_append] at hbound
  rw [htypes] at houtcome
  have hcount := hbound.count_iff houtcome.1
  have hrecords : ∀ item ∈ facts.records, item.identity.valid = true ∧ item.identity.kind = .type :=
    fun item hitem => hbound.bindable.type _
      (List.mem_append_left _ (List.mem_map_of_mem hitem))
  rw [htypes, htypes']
  by_cases hnodup : (typeIdentities facts).Nodup
  · refine iff_of_true ?_ fun h => h.2.2 hnodup
    have hsame : types'.inserted.length = typeCount facts := by
      rw [← hinserted, hcount.mpr hnodup, hlength]
    dsimp only [Bind.bind, Except.bind]
    rw [if_neg (not_not.mpr hsame)]
    dsimp only [Pure.pure, Except.pure]
    rcases alike_cases (@objects_alike facts view hcapacity.2.1) with
      ⟨stop, hobjects, hobjects', hstop⟩ | ⟨objects, objects', hobjects, hobjects', hobjectEntries, hfindObject⟩
    · rw [hobjects', hobjects]
      rcases hstop with rfl | rfl <;> rfl
    rw [hobjects', hobjects]
    dsimp only
    rcases alike_cases (members_alike hvalidated hcapacity.2.2 hrecords) with
      ⟨stop, hmembers, hmembers', hstop⟩ | ⟨members, members', hmembers, hmembers', hmemberEntries, hfindMember⟩
    · rw [hmembers', hmembers]
      rcases hstop with rfl | rfl <;> rfl
    rw [hmembers', hmembers]
    dsimp only
    exact ⟨by rw [hinserted], findType_congr hfindType rfl, findObject_congr hfindObject rfl,
      findMember_congr hfindMember rfl, by rw [hinserted, hsame], by rw [hinserted],
      by rw [hobjectEntries], by rw [hmemberEntries]⟩
  · refine iff_of_false ?_ fun h => h ⟨hcapacity, hbound.bindable, hnodup⟩
    have hdiffer : types'.inserted.length ≠ typeCount facts := by
      intro heq
      apply hnodup
      rw [← hcount, hinserted, heq, hlength]
    dsimp only [Bind.bind, Except.bind]
    rw [if_pos hdiffer]
    -- the incremental build goes on, and has no `initialization_failed` of its own
    rcases alike_cases (@objects_alike facts view hcapacity.2.1) with
      ⟨stop, hobjects, -, hstop⟩ | ⟨objects, objects', hobjects, -, -, -⟩
    · rw [hobjects]
      rcases hstop with rfl | rfl
      · intro hsame
        cases hsame
      · intro hsame
        cases hsame
    rw [hobjects]
    dsimp only
    rcases alike_cases (members_alike hvalidated hcapacity.2.2 hrecords) with
      ⟨stop, hmembers, -, hstop⟩ | ⟨members, members', hmembers, -, -, -⟩
    · rw [hmembers]
      rcases hstop with rfl | rfl
      · intro hsame
        cases hsame
      · intro hsame
        cases hsame
    rw [hmembers]
    exact fun hsame => hsame

end Paths

/-- The facts of `struct A; struct A { };`. -/
def forwardFacts : SourceFacts where
  source := 1
  sourceTextSize := 24
  records := [
    { identity := ⟨2147483650⟩, declaration := ⟨0, 9⟩ },
    { identity := ⟨2147483650⟩, declaration := ⟨10, 14⟩, declarationKind := .definition }]
  declarations := [
    { index := 0, kind := .recordType, declaration := ⟨0, 9⟩ },
    { index := 1, kind := .recordType, declaration := ⟨10, 14⟩ }]

def rootView : IdentityView := ⟨fun _ => ⟨1⟩, fun _ => 5⟩

theorem interfaces_agree_iff_forward :
    validateSourceFacts forwardFacts = .ok () ∧
      (SameOutcome (initializeInterface forwardFacts rootView ([].map some) true)
          (initializeExternal forwardFacts rootView ([].map some) true) ↔
        ¬ (HasCapacity forwardFacts ∧ Bindable rootView (typeIdentities forwardFacts) ∧
          ¬ (typeIdentities forwardFacts).Nodup)) :=
  ⟨by decide, interfaces_agree_iff (by decide)⟩

/-- The incremental build accepts what the full build refuses. -/
theorem forward_declaration_refused :
    validateSourceFacts forwardFacts = .ok () ∧
      (initializeInterface forwardFacts rootView [] true).map (·.localTypes) =
        .ok [⟨2147483650⟩] ∧
      initializeExternal forwardFacts rootView [] true =
        .error (.failed .initializationFailed) := by
  decide +kernel

end SourceInterface
end ServerEngine
