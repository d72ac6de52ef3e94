import ServerEngine.Builder.DetachedTypes

/-! # The detached Graph of a full build

Definitions, edges and links over the declared types. The Graph of a full build is sound: every base
is live, and every member's edge carries the first version.
-/
namespace ServerEngine
open Slice ErrorFold

namespace FullBuild

/-! ## Sources -/

def declarationsOf (storage : Storage) (state : SourceContributionState) :
    List (SourceContributionType × Nat) :=
  (slice storage.arenas.types state.types.begin state.types.count).zipIdx state.types.begin

theorem declarationsOf_get {storage : Storage} {state : SourceContributionState}
    {item : SourceContributionType × Nat} (h : item ∈ declarationsOf storage state) :
    storage.arenas.types[item.2]? = some item.1 := by
  obtain ⟨hle, hget⟩ := List.mem_zipIdx_iff_le_and_getElem?_sub.mp h
  have hlt := (List.getElem?_eq_some_iff.mp hget).1
  have hcount : item.2 - state.types.begin < state.types.count := by
    rw [slice, List.length_take] at hlt
    omega
  rw [slice_getElem? hcount] at hget
  have hpos : state.types.begin + (item.2 - state.types.begin) = item.2 := by omega
  rwa [hpos] at hget

def Seen (storage : Storage) (d : Declarations) (state : SourceContributionState) : Prop :=
  ∀ item ∈ declarationsOf storage state, d.declarationHandles.getD item.2 0 ≠ 0

section Sources
variable {storage : Storage} {capacity : Nat} {d d' : Declarations}

theorem declareSource_spec (hgenuine : storage.arenas.Genuine)
    (hd : Declared storage.arenas.types d) {state : SourceContributionState}
    (h : declareSource storage capacity d state = .ok d') : Declared storage.arenas.types d' ∧
      Seen storage d' state ∧
      ∀ i, d.declarationHandles.getD i 0 ≠ 0 → d'.declarationHandles.getD i 0 ≠ 0 := by
  unfold declareSource at h
  split at h
  · cases h
  have hall := foldlM_ok_rec (fun done d' => Declared storage.arenas.types d' ∧
    (∀ item ∈ done, d'.declarationHandles.getD item.2 0 ≠ 0) ∧
    ∀ i, d.declarationHandles.getD i 0 ≠ 0 → d'.declarationHandles.getD i 0 ≠ 0) h
    ⟨hd, by simp, fun _ hi => hi⟩ ?_
  · exact hall
  · intro done item d₁ d₂ hmem hdone hstep
    obtain ⟨hd₁, hseen, hmono⟩ := hdone
    have hget := @declarationsOf_get _ state _ hmem
    obtain ⟨hd₂, hself, hstay⟩ :=
      declare_spec hd₁ hget (hgenuine.types _ (List.mem_of_getElem? hget)) hstep
    refine ⟨hd₂, ?_, fun i hi => hstay i (hmono i hi)⟩
    intro other ho
    rcases List.mem_append.mp ho with ho | ho
    · exact hstay _ (hseen other ho)
    · rw [List.mem_singleton] at ho
      rw [ho]
      exact hself

theorem declareSources_spec (hgenuine : storage.arenas.Genuine)
    (hd : Declared storage.arenas.types d) {sources : List SourceContributionState}
    (h : sources.foldlM (declareSource storage capacity) d = .ok d') :
    Declared storage.arenas.types d' ∧ ∀ state ∈ sources, Seen storage d' state := by
  refine foldlM_ok_rec (fun done d' => Declared storage.arenas.types d' ∧
    ∀ state ∈ done, Seen storage d' state) h ⟨hd, by simp⟩ ?_
  intro done state d₁ d₂ _ hdone hstep
  obtain ⟨hd₁, hseen⟩ := hdone
  obtain ⟨hd₂, hself, hstay⟩ := declareSource_spec hgenuine hd₁ hstep
  refine ⟨hd₂, ?_⟩
  intro other ho
  rcases List.mem_append.mp ho with ho | ho
  · exact fun item hitem => hstay _ (hseen other ho item hitem)
  · rw [List.mem_singleton] at ho
    rw [ho]
    exact hself

end Sources

def BaseAt (identities : List IdentityRef) (type : SourceContributionTypeRef) (base : Nat) : Prop :=
  (type.identity = .null ∧ base = 0) ∨
    (type.identity ≠ .null ∧ base ≠ 0 ∧ identities[base - 1]? = some type.identity)

theorem baseHandle_ok {identities : List IdentityRef} {type : SourceContributionTypeRef}
    {base : Nat} (h : baseHandle identities type = .ok base) : BaseAt identities type base := by
  unfold baseHandle at h
  split at h
  · rename_i hnull
    cases h
    exact .inl ⟨hnull, rfl⟩
  · rename_i hne
    split at h
    · rename_i position hidx
      cases h
      obtain ⟨hlt, heq, -⟩ := List.findIdx?_eq_some_iff_getElem.mp hidx
      refine .inr ⟨hne, by omega, ?_⟩
      rw [Nat.add_sub_cancel, List.getElem?_eq_getElem hlt]
      simpa using heq
    · cases h

structure ObjectBases (identities : List IdentityRef) (objects : List SourceContributionObject)
    (state : List IdentityRef × List Nat) : Prop where
  declared : state.1 = objects.map (·.identity)
  nodup : state.1.Nodup
  length : state.2.length = objects.length
  bases : ∀ (i : Nat) (o : SourceContributionObject), objects[i]? = some o →
    ∃ base, state.2[i]? = some base ∧ BaseAt identities o.type base

theorem declareObjects_spec {capacity : Nat} {identities : List IdentityRef}
    {objects : List SourceContributionObject} {state : List IdentityRef × List Nat}
    (h : objects.foldlM (declareObject capacity identities) ([], []) = .ok state) :
    ObjectBases identities objects state := by
  refine foldlM_ok_rec (fun done state => ObjectBases identities done state) h ?_ ?_
  · exact ⟨rfl, List.nodup_nil, rfl, by simp⟩
  · intro done object s s' _ hdone hstep
    obtain ⟨⟨handle, inserted⟩, hfind, hstep⟩ := bind_ok.mp hstep
    obtain ⟨-, hcase⟩ := insertOrFind_spec hfind
    dsimp only at hstep
    split at hstep
    · cases hstep
    rename_i hins
    rw [Bool.not_eq_true', Bool.not_eq_false] at hins
    rw [if_pos hins] at hcase
    obtain ⟨base, hbase, hstep⟩ := bind_ok.mp hstep
    cases hstep
    refine ⟨?_, ?_, ?_, ?_⟩
    · rw [List.map_append, hdone.declared]
      rfl
    · rw [List.nodup_append]
      refine ⟨hdone.nodup, by simp, ?_⟩
      intro a ha b hb heq
      rw [List.mem_singleton] at hb
      exact hcase.2 (by rw [← hb, ← heq]; exact ha)
    · simp [hdone.length]
    · intro i o hi
      rw [List.getElem?_append] at hi
      split at hi
      · rename_i hlt
        obtain ⟨b, hb, hat⟩ := hdone.bases i o hi
        exact ⟨b, by rw [List.getElem?_append_left (by rw [hdone.length]; exact hlt), hb], hat⟩
      · rename_i hge
        have hzero : i - done.length = 0 := by
          have := (List.getElem?_eq_some_iff.mp hi).1
          rw [List.length_singleton] at this
          omega
        rw [hzero] at hi
        cases hi
        refine ⟨base, ?_, baseHandle_ok hbase⟩
        rw [List.getElem?_append_right (by rw [hdone.length]; omega), hdone.length, hzero]
        rfl

section Expressions
variable {storage : Storage} {typeCount : Nat} {t t' : TypeTable}
  {items : List (SourceContributionTypeRef × Nat)} {refs : List TypeRef}

def Refs (canonical : List CanonicalTypeRecord) (items : List (SourceContributionTypeRef × Nat))
    (refs : List TypeRef) : Prop :=
  refs.length = items.length ∧ ∀ (i : Nat) (item : SourceContributionTypeRef × Nat),
    items[i]? = some item → ∃ ref, refs[i]? = some ref ∧ ∃ modifiers,
      Denotes canonical ref (TypeTable.baseOf item.1 item.2) modifiers

theorem materializeAll_spec (ht : t.Exact typeCount)
    (h : items.foldlM (materializeNext storage) (t, []) = .ok (t', refs)) :
    t'.Exact typeCount ∧ TypeTable.Grows t t' (items.map (·.1.modifiers.count)).sum ∧
      Refs t'.canonicalTypes items refs := by
  have hall := foldlM_ok_rec (fun done (s : TypeTable × List TypeRef) => s.1.Exact typeCount ∧
    TypeTable.Grows t s.1 (done.map (·.1.modifiers.count)).sum ∧
    Refs s.1.canonicalTypes done s.2) h ⟨ht, .refl t, rfl, by simp⟩ ?_
  · exact hall
  · intro done item s s' _ hdone hstep
    obtain ⟨ht₁, hgrow₁, hlength, hrefs⟩ := hdone
    obtain ⟨⟨t₂, ref⟩, htype, hstep⟩ := bind_ok.mp hstep
    obtain ⟨ht₂, hgrow₂, modifiers, hd⟩ := TypeTable.materializeType_spec ht₁ htype
    cases hstep
    refine ⟨ht₂, ?_, ?_, ?_⟩
    · have hsum := hgrow₁.trans hgrow₂
      simpa using hsum
    · simp [hlength]
    · intro i other hi
      rw [List.getElem?_append] at hi
      split at hi
      · rename_i hlt
        obtain ⟨r, hr, ms, hdr⟩ := hrefs i other hi
        exact ⟨r, by rw [List.getElem?_append_left (by rw [hlength]; exact hlt), hr], ms,
          hgrow₂.denotes hdr⟩
      · have hzero : i - done.length = 0 := by
          have := (List.getElem?_eq_some_iff.mp hi).1
          rw [List.length_singleton] at this
          omega
        rw [hzero] at hi
        cases hi
        refine ⟨ref, ?_, modifiers, hd⟩
        rw [List.getElem?_append_right (by rw [hlength]; omega), hlength, hzero]
        rfl

end Expressions

/-! ## Definitions -/

/-- A member of a definition is known through one edge of the first version. -/
def Depends (canonical : List CanonicalTypeRecord) (typeCount : Nat) (d : Definitions)
    (owner : TypeHandle) (member : MemberRecord) : Prop :=
  ∃ base modifiers, Denotes canonical member.type base modifiers ∧
    ∀ target, base = .named target → (target ≠ 0 ∧ target ≤ typeCount) ∧
      ∃ edge, OnChain d.dependencyEdges d.reverseDependencyHeads target edge ∧
        edge.ownerHandle = owner ∧ edge.ownerVersion = 1

def Item (canonical : List CanonicalTypeRecord) (identities : List IdentityRef)
    (item : SourceContributionMember × TypeRef × Nat) : Prop :=
  BaseAt identities item.1.type item.2.2 ∧ ∃ modifiers,
    Denotes canonical item.2.1 (TypeTable.baseOf item.1.type item.2.2) modifiers

/-- Members have been added to a definition of the owner; chains have only grown. -/
structure Extends (canonical : List CanonicalTypeRecord) (typeCount : Nat) (owner : TypeHandle)
    (d d' : Definitions) (count : Nat) : Prop where
  types : d'.types = d.types
  seen : d'.definitionSeen = d.definitionSeen
  heads : d'.reverseDependencyHeads.length = d.reverseDependencyHeads.length
  chains : ∀ target edge, OnChain d.dependencyEdges d.reverseDependencyHeads target edge →
    OnChain d'.dependencyEdges d'.reverseDependencyHeads target edge
  members : ∃ added, d'.members = d.members ++ added ∧ added.length = count ∧
    ∀ m ∈ added, Depends canonical typeCount d' owner m

section Definitions
variable {canonical : List CanonicalTypeRecord} {identities : List IdentityRef} {typeCount : Nat}
  {owner : TypeHandle} {d d' d'' : Definitions}

theorem Depends.mono {member : MemberRecord} (h : Depends canonical typeCount d owner member)
    (hchains : ∀ target edge, OnChain d.dependencyEdges d.reverseDependencyHeads target edge →
      OnChain d'.dependencyEdges d'.reverseDependencyHeads target edge) :
    Depends canonical typeCount d' owner member := by
  obtain ⟨base, modifiers, hd, hbase⟩ := h
  refine ⟨base, modifiers, hd, ?_⟩
  intro target ht
  obtain ⟨hrange, edge, hedge, howner⟩ := hbase target ht
  exact ⟨hrange, edge, hchains target edge hedge, howner⟩

theorem Extends.refl (d : Definitions) : Extends canonical typeCount owner d d 0 :=
  ⟨rfl, rfl, rfl, fun _ _ h => h, [], by simp, rfl, by simp⟩

theorem Extends.trans {m n : Nat} (h : Extends canonical typeCount owner d d' m)
    (h' : Extends canonical typeCount owner d' d'' n) :
    Extends canonical typeCount owner d d'' (m + n) := by
  obtain ⟨a, ha, hlen, hdep⟩ := h.members
  obtain ⟨b, hb, hlen', hdep'⟩ := h'.members
  refine ⟨h'.types.trans h.types, h'.seen.trans h.seen, h'.heads.trans h.heads, ?_, a ++ b, ?_, ?_,
    ?_⟩
  · intro target edge hedge
    exact h'.chains target edge (h.chains target edge hedge)
  · rw [hb, ha, List.append_assoc]
  · rw [List.length_append, hlen, hlen']
  · intro x hx
    rcases List.mem_append.mp hx with hx | hx
    · exact (hdep x hx).mono h'.chains
    · exact hdep' x hx

theorem defineMember_extends (hheads : d.reverseDependencyHeads.length = identities.length)
    {item : SourceContributionMember × TypeRef × Nat} (hi : Item canonical identities item) :
    Extends canonical identities.length owner d (defineMember owner d item) 1 := by
  obtain ⟨member, ref, base⟩ := item
  obtain ⟨hbase, modifiers, hd⟩ := hi
  dsimp only at hbase hd
  unfold defineMember
  dsimp only
  by_cases hne : member.type.identity ≠ .null
  · rw [if_pos hne]
    obtain ⟨hnull, -⟩ | ⟨-, hne0, hget⟩ := hbase
    · exact absurd hnull hne
    have hlt := (List.getElem?_eq_some_iff.mp hget).1
    rw [TypeTable.baseOf, if_pos hne] at hd
    have hnew := @publishEdge_new (d.dependencyEdges, d.reverseDependencyHeads)
      ⟨base, owner, 1⟩ (by rw [hheads]; exact hlt)
    refine ⟨rfl, rfl, List.length_set, ?_, [_], rfl, rfl, ?_⟩
    · intro target edge hedge
      exact @publishEdge_old (d.dependencyEdges, d.reverseDependencyHeads)
        ⟨base, owner, 1⟩ _ _ hedge
    · intro m hm
      rw [List.mem_singleton] at hm
      rw [hm]
      refine ⟨.named base, modifiers, hd, ?_⟩
      intro target ht
      cases ht
      have hle : base ≤ identities.length := by omega
      exact ⟨⟨hne0, hle⟩, hnew⟩
  · rw [if_neg hne]
    rw [TypeTable.baseOf, if_neg hne] at hd
    refine ⟨rfl, rfl, rfl, fun _ _ h => h, [_], rfl, rfl, ?_⟩
    intro m hm
    rw [List.mem_singleton] at hm
    rw [hm]
    refine ⟨_, modifiers, hd, ?_⟩
    intro target ht
    cases ht

theorem defineMembers_extends {items : List (SourceContributionMember × TypeRef × Nat)}
    (hheads : d.reverseDependencyHeads.length = identities.length)
    (hi : ∀ item ∈ items, Item canonical identities item) :
    Extends canonical identities.length owner d (items.foldl (defineMember owner) d)
      items.length := by
  induction items generalizing d with
  | nil => exact .refl d
  | cons item rest ih =>
    have hfirst := @defineMember_extends _ _ owner _ hheads _ (hi item List.mem_cons_self)
    have hrest := ih (d := defineMember owner d item) (hfirst.heads.trans hheads)
      fun other ho => hi other (List.mem_cons_of_mem _ ho)
    rw [List.length_cons, Nat.add_comm]
    exact hfirst.trans hrest

/-- After some definitions: every entry is live, one without a definition has none, and the members
of a defined record are all there. -/
structure Defined (canonical : List CanonicalTypeRecord) (types : List TypeEntry)
    (d : Definitions) : Prop where
  shapes : d.types.map entryShape = types.map entryShape
  live : ∀ e ∈ d.types, e.live = true
  heads : d.reverseDependencyHeads.length = types.length
  members : ∀ m ∈ d.members, ∃ base modifiers, Denotes canonical m.type base modifiers
  records : ∀ (i : Nat) (e : TypeEntry), d.types[i]? = some e → e.kind = .record →
    e.defined = true → ∀ j < e.definition.count, ∃ m,
      d.members[e.definition.begin - 1 + j]? = some m ∧
        Depends canonical types.length d (i + 1) m

variable {types : List TypeEntry}

theorem Defined.length (h : Defined canonical types d) : d.types.length = types.length := by
  simpa using congrArg List.length h.shapes

theorem defined_start (hlive : ∀ e ∈ types, e.live = true ∧ e.definition = {}) (n : Nat) :
    Defined canonical types {
      types, definitionSeen := List.replicate n false
      reverseDependencyHeads := List.replicate types.length 0 } := by
  refine ⟨rfl, fun e he => (hlive e he).1, List.length_replicate, by simp, ?_⟩
  intro i e hget _ hdefined
  rw [TypeEntry.defined, (hlive e (List.mem_of_getElem? hget)).2] at hdefined
  cases hdefined

variable {e e' : TypeEntry}

theorem shapes_set {es : List TypeEntry} {i : Nat} (hget : es[i]? = some e)
    (hshape : entryShape e' = entryShape e) : (es.set i e').map entryShape = es.map entryShape := by
  obtain ⟨hlt, heq⟩ := List.getElem?_eq_some_iff.mp hget
  rw [List.map_set, hshape, ← heq]
  have hself := @List.set_getElem_self _ (es.map entryShape) i (by simpa using hlt)
  rwa [List.getElem_map] at hself

variable {storage : Storage} {memberTypes : List TypeRef} {memberBases : List Nat} {handle : Nat}

theorem defineRecord_defined (h : Defined canonical types d) (hne : handle ≠ 0)
    (hget : d.types[handle - 1]? = some e) (hslots : types.length = identities.length)
    (hitems : ∀ item ∈ storage.arenas.members.zip (memberTypes.zip memberBases), Item canonical identities item)
    (hlength : (storage.arenas.members.zip (memberTypes.zip memberBases)).length = storage.arenas.members.length)
    {items : SourceFactRange}
    (hstep : defineRecord storage memberTypes memberBases handle items d = .ok d') :
    Defined canonical types d' := by
  unfold defineRecord at hstep
  split at hstep
  · cases hstep
  rename_i hguard
  simp only [Bool.or_eq_true, decide_eq_true_eq, not_or, Nat.not_lt, gt_iff_lt] at hguard
  have hgetD : d.types.getD (handle - 1) default = e := by
    rw [List.getD_eq_getElem?_getD, hget]
    rfl
  dsimp only at hstep
  rw [hgetD] at hstep
  generalize hentry : ({ e with definition := ⟨d.members.length + 1, items.count⟩ } : TypeEntry) =
    entry at hstep
  have hext := @defineMembers_extends canonical _ handle
    { d with types := d.types.set (handle - 1) entry }
    (slice (storage.arenas.members.zip (memberTypes.zip memberBases)) items.begin
      items.count) (h.heads.trans hslots) fun item hi => hitems item (mem_of_mem_slice hi)
  rw [slice_length (by rw [hlength]; omega)] at hext
  cases hstep
  obtain ⟨added, hmembers, hadded, hdepends⟩ := hext.members
  have htypes := hext.types
  dsimp only at htypes hmembers
  refine ⟨?_, ?_, hext.heads.trans h.heads, ?_, ?_⟩
  · rw [htypes, shapes_set hget (by rw [← hentry]; rfl), h.shapes]
  · intro x hx
    rw [htypes] at hx
    rcases List.mem_or_eq_of_mem_set hx with hx | rfl
    · exact h.live x hx
    · rw [← hentry]
      exact h.live e (List.mem_of_getElem? hget)
  · intro m hm
    rw [hmembers] at hm
    rcases List.mem_append.mp hm with hm | hm
    · exact h.members m hm
    · obtain ⟨base, modifiers, hd, -⟩ := hdepends m hm
      exact ⟨base, modifiers, hd⟩
  · intro i x hx hkind hdefined j hj
    rw [htypes] at hx
    rw [hmembers]
    by_cases hi : handle - 1 = i
    · -- the entry just defined: its members are the added ones
      subst hi
      rw [List.getElem?_set_self (List.getElem?_eq_some_iff.mp hget).1] at hx
      cases hx
      have hcount' : entry.definition.count = items.count := by rw [← hentry]
      have hlt : j < added.length := by omega
      have hbegin' : entry.definition.begin = d.members.length + 1 := by rw [← hentry]
      refine ⟨added[j], ?_, ?_⟩
      · rw [hbegin', Nat.add_sub_cancel, List.getElem?_append_right (by omega), Nat.add_sub_cancel_left]
        exact List.getElem?_eq_getElem hlt
      · rw [show handle - 1 + 1 = handle by omega, hslots]
        exact hdepends _ (List.getElem_mem hlt)
    · rw [List.getElem?_set_ne hi] at hx
      obtain ⟨m, hm, hdep⟩ := h.records i x hx hkind hdefined j hj
      refine ⟨m, ?_, hdep.mono hext.chains⟩
      rw [List.getElem?_append_left (List.getElem?_eq_some_iff.mp hm).1]
      exact hm

variable {contribution : SourceContributionType}

theorem settleUnderlying_entry {abi : AbiConfiguration}
    {values : List SourceContributionEnumValue}
    (h : settleUnderlying abi contribution values e = .ok e') :
    entryShape e' = entryShape e ∧ e'.live = e.live := by
  unfold settleUnderlying at h
  split at h
  · cases h
    exact ⟨rfl, rfl⟩
  split at h
  · cases h
    exact ⟨rfl, rfl⟩
  split at h
  · cases h
    exact ⟨rfl, rfl⟩
  · obtain ⟨underlying, -, h⟩ := bind_ok.mp h
    cases h
    exact ⟨rfl, rfl⟩

theorem defineEnum_defined (h : Defined canonical types d) (hget : d.types[handle - 1]? = some e)
    (henum : e.kind = .enumeration) {abi : AbiConfiguration}
    (hstep : defineEnum abi storage contribution handle d = .ok d') :
    Defined canonical types d' := by
  unfold defineEnum at hstep
  dsimp only at hstep
  split at hstep
  · cases hstep
  have hgetD : d.types.getD (handle - 1) default = e := by
    rw [List.getD_eq_getElem?_getD, hget]
    rfl
  rw [hgetD] at hstep
  obtain ⟨entry, hsettle, hstep⟩ := bind_ok.mp hstep
  obtain ⟨hshape, hlive⟩ := settleUnderlying_entry hsettle
  cases hstep
  refine ⟨?_, ?_, h.heads, h.members, ?_⟩
  · refine (shapes_set hget ?_).trans h.shapes
    exact hshape
  · intro x hx
    rcases List.mem_or_eq_of_mem_set hx with hx | rfl
    · exact h.live x hx
    · exact hlive.trans (h.live e (List.mem_of_getElem? hget))
  · intro i x hx hrecord hdefined j hj
    by_cases hi : handle - 1 = i
    · subst hi
      rw [List.getElem?_set_self (List.getElem?_eq_some_iff.mp hget).1] at hx
      cases hx
      have hcontra : entry.kind = .record := hrecord
      rw [show entry.kind = e.kind from congrArg Prod.fst hshape, henum] at hcontra
      cases hcontra
    · rw [List.getElem?_set_ne hi] at hx
      exact h.records i x hx hrecord hdefined j hj

variable {abi : AbiConfiguration} {declarations : Declarations}
variable {item : SourceContributionType × Nat}

theorem define_entry (hdeclared : Declared storage.arenas.types declarations)
    (h : Defined canonical declarations.types d)
    (hat : storage.arenas.types[item.2]? = some item.1)
    (hseen : declarations.declarationHandles.getD item.2 0 ≠ 0) :
    ∃ e, d.types[declarations.declarationHandles.getD item.2 0 - 1]? = some e ∧
      Agrees item.1 e := by
  generalize hhandle : declarations.declarationHandles.getD item.2 0 = handle at hseen
  have hget : declarations.declarationHandles[item.2]? = some handle := by
    rw [List.getD_eq_getElem?_getD] at hhandle
    cases ho : declarations.declarationHandles[item.2]? with
    | none =>
      rw [ho] at hhandle
      exact absurd hhandle.symm hseen
    | some value =>
      rw [ho] at hhandle
      exact congrArg some hhandle
  obtain ⟨t, e, ht, -, he, hagrees⟩ := hdeclared.handles item.2 handle hget hseen
  rw [hat] at ht
  cases ht
  have hmap := congrArg (fun shapes : List (GraphTypeKind × Bool) => shapes[handle - 1]?) h.shapes
  simp only [List.getElem?_map, he, Option.map_some] at hmap
  cases ho : d.types[handle - 1]? with
  | none =>
    rw [ho] at hmap
    cases hmap
  | some e' =>
    rw [ho] at hmap
    exact ⟨e', rfl, hagrees.congr (Option.some.inj hmap)⟩

theorem define_defined (hdeclared : Declared storage.arenas.types declarations)
    (h : Defined canonical declarations.types d)
    (hat : storage.arenas.types[item.2]? = some item.1)
    (hseen : declarations.declarationHandles.getD item.2 0 ≠ 0)
    (hitems : ∀ item ∈ storage.arenas.members.zip (memberTypes.zip memberBases), Item canonical declarations.identities item)
    (hlength : (storage.arenas.members.zip (memberTypes.zip memberBases)).length = storage.arenas.members.length)
    (hstep : define abi storage declarations.declarationHandles memberTypes memberBases d item = .ok d') :
    Defined canonical declarations.types d' := by
  obtain ⟨e, he, hagrees⟩ := define_entry hdeclared h hat hseen
  unfold define at hstep
  split at hstep
  · cases hstep
    exact h
  dsimp only at hstep
  split at hstep
  · cases hstep
  generalize hhandle : declarations.declarationHandles.getD item.2 0 = handle at hstep hseen he
  have hd : Defined canonical declarations.types
      { d with definitionSeen := d.definitionSeen.set (handle - 1) true } :=
    ⟨h.shapes, h.live, h.heads, h.members, h.records⟩
  unfold Agrees at hagrees
  split at hstep
  · exact defineRecord_defined hd hseen he hdeclared.slots hitems hlength hstep
  · rename_i henum
    rw [henum] at hagrees
    exact defineEnum_defined hd he hagrees.1 hstep

theorem defineSources_defined (hdeclared : Declared storage.arenas.types declarations)
    {sources : List SourceContributionState}
    (hseen : ∀ state ∈ sources, Seen storage declarations state)
    (h : Defined canonical declarations.types d)
    (hitems : ∀ item ∈ storage.arenas.members.zip (memberTypes.zip memberBases),
      Item canonical declarations.identities item)
    (hlength : (storage.arenas.members.zip (memberTypes.zip memberBases)).length =
      storage.arenas.members.length)
    (hstep : sources.foldlM (defineSource abi storage declarations.declarationHandles memberTypes
      memberBases) d = .ok d') : Defined canonical declarations.types d' := by
  refine foldlM_ok_invariant (Defined canonical declarations.types) hstep h ?_
  intro state d₁ d₂ hmem hd₁ hsource
  refine foldlM_ok_invariant (Defined canonical declarations.types) hsource hd₁ ?_
  intro item d₃ d₄ hitem hd₃ hone
  have hat : item ∈ declarationsOf storage state := hitem
  exact define_defined hdeclared hd₃ (declarationsOf_get hat) (hseen state hmem item hat) hitems
    hlength hone

end Definitions

end FullBuild

end ServerEngine
