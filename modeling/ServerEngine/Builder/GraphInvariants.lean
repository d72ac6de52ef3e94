import ServerEngine.Builder.Reachable

/-! # Invariants of published Graphs

What holds in every Graph that full and incremental builds publish: queries by identity and by target
are exact, type references are interned and well founded, and every member of a live definition ends
at a type that is there.
-/
namespace ServerEngine
open Slice ErrorFold

/-! ## Queries by identity and by target -/

def liveHandle {α : Type} (values : List α) (live : α → Bool) (found : Option Nat) : Option Nat :=
  found.filter fun handle => values[handle - 1]?.any live

namespace Graph

def findTypeByIdentity (g : Graph) (identity : IdentityRef) : Option TypeHandle :=
  liveHandle g.types (·.live) (g.findIdentity identity)

def findObjectByIdentity (g : Graph) (identity : IdentityRef) : Option ObjectHandle :=
  liveHandle g.objectEntries (·.live) (g.findObjectIdentity identity)

def findLinkByTarget (g : Graph) (target : ObjectEndpoint) : Option LinkHandle :=
  liveHandle g.linkRecords LinkRecord.live (g.findLinkRaw target)

/-- The queries answer with the one live slot that carries what is asked for. -/
structure ExactQueries (g : Graph) : Prop where
  types : ∀ identity (handle : Nat), g.findTypeByIdentity identity = some handle ↔
    handle ≠ 0 ∧ g.identities[handle - 1]? = some identity ∧
      ∃ e, g.types[handle - 1]? = some e ∧ e.live = true
  objects : ∀ identity (handle : Nat), g.findObjectByIdentity identity = some handle ↔
    handle ≠ 0 ∧ g.objectIdentities[handle - 1]? = some identity ∧
      ∃ e, g.objectEntries[handle - 1]? = some e ∧ e.live = true
  links : ∀ target (handle : Nat), g.findLinkByTarget target = some handle ↔
    handle ≠ 0 ∧ ∃ l, g.linkRecords[handle - 1]? = some l ∧ l.target = target ∧ l.live = true
  typeIdentities : g.identities.Nodup
  objectIdentities : g.objectIdentities.Nodup
  linkTargets : (g.linkRecords.map (·.target)).Nodup

end Graph

/-- A table on which every probe ends: a power of two of slots, one of them empty. -/
structure EndingTable (slots : List IndexSlot) : Prop where
  size : ∃ n, slots.length = 2 ^ n
  emptySlot : ∃ slot ∈ slots, slot.handle = 0
  probes : ∀ hash same, (IndexSlots.probe slots hash same).isSome

/-- Without types the identity index has no slots, and no query or insertion probes it. -/
structure Graph.EndingTables (g : Graph) : Prop where
  identities : EndingTable g.identityIndex ∨ (g.identityIndex = [] ∧ g.types = [])
  objectIdentities : EndingTable g.objectIdentityIndex
  links : EndingTable g.linkIndex
  derived : EndingTable g.derivedIndex

section Exact
variable {g : Graph} {κ : Type} {keys : List κ}

theorem liveHandle_iff {α : Type} {values : List α} {live : α → Bool} {found : Option Nat}
    {key : κ}
    (hfound : ∀ handle : Nat, found = some handle ↔ handle ≠ 0 ∧ keys[handle - 1]? = some key)
    (handle : Nat) :
    liveHandle values live found = some handle ↔ handle ≠ 0 ∧ keys[handle - 1]? = some key ∧
      ∃ e, values[handle - 1]? = some e ∧ live e = true := by
  have hany : values[handle - 1]?.any live = true ↔
      ∃ e, values[handle - 1]? = some e ∧ live e = true := by
    cases values[handle - 1]? <;> simp
  rw [liveHandle, Option.filter_eq_some_iff, hfound, hany, and_assoc]

theorem exactQueries_of (h : Candidate.Committed g) : g.ExactQueries := by
  refine ⟨?_, ?_, ?_, h.typeIndex.index.nodup, h.objectIndex.index.nodup, h.linkIndex.index.nodup⟩
  · intro identity
    exact liveHandle_iff fun _ => Graph.findIdentity_iff h.typeIndex
  · intro identity
    exact liveHandle_iff fun _ => Graph.findObjectIdentity_iff h.objectIndex
  · intro target handle
    unfold Graph.findLinkByTarget
    rw [liveHandle_iff fun _ => Graph.findLinkRaw_iff h.linkIndex]
    constructor
    · intro ⟨hne, htarget, l, hl, hlive⟩
      rw [List.getElem?_map, hl] at htarget
      exact ⟨hne, l, hl, Option.some.inj htarget, hlive⟩
    · intro ⟨hne, l, hl, htarget, hlive⟩
      refine ⟨hne, ?_, l, hl, hlive⟩
      rw [List.getElem?_map, hl, Option.map_some, htarget]

variable {hash : κ → Nat} {slots : List IndexSlot}

theorem endingTable_of {entries : List (κ × Nat)} (h : IndexSlots.Table hash slots entries)
    (hroom : entries.length < slots.length) : EndingTable slots := by
  have hne : slots ≠ [] := by
    intro hnil
    rw [hnil] at hroom
    cases hroom
  refine ⟨h.size.resolve_left hne, ?_, h.probe_isSome hroom⟩
  by_contra hfull
  have hall : slots.countP (·.handle != 0) = slots.length := by
    rw [List.countP_eq_length]
    intro slot hslot
    have hoccupied : slot.handle ≠ 0 := fun hzero => hfull ⟨slot, hslot, hzero⟩
    simpa using hoccupied
  have hcount := h.count
  omega

theorem endingTable_keyed (h : IndexSlots.Keyed hash slots keys) (hne : slots ≠ []) :
    EndingTable slots := by
  refine endingTable_of h.table ?_
  rw [List.length_zipIdx]
  rcases h.room with hnil | hlt
  · rw [hnil]
    exact List.length_pos_iff.mpr hne
  · exact hlt

theorem endingTables_of (h : Candidate.Committed g) (hslots : g.Slotted) : g.EndingTables := by
  have hne : ∀ {slots : List IndexSlot}, 8 ≤ slots.length → slots ≠ [] := by
    intro slots h8 hnil
    rw [hnil] at h8
    cases h8
  refine ⟨?_, endingTable_keyed h.objectIndex.index (hne hslots.objects),
    endingTable_keyed h.linkIndex.index (hne hslots.links),
    endingTable_of h.canonical.derived h.canonical.derivedRoom⟩
  by_cases hnil : g.identityIndex = []
  · right
    have hkeys : g.identities = [] := by
      refine h.typeIndex.index.room.resolve_right fun hlt => ?_
      rw [hnil] at hlt
      cases hlt
    refine ⟨hnil, List.length_eq_zero_iff.mp ?_⟩
    rw [h.typeSlots, hkeys]
    rfl
  · exact .inl (endingTable_keyed h.typeIndex.index hnil)

end Exact

/-- Source 1: `struct A { int x; A* next; };` and an object of type `A`. -/
def listFacts : SourceFacts where
  source := 1
  sourceTextSize := 40
  records := [{ identity := ⟨2 * 2 ^ 30 + 1⟩, members := ⟨0, 2⟩, declaration := ⟨0, 30⟩
                declarationKind := .definition }]
  members := [{ type := { intrinsic := .signedInt, spelling := ⟨11, 3⟩ }, name := 7
                declaration := ⟨11, 6⟩ },
              { type := { identity := ⟨2 * 2 ^ 30 + 1⟩, modifiers := ⟨0, 1⟩, spelling := ⟨18, 2⟩ }
                name := 8, declaration := ⟨18, 8⟩ }]
  modifiers := [{ kind := .pointer }]
  objects := [{ identity := ⟨3 * 2 ^ 30 + 2⟩
                type := { identity := ⟨2 * 2 ^ 30 + 1⟩, modifiers := ⟨1, 0⟩, spelling := ⟨32, 1⟩ }
                declaration := ⟨32, 4⟩ }]

def listGeneration : Generation :=
  (({} : Generation).build (.full {} [listFacts])).toOption.getD {}

theorem listFacts_genuine : listFacts.Genuine := by
  refine ⟨?_, ?_, ?_, ?_⟩ <;> simp [listFacts, IdentityRef.Genuine, IdentityRef.valid,
    IdentityRef.slot, IdentityRef.null]

theorem listGeneration_published : listGeneration.Published := by
  refine ⟨{}, Force.none, .full {} [listFacts], .initial, ?_, ?_⟩
  · intro facts hfacts
    rw [List.mem_singleton] at hfacts
    rw [hfacts]
    exact listFacts_genuine
  · have hsome : (({} : Generation).build (.full {} [listFacts])).toOption.isSome = true := by
      decide +kernel
    unfold listGeneration
    cases hbuild : ({} : Generation).build (.full {} [listFacts]) with
    | ok s => rfl
    | error e =>
      rw [hbuild] at hsome
      cases hsome

namespace Graph

def Stores (g : Graph) (type : TypeRef) : Prop :=
  type ≠ 0 ∧ ((∃ m ∈ g.memberRecords, m.type = type) ∨ ∃ o ∈ g.objectEntries, o.type = type)

inductive SameExpression (g : Graph) : Nat → Nat → Prop
  | intrinsic {a b : Nat} {value : IntrinsicType} : g.intrinsic a = some value →
    g.intrinsic b = some value → SameExpression g a b
  | named {a b : Nat} {handle : TypeHandle} : g.namedRaw a = some handle →
    g.namedRaw b = some handle → SameExpression g a b
  | derived {a b : Nat} {r s : DerivedTypeRecord} : g.derived a = some r → g.derived b = some s →
    r.kind = s.kind → r.payload = s.payload → SameExpression g r.child s.child →
    SameExpression g a b

/-- One step of a walk along `derived`. -/
def Child (g : Graph) (type child : Nat) : Prop :=
  ∃ r, g.derived type = some r ∧ r.child = child

end Graph

theorem DerivedTypeKind.code_ofCode (code : Nat) :
    (DerivedTypeKind.ofCode code).code = code := by
  match code with
  | 0 | 1 | 2 | 3 | 4 | 5 | 6 => rfl
  | _ + 7 => rfl

theorem IntrinsicType.ofCode_code (t : IntrinsicType) : IntrinsicType.ofCode t.code = t := by
  cases t <;> rfl

section TypeRefs
variable {g : Graph} {a b type : Nat} {r : CanonicalTypeRecord}

theorem canonical_record (h : g.canonical type = some r) :
    type ≠ 0 ∧ g.canonicalTypes[type]? = some r := by
  unfold Graph.canonical at h
  split at h
  · cases h
  · rename_i hne
    exact ⟨hne, h⟩

theorem intrinsic_record {value : IntrinsicType} (h : g.intrinsic type = some value) : ∃ r,
    type ≠ 0 ∧ g.canonicalTypes[type]? = some r ∧ r.kind = .intrinsic ∧
      value = .ofCode r.detail := by
  unfold Graph.intrinsic at h
  split at h
  · rename_i r hr
    split at h
    · rename_i hk
      cases h
      obtain ⟨hne, hget⟩ := canonical_record hr
      exact ⟨r, hne, hget, hk, rfl⟩
    · cases h
  · cases h

theorem namedRaw_record {handle : TypeHandle} (h : g.namedRaw type = some handle) : ∃ r,
    type ≠ 0 ∧ g.canonicalTypes[type]? = some r ∧ r.kind = .named ∧ r.childOrHandle = handle := by
  unfold Graph.namedRaw at h
  split at h
  · rename_i r hr
    split at h
    · cases h
    · rename_i hguard
      simp only [Bool.or_eq_true, decide_eq_true_eq, not_or, ne_eq, not_not] at hguard
      cases h
      obtain ⟨hne, hget⟩ := canonical_record hr
      exact ⟨r, hne, hget, hguard.1.1, rfl⟩
  · cases h

variable {d : DerivedTypeRecord}

theorem derived_record (h : g.derived type = some d) : ∃ r,
    type ≠ 0 ∧ g.canonicalTypes[type]? = some r ∧ r.kind = .derived ∧
      d = ⟨r.payload, r.childOrHandle, .ofCode r.detail⟩ := by
  unfold Graph.derived at h
  split at h
  · rename_i r hr
    split at h
    · cases h
    · rename_i hguard
      simp only [Bool.or_eq_true, decide_eq_true_eq, not_or, ne_eq, not_not] at hguard
      cases h
      obtain ⟨hne, hget⟩ := canonical_record hr
      exact ⟨r, hne, hget, hguard.1.1, rfl⟩
  · cases h

variable (hg : Interned g.types.length g.canonicalTypes)

include hg

theorem intrinsic_of_record (hne : type ≠ 0) (hget : g.canonicalTypes[type]? = some r)
    (hk : r.kind = .intrinsic) : ∃ value,
    g.intrinsic type = some value ∧ value.code = r.detail := by
  have hfits := hg.fits type r hne hget
  simp only [CanonicalTypeRecord.Fits, hk] at hfits
  obtain ⟨t, -, rfl⟩ := hfits
  refine ⟨t, ?_, rfl⟩
  unfold Graph.intrinsic Graph.canonical
  rw [if_neg hne, hget]
  dsimp only
  exact congrArg some (IntrinsicType.ofCode_code t)

theorem namedRaw_of_record (hne : type ≠ 0) (hget : g.canonicalTypes[type]? = some r)
    (hk : r.kind = .named) : g.namedRaw type = some r.childOrHandle := by
  have hfits := hg.fits type r hne hget
  simp only [CanonicalTypeRecord.Fits, hk] at hfits
  unfold Graph.namedRaw Graph.canonical
  rw [if_neg hne, hget]
  dsimp only
  simp [hk, hfits.2.1, hfits.2.2]

theorem derived_of_record (hne : type ≠ 0) (hget : g.canonicalTypes[type]? = some r)
    (hk : r.kind = .derived) :
    g.derived type = some ⟨r.payload, r.childOrHandle, .ofCode r.detail⟩ := by
  have hfits := hg.fits type r hne hget
  simp only [CanonicalTypeRecord.Fits, hk] at hfits
  have hlt := (List.getElem?_eq_some_iff.mp hget).1
  unfold Graph.derived Graph.canonical
  rw [if_neg hne, hget]
  dsimp only
  rw [if_neg]
  simp only [hk, hfits.1, Bool.or_eq_true, decide_eq_true_eq, ne_eq, not_true, false_or, not_le]
  omega

theorem child_lt (h : g.derived type = some d) : d.child < type := by
  obtain ⟨r, hne, hget, hk, rfl⟩ := derived_record h
  have hfits := hg.fits type r hne hget
  simp only [CanonicalTypeRecord.Fits, hk] at hfits
  exact hfits.2

variable {base : TypeBase} {modifiers : List (Nat × Nat)}

theorem sameExpression_refl (h : Denotes g.canonicalTypes a base modifiers) :
    g.SameExpression a a := by
  induction h with
  | intrinsic hne hr hk =>
    obtain ⟨value, hvalue, -⟩ := intrinsic_of_record hg hne hr hk
    exact .intrinsic hvalue hvalue
  | named hne hr hk => exact .named (namedRaw_of_record hg hne hr hk) (namedRaw_of_record hg hne hr hk)
  | derived hne hr hk _ ih =>
    exact .derived (derived_of_record hg hne hr hk) (derived_of_record hg hne hr hk) rfl rfl ih

theorem sameExpression_denotes (h : g.SameExpression a b) : ∃ base modifiers,
    Denotes g.canonicalTypes a base modifiers ∧ Denotes g.canonicalTypes b base modifiers := by
  induction h with
  | intrinsic ha hb =>
    obtain ⟨r, hne, hget, hk, hvalue⟩ := intrinsic_record ha
    obtain ⟨s, hne', hget', hk', hvalue'⟩ := intrinsic_record hb
    have hr := hg.fits _ r hne hget
    have hs := hg.fits _ s hne' hget'
    simp only [CanonicalTypeRecord.Fits, hk] at hr
    simp only [CanonicalTypeRecord.Fits, hk'] at hs
    obtain ⟨t, -, rfl⟩ := hr
    obtain ⟨t', -, rfl⟩ := hs
    have hcode : t = t' := by
      rw [← IntrinsicType.ofCode_code t, ← IntrinsicType.ofCode_code t']
      exact hvalue.symm.trans hvalue'
    rw [← hcode] at hget'
    exact ⟨_, [], .intrinsic hne hget rfl, .intrinsic hne' hget' rfl⟩
  | named ha hb =>
    obtain ⟨r, hne, hget, hk, hr⟩ := namedRaw_record ha
    obtain ⟨s, hne', hget', hk', hs⟩ := namedRaw_record hb
    refine ⟨.named r.childOrHandle, [], .named hne hget hk, ?_⟩
    rw [hr, ← hs]
    exact .named hne' hget' hk'
  | derived ha hb hkind hpayload _ ih =>
    obtain ⟨r, hne, hget, hk, rfl⟩ := derived_record ha
    obtain ⟨s, hne', hget', hk', rfl⟩ := derived_record hb
    obtain ⟨base, modifiers, hda, hdb⟩ := ih
    have hdetail : r.detail = s.detail := by
      rw [← DerivedTypeKind.code_ofCode r.detail, ← DerivedTypeKind.code_ofCode s.detail]
      exact congrArg DerivedTypeKind.code hkind
    refine ⟨base, (r.detail, r.payload) :: modifiers, .derived hne hget hk hda, ?_⟩
    rw [hdetail, show r.payload = s.payload from hpayload]
    exact .derived hne' hget' hk' hdb

theorem walk_ends (h : Denotes g.canonicalTypes type base modifiers) : ∃ last,
    Relation.ReflTransGen g.Child type last ∧
      ((∃ value, g.intrinsic last = some value) ∨ ∃ handle, g.namedRaw last = some handle) := by
  induction h with
  | intrinsic hne hr hk =>
    obtain ⟨value, hvalue, -⟩ := intrinsic_of_record hg hne hr hk
    exact ⟨_, .refl, .inl ⟨value, hvalue⟩⟩
  | named hne hr hk => exact ⟨_, .refl, .inr ⟨_, namedRaw_of_record hg hne hr hk⟩⟩
  | derived hne hr hk _ ih =>
    obtain ⟨last, hwalk, hend⟩ := ih
    exact ⟨last, .head ⟨_, derived_of_record hg hne hr hk, rfl⟩ hwalk, hend⟩

end TypeRefs

theorem stored_denotes {g : Graph} (hg : g.Sound) {type : Nat} (h : g.Stores type) :
    ∃ base modifiers, Denotes g.canonicalTypes type base modifiers := by
  obtain ⟨hne, ⟨m, hm, rfl⟩ | ⟨o, ho, rfl⟩⟩ := h
  · exact hg.members m hm
  · exact (hg.committed.objects o ho).resolve_left fun hdead => hne hdead.2

namespace Graph

/-- The type expression ends at an intrinsic type or at a live named one. -/
inductive BottomsOut (g : Graph) : Nat → Prop
  | intrinsic {type : Nat} {value : IntrinsicType} : g.intrinsic type = some value →
    BottomsOut g type
  | named {type : Nat} {handle : TypeHandle} : g.named type = some handle → BottomsOut g type
  | derived {type : Nat} {r : DerivedTypeRecord} : g.derived type = some r →
    BottomsOut g r.child → BottomsOut g type

inductive Over (g : Graph) (handle : TypeHandle) : Nat → Prop
  | named {type : Nat} : g.namedRaw type = some handle → Over g handle type
  | derived {type : Nat} {r : DerivedTypeRecord} : g.derived type = some r → Over g handle r.child →
    Over g handle type

def Reaches (g : Graph) (target owner : TypeHandle) : Prop :=
  ∃ edge, OnChain g.dependencyEdges g.reverseDependencyHeads target edge ∧
    edge.ownerHandle = owner ∧ g.dependencyVersions[owner - 1]? = some edge.ownerVersion

end Graph

section Members
variable {g : Graph} {type : Nat}

theorem bottomsOut_of_denotes (hg : Interned g.types.length g.canonicalTypes) {base : TypeBase}
    {modifiers : List (Nat × Nat)} (hd : Denotes g.canonicalTypes type base modifiers)
    (hlive : ∀ target, base = .named target → ∃ e, g.findType target = some e) :
    g.BottomsOut type := by
  induction hd with
  | intrinsic hne hr hk =>
    obtain ⟨value, hvalue, -⟩ := intrinsic_of_record hg hne hr hk
    exact .intrinsic hvalue
  | @named ref r hne hr hk =>
    obtain ⟨e, he⟩ := hlive _ rfl
    have hnamed : g.named ref = some r.childOrHandle := by
      rw [Graph.named, namedRaw_of_record hg hne hr hk, Option.filter_some, he]
      rfl
    exact .named hnamed
  | derived hne hr hk _ ih => exact .derived (derived_of_record hg hne hr hk) (ih hlive)

theorem denotes_of_over {target : TypeHandle} (h : g.Over target type) :
    ∃ modifiers, Denotes g.canonicalTypes type (.named target) modifiers := by
  induction h with
  | named hn =>
    obtain ⟨r, hne, hget, hk, hr⟩ := namedRaw_record hn
    rw [← hr]
    exact ⟨[], .named hne hget hk⟩
  | derived hd _ ih =>
    obtain ⟨r, hne, hget, hk, rfl⟩ := derived_record hd
    obtain ⟨modifiers, hm⟩ := ih
    exact ⟨_, .derived hne hget hk hm⟩

theorem members_of (hg : g.Sound) {handle : TypeHandle} {e : TypeEntry}
    (he : g.findType handle = some e) (hk : e.kind = .record) (hdef : e.defined = true) :
    (g.members handle).length = e.definition.count ∧
      ∀ m ∈ g.members handle, g.MemberDepends handle m := by
  have hall := hg.dependencies handle e he hk hdef
  unfold Graph.members
  rw [he]
  dsimp only
  rw [if_neg (by simp [hk, hdef])]
  by_cases hcount : e.definition.count = 0
  · rw [hcount]
    split <;> simp
  · obtain ⟨m, hm, -⟩ := hall (e.definition.count - 1) (by omega)
    have hlast := (List.getElem?_eq_some_iff.mp hm).1
    rw [if_neg]
    · refine ⟨slice_length (by omega), ?_⟩
      intro member hmember
      obtain ⟨i, hi⟩ := List.mem_iff_getElem?.mp hmember
      have hlt : i < e.definition.count := by
        have hbound := (List.getElem?_eq_some_iff.mp hi).1
        rw [slice_length (by omega)] at hbound
        exact hbound
      rw [slice_getElem? hlt] at hi
      obtain ⟨m', hm', hdepends⟩ := hall i hlt
      rw [hi] at hm'
      cases hm'
      exact hdepends
    · simp only [Bool.or_eq_true, decide_eq_true_eq, not_or, not_lt]
      omega

end Members

namespace Graph

/-- New slots and records come behind those that are there, which go on standing for the same. -/
structure Extends (g g' : Graph) : Prop where
  identities : g.identities <+: g'.identities
  objectIdentities : g.objectIdentities <+: g'.objectIdentities
  linkTargets : g.linkRecords.map (·.target) <+: g'.linkRecords.map (·.target)
  canonicalTypes : g.canonicalTypes <+: g'.canonicalTypes

theorem Extends.trans {g g' g'' : Graph} (h : g.Extends g') (h' : g'.Extends g'') :
    g.Extends g'' where
  identities := h.identities.trans h'.identities
  objectIdentities := h.objectIdentities.trans h'.objectIdentities
  linkTargets := h.linkTargets.trans h'.linkTargets
  canonicalTypes := h.canonicalTypes.trans h'.canonicalTypes

end Graph

namespace Generation

def Next (s s' : Generation) : Prop :=
  ∃ abi replacements removals, (∀ facts ∈ replacements, facts.Genuine) ∧
    s.build (.incremental abi replacements removals) = .ok s'

variable {s s' : Generation}

theorem Next.extends (h : s.Next s') (hs : s.Sound) : s'.Sound ∧ s.graph.Extends s'.graph := by
  obtain ⟨abi, replacements, removals, hgenuine, h⟩ := h
  obtain ⟨prepared, hprepared, h⟩ := bind_ok.mp h
  obtain ⟨hcomplete, -⟩ := prepareIncremental_complete hs hgenuine hprepared
  obtain ⟨t, ht, hsound⟩ := publishIncremental_sound hs hgenuine hprepared
  cases (ht.symm.trans h : (.ok t : BuildM Generation) = .ok s')
  obtain ⟨g', hpublish, heq⟩ := bind_ok.mp ht
  cases heq
  have hpublished := Graph.published_of_ok hpublish
  have htargets := (Candidate.Complete.linkRecords_targets hcomplete).symm
  rw [Candidate.Complete.linkRecords, ← hpublished.linkRecords] at htargets
  exact ⟨hsound, ⟨_, hpublished.identities.symm⟩, ⟨_, hpublished.objectIdentities.symm⟩,
    ⟨_, htargets⟩, ⟨_, hpublished.canonicalTypes.symm⟩⟩

theorem extends_run (hrun : Relation.ReflTransGen Next s s') (hs : s.Sound) :
    s'.Sound ∧ s.graph.Extends s'.graph := by
  induction hrun with
  | refl => exact ⟨hs, List.prefix_rfl, List.prefix_rfl, List.prefix_rfl, List.prefix_rfl⟩
  | tail _ hnext ih =>
    obtain ⟨hsound, hextends⟩ := hnext.extends ih.1
    exact ⟨hsound, ih.2.trans hextends⟩

theorem slot_kept {α : Type} {keys keys' : List α} (hfront : keys <+: keys') (hnodup : keys'.Nodup)
    {i j : Nat} {key : α} (hi : keys[i]? = some key) (hj : keys'[j]? = some key) : i = j := by
  obtain ⟨hlt, heq⟩ := List.getElem?_eq_some_iff.mp hi
  have hlt' : i < keys'.length := hlt.trans_le hfront.length_le
  have hi' : keys'[i]? = some key := by
    rw [List.getElem?_eq_getElem hlt', ← hfront.getElem hlt, heq]
  exact (List.getElem?_inj hlt' hnodup).mp (hi'.trans hj.symm)

end Generation

end ServerEngine
