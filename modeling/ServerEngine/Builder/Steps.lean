import ServerEngine.Builder.Dependencies

/-! # Steps of an incremental build

What each step adds to the candidate. Handles and canonical records only grow; a touched type gets
its entry, its members and their edges at once; objects and links leave the types alone.
-/
namespace ServerEngine
open Slice ErrorFold

/-! ## Genuine identities -/

/-- An identity that stands for none, or that an index can hold. -/
def IdentityRef.Genuine (i : IdentityRef) : Prop := i = .null ∨ i.valid = true

/-- The identities of the arenas are genuine; what is declared has one. -/
structure Arenas.Genuine (a : Arenas) : Prop where
  types : ∀ t ∈ a.types, t.identity.valid = true
  members : ∀ m ∈ a.members, m.type.identity.Genuine
  objects : ∀ o ∈ a.objects, o.identity.valid = true ∧ o.type.identity.Genuine

structure SparseUpdate.Genuine (u : SparseUpdate) : Prop where
  committed : u.owner.committed.arenas.Genuine
  candidate : u.candidate.Genuine

section Spans
variable {α : Type} {x : α} {range : SourceFactRange}

theorem mem_of_combinedSpan {committed appended : List α} {base : Nat}
    (h : x ∈ combinedSpan committed appended base range) : x ∈ committed ∨ x ∈ appended := by
  unfold combinedSpan at h
  split at h
  · cases h
  split at h
  · split at h
    · cases h
    · exact .inl (mem_of_mem_slice h)
  · split at h
    · cases h
    · exact .inr (mem_of_mem_slice h)

end Spans

namespace SparseUpdate.Genuine

variable {u : SparseUpdate} {source : Nat} {t : SourceContributionType}

theorem replacementType (hu : u.Genuine) (h : t ∈ u.replacementTypes source) :
    t.identity.valid = true := by
  unfold replacementTypes at h
  split at h
  · rcases mem_of_combinedSpan h with h | h
    · exact hu.committed.types t h
    · exact hu.candidate.types t h
  · cases h

theorem member (hu : u.Genuine) {range : SourceFactRange} {m : SourceContributionMember}
    (h : m ∈ u.members range) : m.type.identity.Genuine := by
  rcases mem_of_combinedSpan h with h | h
  · exact hu.committed.members m h
  · exact hu.candidate.members m h

theorem replacementObject (hu : u.Genuine) {o : SourceContributionObject}
    (h : o ∈ u.replacementObjects source) :
    o.identity.valid = true ∧ o.type.identity.Genuine := by
  unfold replacementObjects at h
  split at h
  · rcases mem_of_combinedSpan h with h | h
    · exact hu.committed.objects o h
    · exact hu.candidate.objects o h
  · cases h

end SparseUpdate.Genuine

/-! ## Construction states of an update -/

namespace SparseUpdate

structure StatesNamed (u : SparseUpdate) : Prop where
  state : ∀ handle s, u.construction handle = some s → s.Names u.combined.types
  written : ∀ p ∈ u.constructionPatches, p.state.Names u.combined.types

variable {u' : SparseUpdate} {handle : Nat} {value : SourceConstructionState}

theorem setConstruction_construction {u : SparseUpdate}
    (h : u.setConstruction handle value = .ok u') (other : Nat) :
    u'.construction other = if other = handle then some value else u.construction other := by
  unfold setConstruction at h
  split at h
  · cases h
  rename_i hguard
  simp only [Bool.or_eq_true, decide_eq_true_eq, not_or] at hguard
  have hne := hguard.1.2
  split at h
  · rename_i hsome
    cases h
    unfold findConstructionPatch at hsome
    rw [if_neg hne, List.find?_isSome] at hsome
    unfold construction findConstructionPatch
    rw [List.find?_map]
    have hcomp : ((fun p : ConstructionPatch => p.handle == other) ∘ fun patch =>
        if patch.handle = handle then { patch with state := value } else patch) =
        fun p => p.handle == other := by
      funext p
      simp only [Function.comp]
      split <;> rfl
    rw [hcomp]
    by_cases ho : other = handle
    · subst ho
      rw [if_neg hne, if_pos rfl]
      obtain ⟨p, hp⟩ := Option.isSome_iff_exists.mp (List.find?_isSome.mpr hsome)
      rw [hp]
      have hph : p.handle = other := by simpa using List.find?_some hp
      simp [hph]
    · rw [if_neg ho]
      by_cases h0 : other = 0
      · rw [if_pos h0, if_pos h0]
      · rw [if_neg h0, if_neg h0]
        cases hp : u.constructionPatches.find? (·.handle == other) with
        | none => rfl
        | some p =>
          have hph : p.handle = other := by simpa using List.find?_some hp
          have hpne : p.handle ≠ handle := fun heq => ho (hph.symm.trans heq)
          rw [Option.map_some, if_neg hpne]
  · split at h
    · rename_i hnone _
      cases h
      have hfind : u.findConstructionPatch handle = none := by simpa using hnone
      unfold findConstructionPatch at hfind
      rw [if_neg hne] at hfind
      unfold construction findConstructionPatch
      rw [List.find?_append]
      by_cases ho : other = handle
      · subst ho
        rw [if_neg hne, if_pos rfl, hfind]
        simp
      · have hsingle : [(⟨handle, value⟩ : ConstructionPatch)].find? (·.handle == other) =
            none := by simp [Ne.symm ho]
        rw [if_neg ho, hsingle, Option.or_none]
    · cases h

theorem setConstruction_written {u : SparseUpdate} (h : u.setConstruction handle value = .ok u')
    {p : ConstructionPatch} (hp : p ∈ u'.constructionPatches) :
    p.state = value ∨ p ∈ u.constructionPatches := by
  unfold setConstruction at h
  split at h
  · cases h
  split at h
  · cases h
    obtain ⟨q, hq, rfl⟩ := List.mem_map.mp hp
    split
    · exact .inl rfl
    · exact .inr hq
  split at h
  · cases h
    rcases List.mem_append.mp hp with hp | hp
    · exact .inr hp
    · rw [List.mem_singleton] at hp
      exact .inl (by rw [hp])
  · cases h

theorem StatesNamed.set {u : SparseUpdate} (hu : u.StatesNamed)
    (hvalue : value.Names u.combined.types) (h : u.setConstruction handle value = .ok u') :
    u'.StatesNamed := by
  have hcombined : u'.combined = u.combined := by
    obtain ⟨patches, rfl⟩ := setConstruction_ok h
    rfl
  refine ⟨?_, ?_⟩
  · intro other s hs
    rw [setConstruction_construction h] at hs
    rw [hcombined]
    split at hs
    · cases hs
      exact hvalue
    · exact hu.state other s hs
  · intro p hp
    rw [hcombined]
    rcases setConstruction_written h hp with hvalue' | hold
    · rw [hvalue']
      exact hvalue
    · exact hu.written p hold

variable {i : Nat}

theorem combinedSpan_getElem? {α : Type} {committed appended : List α} {base : Nat}
    {range : SourceFactRange} {x : α} (hbase : base = committed.length)
    (h : (combinedSpan committed appended base range)[i]? = some x) :
    (committed ++ appended)[range.begin + i]? = some x := by
  unfold combinedSpan at h
  split at h
  · simp at h
  split at h
  · split at h
    · simp at h
    · rename_i hfits
      simp only [Bool.or_eq_true, decide_eq_true_eq, not_or, Nat.not_lt, gt_iff_lt] at hfits
      have hi : i < range.count := by
        have hlt := (List.getElem?_eq_some_iff.mp h).1
        rw [slice_length (by omega)] at hlt
        exact hlt
      rw [slice_getElem? hi] at h
      rw [List.getElem?_append_left (List.getElem?_eq_some_iff.mp h).1, h]
  · split at h
    · simp at h
    · rename_i hge hfits
      simp only [Bool.or_eq_true, decide_eq_true_eq, not_or, Nat.not_lt, gt_iff_lt] at hfits
      have hi : i < range.count := by
        have hlt := (List.getElem?_eq_some_iff.mp h).1
        rw [slice_length (by omega)] at hlt
        exact hlt
      rw [slice_getElem? hi] at h
      rw [List.getElem?_append_right (by omega)]
      have hpos : range.begin + i - committed.length = range.begin - base + i := by omega
      rw [hpos, h]

theorem replacementTypes_getElem? {u : SparseUpdate} {source : Nat}
    {state : SourceContributionState} {t : SourceContributionType}
    (hbase : u.base = u.owner.committed.arenas.sizes)
    (hstate : u.replacementState source = some state)
    (h : (u.replacementTypes source)[i]? = some t) :
    u.combined.types[state.types.begin + i]? = some t := by
  unfold replacementTypes at h
  rw [hstate] at h
  refine combinedSpan_getElem? ?_ h
  rw [hbase]
  rfl

theorem typeAt_eq {u : SparseUpdate} (hbase : u.base = u.owner.committed.arenas.sizes)
    (index : Nat) : u.typeAt index = u.combined.types[index]? := by
  have hlen : u.base.types = u.owner.committed.arenas.types.length := by
    rw [hbase]
    rfl
  unfold typeAt
  change _ = (u.owner.committed.arenas.types ++ u.candidate.types)[index]?
  split
  · rw [List.getElem?_append_left (by omega)]
  · rw [List.getElem?_append_right (by omega), hlen]

end SparseUpdate

namespace Candidate

/-! ## Declarations -/

def facts (c : Candidate) : SparseUpdate := { c.contributions with constructionPatches := [] }

/-- After some declarations: handles have been added and touched, nothing is materialized. -/
structure Declared (g : Graph) (c₀ c : Candidate) : Prop where
  types : c.Types g
  grown : ∃ added, c.update.newIdentities = c₀.update.newIdentities ++ added ∧
    c.update.newTypes = c₀.update.newTypes ++ added.map fun _ => ({} : TypeEntry)
  update : c.core.update = c₀.core.update
  records : c.update.canonicalTypes = c₀.update.canonicalTypes
  derivedCount : c.newDerivedCount = c₀.newDerivedCount
  facts : c.facts = c₀.facts
  states : c.contributions.StatesNamed
  touchedNodup : c.touchedHandles.Nodup
  touched : ∀ h : Nat, h ∈ c.touchedHandles → h ≠ 0 ∧ h ≤ g.types.length + c.update.newTypes.length

section Declarations
variable {g : Graph} {c₀ c c' : Candidate}

theorem Declared.grows (h : Declared g c₀ c) (hc' : c'.Types g) (hg : Grows c c')
    (hrecords : c'.update.canonicalTypes = c.update.canonicalTypes)
    (hcount : c'.newDerivedCount = c.newDerivedCount) : Declared g c₀ c' := by
  obtain ⟨a, ha, hat⟩ := h.grown
  obtain ⟨b, hb, hbt⟩ := hg.handles
  have hcore := hg.core
  have htouched := congrArg Candidate.touchedHandles hcore
  change c'.touchedHandles = c.touchedHandles at htouched
  refine ⟨hc', ⟨a ++ b, ?_, ?_⟩, ?_, hrecords.trans h.records, hcount.trans h.derivedCount, ?_, ?_,
    ?_, ?_⟩
  · rw [hb, ha, List.append_assoc]
  · rw [hbt, hat, List.append_assoc, List.map_append]
  · rw [hcore, h.update]
  · rw [Candidate.facts, hg.contributions, ← h.facts, Candidate.facts]
  · rw [hg.contributions]
    exact h.states
  · rw [htouched]
    exact h.touchedNodup
  · intro handle hmem
    rw [htouched] at hmem
    have := h.touched handle hmem
    have := hg.newTypes_length
    omega

theorem Declared.combined (h : Declared g c₀ c) :
    c.contributions.combined = c₀.contributions.combined := by
  have hfacts := congrArg SparseUpdate.combined h.facts
  exact hfacts

theorem Declared.touch {handle : Nat} {value : SourceConstructionState} {u : SparseUpdate}
    (h : Declared g c₀ c) (hvalue : value.Names c.contributions.combined.types)
    (hset : c.contributions.setConstruction handle value = .ok u)
    (hle : handle ≤ g.types.length + c.update.newTypes.length)
    (htouch : ({ c with contributions := u } : Candidate).touch handle = .ok c') :
    Declared g c₀ c' := by
  have hstates := h.states.set hvalue hset
  obtain ⟨patches, rfl⟩ := SparseUpdate.setConstruction_ok hset
  unfold Candidate.touch at htouch
  split at htouch
  · cases htouch
  rename_i hne
  split at htouch
  · cases htouch
    exact ⟨h.types.congr rfl rfl rfl rfl rfl rfl rfl, h.grown, h.update, h.records,
      h.derivedCount, h.facts, hstates,
      h.touchedNodup, h.touched⟩
  · rename_i hnew
    cases htouch
    refine ⟨h.types.congr rfl rfl rfl rfl rfl rfl rfl, h.grown, h.update, h.records,
      h.derivedCount, h.facts, hstates, ?_, ?_⟩
    · rw [List.nodup_append]
      refine ⟨h.touchedNodup, by simp, ?_⟩
      intro a ha b hb heq
      rw [List.mem_singleton] at hb
      exact hnew (by rw [← hb, ← heq]; exact ha)
    · intro other hmem
      rcases List.mem_append.mp hmem with hmem | hmem
      · exact h.touched other hmem
      · rw [List.mem_singleton] at hmem
        subst hmem
        exact ⟨hne, hle⟩

variable {item : SourceContributionType × Nat}

theorem subtractType_spec (hx : IdentityIndex g.identityIndex g.identities)
    (hlen : g.types.length = g.identities.length) {oldState : Option SourceContributionState}
    (h : Declared g c₀ c) (hstep : c.subtractType g oldState item = .ok c') : Declared g c₀ c' := by
  unfold subtractType at hstep
  split at hstep
  · rename_i handle state hfind
    cases hcurrent : c.contributions.construction handle with
    | none =>
      rw [hcurrent] at hstep
      cases hstep
    | some current =>
      rw [hcurrent] at hstep
      obtain ⟨next, hnext, hstep⟩ := bind_ok.mp hstep
      obtain ⟨u, hset, htouch⟩ := bind_ok.mp hstep
      obtain ⟨-, hget⟩ := (Graph.findIdentity_iff hx).mp hfind
      have hlt := (List.getElem?_eq_some_iff.mp hget).1
      have hnames := SourceConstructionState.removeConstruction_names
        (h.states.state handle current hcurrent) (BuildM.lift_ok.mp hnext)
      exact h.touch hnames (BuildM.lift_ok.mp hset) (by omega) htouch
  · cases hstep

theorem addType_spec (hx : IdentityIndex g.identityIndex g.identities)
    (hlen : g.types.length = g.identities.length) {newState : Option SourceContributionState}
    (hvalid : item.1.identity.valid = true)
    (hitem : ∀ state, newState = some state → c₀.contributions.combined.types[state.types.begin + item.2]? = some item.1)
    (h : Declared g c₀ c) (hstep : c.addType g newState item = .ok c') : Declared g c₀ c' := by
  obtain ⟨⟨c₁, handle⟩, hfind, hstep⟩ := bind_ok.mp hstep
  obtain ⟨hc₁, hgrow, hne, hget⟩ := findOrCreateHandle_spec hx hlen h.types hvalid hfind
  obtain ⟨newTypes, newIdentities, hrest⟩ := findOrCreateHandle_rest hfind
  have h₁ := h.grows hc₁ hgrow (by rw [hrest]) (by rw [hrest])
  cases newState with
  | none => cases hstep
  | some state =>
    obtain ⟨next, hnext, hstep⟩ := bind_ok.mp hstep
    obtain ⟨u, hset, htouch⟩ := bind_ok.mp hstep
    have hold : ((c₁.contributions.construction handle).getD {}).Names
        c₁.contributions.combined.types := by
      cases hcurrent : c₁.contributions.construction handle with
      | none => exact SourceConstructionState.names_empty _
      | some current => exact h₁.states.state handle current hcurrent
    have hat : c₁.contributions.combined.types[state.types.begin + item.2 + 1 - 1]? =
        some item.1 := by
      rw [Nat.add_sub_cancel, h₁.combined]
      exact hitem state rfl
    have hnames := SourceConstructionState.addConstruction_names hold hat (BuildM.lift_ok.mp hnext)
    exact h₁.touch hnames (BuildM.lift_ok.mp hset) (handle_le hlen hc₁ hget) htouch

theorem changeSource_spec (hx : IdentityIndex g.identityIndex g.identities)
    (hlen : g.types.length = g.identities.length) {source : Nat} (hu : c.contributions.Genuine)
    (hbase : c.contributions.base = c.contributions.owner.committed.arenas.sizes)
    (h : Declared g c₀ c) (hstep : c.changeSource g source = .ok c') : Declared g c₀ c' := by
  obtain ⟨c₁, hold, hnew⟩ := bind_ok.mp hstep
  have h₁ : Declared g c₀ c₁ := foldlM_ok_invariant (Declared g c₀) hold h
    fun item c c' _ hc hstep => subtractType_spec hx hlen hc hstep
  refine foldlM_ok_invariant (Declared g c₀) hnew h₁ ?_
  intro item c₂ c₃ hmem hc hstep
  refine addType_spec hx hlen ?_ ?_ hc hstep
  · exact hu.replacementType (List.fst_mem_of_mem_zipIdx hmem)
  · intro state hstate
    rw [← h.combined]
    exact SparseUpdate.replacementTypes_getElem? hbase hstate (List.mem_zipIdx_iff_getElem?.mp hmem)

end Declarations

/-! ## Definitions -/

def shell (c : Candidate) : Candidate :=
  { c.core with update := { c.core.update with
    members := [], enumValues := [], dependencyEdges := [], liveTypeCount := 0 } }

/-- A definition of the owner has been added: its items, and pending edges that carry no version. -/
structure Adds (g : Graph) (owner : TypeHandle) (c c' : Candidate) : Prop where
  handles : ∃ added, c'.update.newIdentities = c.update.newIdentities ++ added ∧
    c'.update.newTypes = c.update.newTypes ++ added.map fun _ => ({} : TypeEntry)
  records : ∃ added, c'.update.canonicalTypes = c.update.canonicalTypes ++ added
  members : ∃ added, c'.update.members = c.update.members ++ added ∧ ∀ m ∈ added,
    ∃ base modifiers, Denotes (c'.canonicalTypes g) m.type base modifiers
  edges : ∃ added, c'.update.dependencyEdges = c.update.dependencyEdges ++ added ∧
    ∀ e ∈ added, e.ownerHandle = owner ∧ e.ownerVersion = 0 ∧ e.targetHandle ≠ 0 ∧
      e.targetHandle ≤ g.types.length + c'.update.newTypes.length
  shell : c'.shell = c.shell

/-- The member's type is denoted, and an edge of the owner leads from its named base. -/
def MemberDenotes (g : Graph) (c : Candidate) (owner : TypeHandle) (version : Nat)
    (member : MemberRecord) : Prop :=
  ∃ base modifiers, Denotes (c.canonicalTypes g) member.type base modifiers ∧
    ∀ target, base = .named target → ⟨target, owner, version⟩ ∈ c.update.dependencyEdges

section Definitions
variable {g : Graph} {owner : TypeHandle} {c c' c'' : Candidate}

theorem Adds.refl (g : Graph) (owner : TypeHandle) (c : Candidate) : Adds g owner c c :=
  ⟨⟨[], by simp, by simp⟩, ⟨[], by simp⟩, ⟨[], by simp, by simp⟩, ⟨[], by simp, by simp⟩, rfl⟩

theorem Adds.newTypes_length (h : Adds g owner c c') :
    c.update.newTypes.length ≤ c'.update.newTypes.length := by
  obtain ⟨added, -, hadded⟩ := h.handles
  rw [hadded, List.length_append]
  omega

theorem Adds.denotes {ref : Nat} {base : TypeBase} {modifiers : List (Nat × Nat)}
    (h : Adds g owner c c') (hd : Denotes (c.canonicalTypes g) ref base modifiers) :
    Denotes (c'.canonicalTypes g) ref base modifiers := by
  obtain ⟨added, hadded⟩ := h.records
  rw [canonicalTypes, hadded, ← List.append_assoc]
  exact hd.append added

theorem Adds.trans (h : Adds g owner c c') (h' : Adds g owner c' c'') : Adds g owner c c'' := by
  have hmono := h'.newTypes_length
  obtain ⟨a, ha, hat⟩ := h.handles
  obtain ⟨b, hb, hbt⟩ := h'.handles
  obtain ⟨r, hr⟩ := h.records
  obtain ⟨s, hs⟩ := h'.records
  obtain ⟨m, hm, hmeach⟩ := h.members
  obtain ⟨n, hn, hneach⟩ := h'.members
  obtain ⟨e, he, heach⟩ := h.edges
  obtain ⟨f, hf, hfeach⟩ := h'.edges
  refine ⟨⟨a ++ b, ?_, ?_⟩, ⟨r ++ s, ?_⟩, ⟨m ++ n, ?_, ?_⟩, ⟨e ++ f, ?_, ?_⟩,
    h'.shell.trans h.shell⟩
  · rw [hb, ha, List.append_assoc]
  · rw [hbt, hat, List.append_assoc, List.map_append]
  · rw [hs, hr, List.append_assoc]
  · rw [hn, hm, List.append_assoc]
  · intro member hmember
    rcases List.mem_append.mp hmember with hmember | hmember
    · obtain ⟨base, modifiers, hd⟩ := hmeach member hmember
      exact ⟨base, modifiers, h'.denotes hd⟩
    · exact hneach member hmember
  · rw [hf, he, List.append_assoc]
  · intro edge hedge
    rcases List.mem_append.mp hedge with hedge | hedge
    · obtain ⟨h1, h2, h3, h4⟩ := heach edge hedge
      exact ⟨h1, h2, h3, Nat.le_trans h4 (Nat.add_le_add_left hmono _)⟩
    · exact hfeach edge hedge

theorem Grows.adds (h : Grows c c') (g : Graph) (owner : TypeHandle) : Adds g owner c c' := by
  have hmembers := congrArg (·.update.members) h.core
  have hedges := congrArg (·.update.dependencyEdges) h.core
  refine ⟨h.handles, h.records, ⟨[], ?_, by simp⟩, ⟨[], ?_, by simp⟩, ?_⟩
  · rw [List.append_nil]
    exact hmembers
  · rw [List.append_nil]
    exact hedges
  · rw [Candidate.shell, Candidate.shell, h.core]

theorem Adds.memberDenotes {version : Nat} {other : TypeHandle} {member : MemberRecord}
    (h : Adds g owner c c') (hm : MemberDenotes g c other version member) :
    MemberDenotes g c' other version member := by
  obtain ⟨base, modifiers, hd, hedge⟩ := hm
  obtain ⟨added, hadded, -⟩ := h.edges
  refine ⟨base, modifiers, h.denotes hd, ?_⟩
  intro target htarget
  rw [hadded]
  exact List.mem_append_left _ (hedge target htarget)

theorem handle_unique (hc : c.Types g) {a b : Nat} {i : IdentityRef} (hne : a ≠ 0) (hne' : b ≠ 0)
    (ha : (g.identities ++ c.update.newIdentities)[a - 1]? = some i)
    (hb : (g.identities ++ c.update.newIdentities)[b - 1]? = some i) : a = b := by
  have hlt := (List.getElem?_eq_some_iff.mp ha).1
  have heq := (List.getElem?_inj hlt hc.nodup).mp (ha.trans hb.symm)
  omega

theorem materializeMember_spec (hx : IdentityIndex g.identityIndex g.identities)
    (hlen : g.types.length = g.identities.length) (hg : g.Canonical) (hc : c.Types g)
    {member : SourceContributionMember} (hgenuine : member.type.identity.Genuine)
    (h : materializeMember g owner c member = .ok c') : c'.Types g ∧ Adds g owner c c' ∧
      ∃ record, c'.update.members = c.update.members ++ [record] ∧
        MemberDenotes g c' owner 0 record := by
  obtain ⟨⟨c₁, type⟩, htype, h⟩ := bind_ok.mp h
  obtain ⟨hc₁, hgrow₁, base, hbase, hd⟩ := materializeType_spec hx hlen hg hc hgenuine htype
  have hmembers := congrArg (·.update.members) hgrow₁.core
  change c₁.update.members = c.update.members at hmembers
  have hadds₁ := hgrow₁.adds g owner
  have hrecord : Adds g owner c₁ { c₁ with update := { c₁.update with
      members := c₁.update.members ++
        [⟨member.name, type, member.access, member.construction⟩] } } := by
    refine ⟨⟨[], by simp, by simp⟩, ⟨[], by simp⟩, ⟨_, rfl, ?_⟩, ⟨[], by simp, by simp⟩, rfl⟩
    intro m hm
    rw [List.mem_singleton] at hm
    subst hm
    exact ⟨base, _, hd⟩
  have hc₂ := @Candidate.Types.congr _ _ { c₁ with update := { c₁.update with
      members := c₁.update.members ++
        [⟨member.name, type, member.access, member.construction⟩] } } hc₁ rfl rfl rfl rfl rfl rfl rfl
  dsimp only at h
  split at h
  · rename_i hne
    obtain ⟨⟨c₃, target⟩, hfind, h⟩ := bind_ok.mp h
    obtain ⟨hc₃, hgrow₃, htarget, hget⟩ :=
      findOrCreateHandle_spec hx hlen hc₂ (hgenuine.resolve_left hne) hfind
    have hle := handle_le hlen hc₃ hget
    have hmembers₃ := congrArg (·.update.members) hgrow₃.core
    change c₃.update.members = c₁.update.members ++ _ at hmembers₃
    have hedge : Adds g owner c₃ { c₃ with update := { c₃.update with
        dependencyEdges := c₃.update.dependencyEdges ++ [⟨target, owner, 0⟩] } } := by
      refine ⟨⟨[], by simp, by simp⟩, ⟨[], by simp⟩, ⟨[], by simp, by simp⟩, ⟨_, rfl, ?_⟩, rfl⟩
      intro e he
      rw [List.mem_singleton] at he
      subst he
      exact ⟨rfl, rfl, htarget, hle⟩
    cases h
    refine ⟨hc₃.congr rfl rfl rfl rfl rfl rfl rfl,
      (hadds₁.trans hrecord).trans ((hgrow₃.adds g owner).trans hedge),
      ⟨member.name, type, member.access, member.construction⟩, ?_, base, _, hgrow₃.denotes hd, ?_⟩
    · dsimp only
      rw [hmembers₃, hmembers]
    · intro handle hnamed
      subst hnamed
      obtain ⟨-, hhandle, hid⟩ := hbase
      rw [handle_unique hc₃ hhandle htarget (hgrow₃.identities hid) hget]
      simp
  · rename_i hnull
    rw [ne_eq, not_not] at hnull
    cases h
    refine ⟨hc₂, hadds₁.trans hrecord,
      ⟨member.name, type, member.access, member.construction⟩, ?_, base, _, hd, ?_⟩
    · dsimp only
      rw [hmembers]
    · intro handle hnamed
      subst hnamed
      exact absurd hnull hbase.1

theorem materializeMembers_spec (hx : IdentityIndex g.identityIndex g.identities)
    (hlen : g.types.length = g.identities.length) (hg : g.Canonical) (hc : c.Types g)
    {members : List SourceContributionMember}
    (hgenuine : ∀ m ∈ members, m.type.identity.Genuine)
    (h : members.foldlM (materializeMember g owner) c = .ok c') : c'.Types g ∧
      Adds g owner c c' ∧ ∃ added, c'.update.members = c.update.members ++ added ∧
        added.length = members.length ∧ ∀ m ∈ added, MemberDenotes g c' owner 0 m := by
  refine foldlM_ok_rec (fun done c' => c'.Types g ∧ Adds g owner c c' ∧ ∃ added,
    c'.update.members = c.update.members ++ added ∧ added.length = done.length ∧
      ∀ m ∈ added, MemberDenotes g c' owner 0 m) h ?_ ?_
  · exact ⟨hc, .refl g owner c, [], by simp, rfl, by simp⟩
  · intro done member c₁ c₂ hmem hdone hstep
    obtain ⟨hc₁, hadds, added, hadded, hlength, hall⟩ := hdone
    obtain ⟨hc₂, hadds₂, record, hrecord, hdenotes⟩ :=
      materializeMember_spec hx hlen hg hc₁ (hgenuine member hmem) hstep
    refine ⟨hc₂, hadds.trans hadds₂, added ++ [record], ?_, ?_, ?_⟩
    · rw [hrecord, hadded, List.append_assoc]
    · rw [List.length_append, List.length_append, hlength]
      rfl
    · intro m hm
      rcases List.mem_append.mp hm with hm | hm
      · exact hadds₂.memberDenotes (hall m hm)
      · rw [List.mem_singleton] at hm
        subst hm
        exact hdenotes

def EntryDenotes (g : Graph) (c : Candidate) (owner : TypeHandle) (version : Nat)
    (entry : TypeEntry) : Prop :=
  entry.kind = .record → entry.defined = true → ∀ i < entry.definition.count,
    ∃ member, c.memberAt g (entry.definition.begin - 1 + i) = some member ∧
      MemberDenotes g c owner version member

variable {next : TypeEntry}

theorem materializeRecord_spec (hx : IdentityIndex g.identityIndex g.identities)
    (hlen : g.types.length = g.identities.length) (hg : g.Canonical) (hc : c.Types g)
    (hu : c.contributions.Genuine) {entry : TypeEntry} {items : SourceFactRange}
    (h : materializeRecord g owner entry items c = .ok (c', next)) : c'.Types g ∧
      Adds g owner c c' ∧ EntryDenotes g c' owner 0 next := by
  unfold materializeRecord at h
  dsimp only at h
  split at h
  · cases h
  obtain ⟨c₁, hfold, h⟩ := bind_ok.mp h
  split at h
  · cases h
  cases h
  obtain ⟨hc', hadds, added, hadded, hlength, hall⟩ :=
    materializeMembers_spec hx hlen hg hc (fun m hm => hu.member hm) hfold
  refine ⟨hc', hadds, ?_⟩
  intro _ _ i hi
  dsimp only at hi ⊢
  have hget : added[i]? = some added[i] := List.getElem?_eq_getElem (by omega)
  refine ⟨added[i], ?_, hall _ (List.getElem_mem _)⟩
  have hat : g.memberRecords.length + c.update.members.length + 1 - 1 + i =
      (g.memberRecords ++ c.update.members).length + i := by
    rw [List.length_append]
    omega
  rw [memberAt, hadded, ← List.append_assoc, hat, List.getElem?_append_right (by omega),
    Nat.add_sub_cancel_left, hget]

theorem materializeEnum_spec {abi : AbiConfiguration} (hc : c.Types g) {entry next : TypeEntry}
    {items : SourceFactRange} (h : materializeEnum g abi entry items c = .ok (c', next)) :
    c'.Types g ∧ Adds g owner c c' ∧ next.kind = entry.kind := by
  unfold materializeEnum at h
  dsimp only at h
  split at h
  · cases h
  have hadds : ∀ values, Adds g owner c { c with update := { c.update with enumValues := values } } :=
    fun _ =>
      ⟨⟨[], by simp, by simp⟩, ⟨[], by simp⟩, ⟨[], by simp, by simp⟩, ⟨[], by simp, by simp⟩, rfl⟩
  split at h
  · obtain ⟨underlying, -, h⟩ := bind_ok.mp h
    cases h
    exact ⟨hc.congr rfl rfl rfl rfl rfl rfl rfl, hadds _, rfl⟩
  · obtain ⟨underlying, -, h⟩ := bind_ok.mp h
    cases h
    exact ⟨hc.congr rfl rfl rfl rfl rfl rfl rfl, hadds _, rfl⟩

theorem declaredEntry_defined (g : Graph) (handle : TypeHandle)
    (construction : SourceConstructionState) :
    (declaredEntry g handle construction).defined = false := by
  unfold declaredEntry
  split <;> rfl

theorem declaredEntry_kind (g : Graph) (handle : TypeHandle)
    (construction : SourceConstructionState) : (declaredEntry g handle construction).kind =
      match construction.kind with
      | .record => .record
      | .enumeration => .enumeration := by
  unfold declaredEntry
  cases construction.kind <;> rfl

theorem materializeLive_spec (hx : IdentityIndex g.identityIndex g.identities)
    (hlen : g.types.length = g.identities.length) (hg : g.Canonical) (hc : c.Types g)
    (hu : c.contributions.Genuine) {abi : AbiConfiguration}
    {construction : SourceConstructionState}
    (hkind : ∀ d, c.definitionOf construction = some d → d.kind = construction.kind)
    (h : materializeLive g abi owner construction c = .ok (c', next)) : c'.Types g ∧
      Adds g owner c c' ∧ EntryDenotes g c' owner 0 next := by
  unfold materializeLive at h
  split at h
  · cases h
    refine ⟨hc, .refl g owner _, ?_⟩
    intro _ hdefined
    rw [declaredEntry_defined] at hdefined
    cases hdefined
  · cases hd : c.definitionOf construction with
    | none =>
      rw [hd] at h
      cases h
    | some definition =>
      rw [hd] at h
      dsimp only at h
      split at h
      · cases h
      · cases hk : definition.kind with
        | record =>
          rw [hk] at h
          exact materializeRecord_spec hx hlen hg hc hu h
        | enumeration =>
          rw [hk] at h
          obtain ⟨hc', hadds, hnext⟩ := @materializeEnum_spec g owner _ _ _ hc _ _ _ h
          refine ⟨hc', hadds, ?_⟩
          intro hrecord
          rw [hnext, declaredEntry_kind, ← hkind definition hd, hk] at hrecord
          cases hrecord

end Definitions

end Candidate

end ServerEngine
