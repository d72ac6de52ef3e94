import ServerEngine.Builder.ObjectsAndLinks

/-! # Publication of a sparse update

The committed Graph and a complete candidate give the next Graph: every insertion loop ends, the
indexes cover the new entries, and the edges of every definition lie on the chains of its types.
-/
namespace ServerEngine
open Slice ErrorFold

/-! ## Insertions -/

namespace Graph

section Insertion
variable {β κ : Type} [DecidableEq κ] {hash : κ → Nat} {key : β → κ}

theorem insertAll_keyed {slots : List IndexSlot} {keys all : List κ} {entries : List β}
    (hx : IndexSlots.Keyed hash slots keys) (hnodup : (keys ++ entries.map key).Nodup)
    (hroom : entries = [] ∨ keys.length + entries.length < slots.length)
    (hall : ∃ more, all = keys ++ entries.map key ++ more) :
    ∃ slots', insertAll (fun b => hash (key b)) (fun b handle => all[handle - 1]? == some (key b))
        (keys.length + 1) slots entries = .ok slots' ∧
      slots'.length = slots.length ∧ IndexSlots.Keyed hash slots' (keys ++ entries.map key) := by
  induction entries generalizing keys slots with
  | nil => exact ⟨slots, rfl, rfl, by simpa using hx⟩
  | cons entry rest ih =>
    obtain ⟨more, hmore⟩ := hall
    have hroom := hroom.resolve_left (by simp)
    rw [List.length_cons] at hroom
    rw [List.map_cons, List.append_cons] at hnodup hmore
    have hk : key entry ∉ keys := by
      have hfirst := (List.nodup_append.mp (List.nodup_append.mp hnodup).1).2.2
      intro hmem
      exact hfirst _ hmem (key entry) (by simp) rfl
    obtain ⟨slots₁, hins, hsize, hx₁⟩ := hx.insert_next
      (rest.map key ++ more |>.cons (key entry)) hk (by omega)
    have hcompare : keys ++ (key entry :: (rest.map key ++ more)) = all := by
      rw [hmore]
      simp
    rw [hcompare] at hins
    obtain ⟨slots', hrest, hsize', hx'⟩ := ih hx₁ hnodup
      (.inr (by rw [hsize, List.length_append, List.length_singleton]; omega)) ⟨more, hmore⟩
    refine ⟨slots', ?_, hsize'.trans hsize, ?_⟩
    · rw [insertAll, List.zipIdx_cons, List.foldlM_cons]
      rw [hins]
      rw [List.length_append, List.length_singleton] at hrest
      exact hrest
    · rw [List.map_cons, List.append_cons]
      exact hx'

theorem insertAll_length {hash : β → Nat} {same : β → Nat → Bool} {start : Nat}
    {slots slots' : List IndexSlot} {entries : List β}
    (h : insertAll hash same start slots entries = .ok slots') : slots'.length = slots.length := by
  refine foldlM_ok_invariant (fun s => s.length = slots.length) h rfl ?_
  intro item s s' _ hs hstep
  cases hins : IndexSlots.insert s (hash item.1) item.2 (same item.1) with
  | none =>
    rw [hins] at hstep
    cases hstep
  | some next =>
    rw [hins] at hstep
    cases hstep
    exact (IndexSlots.insert_length hins).trans hs

end Insertion

theorem insertDerived_table {slots : List IndexSlot} {entries added : List (CanonicalTypeRecord × Nat)}
    (ht : IndexSlots.Table CanonicalTypeRecord.derivedHash slots entries)
    (hnodup : ((entries ++ added).map Prod.fst).Nodup) (hne : ∀ e ∈ added, e.2 ≠ 0)
    (hroom : added = [] ∨ entries.length + added.length < slots.length) :
    ∃ slots', added.foldlM (fun slots item => BuildM.ends
        (IndexSlots.insert slots item.1.derivedHash item.2 fun _ => false)) slots = .ok slots' ∧
      slots'.length = slots.length ∧
      IndexSlots.Table CanonicalTypeRecord.derivedHash slots' (entries ++ added) := by
  induction added generalizing entries slots with
  | nil => exact ⟨slots, rfl, rfl, by simpa using ht⟩
  | cons item rest ih =>
    have hroom := hroom.resolve_left (by simp)
    rw [List.length_cons] at hroom
    have hnew : ∀ h, (item.1, h) ∉ entries := by
      intro h hmem
      rw [List.map_append, List.nodup_append] at hnodup
      exact hnodup.2.2 item.1 (List.mem_map.mpr ⟨_, hmem, rfl⟩) item.1 (by simp) rfl
    have hc : IndexSlots.Compares (fun _ => false) entries item.1 := by
      intro e he
      simp only [Bool.false_eq_true, false_iff]
      rintro heq
      exact hnew e.2 (by rw [← heq]; exact he)
    obtain ⟨slots₁, hins, hsize, ht₁⟩ := IndexSlots.insert_table ht hc hnew (by omega)
      (hne item List.mem_cons_self)
    obtain ⟨slots', hrest, hsize', ht'⟩ := ih ht₁ (by rw [List.append_assoc]; exact hnodup)
      (fun e he => hne e (List.mem_cons_of_mem _ he))
      (.inr (by rw [hsize, List.length_append, List.length_singleton]; omega))
    refine ⟨slots', ?_, hsize'.trans hsize, ?_⟩
    · rw [List.foldlM_cons, hins]
      exact hrest
    · rw [List.append_cons]
      exact ht'

end Graph

/-- What a member of an owner's definition depends on: its base is live, and an edge of the owner's
current version stands on the base's chain. -/
def Graph.MemberDepends (g : Graph) (owner : TypeHandle) (member : MemberRecord) : Prop :=
  ∃ base modifiers, Denotes g.canonicalTypes member.type base modifiers ∧
    ∀ target, base = .named target → (∃ e, g.findType target = some e) ∧
      ∃ edge, OnChain g.dependencyEdges g.reverseDependencyHeads target edge ∧
        edge.ownerHandle = owner ∧ g.dependencyVersions[owner - 1]? = some edge.ownerVersion

/-- The Graph is committed state that the next incremental build can start from. -/
structure Graph.Sound (g : Graph) : Prop where
  committed : Candidate.Committed g
  versions : g.dependencyVersions.length = g.types.length
  heads : g.reverseDependencyHeads.length = g.types.length
  members : ∀ m ∈ g.memberRecords, ∃ base modifiers,
    Denotes g.canonicalTypes m.type base modifiers
  dependencies : ∀ handle e, g.findType handle = some e → e.kind = .record → e.defined = true →
    ∀ i < e.definition.count, ∃ m, g.memberRecords[e.definition.begin - 1 + i]? = some m ∧
      g.MemberDepends handle m

structure Graph.Slotted (g : Graph) : Prop where
  objects : 8 ≤ g.objectIdentityIndex.length
  links : 8 ≤ g.linkIndex.length

/-! ## The complete candidate -/

namespace Candidate

def LoadOk (slots : List IndexSlot) (old new : Nat) : Prop :=
  new = 0 ∨ overloaded slots (old + new) = false

structure Complete (g : Graph) (c : Candidate) : Prop where
  types : c.Types g
  objects : c.Objects g
  links : c.Links g
  materialized : Materialized g c c.touchedHandles
  touchedNodup : c.touchedHandles.Nodup
  closed : ∃ closure, c.closure g = .ok closure
  touchedValid : ∀ handle ∈ c.touchedHandles, c.validateType g handle = .ok ()
  ownersValid : ∀ target edge, target ∈ c.touchedHandles →
    OnChain g.dependencyEdges g.reverseDependencyHeads target edge →
    g.dependencyVersions[edge.ownerHandle - 1]? = some edge.ownerVersion →
    c.validateType g edge.ownerHandle = .ok ()
  identityLoad : LoadOk g.identityIndex g.identities.length c.update.newIdentities.length
  objectLoad : LoadOk g.objectIdentityIndex g.objectIdentities.length
    c.update.newObjectIdentities.length
  linkLoad : LoadOk g.linkIndex g.linkRecords.length c.update.newLinks.length
  derivedLoad : LoadOk g.derivedIndex g.derivedIndexEntries c.newDerivedCount
  indexed : c.update.derivedIndexEntries = g.derivedIndexEntries + c.newDerivedCount

section Preparation
variable {g : Graph} {abi : AbiConfiguration} {u : SparseUpdate} {c c' : Candidate}

/-- The candidate before the first step, with the rooms reserved for it. -/
def start (g : Graph) (u : SparseUpdate)
    (touchedUpper identityCapacity objectIdentityCapacity : Nat) : Candidate where
  contributions := u
  touchedUpper := touchedUpper
  identityCapacity := identityCapacity
  objectIdentityCapacity := objectIdentityCapacity
  update := {
    liveTypeCount := g.liveTypeCount
    liveObjectCount := g.liveObjectCount
    liveLinkCount := g.liveLinkCount
    intrinsicRefs := g.intrinsicRefs }

theorem initial_ok (h : Candidate.initial g u = .ok c) : ∃ touchedUpper identityCapacity
    objectIdentityCapacity, c = start g u touchedUpper identityCapacity objectIdentityCapacity := by
  obtain ⟨types, -, h⟩ := bind_ok.mp h
  obtain ⟨objects, -, h⟩ := bind_ok.mp h
  obtain ⟨links, -, h⟩ := bind_ok.mp h
  obtain ⟨identities, -, h⟩ := bind_ok.mp h
  obtain ⟨objectIdentities, -, h⟩ := bind_ok.mp h
  cases h
  exact ⟨_, _, _, rfl⟩

theorem start_types (hg : g.Sound) (u : SparseUpdate)
    (touchedUpper identityCapacity objectIdentityCapacity : Nat) :
    (start g u touchedUpper identityCapacity objectIdentityCapacity).Types g := by
  have hcanonical := hg.committed.canonical
  have hsame : (start g u touchedUpper identityCapacity objectIdentityCapacity).canonicalTypes g =
      g.canonicalTypes := List.append_nil _
  refine ⟨rfl, ?_, by simp [start], ?_, ?_, ?_, by simp [start], by simp [start], ?_, rfl⟩
  · simpa [start] using hg.committed.typeIndex.index.nodup
  · rw [hsame]
    exact hcanonical.records
  · rw [hsame]
    exact hcanonical.intrinsic
  · rw [hsame]
    intro key ref hne
    rw [← hcanonical.named key ref hne, namedRef]
    split
    · rfl
    · rename_i hzero
      dsimp only
      rw [not_not.mp hzero]
      rfl
  · exact IndexSlots.table_empty _ (.inl rfl) (by simp [start])

theorem initial_declared (hg : g.Sound) (hu : u.StatesNamed)
    (h : Candidate.initial g u = .ok c) : Declared g c c := by
  obtain ⟨touchedUpper, identityCapacity, objectIdentityCapacity, rfl⟩ := initial_ok h
  exact ⟨start_types hg u _ _ _, ⟨[], by simp, by simp⟩, rfl, rfl, rfl, rfl, hu, by simp [start],
    by simp [start]⟩

theorem changeSources_spec (hg : g.Sound) {sources : List Nat}
    (hu : c.contributions.Genuine)
    (hbase : c.contributions.base = c.contributions.owner.committed.arenas.sizes)
    (hd : Declared g c c) (h : sources.foldlM (changeSource g) c = .ok c') : Declared g c c' := by
  refine foldlM_ok_invariant (Declared g c) h hd ?_
  intro source c₁ c₂ _ hc hstep
  refine changeSource_spec hg.committed.typeIndex hg.committed.typeSlots ?_ ?_ hc hstep
  · have howner := congrArg SparseUpdate.owner hc.facts
    have hcandidate := congrArg SparseUpdate.candidate hc.facts
    change c₁.contributions.owner = c.contributions.owner at howner
    change c₁.contributions.candidate = c.contributions.candidate at hcandidate
    exact ⟨by rw [howner]; exact hu.committed, by rw [hcandidate]; exact hu.candidate⟩
  · have howner := congrArg SparseUpdate.owner hc.facts
    have hsame := congrArg SparseUpdate.base hc.facts
    change c₁.contributions.owner = c.contributions.owner at howner
    change c₁.contributions.base = c.contributions.base at hsame
    rw [hsame, howner, hbase]

theorem reserveDerived_ok (h : c.reserveDerived = .ok c') : ∃ capacity,
    ((capacity = 0) ∨ ∃ n, capacity = 2 ^ n) ∧
      c' = { c with localDerivedIndex := List.replicate capacity {} } := by
  obtain ⟨items, -, h⟩ := bind_ok.mp h
  obtain ⟨members, -, h⟩ := bind_ok.mp h
  obtain ⟨modifiers, -, h⟩ := bind_ok.mp h
  obtain ⟨capacity, hcapacity, h⟩ := bind_ok.mp h
  cases h
  refine ⟨capacity, ?_, rfl⟩
  rcases indexCapacity_ok hcapacity with ⟨-, h0⟩ | ⟨hpow, -⟩
  · exact .inl h0
  · exact .inr hpow

theorem reserveDerived_types (hc : c.Types g) (hrecords : c.update.canonicalTypes = [])
    (hcount : c.newDerivedCount = 0) (h : c.reserveDerived = .ok c') : c'.Types g := by
  obtain ⟨capacity, hpow, rfl⟩ := reserveDerived_ok h
  refine ⟨hc.slots, hc.nodup, hc.valid, hc.records, hc.intrinsic, hc.named, hc.patches,
    hc.patchesNodup, ?_, ?_⟩
  · dsimp only
    rw [hrecords]
    refine IndexSlots.table_empty _ ?_ fun s hs => (List.mem_replicate.mp hs).2
    rw [List.length_replicate]
    exact hpow.imp (fun h0 => by rw [h0]; rfl) id
  · dsimp only
    rw [hrecords, hcount]
    rfl

theorem checkLoad_ok (h : c.checkLoad g = .ok c') :
    LoadOk g.identityIndex g.identities.length c.update.newIdentities.length ∧
      LoadOk g.objectIdentityIndex g.objectIdentities.length
        c.update.newObjectIdentities.length ∧
      LoadOk g.linkIndex g.linkRecords.length c.update.newLinks.length ∧
      LoadOk g.derivedIndex g.derivedIndexEntries c.newDerivedCount ∧
      c' = { c with update := { c.update with
        derivedIndexEntries := g.derivedIndexEntries + c.newDerivedCount } } := by
  have hload : ∀ {α : Type} {slots : List IndexSlot} {old : Nat} {new : List α},
      ¬(!new.isEmpty && overloaded slots (old + new.length)) = true →
      LoadOk slots old new.length := by
    intro α slots old new hcond
    cases new with
    | nil => exact .inl rfl
    | cons x xs =>
      right
      simpa using hcond
  unfold checkLoad at h
  split at h
  · cases h
  split at h
  · cases h
  rename_i hidentity
  split at h
  · cases h
  rename_i hobject
  split at h
  · cases h
  rename_i hlink
  split at h
  · cases h
  rename_i hderived
  cases h
  refine ⟨hload hidentity, hload hobject, hload hlink, ?_, rfl⟩
  by_cases h0 : c.newDerivedCount = 0
  · exact .inl h0
  · right
    simpa [h0] using hderived

theorem validateType_congr (hentries : c'.entry g = c.entry g)
    (hmembers : c'.update.members = c.update.members)
    (hrecords : c'.update.canonicalTypes = c.update.canonicalTypes) (handle : TypeHandle) :
    c'.validateType g handle = c.validateType g handle := by
  have hcanonical : c'.canonicalTypes g = c.canonicalTypes g := by
    rw [canonicalTypes, canonicalTypes, hrecords]
  have href : ∀ fuel ref, validateTypeRef g c' fuel ref = validateTypeRef g c fuel ref := by
    intro fuel
    induction fuel with
    | zero => intro ref; rfl
    | succ fuel ih =>
      intro ref
      simp only [validateTypeRef, canonicalRecord, hcanonical, hentries, ih]
  have hmember : ∀ index, validateMember g c' index = validateMember g c index := by
    intro index
    simp only [validateMember, memberAt, hmembers, hcanonical, href]
  simp only [validateType, hentries, hmember]

end Preparation

section Whole
variable {g : Graph} {abi : AbiConfiguration} {u : SparseUpdate} {c : Candidate} {c₀ : Candidate}

theorem later_start (hg : Committed g) (hc : c₀.Types g) (hobjects : c₀.update.newObjects = [])
    (hids : c₀.update.newObjectIdentities = []) (hobjectPatches : c₀.update.objectPatches = [])
    (hlinks : c₀.update.newLinks = []) (hlinkPatches : c₀.update.linkPatches = []) :
    Later g c₀ c₀ := by
  refine ⟨hc, .refl c₀, ⟨?_, ?_, ?_, ?_, ?_, ?_⟩, ⟨?_, ?_, ?_, ?_, ?_⟩⟩
  · rw [hobjects, hids]
    rfl
  · rw [hids, List.append_nil]
    exact hg.objectIndex.index.nodup
  · simp [hids]
  · simp [hobjects]
  · simp [hobjectPatches]
  · simp [hobjectPatches]
  · rw [hlinks, List.map_nil, List.append_nil]
    exact hg.linkIndex.index.nodup
  · simp [hlinks]
  · simp [hlinks]
  · simp [hlinkPatches]
  · simp [hlinkPatches]

/-- The candidate once every declaration has been subtracted and added, and what is reserved. -/
structure Opened (g : Graph) (u : SparseUpdate) (c : Candidate) : Prop where
  materialized : Materialized g c []
  genuine : c.contributions.Genuine
  base : c.contributions.base = c.contributions.owner.committed.arenas.sizes
  states : c.contributions.StatesNamed
  touchedNodup : c.touchedHandles.Nodup
  touched : ∀ h : Nat, h ∈ c.touchedHandles → h ≠ 0 ∧ h ≤ g.types.length + c.update.newTypes.length
  facts : c.facts = { u with constructionPatches := [] }
  update : c.core.update = (start g u 0 0 0).core.update

theorem opened_of (hg : g.Sound) (hu : u.Genuine)
    (hbase : u.base = u.owner.committed.arenas.sizes) (hstates : u.StatesNamed)
    {c₁ c₂ : Candidate} (h₀ : Candidate.initial g u = .ok c₀)
    (h₁ : u.changedSources.foldlM (changeSource g) c₀ = .ok c₁) (h₂ : c₁.reserveDerived = .ok c₂) :
    Opened g u c₂ := by
  have hd₀ := initial_declared hg hstates h₀
  obtain ⟨touchedUpper, identityCapacity, objectIdentityCapacity, rfl⟩ := initial_ok h₀
  have hd₁ := changeSources_spec hg hu hbase hd₀ h₁
  have htypes := reserveDerived_types hd₁.types hd₁.records hd₁.derivedCount h₂
  obtain ⟨capacity, -, rfl⟩ := reserveDerived_ok h₂
  have howner := congrArg SparseUpdate.owner hd₁.facts
  have hcandidate := congrArg SparseUpdate.candidate hd₁.facts
  have hsame := congrArg SparseUpdate.base hd₁.facts
  change c₁.contributions.owner = u.owner at howner
  change c₁.contributions.candidate = u.candidate at hcandidate
  change c₁.contributions.base = u.base at hsame
  have hpatches := congrArg PreparedGraphUpdate.typePatches hd₁.update
  have hversions := congrArg PreparedGraphUpdate.dependencyVersionPatches hd₁.update
  have hedges := congrArg PreparedGraphUpdate.dependencyEdges hd₁.update
  have hmembers := congrArg PreparedGraphUpdate.members hd₁.update
  obtain ⟨added, -, hadded⟩ := hd₁.grown
  refine ⟨materialized_start htypes hpatches ?_ hversions hedges hmembers, ?_, ?_, hd₁.states,
    hd₁.touchedNodup, hd₁.touched, hd₁.facts, hd₁.update⟩
  · intro e he
    rw [hadded] at he
    rcases List.mem_append.mp he with he | he
    · cases he
    · obtain ⟨_, -, rfl⟩ := List.mem_map.mp he
      rfl
  · exact ⟨by rw [howner]; exact hu.committed, by rw [hcandidate]; exact hu.candidate⟩
  · rw [hsame, howner, hbase]

theorem prepareIncrementalGraph_stages (hg : g.Sound) (hu : u.Genuine)
    (hbase : u.base = u.owner.committed.arenas.sizes) (hstates : u.StatesNamed)
    (h : prepareIncrementalGraph g abi u = .ok c) : ∃ c₂ c₃ c₆ closure, Opened g u c₂ ∧
      c₂.touchedHandles.foldlM (materializeTouched g abi) c₂ = .ok c₃ ∧ Later g c₃ c₆ ∧
      c₆.closure g = .ok closure ∧ closure.forM (c₆.validateType g) = .ok () ∧
      c₆.checkLoad g = .ok c := by
  unfold prepareIncrementalGraph at h
  split at h
  · cases h
  obtain ⟨c₀, h₀, h⟩ := bind_ok.mp h
  obtain ⟨c₁, h₁, h⟩ := bind_ok.mp h
  obtain ⟨c₂, h₂, h⟩ := bind_ok.mp h
  obtain ⟨c₃, h₃, h⟩ := bind_ok.mp h
  obtain ⟨c₄, h₄, h⟩ := bind_ok.mp h
  obtain ⟨c₅, h₅, h⟩ := bind_ok.mp h
  obtain ⟨c₆, h₆, h⟩ := bind_ok.mp h
  obtain ⟨closure, hclosure, h⟩ := bind_ok.mp h
  obtain ⟨⟨⟩, hvalid, h⟩ := bind_ok.mp h
  have hopen := opened_of hg hu hbase hstates h₀ h₁ h₂
  have hcommitted := hg.committed
  obtain ⟨hm₃, hside⟩ := materializeAll_spec hcommitted.typeIndex hcommitted.typeSlots
    hcommitted.canonical hopen.materialized hopen.genuine hopen.base hopen.states hopen.touchedNodup
    hopen.touched h₃
  have hstart : Later g c₃ c₃ := by
    simp only [objectSide, Prod.mk.injEq] at hside
    obtain ⟨-, -, hobjects, hids, hpatches, hlinks, hlinkPatches⟩ := hside
    have hupdate := hopen.update
    exact later_start hcommitted hm₃.types
      (hobjects.trans (congrArg PreparedGraphUpdate.newObjects hupdate))
      (hids.trans (congrArg PreparedGraphUpdate.newObjectIdentities hupdate))
      (hpatches.trans (congrArg PreparedGraphUpdate.objectPatches hupdate))
      (hlinks.trans (congrArg PreparedGraphUpdate.newLinks hupdate))
      (hlinkPatches.trans (congrArg PreparedGraphUpdate.linkPatches hupdate))
  have hlater₄ : Later g c₃ c₄ := foldlM_ok_invariant (Later g c₃) h₄ hstart
    fun _ _ _ _ hc hstep => retireSource_spec hcommitted hc hstep
  have hlater₅ : Later g c₃ c₅ := by
    refine foldlM_ok_invariant (Later g c₃) h₅ hlater₄ fun object _ _ hmem hc hstep => ?_
    obtain ⟨source, -, hobject⟩ := List.mem_flatMap.mp hmem
    exact addObject_spec hcommitted hc (hu.replacementObject hobject).2 hstep
  have hlater₆ : Later g c₃ c₆ := foldlM_ok_invariant (Later g c₃) h₆ hlater₅
    fun _ _ _ _ hc hstep => addLink_spec hcommitted hc hstep
  exact ⟨c₂, c₃, c₆, closure, hopen, h₃, hlater₆, hclosure, hvalid, h⟩

theorem prepareIncrementalGraph_complete (hg : g.Sound) (hu : u.Genuine)
    (hbase : u.base = u.owner.committed.arenas.sizes) (hstates : u.StatesNamed)
    (h : prepareIncrementalGraph g abi u = .ok c) : c.Complete g ∧
      c.facts = { u with constructionPatches := [] } ∧ c.contributions.StatesNamed := by
  obtain ⟨c₂, c₃, c₆, closure, hopen, h₃, hlater₆, hclosure, hvalid, h⟩ :=
    prepareIncrementalGraph_stages hg hu hbase hstates h
  have hcommitted := hg.committed
  obtain ⟨hm₃, hside⟩ := materializeAll_spec hcommitted.typeIndex hcommitted.typeSlots
    hcommitted.canonical hopen.materialized hopen.genuine hopen.base hopen.states hopen.touchedNodup
    hopen.touched h₃
  have hm₆ := hm₃.keeps hlater₆.types hlater₆.keeps
  have h36 := hlater₆.keeps.typeSide
  simp only [typeSide, Prod.mk.injEq] at h36
  simp only [objectSide, Prod.mk.injEq] at hside
  have htouched : c₆.touchedHandles = c₂.touchedHandles := h36.2.1.trans hside.2.1
  have hsame : c₆.contributions = c₂.contributions := h36.1.trans hside.1
  obtain ⟨hin, howners⟩ := closure_spec hclosure
  obtain ⟨hidentity, hobject, hlink, hderived, rfl⟩ := checkLoad_ok h
  have hvalidate := @validateType_congr g c₆ { c₆ with update := { c₆.update with
    derivedIndexEntries := g.derivedIndexEntries + c₆.newDerivedCount } } rfl rfl rfl
  refine ⟨⟨hlater₆.types.congr rfl rfl rfl rfl rfl rfl rfl,
    ⟨hlater₆.objects.slots, hlater₆.objects.nodup, hlater₆.objects.valid, hlater₆.objects.added,
      hlater₆.objects.patches, hlater₆.objects.patchesNodup⟩,
    ⟨hlater₆.links.targets, hlater₆.links.named, hlater₆.links.claimed, hlater₆.links.patches,
      hlater₆.links.patchesNodup⟩, ?_, ?_, ⟨closure, hclosure⟩, ?_, ?_, hidentity, hobject, hlink,
      hderived, rfl⟩, ?_, ?_⟩
  · rw [← htouched] at hm₆
    exact hm₆.keeps (hlater₆.types.congr rfl rfl rfl rfl rfl rfl rfl) (.same rfl rfl rfl rfl)
  · rw [htouched]
    exact hopen.touchedNodup
  · intro handle hmem
    rw [hvalidate]
    exact forM_mem hvalid (hin handle hmem)
  · intro target edge hmem hedge hversion
    rw [hvalidate]
    exact forM_mem hvalid (howners target edge hmem hedge hversion)
  · rw [Candidate.facts, hsame, ← hopen.facts, Candidate.facts]
  · rw [hsame]
    exact hopen.states

end Whole

end Candidate

/-! ## Publication -/

section Patching
variable {α β : Type} {values : List α} {patches : List (Patch α)}

theorem mem_applyPatches {x : α} (h : x ∈ Graph.applyPatches values patches) :
    x ∈ values ∨ ∃ p ∈ patches, p.value = x := by
  induction patches generalizing values with
  | nil => exact .inl h
  | cons p ps ih =>
    rcases @ih (values.set (p.handle - 1) p.value) h with hmem | ⟨q, hq, rfl⟩
    · rcases List.mem_or_eq_of_mem_set hmem with hmem | rfl
      · exact .inl hmem
      · exact .inr ⟨p, List.mem_cons_self, rfl⟩
    · exact .inr ⟨q, List.mem_cons_of_mem _ hq, rfl⟩

theorem applyPatches_map {f : α → β}
    (h : ∀ p ∈ patches, (values.map f)[p.handle - 1]? = some (f p.value)) :
    (Graph.applyPatches values patches).map f = values.map f := by
  induction patches generalizing values with
  | nil => rfl
  | cons p ps ih =>
    have hself : (values.set (p.handle - 1) p.value).map f = values.map f := by
      have hp := h p List.mem_cons_self
      rw [List.map_set]
      obtain ⟨hlt, heq⟩ := List.getElem?_eq_some_iff.mp hp
      rw [← heq, List.set_getElem_self]
    have hrest := @ih (values.set (p.handle - 1) p.value) fun q hq => by
      rw [hself]
      exact h q (List.mem_cons_of_mem _ hq)
    rw [← hself, ← hrest]
    rfl

theorem findPatch_of_mem {p : Patch α} (hnodup : (patches.map (·.handle)).Nodup)
    (hmem : p ∈ patches) : findPatch patches p.handle = some p.value := by
  cases hfind : findPatch patches p.handle with
  | none => exact absurd rfl (findPatch_none hfind p hmem)
  | some value =>
    obtain ⟨q, hq, hhandle, rfl⟩ := findPatch_some hfind
    rw [List.inj_on_of_nodup_map hnodup hq hmem hhandle]

theorem getD_append_zeros (values : List Nat) (n i : Nat) :
    (values ++ List.replicate n 0).getD i 0 = values.getD i 0 := by
  rw [List.getD_eq_getElem?_getD, List.getD_eq_getElem?_getD, List.getElem?_append]
  split
  · rfl
  · rename_i hge
    rw [List.getElem?_eq_none (Nat.le_of_not_lt hge), List.getElem?_replicate]
    split <;> rfl

theorem namedRefs_getD {patches : List (Patch Nat)} {refs : List Nat}
    (hnodup : (patches.map (·.handle)).Nodup) (hrange : ∀ p ∈ patches, p.handle < refs.length)
    (key : Nat) : (patches.foldl (fun refs patch => refs.set patch.handle patch.value) refs).getD key 0
      = (findPatch patches key).getD (refs.getD key 0) := by
  induction patches generalizing refs with
  | nil => rfl
  | cons p ps ih =>
    rw [List.map_cons, List.nodup_cons] at hnodup
    have hlt := hrange p List.mem_cons_self
    rw [List.foldl_cons, ih hnodup.2 fun q hq => by
      rw [List.length_set]
      exact hrange q (List.mem_cons_of_mem _ hq)]
    by_cases hk : p.handle = key
    · subst hk
      have hnone : findPatch ps p.handle = none := by
        cases hp : findPatch ps p.handle with
        | none => rfl
        | some v =>
          obtain ⟨q, hq, heq, -⟩ := findPatch_some hp
          exact absurd (List.mem_map.mpr ⟨q, hq, heq⟩) hnodup.1
      rw [hnone, Option.getD_none, getD_set, if_pos ⟨rfl, hlt⟩, findPatch,
        List.find?_cons_of_pos (by simp)]
      rfl
    · have hfind : findPatch (p :: ps) key = findPatch ps key := by
        rw [findPatch, List.find?_cons_of_neg (by simpa using hk), findPatch]
      rw [hfind, getD_set, if_neg fun hcond => hk hcond.1]

theorem namedRefs_length (patches : List (Patch Nat)) (refs : List Nat) :
    (patches.foldl (fun refs patch => refs.set patch.handle patch.value) refs).length =
      refs.length := by
  induction patches generalizing refs with
  | nil => rfl
  | cons p ps ih => rw [List.foldl_cons, ih, List.length_set]

end Patching

namespace Candidate.Complete

variable {g : Graph} {c : Candidate}

theorem LoadOk_room {slots : List IndexSlot} {old new : Nat} (h : LoadOk slots old new)
    (hsize : slots = [] ∨ 8 ≤ slots.length) : new = 0 ∨ old + new < slots.length := by
  refine h.imp_right fun hload => ?_
  unfold overloaded at hload
  simp only [Bool.or_eq_false_iff, decide_eq_false_iff_not, List.isEmpty_eq_false_iff] at hload
  have h8 := hsize.resolve_left hload.1
  omega

theorem publishIdentities_ok (hg : g.Sound) (h : c.Complete g) : ∃ slots,
    Graph.publishIdentities g.identityIndex (g.identities ++ c.update.newIdentities)
      c.update.newIdentities g.types.length = .ok slots ∧
    IdentityIndex slots (g.identities ++ c.update.newIdentities) := by
  have hx := hg.committed.typeIndex
  have hroom := LoadOk_room h.identityLoad hx.index.size
  rw [List.length_eq_zero_iff] at hroom
  have hall : ∃ more, g.identities ++ c.update.newIdentities =
      g.identities ++ c.update.newIdentities.map id ++ more := ⟨[], by simp⟩
  obtain ⟨slots, hins, -, hkeyed⟩ := Graph.insertAll_keyed hx.index
    (by simpa using h.types.nodup) hroom hall
  rw [List.map_id] at hkeyed
  refine ⟨slots, ?_, ?_, hkeyed⟩
  · rw [hg.committed.typeSlots]
    exact hins
  · intro i hi
    rcases List.mem_append.mp hi with hi | hi
    · exact hx.valid i hi
    · exact h.types.valid i hi

theorem publishObjectIdentities_ok (hg : g.Sound) (h : c.Complete g) : ∃ slots,
    Graph.publishIdentities g.objectIdentityIndex
      (g.objectIdentities ++ c.update.newObjectIdentities) c.update.newObjectIdentities
      g.objectEntries.length = .ok slots ∧
    IdentityIndex slots (g.objectIdentities ++ c.update.newObjectIdentities) := by
  have hx := hg.committed.objectIndex
  have hroom := LoadOk_room h.objectLoad hx.index.size
  rw [List.length_eq_zero_iff] at hroom
  have hall : ∃ more, g.objectIdentities ++ c.update.newObjectIdentities =
      g.objectIdentities ++ c.update.newObjectIdentities.map id ++ more := ⟨[], by simp⟩
  obtain ⟨slots, hins, -, hkeyed⟩ := Graph.insertAll_keyed hx.index
    (by simpa using h.objects.nodup) hroom hall
  rw [List.map_id] at hkeyed
  refine ⟨slots, ?_, ?_, hkeyed⟩
  · rw [hg.committed.objectSlots]
    exact hins
  · intro i hi
    rcases List.mem_append.mp hi with hi | hi
    · exact hx.valid i hi
    · exact h.objects.valid i hi

def linkRecords (g : Graph) (c : Candidate) : List LinkRecord :=
  Graph.applyPatches (g.linkRecords ++ c.update.newLinks) c.update.linkPatches

theorem linkRecords_targets (h : c.Complete g) : (linkRecords g c).map (·.target) =
    g.linkRecords.map (·.target) ++ c.update.newLinks.map (·.target) := by
  rw [linkRecords, applyPatches_map, List.map_append]
  intro p hp
  have htarget := (h.links.patches p hp).2
  rw [List.map_append, List.getElem?_append_left (List.getElem?_eq_some_iff.mp htarget).1, htarget]

theorem publishLinks_ok (hg : g.Sound) (h : c.Complete g) : ∃ slots,
    Graph.publishLinks g.linkIndex (linkRecords g c) c.update.newLinks g.linkRecords.length =
      .ok slots ∧ LinkIndex slots (linkRecords g c) := by
  have hx := hg.committed.linkIndex
  have htargets := linkRecords_targets h
  have hroom := LoadOk_room h.linkLoad hx.index.size
  have hlength : (g.linkRecords.map (·.target)).length = g.linkRecords.length := List.length_map _
  rw [List.length_eq_zero_iff, ← hlength] at hroom
  have hall : ∃ more, (linkRecords g c).map (·.target) =
      g.linkRecords.map (·.target) ++ c.update.newLinks.map (·.target) ++ more :=
    ⟨[], by rw [htargets, List.append_nil]⟩
  obtain ⟨slots, hins, -, hkeyed⟩ := Graph.insertAll_keyed hx.index h.links.targets hroom hall
  refine ⟨slots, ?_, ?_, ?_⟩
  · simp only [List.getElem?_map, hlength] at hins
    exact hins
  · intro l hl
    have hmem : l.target ∈ (linkRecords g c).map (·.target) := List.mem_map_of_mem hl
    rw [htargets] at hmem
    rcases List.mem_append.mp hmem with hmem | hmem
    · obtain ⟨l', hl', heq⟩ := List.mem_map.mp hmem
      rw [← heq]
      exact hx.named l' hl'
    · obtain ⟨l', hl', heq⟩ := List.mem_map.mp hmem
      rw [← heq]
      exact h.links.named l' hl'
  · rw [htargets]
    exact hkeyed

theorem derivedEntries_whole : derivedEntries (c.canonicalTypes g) 0 =
    derivedEntries g.canonicalTypes 0 ++
      derivedEntries c.update.canonicalTypes g.canonicalTypes.length := by
  rw [canonicalTypes, derivedEntries_append, Nat.zero_add]

theorem publishDerived_ok (hg : g.Sound) (h : c.Complete g) : ∃ slots,
    Graph.publishDerived g.derivedIndex c.update.canonicalTypes g.canonicalTypes.length =
      .ok slots ∧ slots.length = g.derivedIndex.length ∧
    IndexSlots.Table CanonicalTypeRecord.derivedHash slots
      (derivedEntries (c.canonicalTypes g) 0) ∧
    (derivedEntries (c.canonicalTypes g) 0).length < slots.length := by
  have hx := hg.committed.canonical
  have hkeys := h.types.records.derivedKeys
  rw [derivedEntries_whole] at hkeys ⊢
  have hroom := LoadOk_room h.derivedLoad (.inr hx.derivedSize)
  rw [h.types.derivedCount, hx.derivedCount] at hroom
  have hne : ∀ e ∈ derivedEntries c.update.canonicalTypes g.canonicalTypes.length, e.2 ≠ 0 := by
    intro e he
    obtain ⟨-, hle, -⟩ := mem_derivedEntries.mp he
    have := hx.records.length_pos
    omega
  obtain ⟨slots, hins, hsize, htable⟩ := Graph.insertDerived_table hx.derived hkeys hne
    (by rw [← List.length_eq_zero_iff]; exact hroom)
  refine ⟨slots, hins, hsize, htable, ?_⟩
  rw [hsize, List.length_append]
  rcases hroom with h0 | hlt
  · rw [h0, Nat.add_zero]
    exact hx.derivedRoom
  · exact hlt

end Candidate.Complete

/-! ## The published Graph -/

/-- What publication makes of every field that the update changes. -/
structure Graph.Published (g : Graph) (p : PreparedGraphUpdate) (g' : Graph) : Prop where
  types : g'.types = applyPatches (g.types ++ p.newTypes) p.typePatches
  identities : g'.identities = g.identities ++ p.newIdentities
  memberRecords : g'.memberRecords = g.memberRecords ++ p.members
  enumValueRecords : g'.enumValueRecords = g.enumValueRecords ++ p.enumValues
  objectEntries : g'.objectEntries = applyPatches (g.objectEntries ++ p.newObjects) p.objectPatches
  objectIdentities : g'.objectIdentities = g.objectIdentities ++ p.newObjectIdentities
  linkRecords : g'.linkRecords = applyPatches (g.linkRecords ++ p.newLinks) p.linkPatches
  canonicalTypes : g'.canonicalTypes = g.canonicalTypes ++ p.canonicalTypes
  intrinsicRefs : g'.intrinsicRefs = p.intrinsicRefs
  namedRefs : g'.namedRefs = p.namedRefPatches.foldl
    (fun refs patch => refs.set patch.handle patch.value) (g.namedRefs ++ p.newTypes.map fun _ => 0)
  derivedCount : g'.derivedIndexEntries = p.derivedIndexEntries
  versions : g'.dependencyVersions =
    applyPatches (g.dependencyVersions ++ p.newTypes.map fun _ => 1) p.dependencyVersionPatches
  edges : (g'.dependencyEdges, g'.reverseDependencyHeads) = p.dependencyEdges.foldl publishEdge
    (g.dependencyEdges, g.reverseDependencyHeads ++ p.newTypes.map fun _ => 0)
  identityIndex : publishIdentities g.identityIndex (g.identities ++ p.newIdentities)
    p.newIdentities g.types.length = .ok g'.identityIndex
  objectIdentityIndex : publishIdentities g.objectIdentityIndex
    (g.objectIdentities ++ p.newObjectIdentities) p.newObjectIdentities g.objectEntries.length =
      .ok g'.objectIdentityIndex
  linkIndex : publishLinks g.linkIndex (applyPatches (g.linkRecords ++ p.newLinks) p.linkPatches)
    p.newLinks g.linkRecords.length = .ok g'.linkIndex
  derivedIndex : publishDerived g.derivedIndex p.canonicalTypes g.canonicalTypes.length =
    .ok g'.derivedIndex

variable {p : PreparedGraphUpdate}

theorem Graph.published_of_ok {g g' : Graph} (h : g.publishPrepared p = .ok g') :
    g.Published p g' := by
  obtain ⟨identityIndex, h1, h⟩ := bind_ok.mp h
  obtain ⟨objectIdentityIndex, h2, h⟩ := bind_ok.mp h
  obtain ⟨linkIndex, h3, h⟩ := bind_ok.mp h
  obtain ⟨derivedIndex, h4, h⟩ := bind_ok.mp h
  cases h
  exact ⟨rfl, rfl, rfl, rfl, rfl, rfl, rfl, rfl, rfl, rfl, rfl, rfl, rfl, h1, h2, h3, h4⟩

theorem Graph.Published.slotted {g g' : Graph} (hp : g.Published p g') (h : g.Slotted) :
    g'.Slotted := by
  refine ⟨?_, ?_⟩
  · rw [insertAll_length hp.objectIdentityIndex]
    exact h.objects
  · rw [insertAll_length hp.linkIndex]
    exact h.links

namespace Candidate.Complete

variable {g g' : Graph} {c : Candidate}

theorem publishPrepared_total (hg : g.Sound) (h : c.Complete g) :
    ∃ g', g.publishPrepared c.update = .ok g' := by
  obtain ⟨s1, h1, -⟩ := publishIdentities_ok hg h
  obtain ⟨s2, h2, -⟩ := publishObjectIdentities_ok hg h
  obtain ⟨s3, h3, -⟩ := publishLinks_ok hg h
  obtain ⟨s4, h4, -⟩ := publishDerived_ok hg h
  exact ⟨_, bind_ok.mpr ⟨s1, h1, bind_ok.mpr ⟨s2, h2, bind_ok.mpr ⟨s3, h3, bind_ok.mpr
    ⟨s4, h4, rfl⟩⟩⟩⟩⟩

theorem published_canonicalTypes (hp : g.Published c.update g') : g'.canonicalTypes = c.canonicalTypes g := hp.canonicalTypes

theorem published_types_length (hp : g.Published c.update g') :
    g'.types.length = g.types.length + c.update.newTypes.length := by
  rw [hp.types, applyPatches_length, List.length_append]

variable {handle : Nat}

theorem published_entry (h : c.Complete g) (hp : g.Published c.update g') (hne : handle ≠ 0) :
    g'.types[handle - 1]? = c.entry g handle := by
  rw [hp.types, applyPatches_getElem? h.materialized.patchesNodup _ hne]
  · unfold entry
    rw [if_neg hne]
    split
    · rename_i value hfind
      obtain ⟨p, hmem, rfl, -⟩ := findPatch_some hfind
      have hle : ¬p.handle > g.types.length := by
        have := (h.materialized.patches p hmem).2.2
        omega
      rw [if_neg hle, hfind]
    · rename_i hfind
      split
      · rename_i hbig
        have hbig : handle > g.types.length := hbig
        rw [List.getElem?_append_right (by omega)]
        congr 1
        omega
      · rename_i hsmall
        have hsmall : ¬handle > g.types.length := hsmall
        rw [hfind, List.getElem?_append_left (by omega)]
  · intro p hmem
    have := h.materialized.patches p hmem
    rw [List.length_append]
    omega

variable {e : TypeEntry}

theorem published_findType (h : c.Complete g) (hp : g.Published c.update g') :
    g'.findType handle = some e ↔ c.entry g handle = some e ∧ e.live = true := by
  unfold Graph.findType
  by_cases h0 : handle = 0
  · rw [if_pos h0]
    simp [entry, h0]
  · rw [if_neg h0, published_entry h hp h0, Option.filter_eq_some_iff]

theorem entry_untouched (h : c.Complete g) (ht : handle ∉ c.touchedHandles)
    (hle : handle ≤ g.types.length) (hne : handle ≠ 0) :
    c.entry g handle = g.types[handle - 1]? := by
  have hsmall : ¬handle > g.types.length := by omega
  unfold entry
  rw [if_neg hne, if_neg hsmall]
  split
  · rename_i hfind
    obtain ⟨p, hmem, rfl, -⟩ := findPatch_some hfind
    exact absurd (h.materialized.patches p hmem).1 ht
  · rfl

theorem published_canonical (hg : g.Sound) (h : c.Complete g) (hp : g.Published c.update g') :
    g'.Canonical := by
  have hx := hg.committed.canonical
  obtain ⟨slots, hins, hsize, htable, hroom⟩ := publishDerived_ok hg h
  have hslots : g'.derivedIndex = slots := by
    have hok := hp.derivedIndex
    rw [hins] at hok
    exact (Except.ok.inj hok).symm
  have hlength := published_types_length hp
  have hcanonical := published_canonicalTypes hp
  refine ⟨?_, ?_, ?_, ?_, ?_, ?_, ?_, ?_⟩
  · rw [hlength, hcanonical]
    exact h.types.records
  · rw [hp.intrinsicRefs, hcanonical]
    exact h.types.intrinsic
  · rw [hcanonical]
    have hsame : (g'.namedRefs.getD · 0) = c.namedRef g := by
      funext key
      have hrange : ∀ p ∈ c.update.namedRefPatches,
          p.handle < (g.namedRefs ++ c.update.newTypes.map fun _ => 0).length := by
        intro p hmem
        have := (h.types.patches p hmem).2.2.2
        rw [List.length_append, List.length_map, hx.namedSlots]
        omega
      rw [hp.namedRefs, namedRefs_getD h.types.patchesNodup hrange, List.map_const',
        getD_append_zeros, namedRef]
      split
      · rename_i hne
        cases hfind : findPatch c.update.namedRefPatches key with
        | none => rfl
        | some value =>
          obtain ⟨p, hmem, rfl, -⟩ := findPatch_some hfind
          exact absurd (h.types.patches p hmem).2.1 hne
      · rename_i hzero
        rw [not_not.mp hzero]
    rw [hsame]
    exact h.types.named
  · rw [hp.namedRefs, namedRefs_length, List.length_append, List.length_map, hx.namedSlots, hlength]
    omega
  · rw [hslots, hcanonical]
    exact htable
  · rw [hp.derivedCount, h.indexed, hx.derivedCount, h.types.derivedCount, hcanonical,
      derivedEntries_whole, List.length_append]
  · rw [hslots, hcanonical]
    exact hroom
  · rw [hslots, hsize]
    exact hx.derivedSize

theorem published_committed (hg : g.Sound) (h : c.Complete g) (hp : g.Published c.update g') :
    Committed g' := by
  obtain ⟨s1, h1, htypeIndex⟩ := publishIdentities_ok hg h
  obtain ⟨s2, h2, hobjectIndex⟩ := publishObjectIdentities_ok hg h
  obtain ⟨s3, h3, hlinkIndex⟩ := publishLinks_ok hg h
  have e1 := hp.identityIndex
  rw [h1] at e1
  have e2 := hp.objectIdentityIndex
  rw [h2] at e2
  have e3 := hp.linkIndex
  change Graph.publishLinks g.linkIndex (linkRecords g c) c.update.newLinks g.linkRecords.length =
    .ok g'.linkIndex at e3
  rw [h3] at e3
  refine ⟨?_, ?_, ?_, ?_, ?_, published_canonical hg h hp, ?_⟩
  · rw [published_types_length hp, hp.identities, List.length_append, hg.committed.typeSlots,
      h.types.slots]
  · rw [hp.identities, ← Except.ok.inj e1]
    exact htypeIndex
  · rw [hp.objectEntries, applyPatches_length, List.length_append, hp.objectIdentities,
      List.length_append, hg.committed.objectSlots, h.objects.slots]
  · rw [hp.objectIdentities, ← Except.ok.inj e2]
    exact hobjectIndex
  · rw [hp.linkRecords, ← Except.ok.inj e3]
    exact hlinkIndex
  · intro o ho
    rw [published_canonicalTypes hp]
    rw [hp.objectEntries] at ho
    rcases mem_applyPatches ho with ho | ⟨p, hmem, rfl⟩
    · rcases List.mem_append.mp ho with ho | ho
      · exact (hg.committed.objects o ho).append _
      · exact h.objects.added o ho
    · exact (h.objects.patches p hmem).2.2

variable {target : TypeHandle}

theorem published_chain (hp : g.Published c.update g') {edge : DependencyEdge}
    (hedge : OnChain g.dependencyEdges g.reverseDependencyHeads target edge) :
    OnChain g'.dependencyEdges g'.reverseDependencyHeads target edge := by
  have hstart : OnChain g.dependencyEdges
      (g.reverseDependencyHeads ++ c.update.newTypes.map fun _ => 0) target edge := by
    unfold OnChain at hedge ⊢
    rw [List.map_const', getD_append_zeros]
    exact hedge
  have hfold := @publishEdges_old
    (g.dependencyEdges, g.reverseDependencyHeads ++ c.update.newTypes.map fun _ => 0) target edge
    c.update.dependencyEdges hstart
  rw [← hp.edges] at hfold
  exact hfold

theorem published_pending (hg : g.Sound) (h : c.Complete g) (hp : g.Published c.update g')
    {pending : PendingDependencyEdge} (hmem : pending ∈ c.update.dependencyEdges) :
    ∃ edge, OnChain g'.dependencyEdges g'.reverseDependencyHeads pending.targetHandle edge ∧
      edge.ownerHandle = pending.ownerHandle ∧ edge.ownerVersion = pending.ownerVersion := by
  obtain ⟨-, hne, hle⟩ := h.materialized.edges pending hmem
  have hlt : pending.targetHandle - 1 <
      (g.reverseDependencyHeads ++ c.update.newTypes.map fun _ => 0).length := by
    rw [List.length_append, List.length_map, hg.heads]
    omega
  have hfold := @publishEdges_new (g.dependencyEdges,
    g.reverseDependencyHeads ++ c.update.newTypes.map fun _ => 0) pending _ hmem hlt
  rw [← hp.edges] at hfold
  exact hfold

theorem published_version_touched (hg : g.Sound) (h : c.Complete g) (hp : g.Published c.update g')
    {version : Nat} (hmem : ⟨handle, version⟩ ∈ c.update.dependencyVersionPatches) :
    g'.dependencyVersions[handle - 1]? = some version := by
  have hnodup : (c.update.dependencyVersionPatches.map (·.handle)).Nodup := by
    rw [h.materialized.versions]
    exact h.touchedNodup
  have hrange : ∀ p ∈ c.update.dependencyVersionPatches, p.handle ≠ 0 ∧
      p.handle ≤ (g.dependencyVersions ++ c.update.newTypes.map fun _ => 1).length := by
    intro p hp
    have hin : p.handle ∈ c.touchedHandles := by
      rw [← h.materialized.versions]
      exact List.mem_map_of_mem hp
    have := h.materialized.range p.handle hin
    rw [List.length_append, List.length_map, hg.versions]
    exact this
  have hne := (hrange _ hmem).1
  rw [hp.versions, applyPatches_getElem? hnodup hrange hne, findPatch_of_mem hnodup hmem]

theorem published_version_untouched (hg : g.Sound) (h : c.Complete g)
    (hp : g.Published c.update g') (ht : handle ∉ c.touchedHandles)
    (hle : handle ≤ g.types.length) (hne : handle ≠ 0) :
    g'.dependencyVersions[handle - 1]? = g.dependencyVersions[handle - 1]? := by
  have hnodup : (c.update.dependencyVersionPatches.map (·.handle)).Nodup := by
    rw [h.materialized.versions]
    exact h.touchedNodup
  have hrange : ∀ p ∈ c.update.dependencyVersionPatches, p.handle ≠ 0 ∧
      p.handle ≤ (g.dependencyVersions ++ c.update.newTypes.map fun _ => 1).length := by
    intro p hp
    have hin : p.handle ∈ c.touchedHandles := by
      rw [← h.materialized.versions]
      exact List.mem_map_of_mem hp
    have := h.materialized.range p.handle hin
    rw [List.length_append, List.length_map, hg.versions]
    exact this
  rw [hp.versions, applyPatches_getElem? hnodup hrange hne]
  split
  · rename_i hfind
    obtain ⟨p, hmem, rfl, -⟩ := findPatch_some hfind
    have hin : p.handle ∈ c.touchedHandles := by
      rw [← h.materialized.versions]
      exact List.mem_map_of_mem hmem
    exact absurd hin ht
  · rw [List.getElem?_append_left]
    have := hg.versions
    omega

theorem published_live (h : c.Complete g) (hp : g.Published c.update g') {base : TypeBase}
    (hlive : LiveBase (c.entry g) base) (hbase : base = .named target) :
    ∃ e, g'.findType target = some e := by
  subst hbase
  obtain ⟨e, he, hl⟩ := hlive
  exact ⟨e, (published_findType h hp).mpr ⟨he, hl⟩⟩

variable {i : Nat}

theorem depends_touched (hg : g.Sound) (h : c.Complete g) (hp : g.Published c.update g')
    (ht : handle ∈ c.touchedHandles) (he : c.entry g handle = some e) (hlive : e.live = true)
    (hkind : e.kind = .record) (hdefined : e.defined = true) (hi : i < e.definition.count) :
    ∃ m, g'.memberRecords[e.definition.begin - 1 + i]? = some m ∧ g'.MemberDepends handle m := by
  obtain ⟨member, hat, base, modifiers, hd, hbase⟩ :=
    validateType_spec (h.touchedValid handle ht) he hlive hkind hdefined hi
  obtain ⟨version, -, hversion, hentry⟩ := h.materialized.defined handle ht e he
  obtain ⟨member', hat', base', modifiers', hd', hedges⟩ := hentry hkind hdefined i hi
  rw [hat] at hat'
  cases hat'
  obtain ⟨rfl, -⟩ := hd.unique hd'
  refine ⟨member, ?_, base, modifiers, ?_, ?_⟩
  · rw [hp.memberRecords]
    exact hat
  · rw [published_canonicalTypes hp]
    exact hd
  · intro target htarget
    refine ⟨published_live h hp hbase htarget, ?_⟩
    obtain ⟨edge, hedge, howner, hver⟩ := published_pending hg h hp (hedges target htarget)
    refine ⟨edge, hedge, howner, ?_⟩
    rw [hver]
    exact published_version_touched hg h hp hversion

/-- A member of a definition that was not touched: its base is live, because it was not touched
either or because the closure led back here. -/
theorem depends_untouched (hg : g.Sound) (h : c.Complete g) (hp : g.Published c.update g')
    (ht : handle ∉ c.touchedHandles) (hle : handle ≤ g.types.length)
    (he : g.findType handle = some e) (hkind : e.kind = .record) (hdefined : e.defined = true)
    (hi : i < e.definition.count) :
    ∃ m, g'.memberRecords[e.definition.begin - 1 + i]? = some m ∧ g'.MemberDepends handle m := by
  obtain ⟨member, hat, base, modifiers, hd, hdepends⟩ :=
    hg.dependencies handle e he hkind hdefined i hi
  have hne : handle ≠ 0 := by
    rintro rfl
    cases he
  have hentry : c.entry g handle = some e ∧ e.live = true := by
    rw [entry_untouched h ht hle hne]
    unfold Graph.findType at he
    rwa [if_neg hne, Option.filter_eq_some_iff] at he
  have hold : g'.memberRecords[e.definition.begin - 1 + i]? = some member := by
    rw [hp.memberRecords, List.getElem?_append_left (List.getElem?_eq_some_iff.mp hat).1, hat]
  have hdenotes : Denotes g'.canonicalTypes member.type base modifiers := by
    rw [hp.canonicalTypes]
    exact hd.append _
  refine ⟨member, hold, base, modifiers, hdenotes, ?_⟩
  intro target htarget
  obtain ⟨⟨t, htype⟩, edge, hedge, howner, hversion⟩ := hdepends target htarget
  refine ⟨?_, edge, published_chain hp hedge, howner, ?_⟩
  · have htne : target ≠ 0 := by
      rintro rfl
      cases htype
    unfold Graph.findType at htype
    rw [if_neg htne, Option.filter_eq_some_iff] at htype
    by_cases htouched : target ∈ c.touchedHandles
    · have hvalid := h.ownersValid target edge htouched hedge (by rw [howner]; exact hversion)
      rw [howner] at hvalid
      obtain ⟨member', hat', base', modifiers', hd', hbase⟩ :=
        validateType_spec hvalid hentry.1 hentry.2 hkind hdefined hi
      have hsame : c.memberAt g (e.definition.begin - 1 + i) = some member := by
        rw [← hold, hp.memberRecords]
        rfl
      rw [hsame] at hat'
      cases hat'
      rw [published_canonicalTypes hp] at hdenotes
      obtain ⟨rfl, -⟩ := hdenotes.unique hd'
      exact published_live h hp hbase htarget
    · have hlt : target ≤ g.types.length := by
        have := (List.getElem?_eq_some_iff.mp htype.1).1
        exact Nat.le_of_pred_lt this
      refine ⟨t, (published_findType h hp).mpr ⟨?_, htype.2⟩⟩
      rw [entry_untouched h htouched hlt htne]
      exact htype.1
  · rw [published_version_untouched hg h hp ht hle hne]
    exact hversion

theorem published_sound (hg : g.Sound) (h : c.Complete g) (hp : g.Published c.update g') :
    g'.Sound := by
  refine ⟨published_committed hg h hp, ?_, ?_, ?_, ?_⟩
  · rw [hp.versions, applyPatches_length, List.length_append, List.length_map, hg.versions,
      published_types_length hp]
  · have hheads := congrArg Prod.snd hp.edges
    dsimp only at hheads
    rw [hheads, publishEdges_heads, List.length_append, List.length_map, hg.heads,
      published_types_length hp]
  · intro m hm
    rw [hp.memberRecords] at hm
    rcases List.mem_append.mp hm with hm | hm
    · obtain ⟨base, modifiers, hd⟩ := hg.members m hm
      refine ⟨base, modifiers, ?_⟩
      rw [hp.canonicalTypes]
      exact hd.append _
    · rw [published_canonicalTypes hp]
      exact h.materialized.members m hm
  · intro handle e he hkind hdefined i hi
    obtain ⟨hentry, hlive⟩ := (published_findType h hp).mp he
    by_cases ht : handle ∈ c.touchedHandles
    · exact depends_touched hg h hp ht hentry hlive hkind hdefined hi
    · have hne : (handle : Nat) ≠ 0 := by
        rintro rfl
        cases hentry
      by_cases hle : handle ≤ g.types.length
      · refine depends_untouched hg h hp ht hle ?_ hkind hdefined hi
        unfold Graph.findType
        rw [if_neg hne, Option.filter_eq_some_iff, ← entry_untouched h ht hle hne]
        exact ⟨hentry, hlive⟩
      · -- a new handle that nothing touched has no declaration
        have hbig : handle > g.types.length := Nat.lt_of_not_le hle
        unfold entry at hentry
        rw [if_neg hne, if_pos hbig] at hentry
        have hposition : g.types.length + (handle - g.types.length - 1) + 1 = handle := by
          have hgt : g.types.length < (handle : Nat) := hbig
          omega
        have hfresh := h.materialized.fresh _ e hentry (by rw [hposition]; exact ht)
        rw [hfresh] at hlive
        cases hlive

end Candidate.Complete

end ServerEngine
