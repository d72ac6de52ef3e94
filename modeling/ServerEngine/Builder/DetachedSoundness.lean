import ServerEngine.Builder.DetachedGraph
import Mathlib.Algebra.Order.BigOperators.Group.List

/-! # Soundness of a full build

The indexes and links of a detached Graph, and the Graph as a whole. The storage of a rebuild has room
for every link and modifier it holds, so no insertion runs out of slots.
-/
namespace ServerEngine
open Slice ErrorFold

namespace FullBuild

/-! ## Identity indexes -/

def Roomy (capacity count : Nat) : Prop :=
  (count = 0 ∧ capacity = 0) ∨ ((∃ n, capacity = 2 ^ n) ∧ 8 ≤ capacity ∧ count * 2 ≤ capacity)

variable {count : Nat}

theorem indexSlots_roomy {capacity : Nat} (h : indexSlots count = .ok capacity) :
    (∃ n, capacity = 2 ^ n) ∧ 8 ≤ capacity ∧ count * 2 ≤ capacity := by
  obtain ⟨size, hsize, h⟩ := bind_ok.mp h
  cases h
  rcases indexCapacity_ok hsize with ⟨hzero, hnone⟩ | hroomy
  · rw [if_pos hnone]
    exact ⟨⟨3, rfl⟩, by omega, by omega⟩
  · rw [if_neg (by omega)]
    exact hroomy

theorem keyed_start {κ : Type} (hash : κ → Nat) {capacity : Nat} (h : Roomy capacity count) :
    IndexSlots.Keyed hash (List.replicate capacity {}) ([] : List κ) := by
  refine IndexSlots.Keyed.empty hash ?_ ?_
  · exact h.imp And.right fun h => h.2.1
  · exact h.imp And.right And.left

theorem buildIdentityIndex_keyed {capacity : Nat} {identities : List IdentityRef}
    (hroomy : Roomy capacity identities.length) (hnodup : identities.Nodup) : ∃ slots,
      buildIdentityIndex capacity identities = .ok slots ∧ slots.length = capacity ∧
      IndexSlots.Keyed identityHash slots identities := by
  have hroom : identities = [] ∨ ([] : List IdentityRef).length + identities.length <
      (List.replicate capacity ({} : IndexSlot)).length := by
    rw [List.length_replicate, List.length_nil]
    rcases hroomy with ⟨hzero, -⟩ | ⟨-, h8, hle⟩
    · exact .inl (List.length_eq_zero_iff.mp hzero)
    · exact .inr (by omega)
  obtain ⟨slots, hins, hsize, hx⟩ := @Graph.insertAll_keyed _ _ _ identityHash
    (fun i : IdentityRef => i) _ [] identities identities (keyed_start identityHash hroomy)
    (by simpa using hnodup) hroom ⟨[], by simp⟩
  refine ⟨slots, ?_, by rw [hsize, List.length_replicate], by simpa using hx⟩
  rw [← hins, buildIdentityIndex, Graph.insertAll]
  have hzip : identities.zipIdx (List.length ([] : List IdentityRef) + 1) =
      identities.zipIdx.map fun item => (item.1, item.2 + 1) := by
    rw [List.length_nil, List.zipIdx_succ]
  rw [hzip, List.foldlM_map]

/-! ## Links -/

section Links
variable {objectIdentities : List IdentityRef} {valid : ObjectEndpoint → Bool}
  {state state' : List LinkRecord × List IndexSlot} {link : SourceContributionLink}

structure Linked (capacity : Nat) (state : List LinkRecord × List IndexSlot) : Prop where
  index : LinkIndex state.2 state.1
  size : state.2.length = capacity

theorem addLink_linked {capacity : Nat} (hvalid : ∀ e, valid e = true → e.Named)
    (h : Linked capacity state) (hroom : state.1.length + 1 < capacity)
    (hstep : addLink objectIdentities valid state link = .ok state') :
    Linked capacity state' ∧ state'.1.length = state.1.length + 1 := by
  obtain ⟨source, -, hstep⟩ := bind_ok.mp hstep
  obtain ⟨target, -, hstep⟩ := bind_ok.mp hstep
  generalize hvalue : (⟨⟨source, link.source.member⟩, ⟨target, link.target.member⟩⟩ :
    LinkRecord) = value at hstep
  dsimp only at hstep
  split at hstep
  · cases hstep
  rename_i hendpoints
  simp only [Bool.or_eq_true, Bool.not_eq_true', not_or, Bool.not_eq_false] at hendpoints
  have hcompare : (fun handle => ((state.1 ++ [value])[handle - 1]?.map (·.target)) ==
      some value.target) = fun handle =>
        (state.1.map (·.target) ++ [value.target])[handle - 1]? == some value.target := by
    funext handle
    rw [← List.getElem?_map, List.map_append]
    rfl
  rw [hcompare] at hstep
  split at hstep
  · cases hstep
  rename_i pos hprobe
  split at hstep
  · cases hstep
  rename_i hfree
  rw [ne_eq, not_not] at hfree
  cases hstep
  have hkeyed := h.index.index.place_next [value.target] hprobe hfree
    (by rw [List.length_map, h.size]; exact hroom)
  refine ⟨⟨⟨?_, ?_⟩, ?_⟩, by simp⟩
  · intro l hl
    rcases List.mem_append.mp hl with hl | hl
    · exact h.index.named l hl
    · rw [List.mem_singleton] at hl
      rw [hl]
      exact hvalid _ hendpoints.2
  · dsimp only
    rw [List.map_append, List.length_append, List.length_singleton]
    rw [List.length_map] at hkeyed
    exact hkeyed
  · dsimp only
    rw [List.length_set, h.size]

theorem addSourceLinks_linked {storage : Storage} {capacity : Nat}
    (hvalid : ∀ e, valid e = true → e.Named) {source : SourceContributionState}
    (h : Linked capacity state) (hroom : state.1.length + source.links.count < capacity)
    (hstep : addSourceLinks storage objectIdentities valid state source = .ok state') :
    Linked capacity state' ∧ state'.1.length = state.1.length + source.links.count := by
  unfold addSourceLinks at hstep
  split at hstep
  · cases hstep
  rename_i hfits
  simp only [Bool.or_eq_true, decide_eq_true_eq, not_or, Nat.not_lt, gt_iff_lt] at hfits
  have hlength : (slice storage.arenas.links source.links.begin source.links.count).length =
      source.links.count := slice_length (by omega)
  rw [← hlength] at hroom ⊢
  refine foldlM_ok_split (fun done s => Linked capacity s ∧
    s.1.length = state.1.length + done.length) hstep ⟨h, rfl⟩ ?_
  intro pre link post s s' hsplit hdone hone
  obtain ⟨hs, hcount⟩ := hdone
  rw [hsplit, List.length_append, List.length_cons] at hroom
  obtain ⟨hs', hcount'⟩ := addLink_linked hvalid hs (by omega) hone
  refine ⟨hs', ?_⟩
  rw [hcount', hcount, List.length_append, List.length_singleton]
  omega

theorem addLinks_linked {storage : Storage} {capacity : Nat}
    (hvalid : ∀ e, valid e = true → e.Named) {sources : List SourceContributionState}
    (h : Linked capacity state)
    (hroom : state.1.length + (sources.map (·.links.count)).sum < capacity)
    (hstep : sources.foldlM (addSourceLinks storage objectIdentities valid) state = .ok state') :
    Linked capacity state' := by
  have hall := foldlM_ok_split (fun done s => Linked capacity s ∧
    s.1.length = state.1.length + (done.map (·.links.count)).sum) hstep ⟨h, rfl⟩ ?_
  · exact hall.1
  intro pre source post s s' hsplit hdone hone
  obtain ⟨hs, hcount⟩ := hdone
  rw [hsplit, List.map_append, List.sum_append, List.map_cons, List.sum_cons] at hroom
  obtain ⟨hs', hcount'⟩ := addSourceLinks_linked hvalid hs (by omega) hone
  refine ⟨hs', ?_⟩
  rw [hcount', hcount, List.map_append, List.sum_append, List.map_singleton, List.sum_singleton]
  omega

theorem validEndpoint_named {objects : List ObjectEntry} {canonical : List CanonicalTypeRecord}
    {types : List TypeEntry} {e : ObjectEndpoint}
    (h : validEndpoint objects canonical types e = true) : e.Named := by
  unfold validEndpoint at h
  split at h
  · cases h
  rename_i hguard
  simpa [ObjectEndpoint.Named, not_or] using hguard

end Links

/-! ## The Graph -/

/-- The storage of a rebuild: what the sources name fits the arenas they were copied to. -/
structure Rebuilt (storage : Storage) : Prop where
  genuine : storage.arenas.Genuine
  construction : storage.construction = []
  modifiers : (storage.arenas.members.map (·.type.modifiers.count)).sum +
    (storage.arenas.objects.map (·.type.modifiers.count)).sum ≤ storage.arenas.modifiers.length
  links : ((liveSources storage).map (·.links.count)).sum ≤ storage.arenas.links.length

section Whole
variable {storage : Storage} {typeCount : Nat}

/-- The references of members and objects, and the table they leave behind. -/
structure Typed (storage : Storage) (typeCount : Nat) (memberBases objectBases : List Nat)
    (table : TypeTable) (memberTypes objectTypes : List TypeRef) : Prop where
  exact : table.Exact typeCount
  members : Refs table.canonicalTypes ((storage.arenas.members.map (·.type)).zip memberBases)
    memberTypes
  objects : Refs table.canonicalTypes ((storage.arenas.objects.map (·.type)).zip objectBases)
    objectTypes
  room : table.derivedCount < table.derivedIndex.length
  size : 8 ≤ table.derivedIndex.length

variable {canonical : List CanonicalTypeRecord}

theorem Refs.mono {items : List (SourceContributionTypeRef × Nat)} {refs : List TypeRef}
    (h : Refs canonical items refs) (more : List CanonicalTypeRecord) :
    Refs (canonical ++ more) items refs := by
  refine ⟨h.1, ?_⟩
  intro i item hi
  obtain ⟨ref, href, modifiers, hd⟩ := h.2 i item hi
  exact ⟨ref, href, modifiers, hd.append more⟩

theorem zip_modifiers (types : List SourceContributionTypeRef) (bases : List Nat) :
    ((types.zip bases).map (·.1.modifiers.count)).sum ≤ (types.map (·.modifiers.count)).sum := by
  induction types generalizing bases with
  | nil => simp
  | cons type rest ih =>
    cases bases with
    | nil => simp
    | cons base bases =>
      have hrest := ih bases
      simp only [List.zip_cons_cons, List.map_cons, List.sum_cons]
      omega

theorem table_start (typeCount capacity : Nat) (hpow : ∃ n, capacity = 2 ^ n) :
    TypeTable.Exact {
      canonicalTypes := [{}]
      intrinsicRefs := List.replicate graphIntrinsicTypeCount 0
      namedRefs := List.replicate (typeCount + 1) 0
      derivedIndex := List.replicate capacity {} } typeCount := by
  have hzero : ∀ (n key : Nat), (List.replicate n 0).getD key 0 = 0 := by
    intro n key
    rw [List.getD_eq_getElem?_getD, List.getElem?_replicate]
    split <;> rfl
  refine ⟨.start typeCount, .start (hzero _), .start (hzero _), List.length_replicate, ?_, rfl⟩
  refine IndexSlots.table_empty _ (.inr ?_) fun s hs => (List.mem_replicate.mp hs).2
  rw [List.length_replicate]
  exact hpow

variable {memberBases : List Nat} {memberTypes objectTypes : List TypeRef}

theorem materializeTypes_typed (hrebuilt : Rebuilt storage) {objectBases : List Nat}
    {table : TypeTable}
    (h : materializeTypes storage typeCount memberBases objectBases = .ok (table, memberTypes, objectTypes)) :
    Typed storage typeCount memberBases objectBases table memberTypes objectTypes := by
  have hcapacity : ∀ capacity, (if storage.arenas.modifiers.isEmpty then .ok 8
      else indexCapacity storage.arenas.modifiers.length) = Except.ok capacity →
      (∃ n, capacity = 2 ^ n) ∧ 8 ≤ capacity ∧ storage.arenas.modifiers.length < capacity := by
    intro capacity hc
    split at hc
    · rename_i hempty
      cases hc
      rw [List.isEmpty_iff] at hempty
      rw [hempty]
      exact ⟨⟨3, rfl⟩, by omega, by simp⟩
    · rename_i hsome
      rw [List.isEmpty_iff, ← List.length_eq_zero_iff] at hsome
      obtain ⟨hpow, h8, hle⟩ := (indexCapacity_ok hc).resolve_left fun h => hsome h.1
      exact ⟨hpow, h8, by omega⟩
  have hrest : ∀ capacity, (∃ n, capacity = 2 ^ n) ∧ 8 ≤ capacity ∧
      storage.arenas.modifiers.length < capacity →
      (((storage.arenas.members.map (·.type)).zip memberBases).foldlM (materializeNext storage) (({
        canonicalTypes := [{}]
        intrinsicRefs := List.replicate graphIntrinsicTypeCount 0
        namedRefs := List.replicate (typeCount + 1) 0
        derivedIndex := List.replicate capacity {} } : TypeTable), []) >>= fun first =>
        ((storage.arenas.objects.map (·.type)).zip objectBases).foldlM (materializeNext storage)
          (first.1, []) >>= fun second => pure (second.1, first.2, second.2)) =
        .ok (table, memberTypes, objectTypes) →
      Typed storage typeCount memberBases objectBases table memberTypes objectTypes := by
    intro capacity hc hdo
    obtain ⟨hpow, h8, hlt⟩ := hc
    obtain ⟨⟨t₁, refs₁⟩, h₁, hdo⟩ := bind_ok.mp hdo
    obtain ⟨⟨t₂, refs₂⟩, h₂, hdo⟩ := bind_ok.mp hdo
    dsimp only at h₂ hdo
    cases hdo
    obtain ⟨ht₁, hgrow₁, hrefs₁⟩ := materializeAll_spec (table_start typeCount capacity hpow) h₁
    obtain ⟨ht₂, hgrow₂, hrefs₂⟩ := materializeAll_spec ht₁ h₂
    obtain ⟨added, hadded⟩ := hgrow₂.records
    have hgrow := hgrow₁.trans hgrow₂
    have hslots := hgrow.slots
    have hcount := hgrow.derivedCount
    have hm := zip_modifiers (storage.arenas.members.map (·.type)) memberBases
    have ho := zip_modifiers (storage.arenas.objects.map (·.type)) objectBases
    have hfits := hrebuilt.modifiers
    simp only [List.map_map, Function.comp_def] at hm ho
    dsimp only at hcount hslots
    rw [List.length_replicate] at hslots
    refine ⟨ht₂, ?_, hrefs₂, by omega, by omega⟩
    rw [hadded]
    exact hrefs₁.mono added
  unfold materializeTypes at h
  split at h
  · rename_i hempty
    exact hrest 8 (hcapacity 8 (by rw [if_pos hempty])) h
  · rename_i hsome
    obtain ⟨capacity, hc, h⟩ := bind_ok.mp h
    exact hrest capacity (hcapacity capacity (by rw [if_neg hsome]; exact hc)) h

theorem declared_start (hrebuilt : Rebuilt storage) : Declared storage.arenas.types {
    construction := growTo storage.construction (storage.arenas.types.length + 1) {}
    declarationHandles := List.replicate storage.arenas.types.length 0 } := by
  refine ⟨rfl, List.nodup_nil, by simp, by simp, ?_, List.length_replicate, ?_⟩
  · intro s hs
    have hnil := hrebuilt.construction
    simp only [growTo, hnil, List.nil_append] at hs
    rw [(List.mem_replicate.mp hs).2]
    exact SourceConstructionState.names_empty _
  · intro i h hget hne
    rw [List.getElem?_replicate] at hget
    split at hget
    · cases hget
      exact absurd rfl hne
    · cases hget

theorem member_items {identities : List IdentityRef}
    (hbases : (storage.arenas.members.map (·.type)).mapM (baseHandle identities) = .ok memberBases)
    (hrefs : Refs canonical ((storage.arenas.members.map (·.type)).zip memberBases) memberTypes) :
    (storage.arenas.members.zip (memberTypes.zip memberBases)).length =
      storage.arenas.members.length ∧
    ∀ item ∈ storage.arenas.members.zip (memberTypes.zip memberBases),
      Item canonical identities item := by
  obtain ⟨hlength, hget⟩ := mapM_ok_getElem? hbases
  have hcount := hrefs.1
  rw [List.length_map] at hlength
  rw [List.length_zip, List.length_map] at hcount
  refine ⟨?_, ?_⟩
  · rw [List.length_zip, List.length_zip]
    omega
  rintro ⟨m, ref, base⟩ hmem
  obtain ⟨i, hi⟩ := List.mem_iff_getElem?.mp hmem
  simp only [List.getElem?_zip_eq_some] at hi
  obtain ⟨hm, href, hbase⟩ := hi
  have htype : (storage.arenas.members.map (·.type))[i]? = some m.type := by
    rw [List.getElem?_map, hm]
    rfl
  obtain ⟨base', hbase', hok⟩ := hget i m.type htype
  rw [hbase] at hbase'
  cases hbase'
  obtain ⟨ref', href', hd⟩ := hrefs.2 i (m.type, base)
    (List.getElem?_zip_eq_some.mpr ⟨htype, hbase⟩)
  rw [href] at href'
  cases href'
  exact ⟨baseHandle_ok hok, hd⟩

theorem object_entries {identities : List IdentityRef} {state : List IdentityRef × List Nat}
    (hbases : ObjectBases identities storage.arenas.objects state)
    (hrefs : Refs canonical ((storage.arenas.objects.map (·.type)).zip state.2) objectTypes) :
    (storage.arenas.objects.zip objectTypes).length = storage.arenas.objects.length ∧
    ∀ item ∈ storage.arenas.objects.zip objectTypes, ∃ base modifiers,
      Denotes canonical item.2 base modifiers := by
  have hcount := hrefs.1
  rw [List.length_zip, List.length_map, hbases.length] at hcount
  refine ⟨?_, ?_⟩
  · rw [List.length_zip]
    omega
  rintro ⟨o, ref⟩ hmem
  obtain ⟨i, hi⟩ := List.mem_iff_getElem?.mp hmem
  simp only [List.getElem?_zip_eq_some] at hi
  obtain ⟨ho, href⟩ := hi
  have htype : (storage.arenas.objects.map (·.type))[i]? = some o.type := by
    rw [List.getElem?_map, ho]
    rfl
  obtain ⟨base, hbase, -⟩ := hbases.bases i o ho
  obtain ⟨ref', href', modifiers, hd⟩ := hrefs.2 i (o.type, base)
    (List.getElem?_zip_eq_some.mpr ⟨htype, hbase⟩)
  rw [href] at href'
  cases href'
  exact ⟨_, modifiers, hd⟩

structure Made (storage : Storage) (declarations : Declarations) (table : TypeTable)
    (definitions : Definitions) (objectTypes : List TypeRef) (objectIdentities : List IdentityRef)
    (identityIndex objectIdentityIndex linkIndex : List IndexSlot) (links : List LinkRecord) :
    Prop where
  declared : Declared storage.arenas.types declarations
  exact : table.Exact declarations.types.length
  room : table.derivedCount < table.derivedIndex.length
  size : 8 ≤ table.derivedIndex.length
  defined : Defined table.canonicalTypes declarations.types definitions
  identityIndex : IndexSlots.Keyed identityHash identityIndex declarations.identities
  objectIndex : IndexSlots.Keyed identityHash objectIdentityIndex objectIdentities
  objectsValid : ∀ i ∈ objectIdentities, i.valid = true
  objectSlots : (storage.arenas.objects.zip objectTypes).length = objectIdentities.length
  objectsTyped : ∀ item ∈ storage.arenas.objects.zip objectTypes, ∃ base modifiers,
    Denotes table.canonicalTypes item.2 base modifiers
  links : LinkIndex linkIndex links
  objectIndexSize : 8 ≤ objectIdentityIndex.length
  linkIndexSize : 8 ≤ linkIndex.length

variable {abi : AbiConfiguration} {construction : List SourceConstructionState}
variable {detached : DetachedGraph}

theorem prepareGraph_made (hrebuilt : Rebuilt storage)
    (h : prepareGraph abi storage = .ok (construction, detached)) :
    ∃ d table definitions objectTypes objectIdentities identityIndex objectIdentityIndex linkIndex
      linkRecords, Made storage d table definitions objectTypes objectIdentities identityIndex
        objectIdentityIndex linkIndex linkRecords ∧
      construction = d.construction.take (d.types.length + 1) ∧ detached.graph = {
        baselineBacked := false
        types := definitions.types
        identities := d.identities
        memberRecords := definitions.members
        enumValueRecords := definitions.enumValues
        objectEntries := (storage.arenas.objects.zip objectTypes).map fun item =>
          ({ type := item.2, constructionFlags := item.1.constructionFlags, live := true } :
            ObjectEntry)
        objectIdentities, linkRecords
        canonicalTypes := table.canonicalTypes
        identityIndex, objectIdentityIndex, linkIndex
        intrinsicRefs := table.intrinsicRefs
        namedRefs := table.namedRefs
        derivedIndex := table.derivedIndex
        derivedIndexEntries := table.derivedCount
        dependencyVersions := List.replicate d.types.length 1
        reverseDependencyHeads := definitions.reverseDependencyHeads
        dependencyEdges := definitions.dependencyEdges
        liveTypeCount := definitions.types.length
        liveObjectCount := (storage.arenas.objects.zip objectTypes).length
        liveLinkCount := linkRecords.length } := by
  unfold prepareGraph at h
  split at h
  · cases h
  obtain ⟨capacity, -, h⟩ := bind_ok.mp h
  obtain ⟨objectCapacity, -, h⟩ := bind_ok.mp h
  obtain ⟨d, hd, h⟩ := bind_ok.mp h
  obtain ⟨identityCapacity, hidentityCapacity, h⟩ := bind_ok.mp h
  obtain ⟨identityIndex, hidentityIndex, h⟩ := bind_ok.mp h
  obtain ⟨memberBases, hmemberBases, h⟩ := bind_ok.mp h
  obtain ⟨⟨objectIdentities, objectBases⟩, hobjects, h⟩ := bind_ok.mp h
  obtain ⟨⟨table, memberTypes, objectTypes⟩, htypes, h⟩ := bind_ok.mp h
  obtain ⟨definitions, hdefinitions, h⟩ := bind_ok.mp h
  obtain ⟨objectSlots, hobjectSlots, h⟩ := bind_ok.mp h
  obtain ⟨objectIdentityIndex, hobjectIndex, h⟩ := bind_ok.mp h
  obtain ⟨linkSlots, hlinkSlots, h⟩ := bind_ok.mp h
  obtain ⟨⟨linkRecords, linkIndex⟩, hlinks, h⟩ := bind_ok.mp h
  dsimp only at h
  split at h
  swap
  · cases h
  cases h
  obtain ⟨hdeclared, hseen⟩ := declareSources_spec hrebuilt.genuine (declared_start hrebuilt) hd
  have hbases := declareObjects_spec hobjects
  have htyped := materializeTypes_typed hrebuilt htypes
  obtain ⟨hlength, hitems⟩ := member_items hmemberBases htyped.members
  obtain ⟨hobjectCount, hentries⟩ := object_entries hbases htyped.objects
  have hdefined := defineSources_defined hdeclared hseen
    (defined_start hdeclared.entries d.types.length) hitems hlength hdefinitions
  obtain ⟨slots, hbuilt, -, hkeyed⟩ := buildIdentityIndex_keyed
    (by rw [← hdeclared.slots]; exact indexCapacity_ok hidentityCapacity) hdeclared.nodup
  rw [hbuilt] at hidentityIndex
  cases hidentityIndex
  have hobjectLength : objectIdentities.length = storage.arenas.objects.length := by
    have hlen := congrArg List.length hbases.declared
    simpa using hlen
  rw [List.length_map, hobjectCount, ← hobjectLength] at hobjectSlots
  have hobjectRoomy := indexSlots_roomy hobjectSlots
  obtain ⟨slots', hbuilt', hobjectSize, hkeyed'⟩ := buildIdentityIndex_keyed (.inr hobjectRoomy)
    hbases.nodup
  rw [hbuilt'] at hobjectIndex
  cases hobjectIndex
  obtain ⟨hpow, h8, hle⟩ := indexSlots_roomy hlinkSlots
  have hempty : Linked linkSlots ([], List.replicate linkSlots {}) :=
    ⟨⟨by simp, .empty _ (.inr h8) (.inr hpow)⟩, List.length_replicate⟩
  have hlinked := addLinks_linked (fun e he => validEndpoint_named he) hempty
    (by have := hrebuilt.links; rw [List.length_nil]; omega) hlinks
  refine ⟨d, table, definitions, objectTypes, objectIdentities, identityIndex, objectIdentityIndex,
    linkIndex, linkRecords, ⟨hdeclared, htyped.exact, htyped.room, htyped.size, hdefined, hkeyed,
      hkeyed', ?_, by rw [hobjectCount, hobjectLength], hentries, hlinked.index,
      by rw [hobjectSize]; exact hobjectRoomy.2.1, by rw [hlinked.size]; exact h8⟩, rfl, ?_⟩
  · intro i hi
    rw [show objectIdentities = storage.arenas.objects.map (·.identity) from hbases.declared] at hi
    obtain ⟨o, ho, rfl⟩ := List.mem_map.mp hi
    exact (hrebuilt.genuine.objects o ho).1
  · dsimp only
    rw [List.length_map]

/-- The detached Graph is sound, its indexes of objects and links have slots, and the construction
states name definitions of their kind. -/
theorem prepareGraph_sound (hrebuilt : Rebuilt storage)
    (h : prepareGraph abi storage = .ok (construction, detached)) :
    detached.graph.Sound ∧ detached.graph.Slotted ∧
      ∀ s ∈ construction, s.Names storage.arenas.types := by
  obtain ⟨d, table, definitions, objectTypes, objectIdentities, identityIndex, objectIdentityIndex,
    linkIndex, linkRecords, hmade, rfl, hgraph⟩ := prepareGraph_made hrebuilt h
  have hexact := hmade.exact
  have hdefined := hmade.defined
  have hcount := hdefined.length
  rw [hgraph]
  refine ⟨⟨⟨?_, ⟨hmade.declared.valid, hmade.identityIndex⟩, ?_, ⟨hmade.objectsValid,
    hmade.objectIndex⟩, hmade.links, ?_, ?_⟩, ?_, ?_, hdefined.members, ?_⟩,
    ⟨hmade.objectIndexSize, hmade.linkIndexSize⟩, ?_⟩
  · exact hcount.trans hmade.declared.slots
  · rw [List.length_map]
    exact hmade.objectSlots
  · rw [← hcount] at hexact
    refine ⟨hexact.records, hexact.intrinsic, hexact.named, hexact.namedSlots, hexact.derived,
      hexact.derivedCount, ?_, hmade.size⟩
    rw [← hexact.derivedCount]
    exact hmade.room
  · intro o ho
    obtain ⟨item, hitem, rfl⟩ := List.mem_map.mp ho
    exact .inr (hmade.objectsTyped item hitem)
  · rw [List.length_replicate]
    exact hcount.symm
  · exact hdefined.heads.trans hcount.symm
  · intro handle e hfind hkind he i hi
    unfold Graph.findType at hfind
    split at hfind
    · cases hfind
    rename_i hne
    obtain ⟨hget, -⟩ := Option.filter_eq_some_iff.mp hfind
    obtain ⟨m, hm, base, modifiers, hd, hbase⟩ := hdefined.records (handle - 1) e hget hkind he i hi
    refine ⟨m, hm, base, modifiers, hd, ?_⟩
    intro target ht
    obtain ⟨⟨htarget, hle⟩, edge, hedge, howner, hversion⟩ := hbase target ht
    refine ⟨?_, edge, hedge, ?_, ?_⟩
    · have hlt : target - 1 < definitions.types.length := by
        rw [hcount]
        exact Nat.lt_of_lt_of_le (Nat.sub_lt (Nat.pos_of_ne_zero htarget) Nat.one_pos) hle
      refine ⟨definitions.types[target - 1], ?_⟩
      unfold Graph.findType
      rw [if_neg htarget, List.getElem?_eq_getElem hlt, Option.filter_some,
        if_pos (hdefined.live _ (List.getElem_mem hlt))]
    · rw [howner, Nat.sub_add_cancel (Nat.one_le_iff_ne_zero.mpr hne)]
    · have hlt := (List.getElem?_eq_some_iff.mp hget).1
      rw [List.getElem?_replicate, if_pos (by rw [← hcount]; exact hlt), hversion]
  · intro s hs
    exact hmade.declared.states s (List.mem_of_mem_take hs)

end Whole

/-! ## Termination -/

section Termination
open BuildM

variable {storage : Storage} {capacity : Nat} {identities : List IdentityRef}

theorem indexCapacity_ends (count : Nat) : Ends (indexCapacity count) := by
  unfold indexCapacity
  split
  · exact ends_ok _
  · exact ends_fail _

theorem indexSlots_ends (count : Nat) : Ends (indexSlots count) :=
  ends_bind (indexCapacity_ends count) fun _ _ => ends_ok _

theorem insertOrFind_ends (identity : IdentityRef) :
    Ends (insertOrFind capacity identities identity) := by
  unfold insertOrFind
  split
  · exact ends_fail _
  split
  · exact ends_ok _
  split
  · exact ends_fail _
  · exact ends_ok _

theorem redeclare_ends (entry : TypeEntry) (contribution : SourceContributionType) :
    Ends (redeclare entry contribution) := by
  unfold redeclare
  split
  · exact ends_fail _
  split
  · split
    · exact ends_fail _
    · exact ends_ok _
  · split
    · exact ends_fail _
    split
    · exact ends_ok _
    split
    · exact ends_fail _
    · exact ends_ok _

theorem declareSource_ends (d : Declarations) (state : SourceContributionState) :
    Ends (declareSource storage capacity d state) := by
  unfold declareSource
  split
  · exact ends_fail _
  refine ends_foldlM (fun d item _ => ?_) d
  refine ends_bind (insertOrFind_ends _) fun found _ => ?_
  refine ends_bind (ends_lift _) fun state _ => ?_
  split
  · exact ends_ok _
  · exact ends_bind (redeclare_ends _ _) fun entry _ => ends_ok _

theorem baseHandle_ends (type : SourceContributionTypeRef) : Ends (baseHandle identities type) := by
  unfold baseHandle
  split
  · exact ends_ok _
  split
  · exact ends_ok _
  · exact ends_fail _

theorem declareObject_ends (state : List IdentityRef × List Nat)
    (object : SourceContributionObject) : Ends (declareObject capacity identities state object) := by
  refine ends_bind (insertOrFind_ends _) fun found _ => ?_
  dsimp only
  split
  · exact ends_fail _
  · exact ends_bind (baseHandle_ends _) fun base _ => ends_ok _

theorem appendCanonical_ends (t : TypeTable) (record : CanonicalTypeRecord) :
    Ends (t.appendCanonical record) := by
  unfold TypeTable.appendCanonical
  split
  · exact ends_fail _
  · exact ends_ok _

theorem getIntrinsic_ends (t : TypeTable) (value : IntrinsicType) : Ends (t.getIntrinsic value) := by
  unfold TypeTable.getIntrinsic
  split
  · exact ends_fail _
  split
  · exact ends_ok _
  · exact ends_bind (appendCanonical_ends _ _) fun next _ => ends_ok _

theorem getNamed_ends (t : TypeTable) (handle : TypeHandle) : Ends (t.getNamed handle) := by
  unfold TypeTable.getNamed
  split
  · exact ends_fail _
  split
  · exact ends_ok _
  · exact ends_bind (appendCanonical_ends _ _) fun next _ => ends_ok _

theorem getDerived_ends (t : TypeTable) (modifier : SourceTypeModifier) (child : TypeRef) :
    Ends (t.getDerived modifier child) := by
  unfold TypeTable.getDerived
  split
  · exact ends_fail _
  dsimp only
  split
  · exact ends_fail _
  split
  · exact ends_ok _
  · exact ends_bind (appendCanonical_ends _ _) fun next _ => ends_ok _

theorem materializeType_ends (t : TypeTable) (type : SourceContributionTypeRef) (base : Nat) :
    Ends (t.materializeType storage type base) := by
  have hfold : ∀ start, Ends (if type.modifiers.begin > storage.arenas.modifiers.length ||
        type.modifiers.count > storage.arenas.modifiers.length - type.modifiers.begin then
      BuildM.fail .invalidArgument
    else (slice storage.arenas.modifiers type.modifiers.begin type.modifiers.count).foldlM
      (fun (state : TypeTable × TypeRef) modifier => state.1.getDerived modifier state.2) start) := by
    intro start
    split
    · exact ends_fail _
    · exact ends_foldlM (fun state modifier _ => getDerived_ends _ _ _) start
  unfold TypeTable.materializeType
  dsimp only
  split
  · exact ends_bind (getNamed_ends _ _) fun start _ => hfold start
  · exact ends_bind (getIntrinsic_ends _ _) fun start _ => hfold start

theorem materializeTypes_ends (typeCount : Nat) (memberBases objectBases : List Nat) :
    Ends (materializeTypes storage typeCount memberBases objectBases) := by
  have hnext : ∀ (state : TypeTable × List TypeRef) (item : SourceContributionTypeRef × Nat),
      Ends (materializeNext storage state item) := fun state item =>
    ends_bind (materializeType_ends _ _ _) fun next _ => ends_ok _
  unfold materializeTypes
  split
  · refine ends_bind (ends_ok _) fun size _ => ?_
    refine ends_bind (ends_foldlM (fun state item _ => hnext state item) _) fun first _ => ?_
    exact ends_bind (ends_foldlM (fun state item _ => hnext state item) _) fun second _ => ends_ok _
  · refine ends_bind (indexCapacity_ends _) fun size _ => ?_
    refine ends_bind (ends_foldlM (fun state item _ => hnext state item) _) fun first _ => ?_
    exact ends_bind (ends_foldlM (fun state item _ => hnext state item) _) fun second _ => ends_ok _

variable {abi : AbiConfiguration}

theorem defineSource_ends {handles : List TypeHandle} {memberTypes : List TypeRef}
    {memberBases : List Nat} (d : Definitions) (state : SourceContributionState) :
    Ends (defineSource abi storage handles memberTypes memberBases d state) := by
  refine ends_foldlM (fun d item _ => ?_) d
  unfold define
  split
  · exact ends_ok _
  dsimp only
  split
  · exact ends_fail _
  split
  · unfold defineRecord
    split
    · exact ends_fail _
    · exact ends_ok _
  · unfold defineEnum
    dsimp only
    split
    · exact ends_fail _
    refine ends_bind ?_ fun entry _ => ends_ok _
    unfold settleUnderlying
    split
    · exact ends_ok _
    split
    · exact ends_ok _
    split
    · exact ends_ok _
    · exact ends_bind (ends_lift _) fun underlying _ => ends_ok _

theorem objectHandle_ends (identity : IdentityRef) : Ends (objectHandle identities identity) := by
  unfold objectHandle
  split
  · exact ends_fail _
  split
  · exact ends_ok _
  · exact ends_fail _

theorem addSourceLinks_ends {valid : ObjectEndpoint → Bool}
    (state : List LinkRecord × List IndexSlot) (source : SourceContributionState) :
    Ends (addSourceLinks storage identities valid state source) := by
  unfold addSourceLinks
  split
  · exact ends_fail _
  refine ends_foldlM (fun state link _ => ?_) state
  refine ends_bind (objectHandle_ends _) fun source _ => ?_
  refine ends_bind (objectHandle_ends _) fun target _ => ?_
  dsimp only
  split
  · exact ends_fail _
  split
  · exact ends_fail _
  split
  · exact ends_fail _
  · exact ends_ok _

theorem prepareGraph_ends (hrebuilt : Rebuilt storage) : Ends (prepareGraph abi storage) := by
  unfold prepareGraph
  split
  · exact ends_fail _
  refine ends_bind (indexCapacity_ends _) fun capacity _ => ?_
  refine ends_bind (indexCapacity_ends _) fun objectCapacity _ => ?_
  refine ends_bind (ends_foldlM (fun d state _ => declareSource_ends d state) _) fun d hd => ?_
  obtain ⟨hdeclared, -⟩ := declareSources_spec hrebuilt.genuine (declared_start hrebuilt) hd
  refine ends_bind (indexCapacity_ends _) fun size hsize => ?_
  obtain ⟨slots, hslots, -⟩ := buildIdentityIndex_keyed
    (by rw [← hdeclared.slots]; exact indexCapacity_ok hsize) hdeclared.nodup
  refine ends_bind (by rw [hslots]; exact ends_ok _) fun identityIndex _ => ?_
  refine ends_bind (ends_mapM baseHandle_ends _) fun memberBases _ => ?_
  refine ends_bind (ends_foldlM (fun s object _ => declareObject_ends s object) _)
    fun objects hobjects => ?_
  have hbases := declareObjects_spec hobjects
  refine ends_bind (materializeTypes_ends _ _ _) fun types htypes => ?_
  obtain ⟨hcount, -⟩ := object_entries hbases (materializeTypes_typed hrebuilt htypes).objects
  refine ends_bind (ends_foldlM (fun d state _ => defineSource_ends d state) _) fun definitions _ => ?_
  refine ends_bind (indexSlots_ends _) fun objectSize hobjectSize => ?_
  have hlength : objects.1.length = storage.arenas.objects.length := by
    have hlen := congrArg List.length hbases.declared
    simpa using hlen
  rw [List.length_map, hcount, ← hlength] at hobjectSize
  obtain ⟨slots', hslots', -⟩ := buildIdentityIndex_keyed (.inr (indexSlots_roomy hobjectSize))
    hbases.nodup
  refine ends_bind (by rw [hslots']; exact ends_ok _) fun objectIdentityIndex _ => ?_
  refine ends_bind (indexSlots_ends _) fun linkSize _ => ?_
  refine ends_bind (ends_foldlM (fun s source _ => addSourceLinks_ends s source) _) fun links _ => ?_
  dsimp only
  split
  · exact ends_ok _
  · exact ends_fail _

end Termination

end FullBuild

end ServerEngine
