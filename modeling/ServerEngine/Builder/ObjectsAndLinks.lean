import ServerEngine.Builder.Materialized

/-! # Objects and links of a candidate

Objects and links are retired and added after the types. Their steps add handles and canonical
records and leave entries, members and edges alone; a link record keeps its target for good.
-/
namespace ServerEngine
open Slice ErrorFold

/-! ## The link index -/

def ObjectEndpoint.Named (e : ObjectEndpoint) : Prop := e.object ≠ 0 ∧ e.member ≠ invalidMember

structure LinkIndex (slots : List IndexSlot) (links : List LinkRecord) : Prop where
  named : ∀ l ∈ links, l.target.Named
  index : IndexSlots.Keyed endpointHash slots (links.map (·.target))

section LinkIndex
variable {g : Graph} {target : ObjectEndpoint} {handle : Nat}

theorem findLinkRaw_eq (hnamed : target.Named) : g.findLinkRaw target =
    IndexSlots.find g.linkIndex (endpointHash target) fun handle =>
      (g.linkRecords.map (·.target))[handle - 1]? == some target := by
  unfold Graph.findLinkRaw
  rw [if_neg (by simpa [ObjectEndpoint.Named, not_or] using hnamed)]
  simp only [List.getElem?_map]

theorem Graph.findLinkRaw_iff (hx : LinkIndex g.linkIndex g.linkRecords) :
    g.findLinkRaw target = some handle ↔
      handle ≠ 0 ∧ (g.linkRecords.map (·.target))[handle - 1]? = some target := by
  by_cases hnamed : target.Named
  · rw [findLinkRaw_eq hnamed]
    exact hx.index.find_iff
  · unfold Graph.findLinkRaw
    rw [if_pos (by simpa [ObjectEndpoint.Named, or_iff_not_imp_left] using hnamed)]
    simp only [reduceCtorEq, false_iff, not_and]
    intro _ hget
    obtain ⟨l, hl, rfl⟩ := List.mem_map.mp (List.mem_of_getElem? hget)
    exact hnamed (hx.named l hl)

theorem Graph.findLinkRaw_none (hx : LinkIndex g.linkIndex g.linkRecords) (hnamed : target.Named) :
    g.findLinkRaw target = none ↔ target ∉ g.linkRecords.map (·.target) := by
  rw [findLinkRaw_eq hnamed]
  exact hx.index.find_none

end LinkIndex

namespace Candidate

/-! ## What stays -/

def typeSide (c : Candidate) : SparseUpdate × List TypeHandle × List (Patch TypeEntry) ×
    List MemberRecord × List EnumValueRecord × List PendingDependencyEdge × List (Patch Nat) :=
  (c.contributions, c.touchedHandles, c.update.typePatches, c.update.members, c.update.enumValues,
    c.update.dependencyEdges, c.update.dependencyVersionPatches)

structure Keeps (c c' : Candidate) : Prop where
  handles : ∃ added, c'.update.newIdentities = c.update.newIdentities ++ added ∧
    c'.update.newTypes = c.update.newTypes ++ added.map fun _ => ({} : TypeEntry)
  records : ∃ added, c'.update.canonicalTypes = c.update.canonicalTypes ++ added
  typeSide : c'.typeSide = c.typeSide

section Keeps
variable {g : Graph} {c c' c'' : Candidate}

theorem Keeps.same (h : c'.typeSide = c.typeSide)
    (hids : c'.update.newIdentities = c.update.newIdentities)
    (htypes : c'.update.newTypes = c.update.newTypes)
    (hrecords : c'.update.canonicalTypes = c.update.canonicalTypes) : Keeps c c' :=
  ⟨⟨[], by simp [hids], by simp [htypes]⟩, ⟨[], by simp [hrecords]⟩, h⟩

theorem Keeps.refl (c : Candidate) : Keeps c c := .same rfl rfl rfl rfl

theorem Keeps.trans (h : Keeps c c') (h' : Keeps c' c'') : Keeps c c'' := by
  obtain ⟨a, ha, hat⟩ := h.handles
  obtain ⟨b, hb, hbt⟩ := h'.handles
  obtain ⟨r, hr⟩ := h.records
  obtain ⟨s, hs⟩ := h'.records
  refine ⟨⟨a ++ b, ?_, ?_⟩, ⟨r ++ s, ?_⟩, h'.typeSide.trans h.typeSide⟩
  · rw [hb, ha, List.append_assoc]
  · rw [hbt, hat, List.append_assoc, List.map_append]
  · rw [hs, hr, List.append_assoc]

theorem Grows.keeps (h : Grows c c') : Keeps c c' := by
  have hside := congrArg Candidate.typeSide h.core
  exact ⟨h.handles, h.records, hside⟩

theorem Keeps.denotes {ref : Nat} {base : TypeBase} {modifiers : List (Nat × Nat)}
    (h : Keeps c c') (hd : Denotes (c.canonicalTypes g) ref base modifiers) :
    Denotes (c'.canonicalTypes g) ref base modifiers := by
  obtain ⟨added, hadded⟩ := h.records
  rw [canonicalTypes, hadded, ← List.append_assoc]
  exact hd.append added

theorem Keeps.newTypes_length (h : Keeps c c') :
    c.update.newTypes.length ≤ c'.update.newTypes.length := by
  obtain ⟨added, -, hadded⟩ := h.handles
  rw [hadded, List.length_append]
  omega

theorem Materialized.keeps {done : List TypeHandle} (hm : Materialized g c done)
    (hc' : c'.Types g) (h : Keeps c c') : Materialized g c' done := by
  have hmono := h.newTypes_length
  obtain ⟨added, -, hadded⟩ := h.handles
  have hside := h.typeSide
  simp only [Candidate.typeSide, Prod.mk.injEq] at hside
  obtain ⟨-, -, hpatches, hmembers, -, hedges, hversions⟩ := hside
  refine ⟨hc', ?_, ?_, ?_, ?_, ?_, ?_, ?_, ?_⟩
  · intro other ho
    have := hm.range other ho
    omega
  · rw [hpatches]
    exact hm.patches
  · rw [hpatches]
    exact hm.patchesNodup
  · intro i e hi hdone
    rw [hadded, List.getElem?_append] at hi
    split at hi
    · exact hm.fresh i e hi hdone
    · obtain ⟨_, -, rfl⟩ := List.mem_map.mp (List.mem_of_getElem? hi)
      rfl
  · rw [hversions]
    exact hm.versions
  · intro e he
    rw [hedges] at he
    obtain ⟨h1, h2, h3⟩ := hm.edges e he
    exact ⟨h1, h2, Nat.le_trans h3 (Nat.add_le_add_left hmono _)⟩
  · intro m hmem
    rw [hmembers] at hmem
    obtain ⟨base, modifiers, hd⟩ := hm.members m hmem
    exact ⟨base, modifiers, h.denotes hd⟩
  · intro other ho e he
    rw [entry_old hpatches ⟨_, hadded⟩ (hm.range other ho).2] at he
    obtain ⟨v, hv, hmem, hdenotes⟩ := hm.defined other ho e he
    refine ⟨v, hv, by rw [hversions]; exact hmem, ?_⟩
    intro hkind hdefined i hi
    obtain ⟨member, hget, base, modifiers, hd, hall⟩ := hdenotes hkind hdefined i hi
    refine ⟨member, ?_, base, modifiers, h.denotes hd, ?_⟩
    · rw [memberAt, hmembers]
      exact hget
    · rw [hedges]
      exact hall

end Keeps

/-! ## Objects -/

def ObjectTyped (canonical : List CanonicalTypeRecord) (o : ObjectEntry) : Prop :=
  (o.live = false ∧ o.type = 0) ∨ ∃ base modifiers, Denotes canonical o.type base modifiers

structure Objects (g : Graph) (c : Candidate) : Prop where
  slots : c.update.newObjects.length = c.update.newObjectIdentities.length
  nodup : (g.objectIdentities ++ c.update.newObjectIdentities).Nodup
  valid : ∀ i ∈ c.update.newObjectIdentities, i.valid = true
  added : ∀ o ∈ c.update.newObjects, ObjectTyped (c.canonicalTypes g) o
  patches : ∀ p ∈ c.update.objectPatches, p.handle ≠ 0 ∧ p.handle ≤ g.objectEntries.length ∧
    ObjectTyped (c.canonicalTypes g) p.value
  patchesNodup : (c.update.objectPatches.map (·.handle)).Nodup

/-- Link records keep their targets, new ones have targets of their own. -/
structure Links (g : Graph) (c : Candidate) : Prop where
  targets : (g.linkRecords.map (·.target) ++ c.update.newLinks.map (·.target)).Nodup
  named : ∀ l ∈ c.update.newLinks, l.target.Named
  claimed : ∀ l ∈ c.update.newLinks, l.target ∈ c.claimedLinkTargets
  patches : ∀ p ∈ c.update.linkPatches, p.handle ≠ 0 ∧
    (g.linkRecords.map (·.target))[p.handle - 1]? = some p.value.target
  patchesNodup : (c.update.linkPatches.map (·.handle)).Nodup

structure Later (g : Graph) (c₀ c : Candidate) : Prop where
  types : c.Types g
  keeps : Keeps c₀ c
  objects : c.Objects g
  links : c.Links g

structure Committed (g : Graph) : Prop where
  typeSlots : g.types.length = g.identities.length
  typeIndex : IdentityIndex g.identityIndex g.identities
  objectSlots : g.objectEntries.length = g.objectIdentities.length
  objectIndex : IdentityIndex g.objectIdentityIndex g.objectIdentities
  linkIndex : LinkIndex g.linkIndex g.linkRecords
  canonical : g.Canonical
  objects : ∀ o ∈ g.objectEntries, ObjectTyped g.canonicalTypes o

section Steps
variable {g : Graph} {c₀ c c' : Candidate} {o : ObjectEntry}

theorem ObjectTyped.append {canonical : List CanonicalTypeRecord} (h : ObjectTyped canonical o)
    (more : List CanonicalTypeRecord) : ObjectTyped (canonical ++ more) o := by
  rcases h with h | ⟨base, modifiers, hd⟩
  · exact .inl h
  · exact .inr ⟨base, modifiers, hd.append more⟩

theorem object_typed (hg : Committed g) (ho : c.Objects g) {handle : Nat}
    (h : c.object g handle = some o) : ObjectTyped (c.canonicalTypes g) o := by
  unfold Candidate.object at h
  split at h
  · cases h
  split at h
  · exact ho.added o (List.mem_of_getElem? h)
  · split at h
    · rename_i hp
      cases h
      obtain ⟨p, hmem, -, rfl⟩ := findPatch_some hp
      exact (ho.patches p hmem).2.2
    · exact (hg.objects o (List.mem_of_getElem? h)).append _

theorem Objects.setObject (ho : c.Objects g) {handle : Nat} (hne : handle ≠ 0)
    (htyped : ObjectTyped (c.canonicalTypes g) o) : (c.setObject g handle o).Objects g := by
  unfold Candidate.setObject
  split
  · refine ⟨?_, ho.nodup, ho.valid, ?_, ho.patches, ho.patchesNodup⟩
    · rw [← ho.slots]
      exact List.length_set
    · intro o' hmem
      rcases List.mem_or_eq_of_mem_set hmem with hmem | rfl
      · exact ho.added o' hmem
      · exact htyped
  · rename_i hsmall
    have hsmall : ¬handle > g.objectEntries.length := hsmall
    refine ⟨ho.slots, ho.nodup, ho.valid, ho.added, ?_, setPatch_nodup ho.patchesNodup⟩
    intro p hp
    rcases mem_setPatch hp with rfl | hp
    · exact ⟨hne, by dsimp only; omega, htyped⟩
    · exact ho.patches p hp

theorem setObject_later (h : Later g c₀ c) {handle : Nat} (hne : handle ≠ 0)
    (htyped : ObjectTyped (c.canonicalTypes g) o) : Later g c₀ (c.setObject g handle o) := by
  have hobjects := h.objects.setObject hne htyped
  unfold Candidate.setObject at hobjects ⊢
  split at hobjects
  · rename_i hcond
    rw [if_pos hcond]
    exact ⟨h.types.congr rfl rfl rfl rfl rfl rfl rfl, h.keeps.trans (.same rfl rfl rfl rfl),
      hobjects, ⟨h.links.targets, h.links.named, h.links.claimed, h.links.patches,
        h.links.patchesNodup⟩⟩
  · rename_i hcond
    rw [if_neg hcond]
    exact ⟨h.types.congr rfl rfl rfl rfl rfl rfl rfl, h.keeps.trans (.same rfl rfl rfl rfl),
      hobjects, ⟨h.links.targets, h.links.named, h.links.claimed, h.links.patches,
        h.links.patchesNodup⟩⟩

theorem Later.grows (h : Later g c₀ c) (hc' : c'.Types g) (hg : Grows c c') : Later g c₀ c' := by
  obtain ⟨added, hadded⟩ := hg.canonical g
  have hobjects := congrArg (·.update.newObjects) hg.core
  have hids := congrArg (·.update.newObjectIdentities) hg.core
  have hpatches := congrArg (·.update.objectPatches) hg.core
  have hlinks := congrArg (·.update.newLinks) hg.core
  have hlinkPatches := congrArg (·.update.linkPatches) hg.core
  have hclaimed := congrArg (·.claimedLinkTargets) hg.core
  change c'.update.newObjects = c.update.newObjects at hobjects
  change c'.update.newObjectIdentities = c.update.newObjectIdentities at hids
  change c'.update.objectPatches = c.update.objectPatches at hpatches
  change c'.update.newLinks = c.update.newLinks at hlinks
  change c'.update.linkPatches = c.update.linkPatches at hlinkPatches
  change c'.claimedLinkTargets = c.claimedLinkTargets at hclaimed
  refine ⟨hc', h.keeps.trans hg.keeps, ⟨?_, ?_, ?_, ?_, ?_, ?_⟩, ⟨?_, ?_, ?_, ?_, ?_⟩⟩
  · rw [hobjects, hids]
    exact h.objects.slots
  · rw [hids]
    exact h.objects.nodup
  · rw [hids]
    exact h.objects.valid
  · rw [hobjects, hadded]
    exact fun o ho => (h.objects.added o ho).append added
  · rw [hpatches, hadded]
    exact fun p hp => ⟨(h.objects.patches p hp).1, (h.objects.patches p hp).2.1,
      (h.objects.patches p hp).2.2.append added⟩
  · rw [hpatches]
    exact h.objects.patchesNodup
  · rw [hlinks]
    exact h.links.targets
  · rw [hlinks]
    exact h.links.named
  · rw [hlinks, hclaimed]
    exact h.links.claimed
  · rw [hlinkPatches]
    exact h.links.patches
  · rw [hlinkPatches]
    exact h.links.patchesNodup

variable {object : SourceContributionObject}

theorem retireObject_spec (hg : Committed g) (h : Later g c₀ c)
    (hstep : retireObject g c object = .ok c') : Later g c₀ c' := by
  unfold retireObject at hstep
  split at hstep
  · cases hstep
  rename_i handle hfind
  split at hstep
  · cases hstep
  rename_i entry hentry
  cases hstep
  obtain ⟨hne, -⟩ := (Graph.findObjectIdentity_iff hg.objectIndex).mp hfind
  have htyped : ObjectTyped (c.canonicalTypes g) (if entry.live then {} else entry) := by
    split
    · exact .inl ⟨rfl, rfl⟩
    · exact object_typed hg h.objects hentry
  obtain ⟨htypes, hkeeps, hobjects, hlinks⟩ := setObject_later h hne htyped
  exact ⟨htypes.congr rfl rfl rfl rfl rfl rfl rfl, hkeeps.trans (.same rfl rfl rfl rfl),
    ⟨hobjects.slots, hobjects.nodup, hobjects.valid, hobjects.added, hobjects.patches,
      hobjects.patchesNodup⟩,
    ⟨hlinks.targets, hlinks.named, hlinks.claimed, hlinks.patches, hlinks.patchesNodup⟩⟩

variable {l : LinkRecord}

theorem link_target (hl : c.Links g) {handle : Nat} (h : c.link g handle = some l) :
    (g.linkRecords.map (·.target))[handle - 1]? = some l.target := by
  unfold Candidate.link at h
  split at h
  · cases h
  split at h
  · rename_i hp
    cases h
    obtain ⟨p, hmem, rfl, rfl⟩ := findPatch_some hp
    exact (hl.patches p hmem).2
  · rw [List.getElem?_map, h]
    rfl

theorem setLink_later (h : Later g c₀ c) {handle : Nat} (hne : handle ≠ 0)
    (htarget : (g.linkRecords.map (·.target))[handle - 1]? = some l.target) :
    Later g c₀ (c.setLink handle l) := by
  refine ⟨h.types.congr rfl rfl rfl rfl rfl rfl rfl, h.keeps.trans (.same rfl rfl rfl rfl),
    ⟨h.objects.slots, h.objects.nodup, h.objects.valid, h.objects.added, h.objects.patches,
      h.objects.patchesNodup⟩,
    ⟨h.links.targets, h.links.named, h.links.claimed, ?_, setPatch_nodup h.links.patchesNodup⟩⟩
  intro p hp
  rcases mem_setPatch hp with rfl | hp
  · exact ⟨hne, htarget⟩
  · exact h.links.patches p hp

theorem Later.marks (h : Later g c₀ c) (hside : c'.typeSide = c.typeSide)
    (htypes : c'.Types g) (hids : c'.update.newIdentities = c.update.newIdentities)
    (hnew : c'.update.newTypes = c.update.newTypes)
    (hrecords : c'.update.canonicalTypes = c.update.canonicalTypes)
    (hobjects : c'.update.newObjects = c.update.newObjects)
    (hobjectIds : c'.update.newObjectIdentities = c.update.newObjectIdentities)
    (hobjectPatches : c'.update.objectPatches = c.update.objectPatches)
    (hlinks : c'.update.newLinks = c.update.newLinks)
    (hlinkPatches : c'.update.linkPatches = c.update.linkPatches)
    (hclaimed : ∀ t ∈ c.claimedLinkTargets, t ∈ c'.claimedLinkTargets) : Later g c₀ c' := by
  have hcanonical : c'.canonicalTypes g = c.canonicalTypes g := by
    rw [canonicalTypes, canonicalTypes, hrecords]
  refine ⟨htypes, h.keeps.trans (.same hside hids hnew hrecords), ⟨?_, ?_, ?_, ?_, ?_, ?_⟩,
    ⟨?_, ?_, ?_, ?_, ?_⟩⟩
  · rw [hobjects, hobjectIds]
    exact h.objects.slots
  · rw [hobjectIds]
    exact h.objects.nodup
  · rw [hobjectIds]
    exact h.objects.valid
  · rw [hobjects, hcanonical]
    exact h.objects.added
  · rw [hobjectPatches, hcanonical]
    exact h.objects.patches
  · rw [hobjectPatches]
    exact h.objects.patchesNodup
  · rw [hlinks]
    exact h.links.targets
  · rw [hlinks]
    exact h.links.named
  · rw [hlinks]
    exact fun l hl => hclaimed _ (h.links.claimed l hl)
  · rw [hlinkPatches]
    exact h.links.patches
  · rw [hlinkPatches]
    exact h.links.patchesNodup

variable {link : SourceContributionLink}

theorem retireLink_spec (hg : Committed g) (h : Later g c₀ c)
    (hstep : retireLink g c link = .ok c') : Later g c₀ c' := by
  unfold retireLink at hstep
  split at hstep
  · split at hstep
    · cases hstep
    rename_i handle hfind
    split at hstep
    · cases hstep
    rename_i record hrecord
    cases hstep
    obtain ⟨hne, -⟩ := (Graph.findLinkRaw_iff hg.linkIndex).mp hfind
    have htarget : (g.linkRecords.map (·.target))[handle - 1]? =
        some (if record.live then { record with source := {} } else record).target := by
      have hsame := link_target h.links hrecord
      split <;> exact hsame
    have hset := setLink_later h hne htarget
    exact hset.marks rfl (hset.types.congr rfl rfl rfl rfl rfl rfl rfl) rfl rfl rfl rfl rfl rfl rfl
      rfl fun _ ht => ht
  · cases hstep

theorem retireSource_spec (hg : Committed g) (h : Later g c₀ c) {source : Nat}
    (hstep : retireSource g c source = .ok c') : Later g c₀ c' := by
  obtain ⟨c₁, hobjects, hlinks⟩ := bind_ok.mp hstep
  have h₁ : Later g c₀ c₁ := foldlM_ok_invariant (Later g c₀) hobjects h
    fun _ _ _ _ hc hstep => retireObject_spec hg hc hstep
  exact foldlM_ok_invariant (Later g c₀) hlinks h₁
    fun _ _ _ _ hc hstep => retireLink_spec hg hc hstep

theorem findOrCreateObjectHandle_spec (hg : Committed g) (h : Later g c₀ c) {i : IdentityRef}
    {handle : Nat} (hstep : c.findOrCreateObjectHandle g i = .ok (c', handle)) :
    Later g c₀ c' ∧ handle ≠ 0 := by
  unfold findOrCreateObjectHandle at hstep
  split at hstep
  · cases hstep
  rename_i hguard
  have hi : i.valid = true := by
    simp only [Bool.or_eq_true, not_or, Bool.not_eq_true', Bool.not_eq_false] at hguard
    exact hguard.1
  cases hfind : g.findObjectIdentity i with
  | some found =>
    rw [hfind] at hstep
    cases hstep
    exact ⟨h, ((Graph.findObjectIdentity_iff hg.objectIndex).mp hfind).1⟩
  | none =>
    have hold := (Graph.findObjectIdentity_none hg.objectIndex hi).mp hfind
    rw [hfind] at hstep
    cases hidx : c.update.newObjectIdentities.idxOf? i with
    | some position =>
      rw [hidx] at hstep
      cases hstep
      exact ⟨h, by omega⟩
    | none =>
      rw [hidx] at hstep
      dsimp only at hstep
      split at hstep
      · cases hstep
      split at hstep
      · cases hstep
      cases hstep
      have hnew : i ∉ c.update.newObjectIdentities := by
        rw [List.idxOf?, List.findIdx?_eq_none_iff] at hidx
        intro hmem
        simpa using hidx i hmem
      refine ⟨⟨h.types.congr rfl rfl rfl rfl rfl rfl rfl, h.keeps.trans (.same rfl rfl rfl rfl),
        ⟨?_, ?_, ?_, ?_, h.objects.patches, h.objects.patchesNodup⟩,
        ⟨h.links.targets, h.links.named, h.links.claimed, h.links.patches, h.links.patchesNodup⟩⟩,
        by omega⟩
      · simp [h.objects.slots]
      · dsimp only
        rw [← List.append_assoc, List.nodup_append]
        refine ⟨h.objects.nodup, by simp, ?_⟩
        intro a ha b hb heq
        rw [List.mem_singleton] at hb
        rw [heq, hb] at ha
        rcases List.mem_append.mp ha with ha | ha
        · exact hold ha
        · exact hnew ha
      · intro j hj
        rcases List.mem_append.mp hj with hj | hj
        · exact h.objects.valid j hj
        · rw [List.mem_singleton] at hj
          rw [hj]
          exact hi
      · intro o ho
        rcases List.mem_append.mp ho with ho | ho
        · exact h.objects.added o ho
        · rw [List.mem_singleton] at ho
          rw [ho]
          exact .inl ⟨rfl, rfl⟩

theorem addObject_spec (hg : Committed g) (h : Later g c₀ c)
    (hgenuine : object.type.identity.Genuine) (hstep : addObject g c object = .ok c') :
    Later g c₀ c' := by
  obtain ⟨⟨c₁, handle⟩, hfind, hstep⟩ := bind_ok.mp hstep
  obtain ⟨h₁, hne⟩ := findOrCreateObjectHandle_spec hg h hfind
  dsimp only at hstep
  split at hstep
  · cases hstep
  have h₂ : Later g c₀ { c₁ with claimedObjects := handle :: c₁.claimedObjects } :=
    h₁.marks rfl (h₁.types.congr rfl rfl rfl rfl rfl rfl rfl) rfl rfl rfl rfl rfl rfl rfl rfl
      fun _ ht => ht
  split at hstep
  · cases hstep
  split at hstep
  · cases hstep
  obtain ⟨⟨c₃, type⟩, htype, hstep⟩ := bind_ok.mp hstep
  obtain ⟨hc₃, hgrow, base, -, hd⟩ := materializeType_spec hg.typeIndex hg.typeSlots hg.canonical
    h₂.types hgenuine htype
  have h₃ := h₂.grows hc₃ hgrow
  have hset := setObject_later (o := ⟨type, object.constructionFlags, true⟩) h₃ hne
    (.inr ⟨base, _, hd⟩)
  cases hstep
  exact hset.marks rfl (hset.types.congr rfl rfl rfl rfl rfl rfl rfl) rfl rfl rfl rfl rfl rfl rfl
    rfl fun _ ht => ht

theorem validObjectEndpoint_named {endpoint : ObjectEndpoint}
    (h : c.validObjectEndpoint g endpoint = true) : endpoint.Named := by
  unfold validObjectEndpoint at h
  split at h
  · cases h
  rename_i object hobject
  split at h
  · cases h
  rename_i hguard
  simp only [Bool.or_eq_true, decide_eq_true_eq, not_or] at hguard
  refine ⟨?_, hguard.1.2⟩
  intro h0
  rw [h0] at hobject
  cases hobject

variable {value : LinkRecord}

theorem reuseLink_spec (hg : Committed g) (h : Later g c₀ c) {handle : Nat}
    (hfind : g.findLinkRaw value.target = some handle)
    (hstep : reuseLink g c handle value = .ok c') : Later g c₀ c' := by
  obtain ⟨hne, htarget⟩ := (Graph.findLinkRaw_iff hg.linkIndex).mp hfind
  unfold reuseLink at hstep
  dsimp only at hstep
  split at hstep
  · cases hstep
  split at hstep
  · cases hstep
  have h₁ : Later g c₀ { c with claimedLinks := handle :: c.claimedLinks } :=
    h.marks rfl (h.types.congr rfl rfl rfl rfl rfl rfl rfl) rfl rfl rfl rfl rfl rfl rfl rfl
      fun _ ht => ht
  split at hstep
  · cases hstep
  cases hstep
  have hset := setLink_later h₁ hne htarget
  exact hset.marks rfl (hset.types.congr rfl rfl rfl rfl rfl rfl rfl) rfl rfl rfl rfl rfl rfl rfl
    rfl fun _ ht => ht

theorem appendLink_spec (hg : Committed g) (h : Later g c₀ c) (hnamed : value.target.Named)
    (hfind : g.findLinkRaw value.target = none) (hclaimed : value.target ∈ c.claimedLinkTargets)
    (hnew : value.target ∉ c.update.newLinks.map (·.target))
    (hstep : appendLink g c value = .ok c') : Later g c₀ c' := by
  have hold := (Graph.findLinkRaw_none hg.linkIndex hnamed).mp hfind
  unfold appendLink at hstep
  split at hstep
  · cases hstep
  cases hstep
  refine ⟨h.types.congr rfl rfl rfl rfl rfl rfl rfl, h.keeps.trans (.same rfl rfl rfl rfl),
    ⟨h.objects.slots, h.objects.nodup, h.objects.valid, h.objects.added, h.objects.patches,
      h.objects.patchesNodup⟩, ⟨?_, ?_, ?_, h.links.patches, h.links.patchesNodup⟩⟩
  · dsimp only
    rw [List.map_append, ← List.append_assoc, List.nodup_append]
    refine ⟨h.links.targets, by simp, ?_⟩
    intro a ha b hb heq
    rw [List.map_singleton, List.mem_singleton] at hb
    rw [heq, hb] at ha
    rcases List.mem_append.mp ha with ha | ha
    · exact hold ha
    · exact hnew ha
  · intro l hl
    rcases List.mem_append.mp hl with hl | hl
    · exact h.links.named l hl
    · rw [List.mem_singleton] at hl
      rw [hl]
      exact hnamed
  · intro l hl
    rcases List.mem_append.mp hl with hl | hl
    · exact h.links.claimed l hl
    · rw [List.mem_singleton] at hl
      rw [hl]
      exact hclaimed

theorem addLink_spec (hg : Committed g) (h : Later g c₀ c) (hstep : addLink g c link = .ok c') :
    Later g c₀ c' := by
  obtain ⟨⟨c₁, source⟩, hsource, hstep⟩ := bind_ok.mp hstep
  obtain ⟨h₁, -⟩ := findOrCreateObjectHandle_spec hg h hsource
  obtain ⟨⟨c₂, target⟩, htarget, hstep⟩ := bind_ok.mp hstep
  obtain ⟨h₂, -⟩ := findOrCreateObjectHandle_spec hg h₁ htarget
  dsimp only at hstep
  split at hstep
  · cases hstep
  rename_i hvalid
  simp only [Bool.or_eq_true, Bool.not_eq_true', not_or, Bool.not_eq_false] at hvalid
  have hnamed := validObjectEndpoint_named hvalid.2
  split at hstep
  · cases hstep
  rename_i hfresh
  have hnew : (⟨target, link.target.member⟩ : ObjectEndpoint) ∉
      c₂.update.newLinks.map (·.target) := by
    intro hmem
    obtain ⟨l, hl, heq⟩ := List.mem_map.mp hmem
    have hclaimed := h₂.links.claimed l hl
    rw [heq] at hclaimed
    exact hfresh hclaimed
  have h₃ := @Later.marks _ _ _ { c₂ with claimedLinkTargets :=
      ⟨target, link.target.member⟩ :: c₂.claimedLinkTargets } h₂ rfl
    (h₂.types.congr rfl rfl rfl rfl rfl rfl rfl) rfl rfl rfl rfl rfl rfl rfl rfl
    fun _ ht => List.mem_cons_of_mem _ ht
  cases hfind : g.findLinkRaw ⟨target, link.target.member⟩ with
  | some handle =>
    rw [hfind] at hstep
    exact reuseLink_spec hg h₃ hfind hstep
  | none =>
    rw [hfind] at hstep
    exact appendLink_spec hg h₃ hnamed hfind List.mem_cons_self hnew hstep

end Steps

end Candidate

end ServerEngine
