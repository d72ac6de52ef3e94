import ServerEngine.Graph.MappedPublication

/-! # When sparse publication is no-fail

The preparation predicts one empty slot for each new entry, in the table as it is. The publication
visits every slot its probing passes, with the earlier new entries placed; it reads the baseline
unless those slots, and all patched slots, are materialized already.
-/
namespace ServerEngine
open Probing ErrorFold

variable {β : Type}

/-! ## What the preparation touches -/

def touchedSlots (compares : Bool) (readError : StatusCode) (values : MappedVector β)
    (slots : MappedVector IndexSlot) (entries : List (IndexEntry β)) : List Nat :=
  entries.filterMap fun e =>
    match touchSlot compares readError slots values e with
    | .ok pos => pos
    | .error _ => none

variable {compares : Bool} {readError : StatusCode} {slots : MappedVector IndexSlot}
variable {values : MappedVector β}

theorem touchLoop_congr {e : IndexEntry β} {mask : Nat} {slots' : MappedVector IndexSlot}
    {values' : MappedVector β} (h : ∀ i, slots'.read i = slots.read i)
    (hsize : values'.size = values.size) (hread : ∀ i, values'.read i = values.read i)
    (fuel pos : Nat) : touchLoop compares readError e mask slots' values' fuel pos =
      touchLoop compares readError e mask slots values fuel pos := by
  induction fuel generalizing pos with
  | zero => rfl
  | succ fuel ih =>
    rw [touchLoop, touchLoop, h pos]
    cases slots.read pos with
    | error code => rfl
    | ok slot =>
      dsimp only
      rw [ih, hsize, hread]

theorem touchedSlots_reserve (compares : Bool) (readError : StatusCode) (values : MappedVector β)
    (n : Nat) (slots : MappedVector IndexSlot) (entries : List (IndexEntry β)) :
    touchedSlots compares readError (values.reserve n) slots entries =
      touchedSlots compares readError values slots entries := by
  unfold touchedSlots
  congr 1
  funext e
  rw [touchSlot, touchSlot, touchLoop_congr (fun _ => rfl) (values.reserve_size n) fun _ => rfl]

/-- Touching changes which slots are held and nothing that can be read. -/
structure Touched (slots s : MappedVector IndexSlot) (touched : List Nat) : Prop where
  size : s.size = slots.size
  read : ∀ i, s.read i = slots.read i
  held : s.readFailure = none → ∀ i, s.held i = true ↔ slots.held i = true ∨ i ∈ touched
  failure : s.readFailure = none → slots.readFailure = none

theorem touched_refl (slots : MappedVector IndexSlot) : Touched slots slots [] :=
  ⟨rfl, fun _ => rfl, fun _ _ => by simp, fun h => h⟩

theorem touched_materialize (slots : MappedVector IndexSlot) (pos : Nat) :
    Touched slots (slots.materialize pos) [pos] := by
  refine ⟨MappedVector.materialize_size _ _, fun i => MappedVector.materialize_read _ _ i, ?_,
    MappedVector.readFailure_materialize⟩
  intro h i
  rw [MappedVector.held_materialize h, List.mem_singleton]

variable {s : MappedVector IndexSlot}

theorem Touched.trans {t : MappedVector IndexSlot} {l m : List Nat} (h : Touched slots s l)
    (h' : Touched s t m) : Touched slots t (l ++ m) := by
  refine ⟨h'.size.trans h.size, fun i => (h'.read i).trans (h.read i), ?_,
    fun hf => h.failure (h'.failure hf)⟩
  intro hf i
  rw [h'.held hf i, h.held (h'.failure hf) i, List.mem_append]
  exact or_assoc

theorem touchFold_ok {ε : Type}
    {touch : MappedVector IndexSlot → ε → Except StatusCode (MappedVector IndexSlot)}
    {entry : ε → IndexEntry β}
    (htouch : ∀ slots x s, touch slots x = .ok s → touchIndex compares readError values slots (entry x) = .ok s)
    {xs : List ε} (h : xs.foldlM touch slots = .ok s) :
    Touched slots s (touchedSlots compares readError values slots (xs.map entry)) ∧
      (xs ≠ [] → slots.size ≠ 0) := by
  induction xs generalizing slots with
  | nil =>
    obtain rfl := foldlM_nil_ok.mp h
    exact ⟨touched_refl slots, fun hne => absurd rfl hne⟩
  | cons x xs ih =>
    obtain ⟨mid, hone, hrest⟩ := foldlM_cons_ok.mp h
    obtain ⟨found, hfound, hmid⟩ := bind_ok.mp (htouch slots x mid hone)
    have hstep : Touched slots mid found.toList := by
      cases found with
      | none =>
        cases hmid
        exact touched_refl slots
      | some pos =>
        cases hmid
        exact touched_materialize slots pos
    obtain ⟨htail, -⟩ := ih hrest
    have hsame : touchedSlots compares readError values mid (xs.map entry) =
        touchedSlots compares readError values slots (xs.map entry) := by
      unfold touchedSlots
      congr 1
      funext e
      rw [touchSlot, touchSlot, hstep.size, touchLoop_congr hstep.read rfl fun _ => rfl]
    rw [hsame] at htail
    refine ⟨?_, ?_⟩
    · have hall := hstep.trans htail
      have hlist : touchedSlots compares readError values slots ((x :: xs).map entry) =
          found.toList ++ touchedSlots compares readError values slots (xs.map entry) := by
        rw [touchedSlots, List.map_cons, List.filterMap_cons, hfound]
        cases found <;> rfl
      rw [hlist]
      exact hall
    · intro _ hzero
      rw [touchSlot, hzero] at hfound
      cases hfound

theorem touchHeads_ok {heads h' : MappedVector Nat} {edges : List PendingDependencyEdge}
    (h : edges.foldlM touchHead heads = .ok h') (hf : h'.readFailure = none) :
    ∀ e ∈ edges, h'.held (e.targetHandle - 1) = true := by
  have hkeep : ∀ (edges : List PendingDependencyEdge) (heads : MappedVector Nat),
      edges.foldlM touchHead heads = .ok h' →
        heads.readFailure = none ∧ ∀ i, heads.held i = true → h'.held i = true := by
    intro edges
    induction edges with
    | nil =>
      intro heads h
      obtain rfl := foldlM_nil_ok.mp h
      exact ⟨hf, fun _ hi => hi⟩
    | cons e es ih =>
      intro heads h
      obtain ⟨mid, hone, hrest⟩ := foldlM_cons_ok.mp h
      obtain ⟨hfail, hheld⟩ := ih mid hrest
      unfold touchHead at hone
      split at hone
      · cases hone
      · cases hone
        exact ⟨MappedVector.readFailure_materialize hfail,
          fun i hi => hheld i (MappedVector.held_materialize_of_held hi)⟩
  induction edges generalizing heads with
  | nil => simp
  | cons e es ih =>
    obtain ⟨mid, hone, hrest⟩ := foldlM_cons_ok.mp h
    obtain ⟨hfail, hheld⟩ := hkeep es mid hrest
    rw [List.forall_mem_cons]
    refine ⟨?_, ih hrest⟩
    unfold touchHead at hone
    split at hone
    · cases hone
    · cases hone
      exact hheld _ ((MappedVector.held_materialize hfail).mpr (.inr rfl))

/-! ## What the publication reads -/

variable {replaced : Bool} {rebuilt : List IndexSlot} {entries : List (IndexEntry β)}

theorem publishIndex_reads_le [Inhabited β] {v : MappedVector β}
    (h : publishIndex compares replaced rebuilt slots values entries = some (s, v)) :
    slots.reads ≤ s.reads ∧ values.reads ≤ v.reads := by
  unfold publishIndex at h
  split at h
  · cases h
    exact ⟨Nat.le_refl _, Nat.le_refl _⟩
  · exact insertAll_reads_le h

theorem publishIndex_iff [Inhabited β] (hsize : replaced = false → entries ≠ [] → slots.size ≠ 0) :
    (∃ s v, publishIndex compares replaced rebuilt slots values entries = some (s, v) ∧
      s.reads = slots.reads ∧ v.reads = values.reads) ↔
    replaced = true ∨ Covered compares slots.size values.size values.value slots.held values.held
      slots.value entries := by
  unfold publishIndex
  cases replaced with
  | true =>
    simp only [if_true, true_or, iff_true]
    exact ⟨_, _, rfl, rfl, rfl⟩
  | false =>
    rw [if_neg (by simp)]
    by_cases hnil : entries = []
    · subst hnil
      simp [insertAll, Covered]
    · rw [insertAll_iff (hsize rfl hnil)]
      simp

theorem publishEdges_reads {edges : MappedVector DependencyEdge} {heads : MappedVector Nat}
    {pending : List PendingDependencyEdge}
    (h : ∀ e ∈ pending, heads.held (e.targetHandle - 1) = true) :
    (pending.foldl publishEdge (edges, heads)).1.reads = edges.reads ∧
      (pending.foldl publishEdge (edges, heads)).2.reads = heads.reads := by
  induction pending generalizing edges heads with
  | nil => exact ⟨rfl, rfl⟩
  | cons e es ih =>
    rw [List.forall_mem_cons] at h
    have hset : ∀ x i, (heads.set (e.targetHandle - 1) x).held i = heads.held i :=
      fun x i => MappedVector.set_held h.1
    rw [List.foldl_cons, publishEdge, MappedVector.materialize_held h.1]
    obtain ⟨h1, h2⟩ := @ih (edges.pushBack ⟨e.ownerHandle, heads.value (e.targetHandle - 1),
      e.ownerVersion⟩) (heads.set (e.targetHandle - 1) (edges.pushBack ⟨e.ownerHandle,
        heads.value (e.targetHandle - 1), e.ownerVersion⟩).size) fun q hq => by
          rw [hset]
          exact h.2 q hq
    rw [MappedVector.set_reads, if_pos h.1] at h2
    exact ⟨h1, h2⟩

namespace MappedGraph

/-- The publication ends and reads no baseline record, so it inserts none into an element cache. -/
def NoFail (g : MappedGraph) (p : PreparedGraphUpdate) : Prop :=
  ∃ g', publishPrepared g p = some g' ∧ reads g' = reads g

def publishedIdentities (g : MappedGraph) (p : PreparedGraphUpdate) : MappedVector IdentityRef :=
  g.identities.append p.newIdentities

def publishedObjectIdentities (g : MappedGraph) (p : PreparedGraphUpdate) :
    MappedVector IdentityRef := g.objectIdentities.append p.newObjectIdentities

def publishedLinks (g : MappedGraph) (p : PreparedGraphUpdate) : MappedVector LinkRecord :=
  (g.linkRecords.append p.newLinks).patchAll (handlePatches p.linkPatches)

def publishedCanonicalTypes (g : MappedGraph) (p : PreparedGraphUpdate) :
    MappedVector CanonicalTypeRecord := g.canonicalTypes.append p.canonicalTypes

structure PatchesHeld (g : MappedGraph) (p : PreparedGraphUpdate) : Prop where
  types : ∀ patch ∈ p.typePatches, g.types.held (patch.handle - 1) = true
  objects : ∀ patch ∈ p.objectPatches, g.objectEntries.held (patch.handle - 1) = true
  links : ∀ patch ∈ p.linkPatches, g.linkRecords.held (patch.handle - 1) = true
  namedRefs : ∀ patch ∈ p.namedRefPatches, g.namedRefs.held patch.handle = true
  dependencyVersions : ∀ patch ∈ p.dependencyVersionPatches,
    g.dependencyVersions.held (patch.handle - 1) = true

/-- The probing of an index that is not replaced is covered by the slots held, or touched by the
preparation. -/
def IndexCovered [Inhabited β] (compares replaced : Bool) (slots : MappedVector IndexSlot)
    (touched : List Nat) (values : MappedVector β) (entries : List (IndexEntry β)) : Prop :=
  replaced = true ∨ Covered compares slots.size values.size values.value
    (fun i => slots.held i || touched.contains i) values.held slots.value entries

/-- The condition on the Graph before the preparation, and the update. -/
structure PublicationCovered (g : MappedGraph) (p : PreparedGraphUpdate) : Prop where
  patches : PatchesHeld g p
  identities : IndexCovered true p.replaceIdentityIndex g.identityIndex
    (touchedSlots true .rebuildRequired g.identities g.identityIndex
      (p.newIdentities.map (identityEntry · 0)))
    (publishedIdentities g p) (p.identityEntries g.types.size)
  objectIdentities : IndexCovered true p.replaceObjectIdentityIndex g.objectIdentityIndex
    (touchedSlots true .rebuildRequired g.objectIdentities g.objectIdentityIndex
      (p.newObjectIdentities.map (identityEntry · 0)))
    (publishedObjectIdentities g p) (p.objectIdentityEntries g.objectEntries.size)
  links : IndexCovered true p.replaceLinkIndex g.linkIndex
    (touchedSlots false .artifactCorrupt g.linkRecords g.linkIndex
      (p.linkEntries g.linkRecords.size))
    (publishedLinks g p) (p.linkEntries g.linkRecords.size)
  derivedTypes : IndexCovered false p.replaceDerivedIndex g.derivedIndex
    (touchedSlots false .artifactCorrupt g.canonicalTypes g.derivedIndex
      (p.derivedEntries g.canonicalTypes.size))
    (publishedCanonicalTypes g p) (p.derivedEntries g.canonicalTypes.size)

structure SilentPublication (g : MappedGraph) (p : PreparedGraphUpdate) : Prop where
  patches : PatchesHeld g p
  identities : ∃ s v, publishIndex true p.replaceIdentityIndex p.rebuiltIdentityIndex
    g.identityIndex (publishedIdentities g p) (p.identityEntries g.types.size) = some (s, v) ∧
      s.reads = g.identityIndex.reads ∧ v.reads = (publishedIdentities g p).reads
  objectIdentities : ∃ s v, publishIndex true p.replaceObjectIdentityIndex
    p.rebuiltObjectIdentityIndex g.objectIdentityIndex (publishedObjectIdentities g p)
    (p.objectIdentityEntries g.objectEntries.size) = some (s, v) ∧
      s.reads = g.objectIdentityIndex.reads ∧ v.reads = (publishedObjectIdentities g p).reads
  links : ∃ s v, publishIndex true p.replaceLinkIndex p.rebuiltLinkIndex g.linkIndex
    (publishedLinks g p) (p.linkEntries g.linkRecords.size) = some (s, v) ∧
      s.reads = g.linkIndex.reads ∧ v.reads = (publishedLinks g p).reads
  derivedTypes : ∃ s v, publishIndex false p.replaceDerivedIndex p.rebuiltDerivedIndex
    g.derivedIndex (publishedCanonicalTypes g p) (p.derivedEntries g.canonicalTypes.size) =
      some (s, v) ∧
      s.reads = g.derivedIndex.reads ∧ v.reads = (publishedCanonicalTypes g p).reads

theorem patchesHeld_iff (g : MappedGraph) (p : PreparedGraphUpdate) : PatchesHeld g p ↔
    ((g.types.append p.newTypes).patchAll (handlePatches p.typePatches)).reads = g.types.reads ∧
    ((g.objectEntries.append p.newObjects).patchAll (handlePatches p.objectPatches)).reads =
      g.objectEntries.reads ∧
    (publishedLinks g p).reads = g.linkRecords.reads ∧
    ((g.namedRefs.append (p.newTypes.map fun _ => 0)).patchAll
      (p.namedRefPatches.map fun patch => (patch.handle, patch.value))).reads = g.namedRefs.reads ∧
    ((g.dependencyVersions.append (p.newTypes.map fun _ => 1)).patchAll
      (handlePatches p.dependencyVersionPatches)).reads = g.dependencyVersions.reads := by
  have hhandles : ∀ {α : Type} (v : MappedVector α) (values : List α) (patches : List (Patch α)),
      ((v.append values).patchAll (handlePatches patches)).reads = v.reads ↔
        ∀ patch ∈ patches, v.held (patch.handle - 1) = true := by
    intro α v values patches
    have h := MappedVector.patchAll_reads_iff (v.append values) (handlePatches patches)
    rw [MappedVector.append_reads] at h
    rw [h]
    simp [handlePatches]
  have hnamed := MappedVector.patchAll_reads_iff (g.namedRefs.append (p.newTypes.map fun _ => 0))
    (p.namedRefPatches.map fun patch => (patch.handle, patch.value))
  rw [MappedVector.append_reads] at hnamed
  rw [publishedLinks, hhandles, hhandles, hhandles, hhandles, hnamed]
  constructor
  · intro h
    exact ⟨h.types, h.objects, h.links, by simpa using h.namedRefs, h.dependencyVersions⟩
  · rintro ⟨h1, h2, h3, h4, h5⟩
    exact ⟨h1, h2, h3, by simpa using h4, h5⟩

variable {g : MappedGraph} {p : PreparedGraphUpdate}

/-- Reads add up: the publication reads nothing exactly when no vector does. -/
theorem noFail_iff_silent
    (hheads : ∀ e ∈ p.dependencyEdges, g.reverseDependencyHeads.held (e.targetHandle - 1) = true) :
    NoFail g p ↔ SilentPublication g p := by
  have hedges := @publishEdges_reads g.dependencyEdges
    (g.reverseDependencyHeads.append (p.newTypes.map fun _ => 0)) p.dependencyEdges fun e he => by
      rw [MappedVector.append_held]
      exact hheads e he
  have htypes := MappedVector.patchAll_reads_le (g.types.append p.newTypes)
    (handlePatches p.typePatches)
  have hobjects := MappedVector.patchAll_reads_le (g.objectEntries.append p.newObjects)
    (handlePatches p.objectPatches)
  have hlinks := MappedVector.patchAll_reads_le (g.linkRecords.append p.newLinks)
    (handlePatches p.linkPatches)
  have hnamed := MappedVector.patchAll_reads_le (g.namedRefs.append (p.newTypes.map fun _ => 0))
    (p.namedRefPatches.map fun patch => (patch.handle, patch.value))
  have hversions := MappedVector.patchAll_reads_le
    (g.dependencyVersions.append (p.newTypes.map fun _ => 1))
    (handlePatches p.dependencyVersionPatches)
  rw [MappedVector.append_reads] at htypes hobjects hlinks hnamed hversions
  constructor
  · rintro ⟨g', hpublish, hreads⟩
    unfold publishPrepared at hpublish
    simp only [Option.bind_eq_bind, Option.bind_eq_some_iff] at hpublish
    obtain ⟨⟨s₁, v₁⟩, h1, ⟨s₂, v₂⟩, h2, ⟨s₃, v₃⟩, h3, ⟨s₄, v₄⟩, h4, hpublish⟩ := hpublish
    cases hpublish
    have hle1 := publishIndex_reads_le h1
    have hle2 := publishIndex_reads_le h2
    have hle3 := publishIndex_reads_le h3
    have hle4 := publishIndex_reads_le h4
    rw [MappedVector.append_reads] at hle1 hle2 hle4
    simp only [reads, MappedVector.append_reads, hedges.1, hedges.2] at hreads
    refine ⟨(patchesHeld_iff g p).mpr ?_, ⟨s₁, v₁, h1, ?_⟩, ⟨s₂, v₂, h2, ?_⟩, ⟨s₃, v₃, h3, ?_⟩,
      ⟨s₄, v₄, h4, ?_⟩⟩
    · rw [publishedLinks]
      omega
    · rw [publishedIdentities, MappedVector.append_reads]
      omega
    · rw [publishedObjectIdentities, MappedVector.append_reads]
      omega
    · rw [publishedLinks]
      omega
    · rw [publishedCanonicalTypes, MappedVector.append_reads]
      omega
  · intro h
    obtain ⟨s₁, v₁, h1, hs1, hv1⟩ := h.identities
    obtain ⟨s₂, v₂, h2, hs2, hv2⟩ := h.objectIdentities
    obtain ⟨s₃, v₃, h3, hs3, hv3⟩ := h.links
    obtain ⟨s₄, v₄, h4, hs4, hv4⟩ := h.derivedTypes
    have hpatches := (patchesHeld_iff g p).mp h.patches
    rw [publishedIdentities] at h1 hv1
    rw [publishedObjectIdentities] at h2 hv2
    rw [publishedLinks] at h3 hv3 hpatches
    rw [publishedCanonicalTypes] at h4 hv4
    rw [MappedVector.append_reads] at hv1 hv2 hv4
    obtain ⟨g', hg'⟩ : ∃ g', publishPrepared g p = some g' := by
      unfold publishPrepared
      simp only [h1, h2, h3, h4, Option.bind_eq_bind, Option.bind_some]
      exact ⟨_, rfl⟩
    refine ⟨g', hg', ?_⟩
    unfold publishPrepared at hg'
    simp only [h1, h2, h3, h4, Option.bind_eq_bind, Option.bind_some] at hg'
    cases hg'
    simp only [reads, MappedVector.append_reads, hedges.1, hedges.2]
    omega

/-- An accepted preparation: slots touched, every target's head held, and nothing else that the
publication can see. -/
structure PublicationPrepared (g g' : MappedGraph) (p : PreparedGraphUpdate) : Prop where
  identityIndex : p.replaceIdentityIndex = false →
    Touched g.identityIndex g'.identityIndex (touchedSlots true .rebuildRequired g.identities
      g.identityIndex (p.newIdentities.map (identityEntry · 0))) ∧
      (p.newIdentities ≠ [] → g.identityIndex.size ≠ 0)
  objectIdentityIndex : p.replaceObjectIdentityIndex = false →
    Touched g.objectIdentityIndex g'.objectIdentityIndex (touchedSlots true .rebuildRequired
      g.objectIdentities g.objectIdentityIndex (p.newObjectIdentities.map (identityEntry · 0))) ∧
      (p.newObjectIdentities ≠ [] → g.objectIdentityIndex.size ≠ 0)
  linkIndex : p.replaceLinkIndex = false →
    Touched g.linkIndex g'.linkIndex (touchedSlots false .artifactCorrupt g.linkRecords g.linkIndex
      (p.linkEntries g.linkRecords.size)) ∧
      (p.linkEntries g.linkRecords.size ≠ [] → g.linkIndex.size ≠ 0)
  derivedIndex : p.replaceDerivedIndex = false →
    Touched g.derivedIndex g'.derivedIndex (touchedSlots false .artifactCorrupt g.canonicalTypes
      g.derivedIndex (p.derivedEntries g.canonicalTypes.size)) ∧
      (p.derivedEntries g.canonicalTypes.size ≠ [] → g.derivedIndex.size ≠ 0)
  heads : ∀ e ∈ p.dependencyEdges, g'.reverseDependencyHeads.held (e.targetHandle - 1) = true
  status : readStatusOk g' = true
  patches : PatchesHeld g' p ↔ PatchesHeld g p
  sizes : g'.types.size = g.types.size ∧ g'.objectEntries.size = g.objectEntries.size ∧
    g'.linkRecords.size = g.linkRecords.size ∧ g'.canonicalTypes.size = g.canonicalTypes.size
  identities : (publishedIdentities g' p).Alike (publishedIdentities g p)
  objectIdentities : (publishedObjectIdentities g' p).Alike (publishedObjectIdentities g p)
  links : (publishedLinks g' p).Alike (publishedLinks g p)
  canonicalTypes : (publishedCanonicalTypes g' p).Alike (publishedCanonicalTypes g p)

theorem touchIdentity_ok {values : MappedVector IdentityRef} {slots s : MappedVector IndexSlot}
    {identity : IdentityRef} (h : touchIdentity values slots identity = .ok s) :
    touchIndex true .rebuildRequired values slots (identityEntry identity 0) = .ok s := by
  unfold touchIdentity at h
  split at h
  · cases h
  · exact h

theorem touchAll_ok {ε : Type} {compares replaced : Bool} {readError : StatusCode}
    {values : MappedVector β}
    {touch : MappedVector IndexSlot → ε → Except StatusCode (MappedVector IndexSlot)}
    {entry : ε → IndexEntry β}
    (htouch : ∀ slots x s, touch slots x = .ok s →
      touchIndex compares readError values slots (entry x) = .ok s)
    {slots s : MappedVector IndexSlot} {xs : List ε} (h : touchAll replaced touch slots xs = .ok s)
    (hr : replaced = false) :
    Touched slots s (touchedSlots compares readError values slots (xs.map entry)) ∧
      (xs ≠ [] → slots.size ≠ 0) := by
  subst hr
  exact touchFold_ok htouch h

theorem prepareSparsePublication_ok {g' : MappedGraph} (hb : g.baselineBacked = true)
    (h : prepareSparsePublication g p = .ok g') : PublicationPrepared g g' p := by
  unfold prepareSparsePublication at h
  rw [if_neg (by simp [hb])] at h
  obtain ⟨i₁, h1, h⟩ := bind_ok.mp h
  obtain ⟨i₂, h2, h⟩ := bind_ok.mp h
  obtain ⟨i₃, h3, h⟩ := bind_ok.mp h
  obtain ⟨i₄, h4, h⟩ := bind_ok.mp h
  obtain ⟨heads, h5, h⟩ := bind_ok.mp h
  dsimp only at h
  split at h
  · rename_i hstatus
    cases h
    have hfail : heads.readFailure = none := by
      simp only [readStatusOk, Bool.and_eq_true, Option.isNone_iff_eq_none] at hstatus
      exact hstatus.1.2
    have hi := touchAll_ok (fun _ _ _ hs => touchIdentity_ok hs) h1
    have ho := touchAll_ok (fun _ _ _ hs => touchIdentity_ok hs) h2
    have hl := @touchAll_ok _ _ false _ _ _ _ id (fun _ _ _ hs => hs) _ _ _ h3
    have hd := @touchAll_ok _ _ false _ _ _ _ id (fun _ _ _ hs => hs) _ _ _ h4
    simp only [reserveGrowth, touchedSlots_reserve, List.map_id, MappedVector.reserve_size]
      at hi ho hl hd
    refine ⟨hi, ho, hl, hd, touchHeads_ok h5 hfail, hstatus, ?_, ⟨rfl, rfl, rfl, rfl⟩, ?_, ?_, ?_, ?_⟩
    · exact ⟨fun hp => ⟨hp.types, hp.objects, hp.links, hp.namedRefs, hp.dependencyVersions⟩,
        fun hp => ⟨hp.types, hp.objects, hp.links, hp.namedRefs, hp.dependencyVersions⟩⟩
    · exact MappedVector.reserve_append_alike _ _ _
    · exact MappedVector.reserve_append_alike _ _ _
    · exact MappedVector.reserve_patched_alike _ _ _ _
    · exact MappedVector.reserve_append_alike _ _ _
  · cases h

theorem publishIndex_covered [Inhabited β] {compares replaced : Bool} {rebuilt : List IndexSlot}
    {slots s : MappedVector IndexSlot} {values values' : MappedVector β} {touched : List Nat}
    {entries : List (IndexEntry β)}
    (ht : replaced = false → Touched slots s touched ∧ (entries ≠ [] → slots.size ≠ 0))
    (hf : s.readFailure = none) (hvalues : values'.Alike values) :
    (∃ t v, publishIndex compares replaced rebuilt s values' entries = some (t, v) ∧
      t.reads = s.reads ∧ v.reads = values'.reads) ↔
    IndexCovered compares replaced slots touched values entries := by
  rw [publishIndex_iff fun hr hne => by
    rw [(ht hr).1.size]
    exact (ht hr).2 hne]
  unfold IndexCovered
  cases replaced with
  | true => simp
  | false =>
    obtain ⟨htouched, -⟩ := ht rfl
    have hslotValue : s.value = slots.value := by
      funext i
      rw [MappedVector.value, htouched.read i, MappedVector.value]
    have hslotHeld : s.held = fun i => slots.held i || touched.contains i := by
      funext i
      rw [Bool.eq_iff_iff, htouched.held hf i]
      simp
    have hheld : values'.held = values.held := funext hvalues.held
    rw [htouched.size, hslotValue, hslotHeld, hvalues.size, hvalues.value, hheld]

theorem entries_ne_nil {α γ : Type} {xs : List α} {f : α × Nat → γ}
    (h : xs.zipIdx.map f ≠ []) : xs ≠ [] := by
  intro hxs
  subst hxs
  exact h rfl

/-- After an accepted preparation, publication is no-fail exactly when every patched slot was
materialized, and every slot and stored key the probing of the new entries visits was materialized
or is a slot the preparation touched. -/
theorem publishPrepared_noFail_iff {g g' : MappedGraph} {p : PreparedGraphUpdate}
    (hb : g.baselineBacked = true) (h : prepareSparsePublication g p = .ok g') :
    NoFail g' p ↔ PublicationCovered g p := by
  have hprep := prepareSparsePublication_ok hb h
  rw [noFail_iff_silent hprep.heads]
  have hstatus := hprep.status
  simp only [readStatusOk, Bool.and_eq_true, Option.isNone_iff_eq_none] at hstatus
  obtain ⟨⟨⟨⟨⟨⟨⟨⟨-, hf1⟩, hf2⟩, hf3⟩, -⟩, hf4⟩, -⟩, -⟩, -⟩ := hstatus
  obtain ⟨htypes, hobjects, hlinks, hcanonical⟩ := hprep.sizes
  have h1 := @publishIndex_covered _ _ true _ p.rebuiltIdentityIndex _ _ _ _ _
    (p.identityEntries g.types.size) (fun hr => ⟨(hprep.identityIndex hr).1, fun hne =>
      (hprep.identityIndex hr).2 (entries_ne_nil hne)⟩) hf1 hprep.identities
  have h2 := @publishIndex_covered _ _ true _ p.rebuiltObjectIdentityIndex _ _ _ _ _
    (p.objectIdentityEntries g.objectEntries.size) (fun hr => ⟨(hprep.objectIdentityIndex hr).1,
      fun hne => (hprep.objectIdentityIndex hr).2 (entries_ne_nil hne)⟩) hf2 hprep.objectIdentities
  have h3 := @publishIndex_covered _ _ true _ p.rebuiltLinkIndex _ _ _ _ _
    (p.linkEntries g.linkRecords.size) hprep.linkIndex hf3 hprep.links
  have h4 := @publishIndex_covered _ _ false _ p.rebuiltDerivedIndex _ _ _ _ _
    (p.derivedEntries g.canonicalTypes.size) hprep.derivedIndex hf4 hprep.canonicalTypes
  constructor
  · intro hs
    have hs1 := hs.identities
    have hs2 := hs.objectIdentities
    have hs3 := hs.links
    have hs4 := hs.derivedTypes
    rw [htypes] at hs1
    rw [hobjects] at hs2
    rw [hlinks] at hs3
    rw [hcanonical] at hs4
    exact ⟨hprep.patches.mp hs.patches, h1.mp hs1, h2.mp hs2, h3.mp hs3, h4.mp hs4⟩
  · intro hc
    refine ⟨hprep.patches.mpr hc.patches, ?_, ?_, ?_, ?_⟩
    · rw [htypes]
      exact h1.mpr hc.identities
    · rw [hobjects]
      exact h2.mpr hc.objectIdentities
    · rw [hlinks]
      exact h3.mpr hc.links
    · rw [hcanonical]
      exact h4.mpr hc.derivedTypes

/-! ### A new identity whose home slot is taken -/

/-- One saved type, whose index slot is the home slot of the new identity. -/
def collidingGraph : MappedGraph where
  baselineBacked := true
  types := { baselineCount := 1, reader := fun _ => .ok { live := true } }
  identities := { baselineCount := 1, reader := fun _ => .ok ⟨2 ^ 31 + 1⟩ }
  memberRecords := {}
  enumValueRecords := {}
  objectEntries := {}
  objectIdentities := {}
  linkRecords := {}
  canonicalTypes := { baselineCount := 1, reader := fun _ => .ok {} }
  identityIndex :=
    { baselineCount := 8
      reader := fun i => .ok (if i = 7 then ⟨fold32 (identityHash ⟨2 ^ 31 + 1⟩), 1⟩ else {}) }
  objectIdentityIndex := {}
  linkIndex := {}
  intrinsicRefs := List.replicate 22 0
  namedRefs := { baselineCount := 2, reader := fun _ => .ok 0 }
  derivedIndex := {}
  derivedIndexEntries := 0
  dependencyVersions := { baselineCount := 1, reader := fun _ => .ok 1 }
  reverseDependencyHeads := { baselineCount := 1, reader := fun _ => .ok 0 }
  dependencyEdges := {}
  liveTypeCount := 1
  liveObjectCount := 0
  liveLinkCount := 0

def collidingUpdate : PreparedGraphUpdate where
  newTypes := [{ live := true }]
  newIdentities := [⟨2 ^ 31 + 6⟩]
  intrinsicRefs := List.replicate 22 0
  liveTypeCount := 2

def collidingPrepared : MappedGraph :=
  match prepareSparsePublication collidingGraph collidingUpdate with
  | .ok g => g
  | .error _ => collidingGraph

theorem colliding_prepared :
    prepareSparsePublication collidingGraph collidingUpdate = .ok collidingPrepared := by
  have hok : (prepareSparsePublication collidingGraph collidingUpdate).isOk = true := by decide
  unfold collidingPrepared
  cases h : prepareSparsePublication collidingGraph collidingUpdate with
  | ok g => rfl
  | error code =>
    rw [h] at hok
    cases hok

/-- The preparation is accepted; the publication still reads the occupied home slot. -/
theorem publication_reads_baseline : collidingGraph.baselineBacked = true ∧
    prepareSparsePublication collidingGraph collidingUpdate = .ok collidingPrepared ∧
    ¬NoFail collidingPrepared collidingUpdate := by
  refine ⟨rfl, colliding_prepared, ?_⟩
  rintro ⟨g', hpublish, hreads⟩
  have hcount : (publishPrepared collidingPrepared collidingUpdate).map reads =
      some (reads collidingPrepared + 1) := by decide
  rw [hpublish, Option.map_some, hreads] at hcount
  have := Option.some.inj hcount
  omega

theorem publishPrepared_noFail_iff_colliding :
    NoFail collidingPrepared collidingUpdate ↔
      PublicationCovered collidingGraph collidingUpdate :=
  publishPrepared_noFail_iff rfl colliding_prepared

end MappedGraph

end ServerEngine
