import ServerEngine.Builder.Steps

/-! # Materialized candidates

Once a touched type is worked off, its entry, its members and the edges of its definition carry one
version. Objects and links that follow leave all of it alone.
-/
namespace ServerEngine
open Slice ErrorFold

/-! ## Patches -/

section Patches
variable {α : Type} {patches : List (Patch α)} {handle : Nat} {value : α}

theorem findPatch_setPatch (other : Nat) : findPatch (setPatch patches handle value) other =
    if other = handle then some value else findPatch patches other := by
  unfold setPatch
  split
  · rename_i hsome
    unfold findPatch
    rw [List.find?_map]
    have hcomp : ((fun p : Patch α => p.handle == other) ∘ fun patch =>
        if patch.handle = handle then { patch with value } else patch) =
        fun p => p.handle == other := by
      funext p
      simp only [Function.comp]
      split <;> rfl
    rw [hcomp]
    by_cases ho : other = handle
    · subst ho
      obtain ⟨v, hv⟩ := Option.isSome_iff_exists.mp hsome
      obtain ⟨p, hp, -⟩ := Option.map_eq_some_iff.mp hv
      have hph : p.handle = other := by simpa using List.find?_some hp
      rw [hp, if_pos rfl, Option.map_some, Option.map_some, if_pos hph]
    · rw [if_neg ho]
      cases hp : patches.find? (·.handle == other) with
      | none => rfl
      | some p =>
        have hph : p.handle = other := by simpa using List.find?_some hp
        have hne : p.handle ≠ handle := fun heq => ho (hph.symm.trans heq)
        rw [Option.map_some, Option.map_some, Option.map_some, if_neg hne]
  · rename_i hnone
    rw [findPatch_snoc]
    cases hp : findPatch patches other with
    | none =>
      by_cases ho : other = handle
      · rw [if_pos ho.symm, if_pos ho]
      · rw [if_neg (Ne.symm ho), if_neg ho]
    | some v =>
      have ho : other ≠ handle := by
        rintro rfl
        rw [hp] at hnone
        exact hnone rfl
      rw [if_neg ho]

theorem mem_setPatch {p : Patch α} (h : p ∈ setPatch patches handle value) :
    p = ⟨handle, value⟩ ∨ p ∈ patches := by
  unfold setPatch at h
  split at h
  · obtain ⟨q, hq, rfl⟩ := List.mem_map.mp h
    split
    · rename_i heq
      rw [← heq]
      exact .inl rfl
    · exact .inr hq
  · rcases List.mem_append.mp h with h | h
    · exact .inr h
    · exact .inl (List.mem_singleton.mp h)

theorem setPatch_nodup (h : (patches.map (·.handle)).Nodup) :
    ((setPatch patches handle value).map (·.handle)).Nodup := by
  unfold setPatch
  split
  · rw [List.map_map]
    have hcomp : ((·.handle) ∘ fun patch : Patch α =>
        if patch.handle = handle then { patch with value } else patch) = (·.handle) := by
      funext p
      simp only [Function.comp]
      split <;> rfl
    rw [hcomp]
    exact h
  · rename_i hnone
    have hfresh := findPatch_none (by simpa using hnone)
    rw [List.map_append, List.nodup_append]
    refine ⟨h, by simp, ?_⟩
    intro a ha b hb heq
    obtain ⟨p, hp, rfl⟩ := List.mem_map.mp ha
    rw [List.map_singleton, List.mem_singleton] at hb
    exact hfresh p hp (heq.trans hb)

theorem applyPatches_getElem? {values : List α} (hnodup : (patches.map (·.handle)).Nodup)
    (hrange : ∀ p ∈ patches, p.handle ≠ 0 ∧ p.handle ≤ values.length) {other : Nat}
    (hother : other ≠ 0) : (Graph.applyPatches values patches)[other - 1]? =
      match findPatch patches other with
      | some v => some v
      | none => values[other - 1]? := by
  induction patches generalizing values with
  | nil => rfl
  | cons p ps ih =>
    rw [List.map_cons, List.nodup_cons] at hnodup
    obtain ⟨hne, hle⟩ := hrange p List.mem_cons_self
    have hrest : ∀ q ∈ ps, q.handle ≠ 0 ∧
        q.handle ≤ (values.set (p.handle - 1) p.value).length := by
      intro q hq
      rw [List.length_set]
      exact hrange q (List.mem_cons_of_mem _ hq)
    have hstep := @ih (values.set (p.handle - 1) p.value) hnodup.2 hrest
    change (Graph.applyPatches (values.set (p.handle - 1) p.value) ps)[other - 1]? = _
    rw [hstep]
    by_cases ho : p.handle = other
    · subst ho
      have hnone : findPatch ps p.handle = none := by
        cases hp : findPatch ps p.handle with
        | none => rfl
        | some v =>
          obtain ⟨q, hq, heq, -⟩ := findPatch_some hp
          exact absurd (List.mem_map.mpr ⟨q, hq, heq⟩) hnodup.1
      rw [hnone, findPatch, List.find?_cons_of_pos (by simp), Option.map_some]
      rw [List.getElem?_set_self (by omega)]
    · have hset : (values.set (p.handle - 1) p.value)[other - 1]? = values[other - 1]? :=
        List.getElem?_set_ne (by omega)
      have hfind : findPatch (p :: ps) other = findPatch ps other := by
        rw [findPatch, List.find?_cons_of_neg (by simpa using ho), findPatch]
      rw [hset, hfind]

theorem applyPatches_length (values : List α) (patches : List (Patch α)) :
    (Graph.applyPatches values patches).length = values.length := by
  induction patches generalizing values with
  | nil => rfl
  | cons p ps ih =>
    change (Graph.applyPatches (values.set (p.handle - 1) p.value) ps).length = _
    rw [ih, List.length_set]

end Patches

namespace Candidate

section Entries
variable {g : Graph} {c c' : Candidate}

theorem entry_setEntry_self {handle : Nat} {value : TypeEntry} (hne : handle ≠ 0)
    (hle : handle ≤ g.types.length + c.update.newTypes.length) :
    (c.setEntry g handle value).entry g handle = some value := by
  unfold setEntry
  split
  · rename_i hnew
    have hgt : g.types.length < handle := hnew
    rw [entry, if_neg hne, if_pos hnew]
    exact List.getElem?_set_self (by omega)
  · rename_i hold
    rw [entry, if_neg hne, if_neg hold]
    rw [findPatch_setPatch, if_pos rfl]

theorem entry_setEntry_other {handle other : Nat} {value : TypeEntry} (ho : other ≠ handle) :
    (c.setEntry g handle value).entry g other = c.entry g other := by
  unfold setEntry
  split
  · rename_i hnew
    have hgt : g.types.length < handle := hnew
    unfold entry
    by_cases h0 : other = 0
    · rw [if_pos h0, if_pos h0]
    rw [if_neg h0, if_neg h0]
    split
    · rename_i hother
      have hgt' : g.types.length < other := hother
      exact List.getElem?_set_ne (by omega)
    · rfl
  · unfold entry
    rw [findPatch_setPatch, if_neg ho]

theorem setEntry_types {handle : Nat} {value : TypeEntry} (hc : c.Types g) :
    (c.setEntry g handle value).Types g := by
  unfold setEntry
  split
  · exact hc.congr List.length_set rfl rfl rfl rfl rfl rfl
  · exact hc.congr rfl rfl rfl rfl rfl rfl rfl

theorem entry_old (hpatches : c'.update.typePatches = c.update.typePatches)
    (hnew : ∃ added, c'.update.newTypes = c.update.newTypes ++ added) {handle : Nat}
    (hle : handle ≤ g.types.length + c.update.newTypes.length) :
    c'.entry g handle = c.entry g handle := by
  obtain ⟨added, hadded⟩ := hnew
  unfold entry
  by_cases h0 : handle = 0
  · rw [if_pos h0, if_pos h0]
  rw [if_neg h0, if_neg h0]
  split
  · rename_i hnew
    have hgt : g.types.length < handle := hnew
    rw [hadded, List.getElem?_append_left (by omega)]
  · rw [hpatches]

end Entries

/-! ## One touched type -/

section Touched
variable {g : Graph} {abi : AbiConfiguration} {c c' : Candidate} {handle : Nat}

def withLiveTypes (c : Candidate) (count : Nat) : Candidate :=
  { c with update := { c.update with liveTypeCount := count } }

theorem materializeTouched_cases (h : materializeTouched g abi c handle = .ok c') :
    ∃ construction c₁ entry version count, c.contributions.construction handle = some construction ∧
      ((construction.declarations = 0 ∧ c₁ = c ∧ entry = {}) ∨
        materializeLive g abi handle construction c = .ok (c₁, entry)) ∧
      nextVersion g handle = .ok version ∧
      c' = ((c₁.withLiveTypes count).setEntry g handle entry).stampVersion handle version := by
  unfold materializeTouched at h
  cases hstate : c.contributions.construction handle with
  | none =>
    rw [hstate] at h
    cases h
  | some construction =>
    rw [hstate] at h
    dsimp only at h
    split at h
    · cases h
    · by_cases hlive : construction.declarations ≠ 0
      · rw [if_pos (decide_eq_true hlive)] at h
        obtain ⟨⟨c₁, entry⟩, hlive, h⟩ := bind_ok.mp h
        obtain ⟨version, hversion, h⟩ := bind_ok.mp h
        cases h
        exact ⟨construction, c₁, entry, version, _, rfl, .inr hlive, hversion, rfl⟩
      · rw [if_neg (by simpa using hlive)] at h
        obtain ⟨⟨c₁, entry⟩, hdead, h⟩ := bind_ok.mp h
        cases hdead
        obtain ⟨version, hversion, h⟩ := bind_ok.mp h
        cases h
        exact ⟨construction, c, {}, version, _, rfl, .inl ⟨not_not.mp hlive, rfl, rfl⟩, hversion,
          rfl⟩

theorem nextVersion_ne_zero {version : Nat} (h : nextVersion g handle = .ok version) :
    version ≠ 0 := by
  unfold nextVersion at h
  split at h
  · split at h
    · cases h
    · cases h
      omega
  · cases h
    omega

/-- The touched types worked off so far are materialized, the other types are as they were. -/
structure Materialized (g : Graph) (c : Candidate) (done : List TypeHandle) : Prop where
  types : c.Types g
  range : ∀ h : Nat, h ∈ done → h ≠ 0 ∧ h ≤ g.types.length + c.update.newTypes.length
  patches : ∀ p ∈ c.update.typePatches, p.handle ∈ done ∧ p.handle ≠ 0 ∧ p.handle ≤ g.types.length
  patchesNodup : (c.update.typePatches.map (·.handle)).Nodup
  fresh : ∀ i e, c.update.newTypes[i]? = some e → g.types.length + i + 1 ∉ done → e = {}
  versions : c.update.dependencyVersionPatches.map (·.handle) = done
  edges : ∀ e ∈ c.update.dependencyEdges, e.ownerVersion ≠ 0 ∧ e.targetHandle ≠ 0 ∧
    e.targetHandle ≤ g.types.length + c.update.newTypes.length
  members : ∀ m ∈ c.update.members, ∃ base modifiers,
    Denotes (c.canonicalTypes g) m.type base modifiers
  defined : ∀ h : Nat, h ∈ done → ∀ e, c.entry g h = some e → ∃ version ≠ 0,
    ⟨h, version⟩ ∈ c.update.dependencyVersionPatches ∧ EntryDenotes g c h version e

variable {construction : SourceConstructionState}

theorem definitionOf_kind
    (hbase : c.contributions.base = c.contributions.owner.committed.arenas.sizes)
    (hstates : c.contributions.StatesNamed)
    (hstate : c.contributions.construction handle = some construction)
    {d : SourceContributionType} (hd : c.definitionOf construction = some d) :
    d.kind = construction.kind := by
  unfold definitionOf at hd
  split at hd
  · cases hd
  · rename_i hne
    rw [SparseUpdate.typeAt_eq hbase] at hd
    obtain ⟨t, ht, hk⟩ := (hstates.state handle construction hstate).definition hne
    rw [hd] at ht
    cases ht
    exact hk

theorem touched_adds (hx : IdentityIndex g.identityIndex g.identities)
    (hlen : g.types.length = g.identities.length) (hg : g.Canonical) (hc : c.Types g)
    (hu : c.contributions.Genuine)
    (hbase : c.contributions.base = c.contributions.owner.committed.arenas.sizes)
    (hstates : c.contributions.StatesNamed) {c₁ : Candidate} {entry : TypeEntry}
    (hstate : c.contributions.construction handle = some construction)
    (h : (construction.declarations = 0 ∧ c₁ = c ∧ entry = {}) ∨ materializeLive g abi handle construction c = .ok (c₁, entry)) :
    c₁.Types g ∧
      Adds g handle c c₁ ∧ EntryDenotes g c₁ handle 0 entry := by
  rcases h with ⟨-, rfl, rfl⟩ | h
  · refine ⟨hc, .refl g handle c₁, ?_⟩
    intro _ hdefined
    cases hdefined
  · exact materializeLive_spec hx hlen hg hc hu (fun _ => definitionOf_kind hbase hstates hstate) h

variable {owner : Nat} {e : PendingDependencyEdge}

theorem stampVersion_edges {version : Nat}
    (h : e ∈ (c.stampVersion owner version).update.dependencyEdges) :
    (e ∈ c.update.dependencyEdges ∧ ¬(e.ownerHandle = owner ∧ e.ownerVersion = 0)) ∨
      ∃ e₀ ∈ c.update.dependencyEdges, e₀.ownerHandle = owner ∧ e₀.ownerVersion = 0 ∧
        e = { e₀ with ownerVersion := version } := by
  obtain ⟨e₀, he₀, rfl⟩ := List.mem_map.mp h
  by_cases hcond : e₀.ownerHandle = owner ∧ e₀.ownerVersion = 0
  · refine .inr ⟨e₀, he₀, hcond.1, hcond.2, ?_⟩
    rw [if_pos (by simpa using hcond)]
  · left
    rw [if_neg (by simpa using hcond)]
    exact ⟨he₀, hcond⟩

theorem stampVersion_own {target version : Nat}
    (h : ⟨target, owner, 0⟩ ∈ c.update.dependencyEdges) :
    ⟨target, owner, version⟩ ∈ (c.stampVersion owner version).update.dependencyEdges := by
  refine List.mem_map.mpr ⟨⟨target, owner, 0⟩, h, ?_⟩
  rw [if_pos (by simp)]

theorem stampVersion_other {version : Nat} (h : e ∈ c.update.dependencyEdges)
    (hne : e.ownerVersion ≠ 0) : e ∈ (c.stampVersion owner version).update.dependencyEdges := by
  refine List.mem_map.mpr ⟨e, h, ?_⟩
  rw [if_neg (by simp [hne])]

def settled (g : Graph) (c : Candidate) (handle : Nat) (entry : TypeEntry) (version count : Nat) :
    Candidate :=
  ((c.withLiveTypes count).setEntry g handle entry).stampVersion handle version

section Settled
variable {entry : TypeEntry} {version count : Nat}

theorem settled_types (hc : c.Types g) : (c.settled g handle entry version count).Types g := by
  have hlive : (c.withLiveTypes count).Types g := hc.congr rfl rfl rfl rfl rfl rfl rfl
  exact (setEntry_types hlive).congr rfl rfl rfl rfl rfl rfl rfl

theorem settled_entry_self (hne : handle ≠ 0)
    (hle : handle ≤ g.types.length + c.update.newTypes.length) :
    (c.settled g handle entry version count).entry g handle = some entry :=
  entry_setEntry_self (c := c.withLiveTypes count) hne hle

variable {other : Nat}

theorem settled_entry_other (ho : other ≠ handle) :
    (c.settled g handle entry version count).entry g other = c.entry g other :=
  entry_setEntry_other (c := c.withLiveTypes count) ho

theorem settled_rest : ∃ typePatches newTypes, newTypes.length = c.update.newTypes.length ∧
    (c.withLiveTypes count).setEntry g handle entry = { c with update := { c.update with
      typePatches, newTypes, liveTypeCount := count } } := by
  unfold setEntry
  split
  · exact ⟨_, _, List.length_set, rfl⟩
  · exact ⟨_, _, rfl, rfl⟩

theorem settled_newTypes_length :
    (c.settled g handle entry version count).update.newTypes.length = c.update.newTypes.length := by
  obtain ⟨_, _, hlen, heq⟩ := @settled_rest g c handle entry count
  rw [settled, heq]
  exact hlen

theorem settled_canonical :
    (c.settled g handle entry version count).canonicalTypes g = c.canonicalTypes g := by
  obtain ⟨_, _, -, heq⟩ := @settled_rest g c handle entry count
  rw [settled, heq]
  rfl

theorem settled_members :
    (c.settled g handle entry version count).update.members = c.update.members := by
  obtain ⟨_, _, -, heq⟩ := @settled_rest g c handle entry count
  rw [settled, heq]
  rfl

theorem settled_versions :
    (c.settled g handle entry version count).update.dependencyVersionPatches =
      c.update.dependencyVersionPatches ++ [⟨handle, version⟩] := by
  obtain ⟨_, _, -, heq⟩ := @settled_rest g c handle entry count
  rw [settled, heq]
  rfl

theorem settled_edges : (c.settled g handle entry version count).update.dependencyEdges =
    (c.stampVersion handle version).update.dependencyEdges := by
  obtain ⟨_, _, -, heq⟩ := @settled_rest g c handle entry count
  rw [settled, heq]
  rfl

theorem settled_self (h : EntryDenotes g c handle 0 entry) :
    EntryDenotes g (c.settled g handle entry version count) handle version entry := by
  intro hkind hdefined i hi
  obtain ⟨member, hmember, base, modifiers, hd, hedges⟩ := h hkind hdefined i hi
  refine ⟨member, ?_, base, modifiers, ?_, ?_⟩
  · rw [memberAt, settled_members]
    exact hmember
  · rw [settled_canonical]
    exact hd
  · intro target htarget
    rw [settled_edges]
    exact stampVersion_own (hedges target htarget)

theorem settled_other {e : TypeEntry} {v : Nat} (hv : v ≠ 0) (h : EntryDenotes g c other v e) :
    EntryDenotes g (c.settled g handle entry version count) other v e := by
  intro hkind hdefined i hi
  obtain ⟨member, hmember, base, modifiers, hd, hedges⟩ := h hkind hdefined i hi
  refine ⟨member, ?_, base, modifiers, ?_, ?_⟩
  · rw [memberAt, settled_members]
    exact hmember
  · rw [settled_canonical]
    exact hd
  · intro target htarget
    rw [settled_edges]
    exact stampVersion_other (hedges target htarget) hv

end Settled

theorem Adds.entryDenotes {other : TypeHandle} {owner : TypeHandle} {v : Nat} {e : TypeEntry}
    (h : Adds g owner c c') (he : EntryDenotes g c other v e) : EntryDenotes g c' other v e := by
  intro hkind hdefined i hi
  obtain ⟨member, hmember, hd⟩ := he hkind hdefined i hi
  refine ⟨member, ?_, h.memberDenotes hd⟩
  obtain ⟨added, hadded, -⟩ := h.members
  unfold memberAt at hmember ⊢
  rw [hadded, ← List.append_assoc,
    List.getElem?_append_left (List.getElem?_eq_some_iff.mp hmember).1, hmember]

theorem Adds.typePatches {owner : TypeHandle} (h : Adds g owner c c') :
    c'.update.typePatches = c.update.typePatches := by
  have hshell := congrArg (·.update.typePatches) h.shell
  exact hshell

theorem Adds.versionPatches {owner : TypeHandle} (h : Adds g owner c c') :
    c'.update.dependencyVersionPatches = c.update.dependencyVersionPatches := by
  have hshell := congrArg (·.update.dependencyVersionPatches) h.shell
  exact hshell

theorem Materialized.step {done : List TypeHandle} (hm : Materialized g c done)
    (hx : IdentityIndex g.identityIndex g.identities) (hlen : g.types.length = g.identities.length)
    (hg : g.Canonical) (hu : c.contributions.Genuine)
    (hbase : c.contributions.base = c.contributions.owner.committed.arenas.sizes)
    (hstates : c.contributions.StatesNamed) (hnew : handle ∉ done) (hne : handle ≠ 0)
    (hle : handle ≤ g.types.length + c.update.newTypes.length)
    (h : materializeTouched g abi c handle = .ok c') : Materialized g c' (done ++ [handle]) := by
  obtain ⟨construction, c₁, entry, version, count, hstate, hlive, hversion, rfl⟩ :=
    materializeTouched_cases h
  obtain ⟨hc₁, hadds, hentry⟩ :=
    touched_adds hx hlen hg hm.types hu hbase hstates hstate hlive
  have hv := nextVersion_ne_zero hversion
  have hmono := hadds.newTypes_length
  obtain ⟨addedHandles, -, hhandles⟩ := hadds.handles
  obtain ⟨addedEdges, hedges, heach⟩ := hadds.edges
  obtain ⟨addedMembers, hmembers, hmeach⟩ := hadds.members
  change Materialized g (c₁.settled g handle entry version count) (done ++ [handle])
  refine ⟨settled_types hc₁, ?_, ?_, ?_, ?_, ?_, ?_, ?_, ?_⟩
  · intro other ho
    rw [settled_newTypes_length]
    rcases List.mem_append.mp ho with ho | ho
    · have := hm.range other ho
      omega
    · rw [List.mem_singleton] at ho
      omega
  · intro p hp
    unfold settled setEntry at hp
    split at hp
    · have hold : p ∈ c₁.update.typePatches := hp
      rw [hadds.typePatches] at hold
      obtain ⟨hd, h0, hpl⟩ := hm.patches p hold
      exact ⟨List.mem_append_left _ hd, h0, hpl⟩
    · rename_i hsmall
      have hsmall : ¬handle > g.types.length := hsmall
      have hcases : p ∈ setPatch c₁.update.typePatches handle entry := hp
      rcases mem_setPatch hcases with rfl | hold
      · exact ⟨by simp, hne, by dsimp only; omega⟩
      · rw [hadds.typePatches] at hold
        obtain ⟨hd, h0, hpl⟩ := hm.patches p hold
        exact ⟨List.mem_append_left _ hd, h0, hpl⟩
  · unfold settled setEntry
    split
    · change (c₁.update.typePatches.map (·.handle)).Nodup
      rw [hadds.typePatches]
      exact hm.patchesNodup
    · change ((setPatch c₁.update.typePatches handle entry).map (·.handle)).Nodup
      rw [hadds.typePatches]
      exact setPatch_nodup hm.patchesNodup
  · intro i e hi hdone
    rw [List.mem_append, List.mem_singleton, not_or] at hdone
    have hold : c₁.update.newTypes[i]? = some e := by
      unfold settled setEntry at hi
      split at hi
      · rename_i hbig
        have hbig : handle > g.types.length := hbig
        change (c₁.update.newTypes.set (handle - g.types.length - 1) entry)[i]? = some e at hi
        rwa [List.getElem?_set_ne (by omega)] at hi
      · exact hi
    rw [hhandles, List.getElem?_append] at hold
    split at hold
    · exact hm.fresh i e hold hdone.1
    · have hmem := List.mem_of_getElem? hold
      obtain ⟨_, -, rfl⟩ := List.mem_map.mp hmem
      rfl
  · rw [settled_versions, List.map_append, hadds.versionPatches, hm.versions]
    rfl
  · intro e he
    rw [settled_newTypes_length]
    rw [settled_edges] at he
    have hbound : ∀ e ∈ c₁.update.dependencyEdges, (e.ownerVersion ≠ 0 ∨ e.ownerHandle = handle) ∧
        e.targetHandle ≠ 0 ∧ e.targetHandle ≤ g.types.length + c₁.update.newTypes.length := by
      intro e he
      rw [hedges] at he
      rcases List.mem_append.mp he with he | he
      · obtain ⟨h1, h2, h3⟩ := hm.edges e he
        exact ⟨.inl h1, h2, Nat.le_trans h3 (Nat.add_le_add_left hmono _)⟩
      · obtain ⟨h1, -, h3, h4⟩ := heach e he
        exact ⟨.inr h1, h3, h4⟩
    rcases stampVersion_edges he with ⟨he, hcond⟩ | ⟨e₀, he₀, howner, hzero, rfl⟩
    · obtain ⟨hor, htarget⟩ := hbound e he
      refine ⟨?_, htarget⟩
      intro hzero
      rcases hor with h1 | h1
      · exact h1 hzero
      · exact hcond ⟨h1, hzero⟩
    · exact ⟨hv, (hbound e₀ he₀).2⟩
  · intro m hmem
    rw [settled_members, hmembers] at hmem
    rw [settled_canonical]
    rcases List.mem_append.mp hmem with hmem | hmem
    · obtain ⟨base, modifiers, hd⟩ := hm.members m hmem
      exact ⟨base, modifiers, hadds.denotes hd⟩
    · exact hmeach m hmem
  · intro other ho e he
    rw [settled_versions]
    rcases List.mem_append.mp ho with ho | ho
    · have hother : other ≠ handle := fun heq => hnew (heq ▸ ho)
      rw [settled_entry_other hother, entry_old hadds.typePatches ⟨_, hhandles⟩
        (hm.range other ho).2] at he
      obtain ⟨v, hv0, hv', hdenotes⟩ := hm.defined other ho e he
      refine ⟨v, hv0, ?_, settled_other hv0 (hadds.entryDenotes hdenotes)⟩
      rw [hadds.versionPatches]
      exact List.mem_append_left _ hv'
    · rw [List.mem_singleton] at ho
      subst ho
      rw [settled_entry_self hne (by omega)] at he
      cases he
      exact ⟨version, hv, by simp, settled_self hentry⟩

end Touched

/-! ## All touched types -/

def objectSide (c : Candidate) : SparseUpdate × List TypeHandle × List ObjectEntry ×
    List IdentityRef × List (Patch ObjectEntry) × List LinkRecord × List (Patch LinkRecord) :=
  (c.contributions, c.touchedHandles, c.update.newObjects, c.update.newObjectIdentities,
    c.update.objectPatches, c.update.newLinks, c.update.linkPatches)

theorem settled_objectSide {g : Graph} {c : Candidate} {handle : Nat} {entry : TypeEntry}
    {version count : Nat} : (c.settled g handle entry version count).objectSide = c.objectSide := by
  obtain ⟨_, _, -, heq⟩ := @settled_rest g c handle entry count
  rw [settled, heq]
  rfl

theorem materializeTouched_objectSide {g : Graph} {abi : AbiConfiguration} {c c' : Candidate}
    {handle : Nat} (hx : IdentityIndex g.identityIndex g.identities)
    (hlen : g.types.length = g.identities.length) (hg : g.Canonical) (hc : c.Types g)
    (hu : c.contributions.Genuine)
    (hbase : c.contributions.base = c.contributions.owner.committed.arenas.sizes)
    (hstates : c.contributions.StatesNamed)
    (h : materializeTouched g abi c handle = .ok c') : c'.objectSide = c.objectSide := by
  obtain ⟨construction, c₁, entry, version, count, hstate, hlive, -, rfl⟩ :=
    materializeTouched_cases h
  obtain ⟨-, hadds, -⟩ := touched_adds hx hlen hg hc hu hbase hstates hstate hlive
  have hside := congrArg objectSide hadds.shell
  exact settled_objectSide.trans hside

theorem materialized_start {g : Graph} {c : Candidate} (hc : c.Types g)
    (hpatches : c.update.typePatches = []) (hnew : ∀ e ∈ c.update.newTypes, e = {})
    (hversions : c.update.dependencyVersionPatches = []) (hedges : c.update.dependencyEdges = [])
    (hmembers : c.update.members = []) : Materialized g c [] := by
  refine ⟨hc, by simp, by simp [hpatches], by simp [hpatches], ?_, by simp [hversions],
    by simp [hedges], by simp [hmembers], by simp⟩
  intro i e hi _
  exact hnew e (List.mem_of_getElem? hi)

variable {handles : List TypeHandle}

theorem materializeAll_invariant {g : Graph} {abi : AbiConfiguration} {c c' : Candidate}
    {P : Candidate → Prop} (hx : IdentityIndex g.identityIndex g.identities)
    (hlen : g.types.length = g.identities.length) (hg : g.Canonical) (hm : Materialized g c [])
    (hu : c.contributions.Genuine)
    (hbase : c.contributions.base = c.contributions.owner.committed.arenas.sizes)
    (hstates : c.contributions.StatesNamed) (hnodup : handles.Nodup)
    (hrange : ∀ h : Nat, h ∈ handles → h ≠ 0 ∧ h ≤ g.types.length + c.update.newTypes.length)
    (hstart : P c)
    (hP : ∀ done handle c₁ c₂, Materialized g c₁ done → c₁.contributions = c.contributions → handle ≠ 0 → handle ≤ g.types.length + c₁.update.newTypes.length → P c₁ → materializeTouched g abi c₁ handle = .ok c₂ → P c₂)
    (h : handles.foldlM (materializeTouched g abi) c = .ok c') :
    Materialized g c' handles ∧ c'.objectSide = c.objectSide ∧ P c' := by
  have hall := foldlM_ok_split (fun done c' => Materialized g c' done ∧
    (c'.objectSide = c.objectSide ∧ P c') ∧
    c.update.newTypes.length ≤ c'.update.newTypes.length) h
    ⟨hm, ⟨rfl, hstart⟩, Nat.le_refl _⟩ ?_
  · exact ⟨hall.1, hall.2.1⟩
  · intro done handle post c₁ c₂ hsplit hdone hstep
    obtain ⟨hm₁, ⟨hside, hP₁⟩, hmono⟩ := hdone
    have hsame : c₁.contributions = c.contributions := congrArg Prod.fst hside
    have hu₁ : c₁.contributions.Genuine := by rw [hsame]; exact hu
    have hbase₁ : c₁.contributions.base = c₁.contributions.owner.committed.arenas.sizes := by
      rw [hsame]; exact hbase
    have hstates₁ : c₁.contributions.StatesNamed := by rw [hsame]; exact hstates
    have hnew : handle ∉ done := by
      rw [hsplit] at hnodup
      intro hmem
      exact (List.nodup_append.mp hnodup).2.2 handle hmem handle (by simp) rfl
    obtain ⟨hne, hle⟩ := hrange handle (by rw [hsplit]; simp)
    have hle₁ : handle ≤ g.types.length + c₁.update.newTypes.length :=
      Nat.le_trans hle (Nat.add_le_add_left hmono _)
    have hm₂ := hm₁.step hx hlen hg hu₁ hbase₁ hstates₁ hnew hne hle₁ hstep
    have hside₂ := materializeTouched_objectSide hx hlen hg hm₁.types hu₁ hbase₁ hstates₁ hstep
    have hP₂ := hP done handle c₁ c₂ hm₁ hsame hne hle₁ hP₁ hstep
    refine ⟨hm₂, ⟨hside₂.trans hside, hP₂⟩, ?_⟩
    obtain ⟨construction, c₃, entry, version, count, hstate, hlive, -, rfl⟩ :=
      materializeTouched_cases hstep
    obtain ⟨-, hadds, -⟩ := touched_adds hx hlen hg hm₁.types hu₁ hbase₁ hstates₁ hstate hlive
    have hlength := @settled_newTypes_length g c₃ handle entry version count
    have := hadds.newTypes_length
    change _ ≤ (c₃.settled g handle entry version count).update.newTypes.length
    omega

theorem materializeAll_spec {g : Graph} {abi : AbiConfiguration} {c c' : Candidate}
    (hx : IdentityIndex g.identityIndex g.identities)
    (hlen : g.types.length = g.identities.length) (hg : g.Canonical) (hm : Materialized g c [])
    (hu : c.contributions.Genuine)
    (hbase : c.contributions.base = c.contributions.owner.committed.arenas.sizes)
    (hstates : c.contributions.StatesNamed) (hnodup : handles.Nodup)
    (hrange : ∀ h : Nat, h ∈ handles → h ≠ 0 ∧ h ≤ g.types.length + c.update.newTypes.length)
    (h : handles.foldlM (materializeTouched g abi) c = .ok c') :
    Materialized g c' handles ∧ c'.objectSide = c.objectSide := by
  obtain ⟨hm', hside, -⟩ := materializeAll_invariant (P := fun _ => True) hx hlen hg hm hu hbase
    hstates hnodup hrange trivial (fun _ _ _ _ _ _ _ _ _ _ => trivial) h
  exact ⟨hm', hside⟩

end Candidate

end ServerEngine
