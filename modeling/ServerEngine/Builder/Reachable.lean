import ServerEngine.Builder.DetachedSoundness
import Mathlib.Algebra.Order.Group.Nat

/-! # Reachable generations

Every published build leaves a sound Graph and a cache that the next build can start from. The facts
of a build name only identities that an identity space has made.
-/
namespace ServerEngine
open Slice ErrorFold

/-! ## Genuine facts -/

/-- The identities of the facts are null or made by an identity space: nothing else can construct
one. -/
structure SourceFacts.Genuine (facts : SourceFacts) : Prop where
  records : ∀ r ∈ facts.records, r.identity.Genuine
  enums : ∀ e ∈ facts.enums, e.identity.Genuine
  members : ∀ m ∈ facts.members, m.type.identity.Genuine
  objects : ∀ o ∈ facts.objects, o.identity.Genuine ∧ o.type.identity.Genuine

theorem IdentityRef.Genuine.valid {i : IdentityRef} (h : i.Genuine) (hne : (i == .null) = false) :
    i.valid = true := by
  rcases h with rfl | h
  · cases hne
  · exact h

section Content
variable {facts : SourceFacts}

theorem Validated.record_identity (h : Validated facts) {r : SourceRecordFact}
    (hr : r ∈ facts.records) : (r.identity == .null) = false := by
  obtain ⟨cursor, hfold, -⟩ := bind_ok.mp h.records
  obtain ⟨i, hi⟩ := List.mem_iff_getElem?.mp hr
  have hmem : (r, i) ∈ facts.records.zipIdx := by
    rw [List.mk_mem_zipIdx_iff_getElem?]
    exact hi
  obtain ⟨u, v, hstep⟩ := foldlM_ok_mem hfold hmem
  obtain ⟨_, hcheck, -⟩ := bind_ok.mp hstep
  simpa using hcheck

theorem Validated.enum_identity (h : Validated facts) {e : SourceEnumFact} (he : e ∈ facts.enums) :
    (e.identity == .null) = false := by
  obtain ⟨cursor, hfold, -⟩ := bind_ok.mp h.enums
  obtain ⟨i, hi⟩ := List.mem_iff_getElem?.mp he
  have hmem : (e, i) ∈ facts.enums.zipIdx := by
    rw [List.mk_mem_zipIdx_iff_getElem?]
    exact hi
  obtain ⟨u, v, hstep⟩ := foldlM_ok_mem hfold hmem
  obtain ⟨_, hcheck, -⟩ := bind_ok.mp hstep
  simpa using hcheck

theorem Validated.object_identity (h : Validated facts) {o : SourceObjectFact}
    (ho : o ∈ facts.objects) : (o.identity == .null) = false := by
  obtain ⟨n, hfold⟩ := h.objects
  obtain ⟨i, hi⟩ := List.mem_iff_getElem?.mp ho
  have hmem : (o, i) ∈ facts.objects.zipIdx := by
    rw [List.mk_mem_zipIdx_iff_getElem?]
    exact hi
  obtain ⟨u, v, hstep⟩ := foldlM_ok_mem hfold hmem
  obtain ⟨_, -, hstep⟩ := bind_ok.mp hstep
  obtain ⟨_, hcheck, -⟩ := bind_ok.mp hstep
  simpa using hcheck

theorem typesContent_cases {t : SourceContributionType} (h : t ∈ typesContent facts) :
    (∃ r ∈ facts.records, t = recordContent r) ∨ ∃ e ∈ facts.enums, t = enumContent e := by
  unfold typesContent at h
  split at h
  · rcases List.mem_append.mp h with h | h
    · obtain ⟨r, hr, rfl⟩ := List.mem_map.mp h
      exact .inl ⟨r, hr, rfl⟩
    · obtain ⟨e, he, rfl⟩ := List.mem_map.mp h
      exact .inr ⟨e, he, rfl⟩
  · obtain ⟨item, -, hitem⟩ := List.mem_flatMap.mp h
    unfold declarationContent at hitem
    split at hitem
    · obtain ⟨r, hr, rfl⟩ := List.mem_map.mp hitem
      rw [Option.mem_toList] at hr
      exact .inl ⟨r, List.mem_of_getElem? hr, rfl⟩
    · obtain ⟨e, he, rfl⟩ := List.mem_map.mp hitem
      rw [Option.mem_toList] at he
      exact .inr ⟨e, List.mem_of_getElem? he, rfl⟩
    · cases hitem

theorem content_genuine (hacc : acceptFacts facts = .ok ()) (hf : facts.Genuine) :
    facts.content.Genuine := by
  have hvalid := validated_of_ok (acceptFacts_ok.mp hacc).2.1
  refine ⟨?_, ?_, ?_⟩
  · intro t ht
    rcases typesContent_cases ht with ⟨r, hr, rfl⟩ | ⟨e, he, rfl⟩
    · exact (hf.records r hr).valid (hvalid.record_identity hr)
    · exact (hf.enums e he).valid (hvalid.enum_identity he)
  · intro m hm
    obtain ⟨fact, hfact, rfl⟩ := List.mem_map.mp hm
    exact hf.members fact hfact
  · intro o ho
    obtain ⟨fact, hfact, rfl⟩ := List.mem_map.mp ho
    exact ⟨(hf.objects fact hfact).1.valid (hvalid.object_identity hfact),
      (hf.objects fact hfact).2⟩

variable {a : Arenas}

theorem Arenas.Genuine.shift (h : a.Genuine) (base : ArenaSizes) : (a.shift base).Genuine := by
  refine ⟨?_, ?_, ?_⟩
  · intro t ht
    obtain ⟨old, hold, rfl⟩ := List.mem_map.mp ht
    exact h.types old hold
  · intro m hm
    obtain ⟨old, hold, rfl⟩ := List.mem_map.mp hm
    exact h.members old hold
  · intro o ho
    obtain ⟨old, hold, rfl⟩ := List.mem_map.mp ho
    exact h.objects old hold

theorem Arenas.Genuine.append {b : Arenas} (ha : a.Genuine) (hb : b.Genuine) :
    (a.append b).Genuine := by
  refine ⟨?_, ?_, ?_⟩
  · intro t ht
    exact (List.mem_append.mp ht).elim (ha.types t) (hb.types t)
  · intro m hm
    exact (List.mem_append.mp hm).elim (ha.members m) (hb.members m)
  · intro o ho
    exact (List.mem_append.mp ho).elim (ha.objects o) (hb.objects o)

theorem partition_sum {fuel expected last : Nat} {members : List (SourceMemberFact × Nat)}
    {objects : List (SourceObjectFact × Nat)} (hfuel : members.length + objects.length ≤ fuel)
    (h : validateModifierPartition fuel members objects expected = .ok last) :
    last = expected + (members.map (·.1.type.modifiers.count)).sum +
      (objects.map (·.1.type.modifiers.count)).sum := by
  induction fuel generalizing members objects expected with
  | zero =>
    have hm : members = [] := List.length_eq_zero_iff.mp (by omega)
    have ho : objects = [] := List.length_eq_zero_iff.mp (by omega)
    rw [hm, ho] at h ⊢
    cases h
    rfl
  | succ fuel ih =>
    cases members with
    | nil =>
      cases objects with
      | nil =>
        cases h
        rfl
      | cons object objects =>
        obtain ⟨_, -, h⟩ := bind_ok.mp h
        rw [ih (by simpa using hfuel) h]
        simp only [List.map_nil, List.sum_nil, List.map_cons, List.sum_cons]
        omega
    | cons member members =>
      cases objects with
      | nil =>
        obtain ⟨_, -, h⟩ := bind_ok.mp h
        rw [ih (by simpa using hfuel) h]
        simp only [List.map_nil, List.sum_nil, List.map_cons, List.sum_cons]
        omega
      | cons object objects =>
        rw [List.length_cons, List.length_cons] at hfuel
        rw [validateModifierPartition] at h
        split at h
        · obtain ⟨_, -, h⟩ := bind_ok.mp h
          rw [ih (by rw [List.length_cons]; omega) h]
          simp only [List.map_cons, List.sum_cons]
          omega
        · obtain ⟨_, -, h⟩ := bind_ok.mp h
          rw [ih (by rw [List.length_cons]; omega) h]
          simp only [List.map_cons, List.sum_cons]
          omega

theorem content_modifiers (hacc : acceptFacts facts = .ok ()) :
    (facts.content.members.map (·.type.modifiers.count)).sum +
      (facts.content.objects.map (·.type.modifiers.count)).sum =
        facts.content.modifiers.length := by
  have hvalid := validated_of_ok (acceptFacts_ok.mp hacc).2.1
  have hsum := partition_sum (by simp) hvalid.partition
  have hm : facts.members.zipIdx.map (·.1.type.modifiers.count) =
      facts.content.members.map (·.type.modifiers.count) := by
    rw [show (fun item : SourceMemberFact × Nat => item.1.type.modifiers.count) =
      (fun m : SourceMemberFact => m.type.modifiers.count) ∘ Prod.fst from rfl, ← List.map_map,
      List.zipIdx_map_fst]
    simp only [SourceFacts.content, List.map_map]
    rfl
  have ho : facts.objects.zipIdx.map (·.1.type.modifiers.count) =
      facts.content.objects.map (·.type.modifiers.count) := by
    rw [show (fun item : SourceObjectFact × Nat => item.1.type.modifiers.count) =
      (fun o : SourceObjectFact => o.type.modifiers.count) ∘ Prod.fst from rfl, ← List.map_map,
      List.zipIdx_map_fst]
    simp only [SourceFacts.content, List.map_map]
    rfl
  rw [hm, ho, Nat.zero_add] at hsum
  exact hsum.symm

end Content

/-! ## The storage of a rebuild -/

namespace CacheUpdate

/-- A rebuild in progress: slots not replaced yet are empty, the others add up to the arenas. -/
structure Fresh (u : CacheUpdate) : Prop where
  genuine : u.candidate.arenas.Genuine
  construction : u.candidate.construction = []
  modifiers : (u.candidate.arenas.members.map (·.type.modifiers.count)).sum +
    (u.candidate.arenas.objects.map (·.type.modifiers.count)).sum =
      u.candidate.arenas.modifiers.length
  links : (u.candidate.sources.map (·.links.count)).sum = u.candidate.arenas.links.length
  lengths : u.replaced.length = u.candidate.sources.length
  unreplaced : ∀ i : Nat, u.replaced[i]? = some false → u.candidate.sources[i]? = some {}

variable {u u' : CacheUpdate}

theorem fresh_start : ({} : CacheUpdate).Fresh :=
  ⟨⟨by simp, by simp, by simp⟩, rfl, rfl, rfl, rfl, by simp⟩

theorem Fresh.grow (hu : u.Fresh) (size : Nat) (candidate : Storage)
    (harenas : candidate.arenas = u.candidate.arenas)
    (hconstruction : candidate.construction = u.candidate.construction)
    (hsources : candidate.sources = growTo u.candidate.sources size {}) :
    ({ candidate, replaced := growTo u.replaced size false } : CacheUpdate).Fresh := by
  refine ⟨by rw [harenas]; exact hu.genuine, by rw [hconstruction]; exact hu.construction,
    by rw [harenas]; exact hu.modifiers, ?_, ?_, ?_⟩
  · rw [harenas, hsources, ← hu.links, growTo, List.map_append, List.sum_append,
      List.map_replicate]
    simp
  · rw [hsources, growTo_length, growTo_length, hu.lengths]
  · intro i hi
    rw [hsources]
    dsimp only [growTo] at hi ⊢
    by_cases hlt : i < u.replaced.length
    · rw [List.getElem?_append_left hlt] at hi
      rw [List.getElem?_append_left (by rw [← hu.lengths]; exact hlt)]
      exact hu.unreplaced i hi
    · have hbound := (List.getElem?_eq_some_iff.mp hi).1
      rw [List.length_append, List.length_replicate] at hbound
      rw [List.getElem?_append_right (by rw [← hu.lengths]; omega), List.getElem?_replicate,
        if_pos (by rw [← hu.lengths]; omega)]

theorem reserveRebuild_fresh {maxSource : Nat} {n : ArenaSizes} (hu : u.Fresh)
    (h : u.reserveRebuild maxSource n = .ok u') : u'.Fresh := by
  unfold reserveRebuild at h
  split at h
  · cases h
  split at h
  · cases h
  cases h
  exact hu.grow (maxSource + 1) _ rfl rfl rfl

theorem sum_set {sources : List SourceContributionState} {i : Nat} {s : SourceContributionState}
    (h : sources[i]? = some {}) : ((sources.set i s).map (·.links.count)).sum =
      (sources.map (·.links.count)).sum + s.links.count := by
  induction sources generalizing i with
  | nil => simp at h
  | cons first rest ih =>
    cases i with
    | zero =>
      cases h
      simp only [List.set_cons_zero, List.map_cons, List.sum_cons]
      omega
    | succ i =>
      have hrest := ih h
      simp only [List.set_cons_succ, List.map_cons, List.sum_cons]
      omega

theorem replace_fresh {facts : SourceFacts} (hu : u.Fresh) (hf : facts.Genuine)
    (h : u.replace facts = .ok u') : u'.Fresh := by
  obtain ⟨_, hacc, h⟩ := bind_ok.mp h
  dsimp only at h
  split at h
  · cases h
  rename_i hunreplaced
  split at h
  · cases h
  obtain ⟨payload, hcap, h⟩ := bind_ok.mp h
  split at h
  · cases h
  obtain rfl := Except.ok.inj h
  obtain rfl := capture_content hcap
  have hgrown := hu.grow (facts.source + 1)
    { u.candidate with sources := growTo u.candidate.sources (facts.source + 1) {} } rfl rfl rfl
  have hlt : facts.source < (growTo u.replaced (facts.source + 1) false).length := by
    rw [growTo_length]
    omega
  have hfalse : (growTo u.replaced (facts.source + 1) false)[facts.source]? = some false := by
    rw [List.getElem?_eq_getElem hlt] at hunreplaced ⊢
    simpa using hunreplaced
  have hempty := hgrown.unreplaced facts.source hfalse
  have hlengths := hgrown.lengths
  refine ⟨hu.genuine.append ((content_genuine hacc hf).shift _), hu.construction, ?_, ?_, ?_, ?_⟩
  · have hold := hu.modifiers
    have hnew := content_modifiers hacc
    simp only [Arenas.append, Arenas.shift, List.map_append, List.sum_append, List.length_append,
      List.map_map, Function.comp_def, SourceContributionMember.shift,
      SourceContributionObject.shift, SourceContributionTypeRef.shift]
    omega
  · have hold := hgrown.links
    rw [sum_set hempty, hold]
    simp only [Arenas.append, List.length_append]
    rfl
  · dsimp only
    rw [List.length_set, List.length_set, hlengths]
  · intro i hi
    by_cases hself : facts.source = i
    · subst hself
      rw [List.getElem?_set_self hlt] at hi
      cases hi
    · rw [List.getElem?_set_ne hself] at hi ⊢
      exact hgrown.unreplaced i hi

theorem Fresh.rebuilt (hu : u.Fresh) : FullBuild.Rebuilt u.candidate := by
  refine ⟨hu.genuine, hu.construction, Nat.le_of_eq hu.modifiers, ?_⟩
  rw [← hu.links]
  have hsub : (FullBuild.liveSources u.candidate).Sublist u.candidate.sources :=
    List.filter_sublist.trans (List.drop_sublist 1 _)
  exact (hsub.map _).sum_le_sum fun _ _ => Nat.zero_le _

end CacheUpdate

/-! ## Sound generations -/

def Build.Genuine : Build → Prop
  | .full _ sources => ∀ facts ∈ sources, facts.Genuine
  | .incremental _ replacements _ => ∀ facts ∈ replacements, facts.Genuine

namespace Generation

structure Sound (s : Generation) : Prop where
  graph : s.graph.Sound
  slotted : s.graph.Slotted
  genuine : s.cache.committed.arenas.Genuine
  states : ∀ state ∈ s.cache.committed.construction, state.Names s.cache.committed.arenas.types

variable {s s' : Generation} {abi : AbiConfiguration} {sources : List SourceFacts} {n : ArenaSizes}

theorem prepareG0_rebuilt {u : CacheUpdate} {maxSource : Nat}
    (hgenuine : ∀ facts ∈ sources, facts.Genuine) {u₀ : CacheUpdate}
    (h₀ : CacheUpdate.reserveRebuild {} maxSource n = .ok u₀)
    (h : sources.foldlM CacheUpdate.replace u₀ = .ok u) : u.Fresh :=
  foldlM_ok_invariant CacheUpdate.Fresh h (CacheUpdate.reserveRebuild_fresh CacheUpdate.fresh_start h₀)
    fun facts _ _ hmem hu hstep => CacheUpdate.replace_fresh hu (hgenuine facts hmem) hstep

theorem graph_rebased {g : Graph} (h : g.Sound) (baselineBacked : Bool) :
    Graph.Sound { g with baselineBacked } := by
  have hc := h.committed
  have ht := hc.canonical
  exact ⟨⟨hc.typeSlots, hc.typeIndex, hc.objectSlots, hc.objectIndex, hc.linkIndex,
    ⟨ht.records, ht.intrinsic, ht.named, ht.namedSlots, ht.derived, ht.derivedCount, ht.derivedRoom,
      ht.derivedSize⟩, hc.objects⟩, h.versions, h.heads, h.members, h.dependencies⟩

theorem publishG0_sound {prepared : CacheUpdate × DetachedGraph}
    (hgenuine : ∀ facts ∈ sources, facts.Genuine) (h : prepareG0 abi sources = .ok prepared) :
    (s.publishG0 prepared).Sound := by
  unfold prepareG0 at h
  split at h
  · cases h
  obtain ⟨n, -, h⟩ := bind_ok.mp h
  obtain ⟨u₀, h₀, h⟩ := bind_ok.mp h
  obtain ⟨u, hu, h⟩ := bind_ok.mp h
  obtain ⟨⟨construction, detached⟩, hgraph, h⟩ := bind_ok.mp h
  cases h
  have hfresh := prepareG0_rebuilt hgenuine (BuildM.lift_ok.mp h₀) (BuildM.lift_ok.mp hu)
  obtain ⟨hsound, hslotted, hstates⟩ := FullBuild.prepareGraph_sound hfresh.rebuilt hgraph
  exact ⟨graph_rebased hsound _, ⟨hslotted.objects, hslotted.links⟩, hfresh.genuine, hstates⟩

theorem prepareG0_ends (hgenuine : ∀ facts ∈ sources, facts.Genuine) :
    (prepareG0 abi sources).Ends := by
  have hsum : ∀ values, (checkedSum values).Ends := by
    intro values
    unfold checkedSum
    split
    · exact BuildM.ends_fail _
    · exact BuildM.ends_ok _
  unfold prepareG0
  split
  · exact BuildM.ends_fail _
  refine BuildM.ends_bind ?_ fun n _ => ?_
  · refine BuildM.ends_bind (hsum _) fun _ _ => BuildM.ends_bind (hsum _) fun _ _ => ?_
    refine BuildM.ends_bind (hsum _) fun _ _ => BuildM.ends_bind (hsum _) fun _ _ => ?_
    exact BuildM.ends_bind (hsum _) fun _ _ => BuildM.ends_bind (hsum _) fun _ _ =>
      BuildM.ends_ok _
  refine BuildM.ends_bind (BuildM.ends_lift _) fun u₀ h₀ => ?_
  refine BuildM.ends_bind (BuildM.ends_lift _) fun u hu => ?_
  have hfresh := prepareG0_rebuilt hgenuine (BuildM.lift_ok.mp h₀) (BuildM.lift_ok.mp hu)
  exact BuildM.ends_bind (FullBuild.prepareGraph_ends hfresh.rebuilt) fun _ _ => BuildM.ends_ok _

/-! ### Incremental builds -/

structure Updating (s : Generation) (u : SparseUpdate) : Prop where
  owner : u.owner = s.cache
  base : u.base = s.cache.committed.arenas.sizes
  candidate : u.candidate.Genuine
  written : u.constructionPatches = []

theorem updating_replace {u u' : SparseUpdate} {facts : SourceFacts} (h : Updating s u)
    (hf : facts.Genuine) (hstep : u.replace facts = .ok u') : Updating s u' := by
  obtain ⟨⟨hacc, -, -⟩, rfl⟩ := SparseUpdate.replace_ok.mp hstep
  exact ⟨h.owner, h.base, h.candidate.append ((content_genuine hacc hf).shift _), h.written⟩

theorem updating_remove {u u' : SparseUpdate} {source : Nat} (h : Updating s u)
    (hstep : u.remove source = .ok u') : Updating s u' := by
  unfold SparseUpdate.remove at hstep
  split at hstep
  · cases hstep
  obtain ⟨-, rfl⟩ := SparseUpdate.addSourcePatch_ok.mp hstep
  exact ⟨h.owner, h.base, h.candidate, h.written⟩

variable {replacements : List SourceFacts} {removals : List Nat}
variable {prepared : SparseUpdate × Candidate}

theorem prepareIncremental_stages
    (h : s.prepareIncremental abi replacements removals = .ok prepared) :
    ∃ sources touchedUpper n u₀ u₁ u, (SparseUpdate.beginIncremental s.cache).reserveIncremental
        sources touchedUpper n = .ok u₀ ∧ replacements.foldlM SparseUpdate.replace u₀ = .ok u₁ ∧
      removals.foldlM SparseUpdate.remove u₁ = .ok u ∧
      prepareIncrementalGraph s.graph abi u = .ok prepared.2 ∧
      prepared.2.contributions.preparePublish = .ok prepared.1 := by
  unfold prepareIncremental at h
  split at h
  · cases h
  split at h
  · cases h
  obtain ⟨n, -, h⟩ := bind_ok.mp h
  obtain ⟨touchedUpper, -, h⟩ := bind_ok.mp h
  obtain ⟨u₀, h₀, h⟩ := bind_ok.mp h
  obtain ⟨u₁, h₁, h⟩ := bind_ok.mp h
  obtain ⟨u₂, h₂, h⟩ := bind_ok.mp h
  obtain ⟨c, hc, h⟩ := bind_ok.mp h
  obtain ⟨_, -, h⟩ := bind_ok.mp h
  obtain ⟨u, hu, h⟩ := bind_ok.mp h
  cases h
  exact ⟨_, _, n, u₀, u₁, u₂, BuildM.lift_ok.mp h₀, BuildM.lift_ok.mp h₁, BuildM.lift_ok.mp h₂, hc,
    BuildM.lift_ok.mp hu⟩

theorem updating_of_stages {P : SparseUpdate → Prop} {sources touchedUpper : Nat}
    {u₀ u₁ u : SparseUpdate} (hgenuine : ∀ facts ∈ replacements, facts.Genuine)
    (h₀ : (SparseUpdate.beginIncremental s.cache).reserveIncremental sources touchedUpper n = .ok u₀)
    (h₁ : replacements.foldlM SparseUpdate.replace u₀ = .ok u₁)
    (h₂ : removals.foldlM SparseUpdate.remove u₁ = .ok u)
    (hstart : ∀ u : SparseUpdate, u.candidate = {} → P u)
    (hreplace : ∀ facts ∈ replacements, ∀ u u' : SparseUpdate, P u → u'.candidate = u.candidate.append (facts.content.shift u.nextSizes) → P u')
    (hremove : ∀ u u' : SparseUpdate, P u → u'.candidate = u.candidate → P u') :
    Updating s u ∧ P u := by
  have hbegin : Updating s u₀ ∧ P u₀ := by
    rw [SparseUpdate.reserveIncremental_ok h₀]
    exact ⟨⟨rfl, rfl, ⟨by simp [SparseUpdate.beginIncremental],
      by simp [SparseUpdate.beginIncremental], by simp [SparseUpdate.beginIncremental]⟩, rfl⟩,
      hstart _ rfl⟩
  have hreplaced : Updating s u₁ ∧ P u₁ := by
    refine foldlM_ok_invariant (fun u => Updating s u ∧ P u) h₁ hbegin ?_
    intro facts v v' hmem hv hstep
    refine ⟨updating_replace hv.1 (hgenuine facts hmem) hstep, ?_⟩
    obtain ⟨-, rfl⟩ := SparseUpdate.replace_ok.mp hstep
    exact hreplace facts hmem v _ hv.2 rfl
  refine foldlM_ok_invariant (fun u => Updating s u ∧ P u) h₂ hreplaced ?_
  intro source v v' _ hv hstep
  refine ⟨updating_remove hv.1 hstep, ?_⟩
  unfold SparseUpdate.remove at hstep
  split at hstep
  · cases hstep
  obtain ⟨-, rfl⟩ := SparseUpdate.addSourcePatch_ok.mp hstep
  exact hremove v _ hv.2 rfl

theorem prepareIncremental_ok (hgenuine : ∀ facts ∈ replacements, facts.Genuine)
    (h : s.prepareIncremental abi replacements removals = .ok prepared) :
    ∃ u, Updating s u ∧ prepareIncrementalGraph s.graph abi u = .ok prepared.2 ∧
      prepared.2.contributions.preparePublish = .ok prepared.1 := by
  obtain ⟨sources, touchedUpper, n, u₀, u₁, u, h₀, h₁, h₂, hc, hu⟩ := prepareIncremental_stages h
  obtain ⟨hupdating, -⟩ := updating_of_stages (P := fun _ => True) hgenuine h₀ h₁ h₂
    (fun _ _ => trivial) (fun _ _ _ _ _ _ => trivial) (fun _ _ _ _ => trivial)
  exact ⟨u, hupdating, hc, hu⟩

theorem updating_states {u : SparseUpdate} (hs : s.Sound) (h : Updating s u) : u.StatesNamed := by
  refine ⟨?_, by rw [h.written]; simp⟩
  intro handle state hstate
  have hnone : u.findConstructionPatch handle = none := by
    simp [SparseUpdate.findConstructionPatch, h.written]
  rw [SparseUpdate.construction, hnone, h.owner] at hstate
  dsimp only [Storage.constructionAt] at hstate
  split at hstate
  · cases hstate
  · have hnames := hs.states state (List.mem_of_getElem? hstate)
    rw [SparseUpdate.combined, h.owner]
    exact hnames.append _

theorem prepareIncremental_arenas {u : SparseUpdate} (hu : Updating s u)
    (hfacts : prepared.2.facts = { u with constructionPatches := [] })
    (hpublish : prepared.2.contributions.preparePublish = .ok prepared.1) :
    prepared.1.combined = prepared.2.contributions.combined ∧
      prepared.1.combined = s.cache.committed.arenas.append u.candidate := by
  obtain ⟨capacity, hsame⟩ := (SparseUpdate.preparePublish_ok hpublish).same
  have howner := congrArg SparseUpdate.owner hfacts
  have hcandidate := congrArg SparseUpdate.candidate hfacts
  change prepared.2.contributions.owner = u.owner at howner
  change prepared.2.contributions.candidate = u.candidate at hcandidate
  have hcombined : prepared.1.combined = prepared.2.contributions.combined := by
    rw [hsame]
    rfl
  refine ⟨hcombined, ?_⟩
  rw [hcombined, SparseUpdate.combined, howner, hcandidate, hu.owner]

/-- What a successful preparation over a sound generation gives. -/
theorem prepareIncremental_complete (hs : s.Sound)
    (hgenuine : ∀ facts ∈ replacements, facts.Genuine)
    (h : s.prepareIncremental abi replacements removals = .ok prepared) :
    prepared.2.Complete s.graph ∧ prepared.1.publishPrepared.committed.arenas.Genuine ∧
      ∀ state ∈ prepared.1.publishPrepared.committed.construction,
        state.Names prepared.1.publishPrepared.committed.arenas.types := by
  obtain ⟨u, hu, hgraph, hpublish⟩ := prepareIncremental_ok hgenuine h
  have hbase : u.base = u.owner.committed.arenas.sizes := by rw [hu.base, hu.owner]
  have hgen : u.Genuine := ⟨by rw [hu.owner]; exact hs.genuine, hu.candidate⟩
  obtain ⟨hcomplete, hfacts, hstates⟩ :=
    Candidate.prepareIncrementalGraph_complete hs.graph hgen hbase (updating_states hs hu) hgraph
  obtain ⟨capacity, hsame⟩ := (SparseUpdate.preparePublish_ok hpublish).same
  obtain ⟨hcombined, harenas⟩ := prepareIncremental_arenas hu hfacts hpublish
  have howner := congrArg SparseUpdate.owner hfacts
  change prepared.2.contributions.owner = u.owner at howner
  have hpatches : prepared.1.constructionPatches = prepared.2.contributions.constructionPatches := by
    rw [hsame]
  have hconstruction : prepared.1.owner.committed.construction =
      s.cache.committed.construction := by
    rw [hsame]
    rw [howner, hu.owner]
  refine ⟨hcomplete, ?_, ?_⟩
  · show prepared.1.combined.Genuine
    rw [harenas]
    exact hs.genuine.append hu.candidate
  · intro state hmem
    show state.Names prepared.1.combined.types
    have hold : ∀ x ∈ s.cache.committed.construction, x.Names prepared.1.combined.types := by
      intro x hx
      rw [harenas]
      exact (hs.states x hx).append _
    have hnew : ∀ p ∈ prepared.1.constructionPatches, p.state.Names prepared.1.combined.types := by
      intro p hp
      rw [hpatches] at hp
      rw [hcombined]
      exact hstates.written p hp
    have hall : ∀ (patches : List ConstructionPatch) (states : List SourceConstructionState),
        (∀ p ∈ patches, p.state.Names prepared.1.combined.types) →
        (∀ x ∈ states, x.Names prepared.1.combined.types) →
        ∀ x ∈ patches.foldl SparseUpdate.applyConstructionPatch states,
          x.Names prepared.1.combined.types := by
      intro patches
      induction patches with
      | nil => exact fun _ _ hstates => hstates
      | cons p ps ih =>
        intro states hps hstates
        refine ih _ (fun q hq => hps q (List.mem_cons_of_mem _ hq)) ?_
        intro x hx
        rcases List.mem_or_eq_of_mem_set hx with hx | rfl
        · exact hstates x hx
        · exact hps p List.mem_cons_self
    refine hall _ _ hnew ?_ state hmem
    intro x hx
    rw [hconstruction] at hx
    rcases List.mem_append.mp hx with hx | hx
    · exact hold x hx
    · rw [(List.mem_replicate.mp hx).2]
      exact SourceConstructionState.names_empty _

theorem publishIncremental_sound (hs : s.Sound) (hgenuine : ∀ facts ∈ replacements, facts.Genuine)
    (h : s.prepareIncremental abi replacements removals = .ok prepared) :
    ∃ s', s.publishIncremental prepared = .ok s' ∧ s'.Sound := by
  obtain ⟨hcomplete, hgen, hstates⟩ := prepareIncremental_complete hs hgenuine h
  obtain ⟨g', hpublish⟩ := Candidate.Complete.publishPrepared_total hs.graph hcomplete
  have hpublished := Graph.published_of_ok hpublish
  exact ⟨_, bind_ok.mpr ⟨g', hpublish, rfl⟩,
    Candidate.Complete.published_sound hs.graph hcomplete hpublished, hpublished.slotted hs.slotted,
    hgen, hstates⟩

/-! ### Runs -/

theorem prepareIncremental_empty :
    ({} : Generation).prepareIncremental abi replacements removals ≠ .ok prepared := by
  intro h
  obtain ⟨_, _, _, _, _, _, -, -, -, hc, -⟩ := prepareIncremental_stages h
  have hlineage : (!({} : Generation).graph.lineageOk) = true := rfl
  unfold prepareIncrementalGraph at hc
  cases hc

theorem build_sound {b : Build} (hs : s = {} ∨ s.Sound) (hb : b.Genuine)
    (h : s.build b = .ok s') : s'.Sound := by
  cases b with
  | full abi sources =>
    obtain ⟨prepared, hprepared, h⟩ := bind_ok.mp h
    cases h
    exact publishG0_sound hb hprepared
  | incremental abi replacements removals =>
    obtain ⟨prepared, hprepared, h⟩ := bind_ok.mp h
    rcases hs with rfl | hs
    · exact absurd hprepared prepareIncremental_empty
    · obtain ⟨t, ht, hsound⟩ := publishIncremental_sound hs hb hprepared
      have heq : (.ok t : BuildM Generation) = .ok s' := ht.symm.trans h
      cases heq
      exact hsound

/-- The generation is the result of published builds, the last one included. -/
def Published (s : Generation) : Prop :=
  ∃ s₀ force b, Run (fun _ b => b.Genuine) s₀ force ∧ b.Genuine ∧ s₀.build b = .ok s

theorem run_sound {force : Force} (h : Run (fun _ b => b.Genuine) s force) : s = {} ∨ s.Sound := by
  induction h with
  | initial => exact .inl rfl
  | publish _ hb hbuild ih => exact .inr (build_sound ih hb hbuild)

theorem Published.sound (h : s.Published) : s.Sound := by
  obtain ⟨s₀, force, b, hrun, hb, hbuild⟩ := h
  exact build_sound (run_sound hrun) hb hbuild

end Generation

end ServerEngine
