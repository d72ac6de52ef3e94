import ServerEngine.Contribution.Update

/-! # What a contribution cache holds

The abstract content of a cache is the facts in force for each source. Every operation of an update
and its publication keep the cache's slots at exactly those facts' content, each moved to where its
payload begins.
-/
namespace ServerEngine
open Slice ErrorFold

abbrev Force := Nat → Option SourceFacts

def Force.set (force : Force) (source : Nat) (facts : Option SourceFacts) : Force :=
  fun other => if other = source then facts else force other

/-- The slot `s` of `source` holds the content of accepted facts. -/
structure Placed (arenas : Arenas) (source : Nat) (s : SourceContributionState)
    (facts : SourceFacts) : Prop where
  source : facts.source = source
  accepted : acceptFacts facts = .ok ()
  within : s.Within arenas.sizes
  payload : arenas.payload s = facts.content.shift s.base

def Tracks (arenas : Arenas) (state : Nat → Option SourceContributionState) (force : Force) : Prop :=
  ∀ source, Option.Rel (Placed arenas source) (state source) (force source)

def Storage.Tracks (c : Storage) (force : Force) : Prop :=
  ServerEngine.Tracks c.arenas c.state force

variable {arenas : Arenas} {source : Nat} {facts : SourceFacts}

theorem Placed.append {s : SourceContributionState} (h : Placed arenas source s facts)
    (more : Arenas) : Placed (arenas.append more) source s facts where
  source := h.source
  accepted := h.accepted
  within := h.within.append more
  payload := by rw [Arenas.payload_append_left h.within, h.payload]

variable {state : Nat → Option SourceContributionState} {force : Force}

theorem Tracks.append (h : Tracks arenas state force) (more : Arenas) :
    Tracks (arenas.append more) state force := by
  intro source
  have hs := h source
  generalize state source = slot, force source = facts at hs ⊢
  cases hs with
  | some hp => exact .some (hp.append more)
  | none => exact .none

theorem Tracks.set {state' : Nat → Option SourceContributionState} {facts : Option SourceFacts}
    (h : Tracks arenas state force)
    (hslot : Option.Rel (Placed arenas source) (state' source) facts)
    (hother : ∀ other, other ≠ source → state' other = state other) :
    Tracks arenas state' (force.set source facts) := by
  intro other
  by_cases ho : other = source
  · subst other
    simpa [Force.set] using hslot
  · simpa [Force.set, ho, hother other ho] using h other

/-! ## The captured payload -/

theorem Arenas.shift_sizes (base : ArenaSizes) (a : Arenas) : (a.shift base).sizes = a.sizes := by
  simp [Arenas.shift, Arenas.sizes]

variable {candidate payload : Arenas}

theorem CacheUpdate.capture_content (h : CacheUpdate.capture candidate facts = .ok payload) :
    payload = facts.content.shift candidate.sizes := by
  simp only [CacheUpdate.capture, bind_ok] at h
  obtain ⟨ms, hms, os, hos, ts, hts, h⟩ := h
  have hplace := places_addU32 candidate.modifiers.length
  obtain ⟨-, rfl⟩ := (mapM_ok_iff (captureMember_ok hplace)).mp hms
  obtain ⟨-, rfl⟩ := (mapM_ok_iff (captureObject_ok hplace)).mp hos
  obtain ⟨-, rfl⟩ := (captureTypes_ok (places_addU32 _) (places_addU32 _) facts _).mp hts
  cases h
  simp [SourceFacts.content, Arenas.shift, Arenas.sizes, Function.comp_def]

/-- Everything `SparseUpdate.capture` checks. -/
structure CaptureFits (base : ArenaSizes) (facts : SourceFacts) : Prop where
  memberModifiers : ∀ m ∈ facts.members, base.modifiers + m.type.modifiers.begin ≤ u32Max
  objectModifiers : ∀ o ∈ facts.objects, base.modifiers + o.type.modifiers.begin ≤ u32Max
  members : base.members ≤ u32Max
  enumValues : base.enumValues ≤ u32Max
  objects : base.objects ≤ u32Max
  links : base.links ≤ u32Max
  types : TypesFit facts base.members base.enumValues

variable {base : ArenaSizes}

theorem SparseUpdate.capture_ok : SparseUpdate.capture base candidate facts = .ok payload ↔
      CaptureFits (base.add candidate.sizes) facts ∧
        payload = facts.content.shift (base.add candidate.sizes) := by
  have hplace := places_absolute base.modifiers candidate.modifiers.length
  simp only [SparseUpdate.capture]
  simp only [bind_ok, mapM_ok_iff (captureMember_ok hplace), mapM_ok_iff (captureObject_ok hplace),
    absoluteU32_ok]
  constructor
  · rintro ⟨ms, ⟨hms, rfl⟩, os, ⟨hos, rfl⟩, mb, ⟨hmb, rfl⟩, eb, ⟨heb, rfl⟩, -, ⟨hob, -⟩, -,
      ⟨hlb, -⟩, ts, hts, hpayload⟩
    obtain ⟨htypes, rfl⟩ := (captureTypes_ok (places_addU32 _) (places_addU32 _) facts _).mp hts
    cases hpayload
    refine ⟨⟨hms, hos, hmb, heb, hob, hlb, htypes⟩, ?_⟩
    simp [SourceFacts.content, Arenas.shift, Arenas.sizes, ArenaSizes.add, Function.comp_def]
  · rintro ⟨hfit, rfl⟩
    refine ⟨_, ⟨hfit.memberModifiers, rfl⟩, _, ⟨hfit.objectModifiers, rfl⟩, _,
      ⟨hfit.members, rfl⟩, _, ⟨hfit.enumValues, rfl⟩, _, ⟨hfit.objects, rfl⟩, _,
      ⟨hfit.links, rfl⟩, _,
      (captureTypes_ok (places_addU32 _) (places_addU32 _) facts _).mpr ⟨hfit.types, rfl⟩, ?_⟩
    simp [SourceFacts.content, Arenas.shift, Arenas.sizes, ArenaSizes.add, Function.comp_def, pure,
      Except.pure]

theorem Placed.new (hacc : acceptFacts facts = .ok ())
    (hbase : base = { arenas.sizes with modifiers := base.modifiers })
    (hmod : base.modifiers = arenas.modifiers.length ∨ (facts.members = [] ∧ facts.objects = []) ∧ base.modifiers ≤ arenas.modifiers.length) :
    Placed (arenas.append (facts.content.shift arenas.sizes)) facts.source
      (.place facts.source base facts.content.sizes) facts := by
  rcases hmod with hmod | ⟨⟨hm, ho⟩, hle⟩
  · have hb : base = arenas.sizes := by
      rw [hbase, hmod]
      rfl
    subst hb
    have hsizes := Arenas.shift_sizes arenas.sizes facts.content
    refine ⟨rfl, hacc, ?_, ?_⟩
    · rw [← hsizes]
      exact SourceContributionState.place_within _ _ _
    · rw [← hsizes, Arenas.payload_append_self]
      rfl
  · have hnil := (validated_of_ok (acceptFacts_ok.mp hacc).2.1).modifiers_nil hm ho
    rw [hbase]
    refine ⟨rfl, hacc, ?_, ?_⟩
    · rw [Arenas.sizes_append]
      constructor <;>
        simp [SourceContributionState.place, Arenas.sizes, SourceFacts.content, Arenas.shift, hnil,
          hle]
    · simp [Arenas.payload, Arenas.append, SourceContributionState.place, Arenas.sizes,
        SourceContributionState.base, SourceFacts.content, Arenas.shift, hnil, hm, ho,
        slice_append_map]

variable {u u' : CacheUpdate}

theorem CacheUpdate.replace_tracks (h : u.replace facts = .ok u') (ht : u.candidate.Tracks force) :
    u'.candidate.Tracks (force.set facts.source (some facts)) := by
  obtain ⟨_, hacc, h⟩ := bind_ok.mp h
  dsimp only at h
  split at h
  · exact absurd h (by simp)
  split at h
  · exact absurd h (by simp)
  obtain ⟨payload, hcap, h⟩ := bind_ok.mp h
  split at h
  · exact absurd h (by simp)
  obtain rfl := Except.ok.inj h
  have hne := (acceptFacts_ok.mp hacc).1
  have hlen := growTo_length u.candidate.sources (facts.source + 1) {}
  obtain rfl := CacheUpdate.capture_content hcap
  refine (Tracks.append ht (facts.content.shift u.candidate.arenas.sizes)).set ?_ ?_
  · have hslot := slotOf_set_self (s := .place facts.source u.candidate.arenas.sizes
      (facts.content.shift u.candidate.arenas.sizes).sizes)
      (show facts.source < (growTo u.candidate.sources (facts.source + 1) {}).length by omega) hne
    have hsource : (SourceContributionState.place facts.source u.candidate.arenas.sizes
        (facts.content.shift u.candidate.arenas.sizes).sizes).source = facts.source := rfl
    rw [if_pos hsource, Arenas.shift_sizes] at hslot
    simp only [Storage.state, Arenas.shift_sizes, hslot]
    exact .some (Placed.new hacc rfl (.inl rfl))
  · intro other ho
    simp only [Storage.state]
    rw [slotOf_set_other ho, slotOf_growTo]

theorem CacheUpdate.reserveRebuild_tracks {maxSource : Nat} {n : ArenaSizes}
    (h : u.reserveRebuild maxSource n = .ok u') (ht : u.candidate.Tracks force) :
    u'.candidate.Tracks force := by
  unfold CacheUpdate.reserveRebuild at h
  split at h
  · cases h
  split at h
  · cases h
  cases h
  intro source
  simpa only [Storage.state, slotOf_growTo] using ht source

/-! ## A sparse update -/

namespace SparseUpdate

def nextState (u : SparseUpdate) (source : Nat) : Option SourceContributionState :=
  match u.findSourcePatch source with
  | some patch => if patch.present then some patch.state else none
  | none => u.previousState source

structure PatchesOk (u : SparseUpdate) : Prop where
  base : u.base = u.owner.committed.arenas.sizes
  nodup : (u.sourcePatches.map (·.source)).Nodup
  slot : ∀ p ∈ u.sourcePatches, p.source ≠ 0 ∧ (p.present = true → p.state.source = p.source)

structure Tracks (u : SparseUpdate) (force : Force) : Prop where
  patches : u.PatchesOk
  slots : ServerEngine.Tracks u.combined u.nextState force

variable {force : Force}

theorem beginIncremental_tracks {c : SourceContributionCache} (h : c.committed.Tracks force) :
    (beginIncremental c).Tracks force := by
  refine ⟨⟨rfl, by simp [beginIncremental], by simp [beginIncremental]⟩, ?_⟩
  intro source
  have hfind : (beginIncremental c).findSourcePatch source = none := by
    simp [findSourcePatch, beginIncremental]
  have hcombined : (beginIncremental c).combined = c.committed.arenas := by
    simp [combined, beginIncremental, Arenas.append]
  have hnext : (beginIncremental c).nextState source = c.committed.state source := by
    rw [nextState, hfind]
    rfl
  rw [hcombined, hnext]
  exact h source

variable {u u' : SparseUpdate}

theorem reserveIncremental_ok {sourceChanges touchedTypes : Nat} {n : ArenaSizes}
    (h : u.reserveIncremental sourceChanges touchedTypes n = .ok u') : u' = { u with
      sourceCapacity := patchCapacity sourceChanges
      constructionCapacity := patchCapacity touchedTypes } := by
  unfold reserveIncremental at h
  split at h
  · cases h
  split at h
  · cases h
  split at h
  · cases h
  cases h
  rfl

variable {patch : SourcePatch}

theorem addSourcePatch_ok : u.addSourcePatch patch = .ok u' ↔
      (patch.source ≠ 0 ∧ u.findSourcePatch patch.source = none ∧
        u.sourcePatches.length < u.sourceCapacity) ∧
      u' = { u with sourcePatches := u.sourcePatches ++ [patch] } := by
  unfold addSourcePatch
  split
  · rename_i h
    simp only [Bool.or_eq_true, decide_eq_true_eq] at h
    simp only [reduceCtorEq, false_iff, not_and]
    omega
  · rename_i h
    simp only [Bool.or_eq_true, decide_eq_true_eq, not_or] at h
    split
    · rename_i hsome
      simp only [reduceCtorEq, false_iff, not_and]
      intro hcond
      rw [hcond.2.1] at hsome
      cases hsome
    · rename_i hnone
      have hfind : u.findSourcePatch patch.source = none := by
        simpa using hnone
      split
      · rename_i hlt
        simp only [Except.ok.injEq, eq_comm (b := u')]
        exact ⟨fun hu => ⟨⟨h.1, hfind, hlt⟩, hu⟩, fun hu => hu.2⟩
      · rename_i hlt
        simp only [reduceCtorEq, false_iff, not_and]
        intro hcond
        exact absurd hcond.2.2 hlt

variable {source : Nat}

theorem findSourcePatch_none (hne : source ≠ 0) :
    u.findSourcePatch source = none ↔ source ∉ u.sourcePatches.map (·.source) := by
  simp [findSourcePatch, hne]

theorem addSourcePatch_tracks {facts : Option SourceFacts} (more : Arenas)
    (h : u.addSourcePatch patch = .ok u') (ht : u.Tracks force)
    (hstate : patch.present = true → patch.state.source = patch.source)
    (hslot : Option.Rel (Placed (u.combined.append more) patch.source) (if patch.present then some patch.state else none) facts) :
    ({ u' with candidate := u.candidate.append more } : SparseUpdate).Tracks
      (force.set patch.source facts) := by
  obtain ⟨⟨hne, hfind, -⟩, rfl⟩ := addSourcePatch_ok.mp h
  have hfresh := (findSourcePatch_none hne).mp hfind
  have hcombined : u.combined.append more =
      u.owner.committed.arenas.append (u.candidate.append more) := by
    simp [combined, Arenas.append]
  refine ⟨⟨ht.patches.base, ?_, ?_⟩, ?_⟩
  · have hnodup := ht.patches.nodup
    rw [List.map_append, List.nodup_append]
    refine ⟨hnodup, by simp, ?_⟩
    intro a ha b hb hab
    rw [List.map_singleton, List.mem_singleton] at hb
    exact hfresh (hb ▸ hab ▸ ha)
  · intro p hp
    rcases List.mem_append.mp hp with hp | hp
    · exact ht.patches.slot p hp
    · rw [List.mem_singleton] at hp
      subst hp
      exact ⟨hne, hstate⟩
  · have happ := ht.slots.append more
    rw [hcombined] at happ hslot
    refine happ.set ?_ ?_
    · have hself : (u.sourcePatches ++ [patch]).find? (·.source == patch.source) = some patch := by
        have hold : u.sourcePatches.find? (·.source == patch.source) = none := by
          simpa [findSourcePatch, hne] using hfind
        rw [List.find?_append, hold]
        simp
      simpa only [nextState, findSourcePatch, hne, if_false, hself] using hslot
    · intro other ho
      have hsame : (u.sourcePatches ++ [patch]).find? (·.source == other) =
          u.sourcePatches.find? (·.source == other) := by
        simp [Ne.symm ho]
      simp only [nextState, findSourcePatch, hsame, previousState]

def nextSizes (u : SparseUpdate) : ArenaSizes := u.base.add u.candidate.sizes

/-- The 32-bit room that `replace` checks. -/
structure Room (u : SparseUpdate) (facts : SourceFacts) : Prop where
  capture : CaptureFits u.nextSizes facts
  counts : facts.content.sizes.fitU32 = true
  types : u.nextSizes.types ≤ u32Max

structure Open (u : SparseUpdate) (source : Nat) : Prop where
  unprepared : u.prepared = false
  fresh : u.findSourcePatch source = none
  slot : u.sourcePatches.length < u.sourceCapacity

def replacementPatch (u : SparseUpdate) (facts : SourceFacts) : SourcePatch :=
  ⟨facts.source, .place facts.source (nextBase u.base u.candidate) facts.content.sizes, true⟩

def replaced (u : SparseUpdate) (facts : SourceFacts) : SparseUpdate :=
  { u with
    sourcePatches := u.sourcePatches ++ [u.replacementPatch facts]
    candidate := u.candidate.append (facts.content.shift u.nextSizes) }

variable {facts : SourceFacts}

theorem replace_ok : u.replace facts = .ok u' ↔
    (acceptFacts facts = .ok () ∧ u.Open facts.source ∧ u.Room facts) ∧ u' = u.replaced facts := by
  unfold replace
  split
  · rename_i hprep
    simp only [reduceCtorEq, false_iff, not_and]
    rintro ⟨-, hopen, -⟩
    rw [hopen.unprepared] at hprep
    cases hprep
  · rename_i hprep
    constructor
    · intro h
      obtain ⟨_, hacc, h⟩ := bind_ok.mp h
      obtain ⟨u₁, hadd, h⟩ := bind_ok.mp h
      obtain ⟨payload, hcap, h⟩ := bind_ok.mp h
      obtain ⟨hfits, rfl⟩ := capture_ok.mp hcap
      split at h
      · exact absurd h (by simp)
      rename_i hcounts
      obtain ⟨_, htypes, h⟩ := bind_ok.mp h
      obtain ⟨u₂, hadd₂, h⟩ := bind_ok.mp h
      obtain ⟨⟨-, hfresh, hslot⟩, -⟩ := addSourcePatch_ok.mp hadd
      obtain ⟨-, rfl⟩ := addSourcePatch_ok.mp hadd₂
      obtain rfl := Except.ok.inj h
      rw [Arenas.shift_sizes] at hcounts
      refine ⟨⟨hacc, ⟨by simpa using hprep, hfresh, hslot⟩, hfits, by simpa using hcounts,
        (absoluteU32_ok.mp htypes).1⟩, ?_⟩
      simp [replaced, replacementPatch, Arenas.shift_sizes, nextSizes]
    · rintro ⟨⟨hacc, hopen, hroom⟩, rfl⟩
      have hne := (acceptFacts_ok.mp hacc).1
      have hcounts : ((facts.content.shift u.nextSizes).sizes).fitU32 = true := by
        rw [Arenas.shift_sizes]
        exact hroom.counts
      refine bind_ok.mpr ⟨(), hacc, bind_ok.mpr ⟨_,
        addSourcePatch_ok.mpr ⟨⟨hne, hopen.fresh, hopen.slot⟩, rfl⟩, bind_ok.mpr ⟨_,
        capture_ok.mpr ⟨hroom.capture, rfl⟩, ?_⟩⟩⟩
      rw [if_neg (by simpa [nextSizes] using hcounts)]
      refine bind_ok.mpr ⟨_, absoluteU32_ok.mpr ⟨hroom.types, rfl⟩, bind_ok.mpr ⟨_,
        addSourcePatch_ok.mpr ⟨⟨hne, hopen.fresh, hopen.slot⟩, rfl⟩, ?_⟩⟩
      simp [replaced, replacementPatch, Arenas.shift_sizes, nextSizes, pure, Except.pure]

theorem combined_sizes (h : u.base = u.owner.committed.arenas.sizes) :
    u.combined.sizes = u.nextSizes := by
  rw [combined, nextSizes, h, Arenas.sizes_append]
  rfl

theorem replacement_placed (hbase : u.base = u.owner.committed.arenas.sizes)
    (hacc : acceptFacts facts = .ok ()) (hroom : u.Room facts) :
    Placed (u.combined.append (facts.content.shift u.nextSizes)) facts.source
      (u.replacementPatch facts).state facts := by
  have hsizes := combined_sizes hbase
  have hlen : u.nextSizes.modifiers = u.combined.modifiers.length := by
    rw [← hsizes]
    rfl
  rw [← hsizes]
  refine Placed.new hacc ?_ ?_
  · rw [hsizes]
    rfl
  · by_cases hnil : facts.members = [] ∧ facts.objects = []
    · refine .inr ⟨hnil, ?_⟩
      rw [← hlen]
      exact Nat.mod_le _ _
    · refine .inl ?_
      have hle : u.nextSizes.modifiers ≤ u32Max := by
        by_cases hm : facts.members = []
        · have ho : facts.objects ≠ [] := fun ho => hnil ⟨hm, ho⟩
          obtain ⟨o, os, hos⟩ := List.exists_cons_of_ne_nil ho
          have := hroom.capture.objectModifiers o (by simp [hos])
          omega
        · obtain ⟨m, ms, hms⟩ := List.exists_cons_of_ne_nil hm
          have := hroom.capture.memberModifiers m (by simp [hms])
          omega
      rw [← hlen]
      exact Nat.mod_eq_of_lt (Nat.lt_succ_of_le hle)

theorem replace_tracks (h : u.replace facts = .ok u') (ht : u.Tracks force) :
    u'.Tracks (force.set facts.source (some facts)) := by
  obtain ⟨⟨hacc, hopen, hroom⟩, rfl⟩ := replace_ok.mp h
  have hadd : u.addSourcePatch (u.replacementPatch facts) =
      .ok { u with sourcePatches := u.sourcePatches ++ [u.replacementPatch facts] } :=
    addSourcePatch_ok.mpr ⟨⟨(acceptFacts_ok.mp hacc).1, hopen.fresh, hopen.slot⟩, rfl⟩
  exact addSourcePatch_tracks (facts.content.shift u.nextSizes) hadd ht (fun _ => rfl)
    (.some (replacement_placed ht.patches.base hacc hroom))

theorem remove_tracks (h : u.remove source = .ok u') (ht : u.Tracks force) :
    u'.Tracks (force.set source none) := by
  unfold remove at h
  split at h
  · cases h
  have hcandidate : u'.candidate = u.candidate := by
    rw [(addSourcePatch_ok.mp h).2]
  have htracks := addSourcePatch_tracks {} h ht (by simp) (Option.Rel.none (β := SourceFacts))
  have hsame : ({ u' with candidate := u.candidate.append {} } : SparseUpdate) = u' := by
    rw [← hcandidate]
    simp [Arenas.append]
  rwa [hsame] at htracks

theorem setConstruction_ok {handle : Nat} {value : SourceConstructionState}
    (h : u.setConstruction handle value = .ok u') :
    ∃ patches, u' = { u with constructionPatches := patches } := by
  unfold setConstruction at h
  split at h
  · cases h
  split at h
  · exact ⟨_, (Except.ok.inj h).symm⟩
  split at h
  · exact ⟨_, (Except.ok.inj h).symm⟩
  · cases h

/-! ### Publication -/

theorem le_foldl_max (values : List Nat) (start : Nat) :
    start ≤ values.foldl Nat.max start ∧ ∀ v ∈ values, v ≤ values.foldl Nat.max start := by
  induction values generalizing start with
  | nil => simp
  | cons w ws ih =>
    obtain ⟨h1, h2⟩ := ih (Nat.max start w)
    refine ⟨Nat.le_trans (Nat.le_max_left _ _) h1, ?_⟩
    intro v hv
    rcases List.mem_cons.mp hv with rfl | hv
    · exact Nat.le_trans (Nat.le_max_right _ _) h1
    · exact h2 v hv

/-- What `prepare_publish` leaves behind. -/
structure Prepared (u u' : SparseUpdate) : Prop where
  provenance : u.owner.provenanceComplete = true
  statistics : u.sourcePatches.foldlM (patchStatistics u.owner.committed) u.owner.statistics =
    .ok u'.preparedStatistics
  sources : ∀ p ∈ u.sourcePatches, p.source < u'.preparedSourceSize
  construction : ∀ p ∈ u.constructionPatches, p.handle < u'.preparedConstructionSize
  same : ∃ capacity, u' = { u with
    owner := { u.owner with committed := { u.owner.committed with capacity } }
    prepared := true
    preparedStatistics := u'.preparedStatistics
    preparedSourceSize := u'.preparedSourceSize
    preparedConstructionSize := u'.preparedConstructionSize }

theorem preparePublish_ok (h : u.preparePublish = .ok u') : u.Prepared u' := by
  unfold preparePublish at h
  split at h
  · cases h
  rename_i hguard
  obtain ⟨statistics, hstat, h⟩ := bind_ok.mp h
  dsimp only at h
  split at h
  · cases h
  split at h
  · cases h
  obtain rfl := Except.ok.inj h
  simp only [Bool.or_eq_true, Bool.not_eq_true', not_or, Bool.not_eq_false] at hguard
  refine ⟨hguard.2, hstat, ?_, ?_, ⟨_, rfl⟩⟩
  · intro p hp
    have := (le_foldl_max (u.sourcePatches.map (·.source))
      (u.owner.committed.sources.length - 1)).2 p.source (List.mem_map_of_mem hp)
    dsimp only
    omega
  · intro p hp
    have := (le_foldl_max (u.constructionPatches.map (·.handle))
      (u.owner.committed.construction.length - 1)).2 p.handle (List.mem_map_of_mem hp)
    dsimp only
    omega

theorem applySourcePatch_other (patches : List SourcePatch)
    (sources : List SourceContributionState) (h : source ∉ patches.map (·.source)) :
    slotOf (patches.foldl applySourcePatch sources) source = slotOf sources source := by
  induction patches generalizing sources with
  | nil => rfl
  | cons p ps ih =>
    simp only [List.map_cons, List.mem_cons, not_or] at h
    rw [List.foldl_cons, ih _ h.2, applySourcePatch, slotOf_set_other h.1]

theorem applySourcePatch_slot {patches : List SourcePatch} {sources : List SourceContributionState}
    (hnodup : (patches.map (·.source)).Nodup)
    (hslot : ∀ p ∈ patches, p.source ≠ 0 ∧ (p.present = true → p.state.source = p.source))
    (hlen : ∀ p ∈ patches, p.source < sources.length) (source : Nat) :
    slotOf (patches.foldl applySourcePatch sources) source =
      match patches.find? (·.source == source) with
      | some p => if p.present then some p.state else none
      | none => slotOf sources source := by
  induction patches generalizing sources with
  | nil => rfl
  | cons p ps ih =>
    rw [List.map_cons, List.nodup_cons] at hnodup
    obtain ⟨hne, hpresent⟩ := hslot p (by simp)
    have hlt := hlen p (by simp)
    by_cases hs : p.source = source
    · subst hs
      rw [List.foldl_cons, applySourcePatch_other _ _ hnodup.1, applySourcePatch,
        slotOf_set_self hlt hne]
      cases hp : p.present with
      | true => simp [hp, hpresent hp]
      | false => simp [hp, Ne.symm hne]
    · have hrest := @ih (applySourcePatch sources p) hnodup.2
        (fun q hq => hslot q (by simp [hq]))
        (fun q hq => by simpa [applySourcePatch] using hlen q (by simp [hq]))
      rw [List.foldl_cons, hrest, applySourcePatch, slotOf_set_other (Ne.symm hs)]
      simp [hs]

theorem publish_tracks (hp : u.preparePublish = .ok u') (ht : u.Tracks force) :
    u'.publishPrepared.committed.Tracks force := by
  have hprep := preparePublish_ok hp
  obtain ⟨capacity, hsame⟩ := hprep.same
  have hpatches : u'.sourcePatches = u.sourcePatches := by rw [hsame]
  have hsources : u'.owner.committed.sources = u.owner.committed.sources := by rw [hsame]
  have hcombined : u'.combined = u.combined := by
    rw [hsame]
    rfl
  have hstate : ∀ source, u'.publishPrepared.committed.state source = u.nextState source := by
    intro source
    have hlen : ∀ p ∈ u.sourcePatches,
        p.source < (growTo u.owner.committed.sources u'.preparedSourceSize {}).length := by
      intro p hp
      have := hprep.sources p hp
      rw [growTo_length]
      omega
    have hslot := applySourcePatch_slot ht.patches.nodup ht.patches.slot hlen source
    simp only [publishPrepared, Storage.state, hpatches, hsources, hslot, nextState,
      findSourcePatch, previousState, slotOf_growTo]
    by_cases hz : source = 0
    · subst hz
      have hnone : u.sourcePatches.find? (·.source == 0) = none := by
        rw [List.find?_eq_none]
        intro p hp
        simpa using (ht.patches.slot p hp).1
      simp [hnone]
    · simp [hz]
  intro source
  rw [hstate]
  have := ht.slots source
  rw [← hcombined] at this
  exact this

end SparseUpdate

end ServerEngine
