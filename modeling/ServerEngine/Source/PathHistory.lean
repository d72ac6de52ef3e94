import ServerEngine.Source.PathImage
import ServerEngine.Source.PathPreparation

/-! # Paths over every run

Whatever the calls, an update knows its ids by their paths; a publication whose path bytes fit their
32-bit fields hands them to the manager, and an update that is given up leaves nothing behind.
-/
namespace ServerEngine
open Transaction

namespace SourceManagerUpdate
open SourceManager

theorem preparePublish_newSources (items : List NewSource) :
    Keeps (fun u => u.newSources = items) preparePublish := by
  have hindex : ∀ {x : UpdateM Unit}, KeepsIndex x → Keeps (fun u => u.newSources = items) x :=
    fun hx u hu => (hx u).newSources.trans hu
  have hlater : ∀ {x : UpdateM Unit}, (∀ u0 : SourceManagerUpdate, Keeps (Later u0) x) →
      Keeps (fun u => u.newSources = items) x := fun hx u hu => (hx u u (.refl u)).newSources.trans hu
  have hmark : Keeps (fun u => u.newSources = items) (modify markPrepared : UpdateM Unit) :=
    fun _ hv => hv
  intro u hu
  unfold preparePublish
  split
  · exact hu
  · split
    · exact hu
    · exact keeps_bind (hindex prepareDependentPatches_keepsIndex) (fun _ =>
        keeps_bind (hlater fun _ => prepareNewSources_later) fun _ =>
        keeps_bind (hindex prepareTextBytes_keepsIndex) fun _ =>
        keeps_bind (hindex prepareGeneration_keepsIndex) fun _ =>
        keeps_bind (hindex prepareSources_keepsIndex) fun _ =>
        keeps_bind (hindex prepareAbsorb_keepsIndex) fun _ => hmark) u hu

theorem published_slots (u : SourceManagerUpdate) :
    (u.candidates.foldl publishCandidate u.publishedSources).pathIndexSlots =
      u.owner.pathIndexSlots := by
  have hsources : ∀ (items : List NewSource) (m : SourceManager),
      (items.foldl publishSource m).pathIndexSlots = m.pathIndexSlots := by
    intro items
    induction items with
    | nil => exact fun _ => rfl
    | cons item rest ih => exact fun m => ih (publishSource m item)
  have hcandidate : ∀ (m : SourceManager) (c : CandidateSource),
      (publishCandidate m c).pathIndexSlots = m.pathIndexSlots := by
    intro m c
    unfold publishCandidate
    split
    · rfl
    · dsimp only
      split <;> rfl
  have hcandidates : ∀ (items : List CandidateSource) (m : SourceManager),
      (items.foldl publishCandidate m).pathIndexSlots = m.pathIndexSlots := by
    intro items
    induction items with
    | nil => exact fun _ => rfl
    | cons c rest ih => exact fun m => (ih (publishCandidate m c)).trans (hcandidate m c)
  rw [hcandidates]
  exact hsources u.newSources _

variable {m : SourceManager} {u : SourceManagerUpdate}

theorem publishPrepared_sources (hm : m.Wf) (hu : Sound m u) (hp : u.prepared = true) (s : Nat) :
    (publishPrepared u).owner.path s = u.publishedSources.path s := by
  have hcandidates := publishedCandidates_spec hm hu hp
  rw [publishPrepared_owner hp hu.progress.pending]
  exact path_congr hcandidates.baseline hcandidates.records hcandidates.pathStorage s

theorem publishPrepared_path (hm : m.Wf) (hu : Sound m u) (hp : u.prepared = true)
    (hfit : PathsFit u) (hnamed : ∀ item ∈ u.newSources, item.normalizedPath ≠ []) :
    (∀ k item, u.newSources[k]? = some item →
      (publishPrepared u).owner.path (m.records.size + k + 1) = item.normalizedPath) ∧
      ∀ s, m.path s ≠ [] → (publishPrepared u).owner.path s = m.path s := by
  have hpath := publishPrepared_sources hm hu hp
  have hsize : u.owner.records.size = m.records.size := hu.progress.grown.records.size
  obtain ⟨hnew, hold⟩ := publishSources_path
    (absorbed_wf (hu.progress.grown.wf hm)
      (u.owner.snapshotStorage.absorbPrepared u.candidateSnapshots)) hfit hnamed
  refine ⟨fun k item hk => ?_, fun s hne => ?_⟩
  · rw [hpath, ← hnew k item hk, ← hsize]
    rfl
  · have habsorbed : ({ u.owner with
        snapshotStorage := u.owner.snapshotStorage.absorbPrepared u.candidateSnapshots } :
        SourceManager).path s = m.path s :=
      (path_congr rfl rfl rfl s).trans (hu.progress.grown.path s)
    rw [hpath, ← habsorbed]
    apply hold
    rw [habsorbed]
    exact hne

theorem publishPrepared_saved (hm : m.Wf) (hu : Sound m u) (hp : u.prepared = true) :
    (publishPrepared u).owner.baseline = m.baseline ∧
      (publishPrepared u).owner.records.size = m.records.size + u.newSources.length := by
  have hsources := publishedSources_spec hm hu.progress
  have hcandidates := publishedCandidates_spec hm hu hp
  rw [publishPrepared_owner hp hu.progress.pending]
  refine ⟨?_, ?_⟩
  · exact hcandidates.baseline.trans (hsources.baseline.trans hu.progress.grown.baseline)
  · have hsize : u.owner.records.size = m.records.size := hu.progress.grown.records.size
    rw [← hsize]
    exact (congrArg MappedVector.size hcandidates.records).trans hsources.records

theorem publishPrepared_localSources (hm : m.Wf) (hu : Sound m u) (hp : u.prepared = true)
    (hids : ∀ k item, u.newSources[k]? = some item → item.source = m.records.size + k + 1) :
    (publishPrepared u).owner.localSources = m.localSources ++ u.newSources.map (·.source) := by
  obtain ⟨hbaseline, hrecords⟩ := publishPrepared_saved hm hu hp
  have hbase : (publishPrepared u).owner.baselineSourceCount = m.baselineSourceCount := by
    unfold baselineSourceCount
    rw [hbaseline]
  have hafter := (publishPrepared_wf hm hu hp).1.records_eq
  have hbefore := hm.records_eq
  have hlength : (publishPrepared u).owner.records.localValues.length =
      m.records.localValues.length + u.newSources.length := by omega
  unfold localSources
  rw [hbase, hlength, List.range_add, List.map_append, List.map_map]
  congr 1
  apply List.ext_getElem
  · simp
  · intro k h1 h2
    have hk : k < u.newSources.length := by simpa using h2
    rw [List.getElem_map, List.getElem_map, List.getElem_range,
      hids k _ (List.getElem?_eq_getElem hk)]
    simp only [Function.comp]
    omega

end SourceManagerUpdate

namespace IndexedUpdate

/-! ## Calls -/

/-- An update on `i0` that any calls may have led to. -/
structure PathUpdate (i0 : IndexedManager) (i : IndexedUpdate) : Prop where
  progress : PathProgress i0 i
  sound : SourceManagerUpdate.Sound i0.manager i.update
  built : i.update.prepared = true → Built i0 i

/-- The ids of `i` are ids of `j`, with the same paths. -/
def Extends (i j : IndexedUpdate) : Prop :=
  ∃ items, j.update.newSources = i.update.newSources ++ items

theorem Extends.refl (i : IndexedUpdate) : Extends i i := ⟨[], by rw [List.append_nil]⟩

theorem Extends.trans {i j k : IndexedUpdate} (h : Extends i j) (h' : Extends j k) :
    Extends i k := by
  obtain ⟨items, hj⟩ := h
  obtain ⟨more, hk⟩ := h'
  exact ⟨items ++ more, by rw [hk, hj, List.append_assoc]⟩

section
variable {i0 : IndexedManager} {i j : IndexedUpdate}

theorem PathProgress.extends_path (hi : PathProgress i0 i) (hj : PathProgress i0 j)
    (h : Extends i j) : i.sourceCount ≤ j.sourceCount ∧
      ∀ s ≤ i.sourceCount, j.path s = i.path s := by
  obtain ⟨items, hitems⟩ := h
  have hcount := hi.sourceCount_eq
  rw [hj.sourceCount_eq, hitems, List.length_append]
  refine ⟨by omega, fun s hs => ?_⟩
  rw [hi.path_eq, hj.path_eq, hitems]
  by_cases hold : s ≤ i0.manager.records.size
  · rw [newPath_old _ _ hold, newPath_old _ _ hold]
  · obtain ⟨k, item, hk, rfl⟩ := @NewPaths.cases_id i0.manager
      i.update.newSources s (by omega) (by omega : i0.manager.records.size < s)
    have hlt := (List.getElem?_eq_some_iff.mp hk).choose
    have hwide : (i.update.newSources ++ items)[k]? = some item := by
      rw [List.getElem?_append_left hlt, hk]
    rw [newPath_new hk, newPath_new hwide]

theorem PathUpdate.call_prepare (h0 : i0.PathIdentity) (h : PathUpdate i0 i) :
    PathUpdate i0 (left (IndexedUpdate.preparePublish i)) ∧
      Extends i (left (IndexedUpdate.preparePublish i)) ∧
      ∀ j, IndexedUpdate.preparePublish i ≠ .error .endless j := by
  have hsim := preparePublish_simulates h0
  have hpre := And.intro h.progress h.built
  have hleft := hsim.left_eq (s := i) hpre
  have hsound : SourceManagerUpdate.Sound i0.manager (left (IndexedUpdate.preparePublish i)).update := by
    rw [hleft]
    exact SourceManagerUpdate.call_sound h0.wf h.sound .preparePublish
  have hnew : (left (IndexedUpdate.preparePublish i)).update.newSources = i.update.newSources := by
    rw [hleft]
    exact SourceManagerUpdate.preparePublish_newSources _ i.update rfl
  refine ⟨?_, ⟨[], by rw [hnew, List.append_nil]⟩, fun j hrun => ?_⟩
  · cases hrun : IndexedUpdate.preparePublish i with
    | ok a j =>
      rw [hrun] at hsound
      obtain ⟨-, hprogress, hbuilt⟩ := hsim.ok hpre hrun
      exact ⟨hprogress, hsound, fun _ => hbuilt⟩
    | error failure j =>
      rw [hrun] at hsound
      obtain ⟨⟨code, -, hbase⟩, hprogress⟩ := hsim.error hpre hrun
      refine ⟨hprogress, hsound, fun hp => ?_⟩
      have hp : j.update.prepared = true := hp
      by_cases hprep : i.update.prepared = true
      · unfold SourceManagerUpdate.preparePublish at hbase
        rw [if_neg (by simp [h.progress.progress.pending]), if_pos hprep] at hbase
        cases hbase
      · have hno := SourceManagerUpdate.preparePublish_unprepared (by simpa using hprep) hbase
        rw [hno] at hp
        cases hp
  · obtain ⟨⟨code, hcode, -⟩, -⟩ := hsim.error hpre hrun
    cases hcode

theorem PathUpdate.call_resolve (h0 : i0.PathIdentity) (h : PathUpdate i0 i) (p : Bytes) :
    PathUpdate i0 (left (resolveNormalized p i)) ∧ Extends i (left (resolveNormalized p i)) := by
  have hsound := SourceManagerUpdate.call_sound h0.wf h.sound (.resolve p)
  have hcall : i.update.call (.resolve p) =
      left (SourceManagerUpdate.resolveNormalized p i.update) := rfl
  rw [hcall] at hsound
  rcases resolveNormalized_spec h0 h.progress p with ⟨code, hrun, hbase⟩ |
    ⟨source, j, hrun, hbase, hj, -, -, -, hcase⟩
  · rw [hrun]
    exact ⟨h, .refl i⟩
  · rw [hbase] at hsound
    rw [hrun]
    rcases hcase with rfl | ⟨-, -, hno, hmore⟩
    · exact ⟨h, .refl _⟩
    · refine ⟨⟨hj, hsound, fun hp => ?_⟩, hmore⟩
      have hp : j.update.prepared = true := hp
      rw [hno] at hp
      cases hp

theorem PathUpdate.call_reserve (h : PathUpdate i0 i) (additional : Nat) :
    PathUpdate i0 (left (IndexedUpdate.reserveSources additional i)) ∧
      Extends i (left (IndexedUpdate.reserveSources additional i)) ∧
      ∀ j, IndexedUpdate.reserveSources additional i ≠ .error .endless j := by
  unfold IndexedUpdate.reserveSources
  dsimp only
  split
  · exact ⟨h, .refl i, fun j hj => by cases hj⟩
  · split
    · exact ⟨h, .refl i, fun j hj => by cases hj⟩
    · split
      · exact ⟨h, .refl i, fun j hj => by cases hj⟩
      · rcases ensureLocalPathCapacity_spec h.progress.localIndex h.progress.paths.distinct
          (Nat.le_add_right i.update.newSources.length additional) with
          ⟨slots, hrun, hindex, -⟩ | ⟨-, hrun⟩
        · rw [hrun]
          have hp := h.progress
          refine ⟨⟨⟨hp.progress, hp.index, hp.slots, hp.prepared, hp.paths, .inr hindex,
            hp.untouched, hp.sparse⟩, h.sound, h.built⟩, .refl i, fun j hj => ?_⟩
          cases hj
        · rw [hrun]
          exact ⟨h, .refl i, fun j hj => by cases hj⟩

theorem PathUpdate.call_same (h : PathUpdate i0 i) {v : SourceManagerUpdate}
    (hsame : SourceManagerUpdate.SameIndex i.update v)
    (hv : SourceManagerUpdate.Sound i0.manager v)
    (hprepared : v.prepared = true → i.update.prepared = true) :
    PathUpdate i0 { i with update := v } ∧ Extends i { i with update := v } :=
  ⟨⟨h.progress.same hsame hv.progress, hv, fun hp => (h.built (hprepared hp)).same hsame⟩,
    ⟨[], by rw [List.append_nil]; exact hsame.newSources⟩⟩

theorem unprepares_prepared {α : Type} {x : UpdateM α} (hx : SourceManagerUpdate.Unprepares x)
    {u : SourceManagerUpdate} (hp : (left (x u)).prepared = true) : u.prepared = true := by
  rcases hx u with heq | hno
  · rw [heq] at hp
    exact hp
  · rw [hno] at hp
    cases hp

theorem PathUpdate.call (h0 : i0.PathIdentity) (h : PathUpdate i0 i) (c : PathCall) :
    PathUpdate i0 (i.call c) ∧ Extends i (i.call c) := by
  cases c with
  | reserveSources additional =>
    obtain ⟨hstep, hextends, -⟩ := h.call_reserve additional
    exact ⟨hstep, hextends⟩
  | call c =>
    cases c with
    | resolve p => exact h.call_resolve h0 p
    | preparePublish =>
      obtain ⟨hstep, hextends, -⟩ := h.call_prepare h0
      exact ⟨hstep, hextends⟩
    | applyAcquire source kind =>
      exact h.call_same (SourceManagerUpdate.applyAcquire_keepsIndex source kind _)
        (SourceManagerUpdate.call_sound h0.wf h.sound (.applyAcquire source kind))
        (unprepares_prepared (SourceManagerUpdate.applyAcquire_unprepares source kind))
    | setIncludes source dependencies =>
      exact h.call_same (SourceManagerUpdate.setIncludes_keepsIndex source dependencies _)
        (SourceManagerUpdate.call_sound h0.wf h.sound (.setIncludes source dependencies))
        (unprepares_prepared (SourceManagerUpdate.setIncludes_unprepares source dependencies))
    | readEdges kind source =>
      exact h.call_same ⟨rfl, SourceManagerUpdate.cacheEdges_slots _ _ _, rfl⟩
        (SourceManagerUpdate.call_sound h0.wf h.sound (.readEdges kind source)) fun hp => hp

theorem PathUpdate.run (h0 : i0.PathIdentity) (h : PathUpdate i0 i) (calls : List PathCall) :
    PathUpdate i0 (i.run calls) ∧ Extends i (i.run calls) := by
  induction calls generalizing i with
  | nil => exact ⟨h, .refl i⟩
  | cons c calls ih =>
    obtain ⟨hstep, hextends⟩ := h.call h0 c
    obtain ⟨hrest, hmore⟩ := ih hstep
    exact ⟨hrest, hextends.trans hmore⟩

theorem pathUpdate_begin (h0 : i0.PathIdentity) : PathUpdate i0 i0.beginUpdate := by
  refine ⟨pathProgress_begin h0, SourceManagerUpdate.sound_begin h0.count, fun hp => ?_⟩
  cases hp

end

/-! ## Publishing -/

section
variable {i0 : IndexedManager} {j : IndexedUpdate}

theorem publishPrepared_owner (hp : j.update.prepared = true) (hc : j.update.committed = false) :
    (publishPrepared j).owner =
      ⟨(SourceManagerUpdate.publishPrepared j.update).owner, j.publishedIndex⟩ := by
  unfold publishPrepared
  rw [if_neg (by simp [hp, hc])]
  rfl

theorem publishedIndex_length (j : IndexedUpdate) : j.publishedIndex.length =
    if j.preparedPathIndex.length ≠ 0 then j.preparedPathIndex.length else j.pathIndex.length := by
  have hset : ∀ (insertions : List PreparedPathInsertion) (index : List PathSlot),
      (insertions.foldl (fun index insertion => index.set insertion.position insertion.slot)
        index).length = index.length := by
    intro insertions
    induction insertions with
    | nil => exact fun _ => rfl
    | cons insertion rest ih =>
      intro index
      rw [List.foldl_cons, ih, List.length_set]
  unfold publishedIndex
  by_cases hnil : j.preparedPathIndex = []
  · rw [if_neg fun hne => hne hnil, hset, hnil]
    rfl
  · rw [if_pos hnil, if_pos fun hz => hnil (List.length_eq_zero_iff.mp hz)]

theorem PathUpdate.published (h0 : i0.PathIdentity) (h : PathUpdate i0 j)
    (hp : j.update.prepared = true) (hfit : SourceManagerUpdate.PathsFit j.update) :
    (publishPrepared j).owner.PathIdentity ∧
      (publishPrepared j).owner.sourceCount = j.sourceCount ∧
      ∀ s ≤ j.sourceCount, (publishPrepared j).owner.path s = j.path s := by
  have hsound := h.sound
  have hpaths := h.progress.paths
  obtain ⟨hnew, hold⟩ := SourceManagerUpdate.publishPrepared_path h0.wf hsound hp hfit hpaths.named
  obtain ⟨hbaseline, hsize⟩ := SourceManagerUpdate.publishPrepared_saved h0.wf hsound hp
  obtain ⟨hwf, hcount⟩ := SourceManagerUpdate.publishPrepared_wf h0.wf hsound hp
  have hlocal := SourceManagerUpdate.publishPrepared_localSources h0.wf hsound hp hpaths.ids
  have hpending := h.progress.progress.pending
  have hsources : (publishPrepared j).owner.sourceCount = j.sourceCount := by
    rw [publishPrepared_owner hp hpending, h.progress.sourceCount_eq]
    exact hsize
  have hpath : ∀ s ≤ i0.manager.records.size + j.update.newSources.length,
      (SourceManagerUpdate.publishPrepared j.update).owner.path s =
        newPath i0.manager j.update.newSources s := by
    intro s hs
    by_cases hle : s ≤ i0.manager.records.size
    · rw [newPath_old _ _ hle]
      by_cases hz : s = 0
      · rw [hz]
        rfl
      · exact hold s (h0.ids.named s hz hle)
    · obtain ⟨k, item, hk, rfl⟩ := NewPaths.cases_id hs (by omega)
      rw [newPath_new hk]
      exact hnew k item hk
  have hids : Identified (i0.manager.records.size + j.update.newSources.length)
      (SourceManagerUpdate.publishPrepared j.update).owner.path := by
    have hnewids := hpaths.identified h0.ids
    refine ⟨fun s hs hle => ?_, fun s t hs hsle ht htle heq => ?_⟩
    · rw [hpath s hle]
      exact hnewids.named s hs hle
    · rw [hpath s hsle, hpath t htle] at heq
      exact hnewids.distinct s t hs hsle ht htle heq
  refine ⟨?_, hsources, fun s hs => ?_⟩
  · rw [publishPrepared_owner hp hpending]
    refine ⟨hwf, hcount, fun b hb => ?_, ?_, ?_, ?_⟩
    · apply h0.saved b
      rw [← hbaseline]
      exact hb
    · show Identified (SourceManagerUpdate.publishPrepared j.update).owner.records.size _
      rw [hsize]
      exact hids
    · show j.publishedIndex = [] ∧ _ ∨ IndexOf
        (SourceManagerUpdate.publishPrepared j.update).owner.path j.publishedIndex
        (SourceManagerUpdate.publishPrepared j.update).owner.localSources
      rw [hlocal]
      have hvalid : ∀ s ∈ i0.manager.localSources ++ j.update.newSources.map (·.source),
          s ≤ i0.manager.records.size + j.update.newSources.length := by
        intro s hs
        cases List.mem_append.mp hs with
        | inl hs =>
          obtain ⟨-, hle⟩ := (SourceManager.mem_localSources h0.wf).mp hs
          omega
        | inr hs =>
          obtain ⟨item, hi, rfl⟩ := List.mem_map.mp hs
          obtain ⟨k, hk, -, hsource⟩ := hpaths.get hi
          omega
      rcases h.built hp with ⟨hnil, hindex⟩ | hindex
      · rw [hnil, List.map_nil, List.append_nil, hindex] at *
        rcases h0.index with hempty | hfull
        · exact .inl ⟨hempty.1, hempty.2⟩
        · refine .inr (hfull.congr fun s hs => ?_)
          obtain ⟨-, hle⟩ := (SourceManager.mem_localSources h0.wf).mp hs
          rw [hpath s (by omega), newPath_old _ _ hle]
      · exact .inr (hindex.congr fun s hs => hpath s (hvalid s hs))
    · show (SourceManagerUpdate.publishPrepared j.update).owner.pathIndexSlots =
        j.publishedIndex.length
      rw [SourceManagerUpdate.publishPrepared_owner hp hpending, publishedIndex_length]
      show (if j.update.preparedPathIndexSlots ≠ 0 then _ else _) = _
      rw [SourceManagerUpdate.published_slots, h.progress.prepared, h.progress.slots]
  · have hs : s ≤ i0.manager.records.size + j.update.newSources.length := by
      rw [← h.progress.sourceCount_eq]
      exact hs
    rw [publishPrepared_owner hp hpending, h.progress.path_eq]
    exact hpath s hs

end

end IndexedUpdate

/-! ## Runs -/

/-- Managers that construction and updates lead to, where the path bytes of every published update
fit their fields. -/
inductive PathRun : IndexedManager → Prop
  | fresh : PathRun { manager := {} }
  | saved {b : Baseline} {image : ImagePaths} (hreads : b.Reads image)
      (hverified : image.verifyPaths = .ok ()) : PathRun (.ofBaseline b)
  | abandoned {i : IndexedManager} (h : PathRun i) (calls : List IndexedUpdate.PathCall) :
      PathRun (i.beginUpdate.run calls).owner
  | published {i : IndexedManager} (h : PathRun i) (calls : List IndexedUpdate.PathCall)
      {j : IndexedUpdate} (hprepare : IndexedUpdate.preparePublish (i.beginUpdate.run calls) = .ok () j)
      (hfit : SourceManagerUpdate.PathsFit j.update) : PathRun (IndexedUpdate.publishPrepared j).owner

namespace IndexedManager

theorem pathIdentity_fresh : ({ manager := {} } : IndexedManager).PathIdentity := by
  refine ⟨SourceManager.wf_fresh, Nat.zero_le _, fun b hb => ?_, ⟨fun s hs hle => ?_, ?_⟩,
    .inl ⟨rfl, rfl⟩, rfl⟩
  · cases hb
  · exact absurd (Nat.le_zero.mp hle) hs
  · intro s t hs hle
    exact absurd (Nat.le_zero.mp hle) hs

theorem pathIdentity_ofBaseline {b : Baseline} (hb : b.Indexed) :
    (ofBaseline b).PathIdentity := by
  have hpath : ∀ s, s ≠ 0 → s ≤ b.sources.sourceCount →
      (SourceManager.ofBaseline b).path s = b.sources.path s := by
    intro s hs hle
    have hsize : (SourceManager.ofBaseline b).records.size = b.sources.sourceCount := rfl
    have hbaseline : (SourceManager.ofBaseline b).baseline = some b := rfl
    unfold SourceManager.path
    rw [hsize, hbaseline, if_neg (by simp; omega)]
    dsimp only
    rw [if_pos hle]
  refine ⟨SourceManager.wf_ofBaseline b, b.sources.sourceCount_le, fun c hc => ?_,
    ⟨fun s hs hle => ?_, fun s t hs hsle ht htle heq => ?_⟩, .inl ⟨rfl, rfl⟩, rfl⟩
  · cases hc
    exact hb
  · show (SourceManager.ofBaseline b).path s ≠ []
    rw [hpath s hs hle]
    exact (hb.named s hs hle).1
  · have heq : (SourceManager.ofBaseline b).path s = (SourceManager.ofBaseline b).path t := heq
    rw [hpath s hs hsle, hpath t ht htle] at heq
    have hfound := (hb.named s hs hsle).2
    rw [heq, (hb.named t ht htle).2] at hfound
    exact (Except.ok.inj hfound).symm

end IndexedManager

namespace IndexedUpdate

theorem run_prepared {i : IndexedManager} (h0 : i.PathIdentity) (calls : List PathCall)
    {j : IndexedUpdate} (hprepare : preparePublish (i.beginUpdate.run calls) = .ok () j) :
    PathUpdate i j ∧ j.update.prepared = true ∧ Extends (i.beginUpdate.run calls) j ∧
      j.update.newSources = (i.beginUpdate.run calls).update.newSources := by
  obtain ⟨hrun, -⟩ := (pathUpdate_begin h0).run h0 calls
  obtain ⟨hstep, hextends, -⟩ := hrun.call_prepare h0
  rw [hprepare] at hstep hextends
  obtain ⟨hbase, -⟩ := (preparePublish_simulates h0).ok ⟨hrun.progress, hrun.built⟩ hprepare
  obtain ⟨-, hprepared⟩ := SourceManagerUpdate.preparePublish_sound h0.wf hrun.sound hbase
  have hnew := SourceManagerUpdate.preparePublish_newSources _ (i.beginUpdate.run calls).update rfl
  rw [hbase] at hnew
  exact ⟨hstep, hprepared, hextends, hnew⟩

end IndexedUpdate

theorem PathRun.pathIdentity {i : IndexedManager} (h : PathRun i) : i.PathIdentity := by
  induction h with
  | fresh => exact IndexedManager.pathIdentity_fresh
  | saved hreads hverified =>
    exact IndexedManager.pathIdentity_ofBaseline (hreads.indexed hverified)
  | abandoned _ calls ih =>
    exact ((IndexedUpdate.pathUpdate_begin ih).run ih calls).1.progress.owner ih
  | published _ calls hprepare hfit ih =>
    obtain ⟨hstep, hprepared, -, -⟩ := IndexedUpdate.run_prepared ih calls hprepare
    exact (hstep.published ih hprepared hfit).1

/-- Ids keep their paths from `path` to `path'`. -/
def KeepsIds (count : Nat) (path : Nat → Bytes) (count' : Nat) (path' : Nat → Bytes) : Prop :=
  count ≤ count' ∧ ∀ s ≤ count, path' s = path s

def ProbesEnd {α : Type} (result : EStateM.Result PathFailure IndexedUpdate α) : Prop :=
  ∀ j, result ≠ .error .endless j

/-- What `resolve_normalized` may answer: the id of the path, the next one where the path is new. -/
def Resolves (i : IndexedUpdate) (p : Bytes) : Prop :=
  ProbesEnd (IndexedUpdate.resolveNormalized p i) ∧
    (p ≠ [] → i.sourceCount < u32Max →
      ∃ source j, IndexedUpdate.resolveNormalized p i = .ok source j) ∧
    ∀ source j, IndexedUpdate.resolveNormalized p i = .ok source j →
      source ≠ 0 ∧ source ≤ j.sourceCount ∧ j.path source = p ∧
        j.sourceCount = max i.sourceCount source ∧ KeepsIds i.sourceCount i.path j.sourceCount j.path

namespace IndexedUpdate

theorem PathUpdate.resolves {i0 : IndexedManager} (h0 : i0.PathIdentity) {i : IndexedUpdate}
    (h : PathUpdate i0 i) (p : Bytes) : Resolves i p := by
  rcases resolveNormalized_spec h0 h.progress p with ⟨code, hrun, hbase⟩ |
    ⟨source, j, hrun, -, hj, hne, hle, hpath, hcase⟩
  · refine ⟨fun j hj => ?_, fun hp hroom => ?_, fun source j hj => ?_⟩
    · rw [hrun] at hj
      cases hj
    · have hroom : i.update.sourceCount < u32Max := hroom
      unfold SourceManagerUpdate.resolveNormalized at hbase
      rw [if_neg (by simp [h.progress.progress.pending, hp])] at hbase
      split at hbase
      · cases hbase
      · split at hbase
        · cases hbase
        · rw [if_neg (by omega)] at hbase
          cases hbase
    · rw [hrun] at hj
      cases hj
  · have hkeeps : KeepsIds i.sourceCount i.path j.sourceCount j.path := by
      apply h.progress.extends_path hj
      rcases hcase with rfl | ⟨-, -, -, hmore⟩
      · exact .refl _
      · exact hmore
    refine ⟨fun j' hj' => ?_, fun _ _ => ⟨source, j, hrun⟩, fun source' j' hj' => ?_⟩
    · rw [hrun] at hj'
      cases hj'
    · rw [hrun] at hj'
      cases hj'
      refine ⟨hne, hle, hpath, ?_, hkeeps⟩
      rcases hcase with rfl | ⟨hsource, hcount, -⟩
      · exact (Nat.max_eq_left hle).symm
      · rw [hcount, hsource]
        exact (Nat.max_eq_right (Nat.le_succ _)).symm

end IndexedUpdate

namespace SourceManagerUpdate

theorem publishSource_truncated {m : SourceManager} (hb : m.baseline = none) {item : NewSource}
    (hlength : item.normalizedPath.length % (u32Max + 1) = 0) :
    (publishSource m item).path (m.records.size + 1) = [] := by
  have hsize : (publishSource m item).records.size = m.records.size + 1 :=
    MappedVector.pushBack_size m.records _
  have hbaseline : (publishSource m item).baseline = none := hb
  have hpush : (publishSource m item).records = m.records.pushBack
      ⟨m.pathStorage.size % (u32Max + 1), item.normalizedPath.length % (u32Max + 1)⟩ := rfl
  unfold SourceManager.path
  rw [hsize, hbaseline, if_neg (by simp)]
  unfold SourceManager.path.stored
  dsimp only
  rw [Nat.add_sub_cancel, hpush, MappedVector.pushBack_value, if_pos rfl, hlength]
  split
  · rfl
  · exact Slice.slice_zero _ _

/-- An update of a new manager with one path, its index prepared for `slots` slots. -/
def onePath (p : Bytes) (slots : Nat) : SourceManagerUpdate :=
  { owner := {}, newSources := [⟨1, p⟩], preparedPathIndexSlots := slots }

theorem preparePublish_large {p : Bytes} (hlength : p.length = 4294967296) :
    ∃ v, preparePublish (onePath p 0) = .ok () v := by
  have hindex : preparePathIndex (onePath p 0) = .ok () (onePath p 16) := rfl
  have hadded : addedPathBytes (onePath p 16) = 4294967296 := by
    simp [addedPathBytes, onePath, hlength]
  have hbytes : checkPathBytes (onePath p 16) = .ok () (onePath p 16) := by
    unfold checkPathBytes
    rw [hadded]
    rfl
  have hreserve : reserveNewSources (onePath p 16) = .ok () { onePath p 16 with
      owner := ({} : SourceManager).reserveSources 65 4563402752
      preparedPathStorageSize := 4294967296 } := by
    have hsources : incrementalHeadroom 1 64 = some 65 := by decide
    have hpaths : incrementalHeadroom 4294967296 4096 = some 4563402752 := by decide
    have hsize : (onePath p 16).owner.records.size = 0 := rfl
    have hstorage : (onePath p 16).owner.pathStorage.size = 0 := rfl
    have hbacked : ¬(onePath p 16).owner.baselineBacked = true := by
      simp [onePath, SourceManager.baselineBacked]
    have hcount : (onePath p 16).newSources.length = 1 := rfl
    unfold reserveNewSources
    rw [hadded, hstorage, Nat.zero_add]
    rw [if_neg hbacked, if_pos hsize, hcount, hsources, hpaths]
    rfl
  have hnew : prepareNewSources (onePath p 0) = .ok () { onePath p 16 with
      owner := ({} : SourceManager).reserveSources 65 4563402752
      preparedPathStorageSize := 4294967296 } := by
    have hne : ¬(onePath p 0).newSources = [] := by simp [onePath]
    unfold prepareNewSources
    rw [if_neg hne, bind_eq, hindex]
    dsimp only
    rw [bind_eq, hbytes]
    exact hreserve
  have h : preparePublish (onePath p 0) = (do
      prepareNewSources
      prepareTextBytes
      prepareGeneration
      prepareSources
      prepareAbsorb
      modify markPrepared : UpdateM Unit) (onePath p 0) := rfl
  rw [h, bind_eq, hnew]
  exact ⟨_, rfl⟩

end SourceManagerUpdate

end ServerEngine
