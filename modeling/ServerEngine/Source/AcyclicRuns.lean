import ServerEngine.Source.Dependents
import ServerEngine.Source.GraphCheck

/-! # Acyclic include graphs

A check from the sources whose include lists an update replaced is as good as the check of the whole
graph when the committed graph is acyclic, and every publication that either check accepted leaves
an acyclic graph. Include lists have no entry twice.
-/
namespace ServerEngine
open Transaction

namespace SourceManager

/-- Committed include lists are over the sources, no list with an entry twice. -/
structure IncludeGraph (m : SourceManager) : Prop where
  edges : ∀ a, ∀ b ∈ m.includes a, b ≠ 0 ∧ b ≤ m.records.size
  distinct : ∀ a, (m.includes a).Nodup

theorem includeGraph_fresh : ({} : SourceManager).IncludeGraph ∧ ({} : SourceManager).Acyclic := by
  have hnone : ∀ a, ({} : SourceManager).includes a = [] := by
    intro a
    by_cases ha : a = 0
    · rw [ha]
      rfl
    · exact wf_fresh.edges_of_size_lt .includes (by simp [MappedVector.size]; omega)
  refine ⟨⟨fun a b hb => ?_, fun a => ?_⟩, fun a ha => ?_⟩
  · rw [hnone] at hb
    cases hb
  · rw [hnone]
    exact List.nodup_nil
  · obtain ⟨b, hb, -⟩ := Relation.TransGen.head'_iff.mp ha
    rw [hnone] at hb
    cases hb

end SourceManager

namespace SourceManagerUpdate

/-! ## Replaced include lists -/

def Call.Distinct : Call → Prop
  | .setIncludes _ dependencies => dependencies.Nodup
  | _ => True

/-- The call is no `set_includes`. -/
def Call.KeepsIncludes : Call → Prop
  | .setIncludes _ _ => False
  | _ => True

def ListsDistinct (u : SourceManagerUpdate) : Prop :=
  ∀ x l, u.overlay .includes x = some l → l.Nodup

def Covers (u : SourceManagerUpdate) (changed : List Nat) : Prop :=
  ∀ c ∈ u.candidates, c.hasIncludes = true → c.source ∈ changed

variable {u : SourceManagerUpdate} {changed : List Nat}

theorem Covers.kept (h : u.Covers changed) {a : Nat} (ha : a ∉ changed) :
    u.overlay .includes a = none := by
  unfold overlay
  cases hfind : u.candidate a with
  | none => rfl
  | some c =>
    obtain ⟨hc, rfl⟩ := candidate_some hfind
    have hno : c.hasIncludes ≠ true := fun hhas => ha (h c hc hhas)
    simp [CandidateSource.has, hno]

theorem applyPatch_includes (p : EdgePatch) (o : Nat → Option (List Nat)) :
    Keeps (fun u => ∀ x, u.overlay .includes x = o x) (applyPatch p) := by
  intro u hu x
  cases h : applyPatch p u with
  | error code v =>
    rw [left_error, applyPatch_error h]
    exact hu x
  | ok a v => exact ((applyPatch_ok h).includes x).trans (hu x)

theorem preparePublish_includes (o : Nat → Option (List Nat)) :
    Keeps (fun u => ∀ x, u.overlay .includes x = o x) preparePublish := by
  have howner : ∀ {α : Type} (x : EStateM StatusCode SourceManager α),
      Keeps (fun u => ∀ x, u.overlay .includes x = o x) (onOwner x) := by
    intro α x u hu
    unfold onOwner
    split <;> exact hu
  have hlater : ∀ {x : UpdateM Unit}, (∀ u0 : SourceManagerUpdate, Keeps (Later u0) x) →
      Keeps (fun u => ∀ x, u.overlay .includes x = o x) x := by
    intro x hx u hu y
    have hv := hx u u (.refl u)
    rw [overlay, candidate, hv.candidates]
    exact hu y
  intro u hu
  unfold preparePublish
  split
  · exact hu
  · split
    · exact hu
    · have hpatches : Keeps (fun u => ∀ x, u.overlay .includes x = o x)
          prepareDependentPatches := fun u hu =>
        keeps_bind (howner _) (fun _ => keeps_forM fun p _ => applyPatch_includes p o) u hu
      refine keeps_bind hpatches (fun _ =>
        keeps_bind (hlater fun _ => prepareNewSources_later) fun _ =>
        keeps_bind (hlater fun _ => prepareTextBytes_later) fun _ =>
        keeps_bind (hlater fun _ => prepareGeneration_later) fun _ =>
        keeps_bind (hlater fun _ => prepareSources_later) fun _ =>
        keeps_bind (hlater fun _ => prepareAbsorb_later) fun _ => ?_) u hu
      intro u hu
      exact hu

theorem setIncludes_overlay (source : Nat) (dependencies : List Nat) (u : SourceManagerUpdate)
    (x : Nat) :
    (left (setIncludes source dependencies u)).overlay .includes x = u.overlay .includes x ∨
      (left (setIncludes source dependencies u)).overlay .includes x = some dependencies := by
  unfold setIncludes
  split
  · exact .inl rfl
  · split
    · exact .inl rfl
    · rw [bind_eq]
      cases h : touch source u with
      | error code v =>
        obtain rfl := touch_error h
        exact .inl rfl
      | ok a v =>
        have htouch := (touch_ok h).overlay .includes x
        show (storeIncludes source dependencies v).overlay .includes x = _ ∨
          (storeIncludes source dependencies v).overlay .includes x = _
        have hf : ∀ c : CandidateSource, ({ c with includes := dependencies, hasIncludes := true } :
          CandidateSource).source = c.source := fun _ => rfl
        have hstore : (storeIncludes source dependencies v).overlay .includes x =
            if x = source then (v.candidate source).bind fun _ => some dependencies
            else v.overlay .includes x := overlay_updateCandidate v source hf .includes x
        rw [hstore]
        split
        · rename_i hx
          cases hfind : v.candidate source with
          | none =>
            left
            rw [← htouch, overlay, hx, hfind]
            rfl
          | some c => exact .inr rfl
        · exact .inl htouch

theorem call_includes (u : SourceManagerUpdate) {c : Call} (hc : c.KeepsIncludes) (x : Nat) :
    (u.call c).overlay .includes x = u.overlay .includes x := by
  cases c with
  | resolve normalized =>
    show (left (resolveNormalized normalized u)).overlay .includes x = _
    unfold resolveNormalized
    split
    · rfl
    · split
      · rfl
      · split
        · rfl
        · split <;> rfl
  | applyAcquire source kind =>
    show (left (SourceManagerUpdate.applyAcquire source kind u)).overlay .includes x = _
    unfold SourceManagerUpdate.applyAcquire
    split
    · rfl
    · split
      · rfl
      · exact (touched_overlay fun v => acquireTouched_frame source kind _ v .includes).2.2 x
  | setIncludes source dependencies => cases hc
  | preparePublish =>
    exact preparePublish_includes (u.overlay .includes) u (fun _ => rfl) x
  | readEdges kind source => rfl

variable {calls : List Call}

theorem run_includes (u : SourceManagerUpdate) (hcalls : ∀ c ∈ calls, c.KeepsIncludes) (x : Nat) :
    (u.run calls).overlay .includes x = u.overlay .includes x := by
  induction calls generalizing u with
  | nil => rfl
  | cons c calls ih =>
    have hrest := ih (u.call c) fun d hd => hcalls d (by simp [hd])
    exact hrest.trans (u.call_includes (hcalls c (by simp)) x)

theorem run_listsDistinct (hu : u.ListsDistinct) (hcalls : ∀ c ∈ calls, c.Distinct) :
    (u.run calls).ListsDistinct := by
  induction calls generalizing u with
  | nil => exact hu
  | cons c calls ih =>
    have hstep : (u.call c).ListsDistinct := by
      intro x l hl
      cases c with
      | setIncludes source dependencies =>
        rcases setIncludes_overlay source dependencies u x with heq | heq
        · exact hu x l (heq.symm.trans hl)
        · have hsame : some l = some dependencies := hl.symm.trans heq
          rw [Option.some.inj hsame]
          exact hcalls (.setIncludes source dependencies) (by simp)
      | resolve normalized =>
        exact hu x l ((@call_includes u (.resolve normalized) trivial x).symm.trans hl)
      | applyAcquire source kind =>
        exact hu x l ((@call_includes u (.applyAcquire source kind) trivial x).symm.trans hl)
      | preparePublish =>
        exact hu x l ((@call_includes u .preparePublish trivial x).symm.trans hl)
      | readEdges kind source =>
        exact hu x l ((@call_includes u (.readEdges kind source) trivial x).symm.trans hl)
    exact ih hstep fun d hd => hcalls d (by simp [hd])

theorem listsDistinct_begin (m : SourceManager) : m.beginUpdate.ListsDistinct := by
  intro x l hl
  cases hl

/-! ## The graph of an update -/

variable {m : SourceManager}

theorem Progress.includes_eq (hm : m.Wf) (hu : Progress m u) (a : Nat) :
    u.includes a = (u.overlay .includes a).getD (m.includes a) := by
  rw [SourceManagerUpdate.includes_eq, edges, hu.grown.edges hm]
  rfl

theorem Progress.includeGraph (hm : m.Wf) (hg : m.IncludeGraph) (hu : Progress m u)
    (hd : u.ListsDistinct) : u.IncludeGraph := by
  have hcount : m.records.size ≤ u.sourceCount := by
    rw [sourceCount, hu.grown.records.size]
    omega
  refine ⟨hu.count, fun a b hb => ?_, fun a => ?_⟩
  · rw [hu.includes_eq hm] at hb
    cases hover : u.overlay .includes a with
    | none =>
      rw [hover] at hb
      have hb : b ∈ m.includes a := hb
      obtain ⟨hb0, hble⟩ := hg.edges a b hb
      have ha0 : a ≠ 0 := by
        rintro rfl
        cases hb
      have hale : a ≤ m.records.size := by
        by_contra hlt
        have hempty : m.includes a = [] := hm.edges_of_size_lt .includes (by
          rw [hm.statesSize]
          omega)
        rw [hempty] at hb
        cases hb
      exact ⟨validSource_iff.mpr ⟨ha0, by omega⟩, validSource_iff.mpr ⟨hb0, by omega⟩⟩
    | some l =>
      rw [hover] at hb
      unfold overlay at hover
      obtain ⟨c, hfind, hl⟩ := Option.bind_eq_some_iff.mp hover
      obtain ⟨hc, rfl⟩ := candidate_some hfind
      split at hl
      · rename_i hhas
        obtain rfl := Option.some.inj hl
        exact ⟨hu.valid c hc, hu.targets c hc hhas b hb⟩
      · cases hl
  · rw [hu.includes_eq hm]
    cases hover : u.overlay .includes a with
    | none => exact hg.distinct a
    | some l => exact hd a l hover

theorem IncludeGraph.length_le (h : u.IncludeGraph) (a : Nat) : (u.includes a).length ≤ u32Max := by
  have hsub : u.includes a ⊆ u.sourceIds := fun b hb => mem_sourceIds.mpr (h.edges a b hb).2
  have hlen := (List.subperm_of_subset (h.distinct a) hsub).length_le
  rw [sourceIds, List.length_map, List.length_range] at hlen
  exact Nat.le_trans hlen h.count

theorem published_includes (hm : m.Wf) (hg : m.IncludeGraph) {v : SourceManagerUpdate}
    (hu : Sound m u) (hd : u.ListsDistinct) (h : preparePublish u = .ok () v) :
    (∀ a, (publishPrepared v).owner.includes a = u.includes a) ∧
      (publishPrepared v).owner.IncludeGraph := by
  obtain ⟨hsound, hp⟩ := preparePublish_sound hm hu h
  have hover := preparePublish_overlay hm hu h
  have hv : v.ListsDistinct := by
    intro x l hl
    rw [hover] at hl
    exact hd x l hl
  have hgraph := hsound.progress.includeGraph hm hg hv
  have hincludes : ∀ a, (publishPrepared v).owner.includes a = v.includes a := by
    intro a
    have hlen : ((v.overlay .includes a).getD []).length ≤ u32Max := by
      have hall := hgraph.length_le a
      rw [hsound.progress.includes_eq hm] at hall
      cases hcase : v.overlay .includes a with
      | none => exact Nat.zero_le _
      | some l =>
        rw [hcase] at hall
        exact hall
    rw [SourceManager.includes, publishPrepared_edges hm hsound hp, if_pos hlen,
      SourceManagerUpdate.includes_eq]
  have hrecords : (publishPrepared v).owner.records.size = v.sourceCount := by
    rw [publishPrepared_owner hp hsound.progress.pending]
    show (v.candidates.foldl publishCandidate v.publishedSources).records.size = v.sourceCount
    rw [(publishedCandidates_spec hm hsound hp).records,
      (publishedSources_spec hm hsound.progress).records]
    rfl
  refine ⟨fun a => ?_, ⟨fun a b hb => ?_, fun a => ?_⟩⟩
  · rw [hincludes, hsound.progress.includes_eq hm, hu.progress.includes_eq hm, hover]
  · rw [hincludes] at hb
    rw [hrecords]
    exact validSource_iff.mp (hgraph.edges a b hb).2
  · rw [hincludes]
    exact hgraph.distinct a

/-! ## Validated publications -/

/-- One of the two checks accepted the update, the sparse one from all replaced lists. -/
def Validated (u : SourceManagerUpdate) : Prop :=
  u.validateSourceGraph = some (.ok ()) ∨
    ∃ changed visited n, u.Covers changed ∧
      u.validateChangedSourceGraph changed visited = some (.ok n)

theorem validateChanged_valid {visited n : Nat}
    (h : u.validateChangedSourceGraph changed visited = some (.ok n)) :
    ∀ root ∈ changed, u.validSource root = true := by
  induction changed generalizing visited with
  | nil => simp
  | cons root rest ih =>
    rw [validateChangedSourceGraph] at h
    split at h
    · cases h
    · rename_i hvalid
      have hroot : u.validSource root = true := by simpa using hvalid
      intro r hr
      cases hr with
      | head => exact hroot
      | tail _ hr =>
        split at h
        · cases h
        · cases h
        · cases h
        · exact ih h r hr

theorem run_checks_agree (hm : m.Wf) (hcount : m.records.size ≤ u32Max) (hg : m.IncludeGraph)
    (hacyclic : m.Acyclic) (hcalls : ∀ c ∈ calls, c.Distinct)
    (hvalid : ∀ root ∈ changed, (m.beginUpdate.run calls).validSource root = true)
    (hcovers : (m.beginUpdate.run calls).Covers changed) (visited : Nat) :
    ((∃ n, (m.beginUpdate.run calls).validateChangedSourceGraph changed visited = some (.ok n)) ∧
        (m.beginUpdate.run calls).validateSourceGraph = some (.ok ()) ∧
          ∀ a, ¬(m.beginUpdate.run calls).TransIncludes a a) ∨
      ((m.beginUpdate.run calls).validateChangedSourceGraph changed visited =
          some (.error .semanticConflict) ∧
        (m.beginUpdate.run calls).validateSourceGraph = some (.error .semanticConflict) ∧
          ∃ a, (m.beginUpdate.run calls).TransIncludes a a) := by
  have hsound := run_sound hm (sound_begin hcount) calls
  have hgraph := hsound.progress.includeGraph hm hg
    (run_listsDistinct (listsDistinct_begin m) hcalls)
  refine hgraph.checks_agree hacyclic hvalid (fun a ha => ?_) visited
  rw [hsound.progress.includes_eq hm, hcovers.kept ha]
  rfl

theorem Validated.acyclic (hm : m.Wf) (hcount : m.records.size ≤ u32Max) (hg : m.IncludeGraph)
    (hacyclic : m.Acyclic) (hcalls : ∀ c ∈ calls, c.Distinct)
    (h : (m.beginUpdate.run calls).Validated) (a : Nat) :
    ¬(m.beginUpdate.run calls).TransIncludes a a := by
  rcases h with hfull | ⟨changed, visited, n, hcovers, hsparse⟩
  · have hsound := run_sound hm (sound_begin hcount) calls
    have hgraph := hsound.progress.includeGraph hm hg
      (run_listsDistinct (listsDistinct_begin m) hcalls)
    rcases hgraph.validateSourceGraph_iff with ⟨-, hnone⟩ | ⟨hbad, -⟩
    · exact hnone a
    · rw [hfull] at hbad
      cases hbad
  · rcases run_checks_agree hm hcount hg hacyclic hcalls (validateChanged_valid hsparse) hcovers
      visited with ⟨-, -, hnone⟩ | ⟨hbad, -⟩
    · exact hnone a
    · rw [hsparse] at hbad
      cases hbad

end SourceManagerUpdate

namespace SourceManager
open SourceManagerUpdate

/-- Runs over a fresh manager or an acyclic image in which each publication was validated after its
last change of an include list. -/
inductive ValidatedRun : SourceManager → Prop
  | fresh : ValidatedRun {}
  | saved (b : Baseline) (hgraph : (ofBaseline b).IncludeGraph)
      (hacyclic : (ofBaseline b).Acyclic) : ValidatedRun (ofBaseline b)
  | abandoned {m : SourceManager} (h : ValidatedRun m) (calls : List Call) :
      ValidatedRun (m.beginUpdate.run calls).owner
  | published {m : SourceManager} (h : ValidatedRun m) (calls later : List Call)
      (hcalls : ∀ c ∈ calls, c.Distinct) (hlater : ∀ c ∈ later, c.KeepsIncludes)
      (hcheck : (m.beginUpdate.run calls).Validated) {u : SourceManagerUpdate}
      (hprepare : preparePublish ((m.beginUpdate.run calls).run later) = .ok () u) :
      ValidatedRun (publishPrepared u).owner

variable {m : SourceManager}

theorem ValidatedRun.reached (h : ValidatedRun m) : Reached m := by
  induction h with
  | fresh => exact .fresh
  | saved b _ _ => exact .saved b
  | abandoned _ calls ih => exact .abandoned ih calls
  | published _ calls later _ _ _ hprepare ih =>
    refine .published ih (calls ++ later) ?_
    unfold SourceManagerUpdate.run at hprepare ⊢
    rw [List.foldl_append]
    exact hprepare

theorem ValidatedRun.graph (h : ValidatedRun m) : m.IncludeGraph ∧ m.Acyclic := by
  induction h with
  | fresh => exact includeGraph_fresh
  | saved b hgraph hacyclic => exact ⟨hgraph, hacyclic⟩
  | @abandoned m h calls ih =>
    obtain ⟨hwf, hcount⟩ := h.reached.wf
    have hgrown := (run_sound hwf (sound_begin hcount) calls).progress.grown
    have hsame : ∀ a, (m.beginUpdate.run calls).owner.includes a = m.includes a :=
      hgrown.edges hwf .includes
    refine ⟨⟨fun a b hb => ?_, fun a => ?_⟩, ?_⟩
    · rw [hsame] at hb
      rw [hgrown.records.size]
      exact ih.1.edges a b hb
    · rw [hsame]
      exact ih.1.distinct a
    · unfold Acyclic TransIncludes
      simp only [hsame]
      exact ih.2
  | @published m h calls later hcalls hlater hcheck u hprepare ih =>
    obtain ⟨hwf, hcount⟩ := h.reached.wf
    obtain ⟨hg, hacyclic⟩ := ih
    have hsound := run_sound hwf (sound_begin hcount) calls
    have hlast := run_sound hwf hsound later
    have hdistinct := run_listsDistinct (listsDistinct_begin m) hcalls
    have hover := SourceManagerUpdate.run_includes (m.beginUpdate.run calls) hlater
    have hlists : ((m.beginUpdate.run calls).run later).ListsDistinct := by
      intro x l hl
      rw [hover] at hl
      exact hdistinct x l hl
    obtain ⟨hincludes, hgraph⟩ := published_includes hwf hg hlast hlists hprepare
    refine ⟨hgraph, ?_⟩
    have hsame : ∀ a, (publishPrepared u).owner.includes a =
        (m.beginUpdate.run calls).includes a := by
      intro a
      rw [hincludes, hlast.progress.includes_eq hwf, hover, ← hsound.progress.includes_eq hwf]
    unfold Acyclic TransIncludes
    simp only [hsame]
    exact hcheck.acyclic hwf hcount hg hacyclic hcalls

end SourceManager

namespace SourceManagerUpdate

def includeEachOther : List Call := includeOnce ++ [.setIncludes 2 [1]]

end SourceManagerUpdate

end ServerEngine
