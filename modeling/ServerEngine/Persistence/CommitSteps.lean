import ServerEngine.Persistence.CommitSections
import ServerEngine.Persistence.SelectorRoundTrip

/-! # The steps of a commit

Until CURRENT is replaced a commit changes nothing that was there before it, and when CURRENT is
replaced the transaction it names is complete.
-/
namespace ServerEngine
open Programs StoreVolume ByteFields

/-! ## The artifacts of a transaction -/

def contentArea (transaction : Bytes) (path : StorePath) : Prop :=
  ∃ artifact, artifactArea transaction artifact path

/-- What a call of `commit` is given, with the memory that its segments are in. -/
structure CommitRequest where
  memory : Memory
  input : CommitInput

def ArtifactWritten (request : CommitRequest) (transaction manifest : Bytes) :
    ArtifactFile → Files → Prop
  | .compiled => fun files => files (.file transaction .compiled) =
      some (request.input.generation.compiled.bytes request.memory)
  | .sourceManager => Stored request.memory transaction .sourceManager sourceManagerFormat
      request.input.generation.sources
  | .buildCache => Stored request.memory transaction .buildCache buildCacheFormat
      request.input.generation.build
  | .changeState => fun files => request.input.generation.change.size ≠ 0 →
      files (.file transaction .changeState) =
        some (request.input.generation.change.bytes request.memory)
  | .manifest => fun files => files (.file transaction .manifest) = some manifest

def Complete (request : CommitRequest) (transaction manifest : Bytes) (v : StoreVolume) : Prop :=
  ∃ files, Holds (contentArea transaction) files v ∧
    ∀ artifact, ArtifactWritten request transaction manifest artifact files

structure CompleteSelected (request : CommitRequest) (transaction : Bytes) (v : StoreVolume) : Prop where
  selected : ∃ selector manifest, v.read .current = some ⟨selector, true⟩ ∧
    commitManifest request.input transaction = .ok manifest ∧
    readCurrentSelector selector = .ok ⟨transaction, some manifest,
      if request.input.generation.change.bytes request.memory = [] then none
      else some (request.input.generation.change.bytes request.memory)⟩ ∧
    Complete request transaction manifest v

/-- The proofs of a commit are about the files that are mapped, and the frozen copies of their
bytes. -/
structure CommitRequest.Mapped (request : CommitRequest) (v : StoreVolume) : Prop where
  sourceManager : ∀ index proof, request.input.provenance.sourceManager index = some proof →
    proof.validates = true → ∀ node,
    v.read (.sectionFile proof.owner.transaction proof.artifact proof.sectionIndex) = some node →
    node = ⟨proof.bytes.bytes request.memory, true⟩
  buildCache : ∀ index proof, request.input.provenance.buildCache index = some proof →
    proof.baseline.validates = true → ∀ node,
    v.read (.sectionFile proof.baseline.owner.transaction proof.baseline.artifact
      proof.baseline.sectionIndex) = some node →
    node = ⟨proof.baseline.bytes.bytes request.memory, true⟩
  frozen : ∀ index proof, request.input.provenance.buildCache index = some proof →
    proof.frozen.bytes request.memory = proof.baseline.bytes.bytes request.memory

def Selects (v : StoreVolume) (transaction : Bytes) : Prop :=
  ∃ node selection, v.read .current = some node ∧
    readCurrentSelector node.content = .ok selection ∧ selection.transaction = transaction

def Settled (v : StoreVolume) (transaction : Bytes) : Prop :=
  v.entries (.transaction transaction) ≠ none ∧
    ∀ path node, contentArea transaction path → v.read path = some node → node.flushed = true

section Artifacts
variable {before : StoreVolume} {request : CommitRequest} {transaction manifest : Bytes}

theorem ArtifactWritten.congr {artifact : ArtifactFile} {files files' : Files}
    (hsame : ∀ path, artifactArea transaction artifact path → files' path = files path)
    (h : ArtifactWritten request transaction manifest artifact files) :
    ArtifactWritten request transaction manifest artifact files' := by
  have hstored : ∀ (sectioned : SectionedArtifact) (format : SectionFormat) (image : Segment),
      artifact = sectioned.file →
      Stored request.memory transaction sectioned format image files →
      Stored request.memory transaction sectioned format image files' := by
    rintro sectioned format image rfl (hwhole | ⟨hwhole, sections, hparse, hhead, hsections⟩)
    · left
      exact (hsame (.file transaction sectioned.file) rfl).trans hwhole
    · right
      refine ⟨(hsame (.file transaction sectioned.file) rfl).trans hwhole, sections, hparse,
        (hsame (.sectionPrefix transaction sectioned) rfl).trans hhead, ?_⟩
      intro index value hvalue
      exact (hsame (.sectionFile transaction sectioned index) rfl).trans
        (hsections index value hvalue)
  cases artifact with
  | compiled => exact (hsame (.file transaction .compiled) rfl).trans h
  | sourceManager => exact hstored .sourceManager _ _ rfl h
  | buildCache => exact hstored .buildCache _ _ rfl h
  | changeState => exact fun hchange =>
      (hsame (.file transaction .changeState) rfl).trans (h hchange)
  | manifest => exact (hsame (.file transaction .manifest) rfl).trans h

theorem sourceManager_ready (hmapped : request.Mapped before) {previous : Option Bytes}
    (hprevious : ∀ name, previous = some name → name ≠ transaction ∧ Settled before name) :
    WriterReady before transaction request.memory
      (sourceManagerWriter request.input.provenance) previous where
  borrow := by
    intro index value segment owner hborrow node hnode
    change borrowSourceManager _ index value segment = some owner at hborrow
    unfold borrowSourceManager at hborrow
    split at hborrow
    · cases hborrow
    · rename_i proof hproof
      split at hborrow
      · rename_i hvalid
        obtain ⟨hartifact, hindex, hvalidates, hextents, -⟩ := hvalid
        cases hborrow
        have hread := hmapped.sourceManager index proof hproof hvalidates node
        rw [hartifact, hindex] at hread
        rw [hread hnode, Segment.bytes, hextents]
        simp
      · cases hborrow
  previous := by
    intro name hname
    obtain ⟨hne, hsettled⟩ := hprevious name hname
    refine ⟨hne, fun index node hnode => ?_⟩
    exact hsettled.2 (.sectionFile name .sourceManager index) node ⟨.sourceManager, rfl⟩ hnode

theorem buildCache_ready (hmapped : request.Mapped before) {previous : Option Bytes}
    (hprevious : ∀ name, previous = some name → name ≠ transaction ∧ Settled before name) :
    WriterReady before transaction request.memory
      (buildCacheWriter request.input.provenance) previous where
  borrow := by
    intro index value segment owner hborrow node hnode
    change borrowBuildCache _ index value segment = some owner at hborrow
    unfold borrowBuildCache at hborrow
    split at hborrow
    · cases hborrow
    · rename_i proof hproof
      split at hborrow
      · rename_i hvalid
        obtain ⟨hfrozen, hartifact, hindex, hvalidates, -⟩ := hvalid
        cases hborrow
        have hread := hmapped.buildCache index proof hproof hvalidates node
        rw [hartifact, hindex] at hread
        rw [hread hnode, ← hmapped.frozen index proof hproof]
        simp only [Bool.and_eq_true, Segment.isContiguous, FrozenProvenance.validFor,
          decide_eq_true_eq] at hfrozen
        obtain ⟨hlength, hsize, -, hcurrent⟩ := hfrozen
        rw [Segment.bytes, ← hcurrent]
        rw [← hcurrent] at hsize
        unfold Segment.contiguous at hsize ⊢
        cases hextents : segment.extents with
        | nil =>
          rw [hextents] at hsize
          exact absurd rfl hsize
        | cons extent rest =>
          rw [hextents] at hlength
          have hrest : rest = [] := by
            apply List.length_eq_zero_iff.mp
            rw [List.length_cons] at hlength
            omega
          subst hrest
          simp
      · cases hborrow
  previous := by
    intro name hname
    obtain ⟨hne, hsettled⟩ := hprevious name hname
    refine ⟨hne, fun index node hnode => ?_⟩
    exact hsettled.2 (.sectionFile name .buildCache index) node ⟨.buildCache, rfl⟩ hnode

theorem writeFile_meets {artifact : ArtifactFile} (bytes : Bytes) :
    TaskMeets before transaction (artifactArea transaction artifact) (.file transaction artifact)
      (fun files => ∀ path, artifactArea transaction artifact path → files path = none)
      (StoreM.write (.file transaction artifact) bytes)
      fun _ files => files (.file transaction artifact) = some bytes := by
  refine meets_of_files ?_
  intro files hempty
  have hpath : artifactArea transaction artifact (.file transaction artifact) := rfl
  refine (task_write (fun _ => artifactArea_inside) hpath (hempty _ hpath)).conseq (fun _ h => h) ?_
  intro result s hs
  cases result with
  | ok value =>
    refine Holding.mono ?_ hs
    rintro _ rfl
    exact Function.update_self _ _ _
  | error code => exact ⟨hs.1, fun hcode => by rw [hs.2] at hcode; cases hcode⟩

theorem artifactTask_meets (hmapped : request.Mapped before) {previous : PreviousSections}
    (hsources : ∀ name, previous.sourceManager = some name →
      name ≠ transaction ∧ Settled before name)
    (hbuild : ∀ name, previous.buildCache = some name → name ≠ transaction ∧ Settled before name)
    (artifact : ArtifactFile) :
    TaskMeets before transaction (artifactArea transaction artifact) (.file transaction artifact)
      (fun files => ∀ path, artifactArea transaction artifact path → files path = none)
      (artifactTask request.memory request.input transaction manifest previous artifact)
      fun _ => ArtifactWritten request transaction manifest artifact := by
  cases artifact with
  | compiled => exact writeFile_meets _
  | sourceManager =>
    simp only [artifactTask]
    split
    · refine (writeFile_meets _).conseq (fun _ h => h) ?_
      intro result s hs
      cases result with
      | ok value => exact Holding.mono (fun _ h => .inl h) hs
      | error code => exact hs
    · exact writeArtifact_meets (sourceManager_ready hmapped hsources) _
  | buildCache => exact writeArtifact_meets (buildCache_ready hmapped hbuild) _
  | changeState =>
    refine (writeFile_meets _).conseq (fun _ h => h) ?_
    intro result s hs
    cases result with
    | ok value => exact Holding.mono (fun _ h _ => h) hs
    | error code => exact hs
  | manifest => exact writeFile_meets _

end Artifacts

/-! ## What a commit leaves as it was -/

/-- CURRENT and the transactions that were there are as they were. -/
structure Untouched (before v : StoreVolume) : Prop where
  sound : v.Sound
  kept : ∀ path name, path.inside = some name → before.entries (.transaction name) ≠ none →
    before.Same v path
  current : before.Same v .current

/-- CURRENT selects a transaction that is new; the others are as they were. -/
structure Published (before : StoreVolume) (request : CommitRequest) (transaction : Bytes)
    (v : StoreVolume) : Prop where
  sound : v.Sound
  kept : ∀ path name, path.inside = some name → before.entries (.transaction name) ≠ none →
    before.Same v path
  fresh : before.entries (.transaction transaction) = none
  selected : CompleteSelected request transaction v

def CommitGuarantee (before : StoreVolume) (request : CommitRequest) (v v' : StoreVolume) : Prop :=
  FilesKept v v' ∧ (Untouched before v' ∨ ∃ transaction, Published before request transaction v')

def ResultSpared : (op : StoreOp) → StoreAnswer op → Prop
  | .allocate .result, answer => answer = true
  | _, _ => True

/-- Operations of a process that has the memory for its results. -/
def SparedExec (v : StoreVolume) (op : StoreOp) (answer : StoreAnswer op) (v' : StoreVolume) :
    Prop :=
  StoreExec v op answer v' ∧ ResultSpared op answer

/-- A part of a commit, that leaves all as it was when it fails. -/
abbrev CommitMeets (before : StoreVolume) (request : CommitRequest) {α : Type}
    (pre : StoreVolume → Prop) (p : StoreM α) (post : α → StoreVolume → Prop) : Prop :=
  MeetsOr SparedExec (fun _ _ => False) (CommitGuarantee before request) pre p post
    fun _ => Untouched before

section Steps
variable {before v v' : StoreVolume} {request : CommitRequest} {transaction manifest : Bytes}
  {α β : Type} {pre : StoreVolume → Prop}

theorem Untouched.changed {area : StorePath → Prop} (h : Untouched before v)
    (hchanged : Changed area v v') (harea : ∀ path, area path → path ≠ .current ∧
      ∀ name, path.inside = some name → before.entries (.transaction name) = none) :
    Untouched before v' := by
  refine ⟨hchanged.sound, ?_, ?_⟩
  · intro path name hinside hthere
    refine (h.kept path name hinside hthere).trans (hchanged.same path ?_)
    exact fun hin => hthere ((harea path hin).2 name hinside)
  · exact h.current.trans (hchanged.same _ fun hin => (harea _ hin).1 rfl)

theorem Working.unpublished {name : Option Bytes} (h : Working before name v)
    (hfresh : ∀ transaction, name = some transaction →
      before.entries (.transaction transaction) = none) : Untouched before v := by
  refine ⟨h.sound, ?_, ?_⟩
  · intro path other hinside hthere
    apply h.same
    rintro (rfl | htemp | ⟨-, hin⟩)
    · cases hinside
    · cases path with
      | selectorTemp number => cases hinside
      | _ => cases htemp
    · rw [hinside] at hin
      exact hthere (hfresh other hin.symm)
  · apply h.same
    rintro (hroot | htemp | ⟨hinside, -⟩)
    · cases hroot
    · cases htemp
    · exact hinside rfl

namespace CommitMeets
variable {post : α → StoreVolume → Prop} {p : StoreM α}

theorem bind {k : α → StoreM β} {post' : β → StoreVolume → Prop}
    (h : CommitMeets before request pre p post)
    (hnext : ∀ value, CommitMeets before request (post value) (k value) post') :
    CommitMeets before request pre (p >>= k) post' :=
  MeetsOr.bind (fun _ _ _ h _ => h.elim) h hnext

theorem pure {value : α} (h : ∀ v, pre v → post value v) :
    CommitMeets before request pre (Pure.pure value : StoreM α) post :=
  MeetsOr.pure (fun _ _ h _ => h.elim) h

theorem throw {code : StatusCode} (h : ∀ v, pre v → Untouched before v) :
    CommitMeets before request pre (MonadExcept.throw code : StoreM α) post :=
  MeetsOr.throw (fun _ _ h _ => h.elim) h

theorem result (r : Except StatusCode α) (h : ∀ v, pre v → Untouched before v) :
    CommitMeets before request pre (ExceptT.mk (Pure.pure r)) fun value v =>
      pre v ∧ r = .ok value := by
  refine Meets.done (fun _ _ h _ => h.elim) ?_
  intro s hs
  cases r with
  | ok value => exact ⟨hs, rfl⟩
  | error code => exact h s hs

theorem ask {op : StoreOp} {k : StoreAnswer op → StoreM α}
    {mid : StoreAnswer op → StoreVolume → Prop}
    (hexec : ∀ v answer v', pre v → StoreExec v op answer v' →
      CommitGuarantee before request v v' ∧ mid answer v')
    (hnext : ∀ answer, CommitMeets before request (mid answer) (k answer) post) :
    CommitMeets before request pre (ExceptT.lift (ServerEngine.ask op) >>= k) post := by
  change Meets _ _ _ _ ((ServerEngine.ask op).bind fun answer => (k answer).run) _
  refine Meets.bind (Meets.perform (fun _ _ h _ => h.elim) (fun _ _ _ h _ => h.elim) ?_) hnext
  exact fun v answer v' hv hstep => hexec v answer v' hv hstep.1

theorem attempt {q : StoreProg (Except StatusCode α)} {mid : Except StatusCode α → StoreVolume → Prop}
    (h : Meets SparedExec (fun _ _ => False) (CommitGuarantee before request) pre q mid)
    (hok : ∀ value v, mid (.ok value) v → post value v)
    (herror : ∀ code v, mid (.error code) v → Untouched before v) :
    CommitMeets before request pre (ExceptT.mk q) post := by
  refine Meets.conseq h (fun _ h => h) ?_
  intro answer s hs
  cases answer with
  | ok value => exact hok value s hs
  | error code => exact herror code s hs

end CommitMeets

theorem Untouched.guarantee (h : Untouched before v) : CommitGuarantee before request v v :=
  ⟨.refl v, .inl h⟩

theorem commit_keep {op : StoreOp} {fact : StoreAnswer op → StoreVolume → Prop}
    (hpre : ∀ v, pre v → Untouched before v)
    (hexec : ∀ v answer v', pre v → StoreExec v op answer v' → v' = v ∧ fact answer v) :
    Meets SparedExec (fun _ _ => False) (CommitGuarantee before request) pre (ask op)
      fun answer v => pre v ∧ fact answer v := by
  refine Meets.perform (fun _ _ h _ => h.elim) (fun _ _ _ h _ => h.elim) ?_
  intro s answer s' hs hstep
  obtain ⟨rfl, hfact⟩ := hexec s answer s' hs hstep.1
  exact ⟨(hpre _ hs).guarantee, hs, hfact⟩

theorem allocate_meets (point : AllocationPoint) (hpre : ∀ v, pre v → Untouched before v) :
    CommitMeets before request pre (StoreM.allocate point) fun _ => pre := by
  refine @CommitMeets.ask _ _ _ _ _ _ _ (fun _ => pre) ?_ ?_
  · intro v answer v' hv hstep
    rw [exec_allocate hstep]
    exact ⟨(hpre v hv).guarantee, hv⟩
  · intro spare
    cases spare with
    | false => exact CommitMeets.throw hpre
    | true => exact CommitMeets.pure fun _ h => h

theorem flush_meets (path : StorePath) (hpre : ∀ v, pre v → Untouched before v) :
    CommitMeets before request pre (StoreM.flush path) fun _ => pre := by
  refine CommitMeets.attempt (@commit_keep _ _ _ (.flush path) (fun _ _ => True) hpre ?_)
    (fun _ _ h => h.1) fun _ v h => hpre v h.1
  intro v answer v' _ hstep
  exact ⟨(exec_flush hstep).1, trivial⟩

theorem lineage_transaction {name : Bytes} {path : StorePath}
    (h : StorePath.transaction name ∈ path.lineage) : path.inside = some name := by
  cases path <;> simp_all [StorePath.lineage, StorePath.inside]

theorem commit_cleaning (hfresh : before.entries (.transaction transaction) = none)
    {p : StoreM α} {post : α → StoreVolume → Prop} {code : StatusCode → StatusCode}
    (h : CommitMeets before request pre p post) :
    CommitMeets before request pre (StoreM.cleaning (.transaction transaction) code p) post := by
  refine cleaning_meets h (fun _ _ _ h _ => h.elim) (fun _ _ _ h _ => h.elim)
    (fun _ _ _ h _ => h.elim) ?_
  intro error s answer s' hfailed hstep
  have hchanged := (exec_removeTree hstep.1 hfailed.sound).1
  have hleft : Untouched before s' := by
    refine hfailed.changed hchanged ?_
    intro path hpath
    have hinside := lineage_transaction hpath
    refine ⟨?_, ?_⟩
    · rintro rfl
      cases hinside
    · intro name hname
      rw [hinside] at hname
      cases hname
      exact hfresh
  have hkept := filesKept_of_changed hchanged fun hcurrent => nomatch lineage_transaction hcurrent
  exact ⟨⟨hkept, .inl hleft⟩, hleft⟩

theorem TaskMeets.commit {area : StorePath → Prop} {whole : StorePath} {known : Files → Prop}
    {p : StoreM α} {post : α → Files → Prop}
    (hfresh : before.entries (.transaction transaction) = none)
    (h : TaskMeets before transaction area whole known p post) :
    CommitMeets before request (Holding before transaction area known) p
      fun value => Holding before transaction area (post value) := by
  have hunpublished : ∀ {v : StoreVolume}, Working before (some transaction) v →
      Untouched before v := by
    intro v hworking
    apply hworking.unpublished
    rintro name ⟨⟩
    exact hfresh
  refine Meets.mono (Meets.restrict (fun _ _ _ _ h => h.1) h) (fun _ _ h => h.elim) ?_
    (fun _ h => h) ?_
  · intro s s' hguarantee
    exact ⟨hguarantee.2.1, .inl (hunpublished hguarantee.1)⟩
  · intro result s hs
    cases result with
    | ok value => exact hs
    | error code => exact hunpublished hs.1

end Steps

end ServerEngine
