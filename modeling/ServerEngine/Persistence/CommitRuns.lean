import ServerEngine.Persistence.CommitSteps

/-! # Whole commits

From a store whose selected transaction is flushed a commit publishes a complete transaction, or it
fails and has changed nothing; and a collection of garbage leaves what is selected or pinned.
-/
namespace ServerEngine
open Programs StoreVolume ByteFields

section Commit
variable {before v v' : StoreVolume} {request : CommitRequest} {transaction manifest : Bytes}

/-! ## The artifacts -/

def Sofar (request : CommitRequest) (transaction manifest : Bytes) (done : ArtifactFile → Prop)
    (files : Files) : Prop :=
  (∀ artifact, done artifact → ArtifactWritten request transaction manifest artifact files) ∧
    ∀ artifact, ¬done artifact → files (.file transaction artifact) = none

theorem contentArea_inside {path : StorePath} (h : contentArea transaction path) :
    path.inside = some transaction := by
  obtain ⟨artifact, hartifact⟩ := h
  exact artifactArea_inside hartifact

theorem Holding.unpublished {area : StorePath → Prop} {known : Files → Prop}
    (hfresh : before.entries (.transaction transaction) = none)
    (h : Holding before transaction area known v) : Untouched before v := by
  apply h.1.unpublished
  rintro name ⟨⟩
  exact hfresh

variable {bytes : Bytes} {done : ArtifactFile → Prop} {files : Files}

theorem Sofar.written {artifact : ArtifactFile}
    (h : Sofar request transaction manifest done files)
    (hright : ∀ files : Files, files (.file transaction artifact) = some bytes → ArtifactWritten request transaction manifest artifact files) :
    Sofar request transaction manifest (fun other => done other ∨ other = artifact)
      (Function.update files (.file transaction artifact) (some bytes)) := by
  constructor
  · intro other hother
    by_cases heq : other = artifact
    · subst heq
      exact hright _ (Function.update_self _ _ _)
    · refine (h.1 other (hother.resolve_right heq)).congr ?_
      intro path hin
      apply Function.update_of_ne
      rintro rfl
      have hsame : (transaction, artifact) = (transaction, other) := Option.some.inj hin
      exact heq (congrArg Prod.snd hsame).symm
  · intro other hother
    rw [Function.update_of_ne]
    · exact h.2 other fun hdone => hother (.inl hdone)
    · intro heq
      injection heq with _ heq
      exact hother (.inr heq)

theorem writeWhole_meets (hfresh : before.entries (.transaction transaction) = none)
    (artifact : ArtifactFile) (hnot : ¬done artifact)
    (hright : ∀ files : Files, files (.file transaction artifact) = some bytes → ArtifactWritten request transaction manifest artifact files) :
    CommitMeets before request
      (Holding before transaction (contentArea transaction)
        (Sofar request transaction manifest done))
      (writeWhole transaction artifact bytes)
      fun _ => Holding before transaction (contentArea transaction)
        (Sofar request transaction manifest fun other => done other ∨ other = artifact) := by
  have hpath : contentArea transaction (.file transaction artifact) := ⟨artifact, rfl⟩
  have hwrite : TaskMeets before transaction (contentArea transaction) (.file transaction artifact)
      (Sofar request transaction manifest done) (StoreM.write (.file transaction artifact) bytes)
      fun _ => Sofar request transaction manifest fun other => done other ∨ other = artifact := by
    refine meets_of_files ?_
    intro files hsofar
    refine (task_write (fun _ => contentArea_inside) hpath (hsofar.2 artifact hnot)).conseq
      (fun _ h => h) ?_
    intro result s hs
    cases result with
    | error code => exact ⟨hs.1, fun hcode => by rw [hs.2] at hcode; cases hcode⟩
    | ok value =>
      refine Holding.mono ?_ hs
      rintro _ rfl
      exact hsofar.written hright
  refine CommitMeets.bind (allocate_meets .artifacts fun _ => Holding.unpublished hfresh) ?_
  intro _
  exact commit_cleaning hfresh (hwrite.commit hfresh)

theorem writeSequential_meets (hfresh : before.entries (.transaction transaction) = none) :
    CommitMeets before request
      (Holding before transaction (contentArea transaction)
        (Sofar request transaction manifest fun _ => False))
      (writeSequential request.memory request.input transaction manifest)
      fun _ => Holding before transaction (contentArea transaction) fun files =>
        ∀ artifact, ArtifactWritten request transaction manifest artifact files := by
  let done : ArtifactFile → Prop := fun other =>
    (((False ∨ other = .compiled) ∨ other = .sourceManager) ∨ other = .changeState)
  have hrest : CommitMeets before request
      (Holding before transaction (contentArea transaction)
        (Sofar request transaction manifest done))
      (do
        writeWhole transaction .buildCache
          (request.input.generation.build.bytes request.memory)
        writeWhole transaction .manifest manifest)
      fun _ => Holding before transaction (contentArea transaction) fun files =>
        ∀ artifact, ArtifactWritten request transaction manifest artifact files := by
    refine CommitMeets.bind (writeWhole_meets hfresh .buildCache (by simp [done])
      fun _ h => .inl h) ?_
    intro _
    refine Meets.conseq (writeWhole_meets hfresh .manifest (by simp [done]) fun _ h => h)
      (fun _ h => h) ?_
    intro result s hs
    cases result with
    | error code => exact hs
    | ok value =>
      refine Holding.mono ?_ hs
      intro files hsofar artifact
      apply hsofar.1
      cases artifact <;> simp [done]
  refine CommitMeets.bind (writeWhole_meets hfresh .compiled id fun _ h => h) ?_
  intro _
  refine CommitMeets.bind (writeWhole_meets hfresh .sourceManager (by simp) fun _ h => .inl h) ?_
  intro _
  split
  · refine CommitMeets.bind (writeWhole_meets hfresh .changeState (by simp) fun _ h _ => h) ?_
    exact fun _ => hrest
  · rename_i hempty
    refine hrest.conseq (fun v hv => hv.mono ?_) fun _ _ h => h
    rintro files ⟨hdone, hnone⟩
    refine ⟨?_, fun other hother => hnone other fun h => hother (.inl h)⟩
    rintro other (hother | rfl)
    · exact hdone other hother
    · exact fun hchange => absurd hchange hempty

variable {previous : PreviousSections}

theorem writeParallel_meets (hfresh : before.entries (.transaction transaction) = none)
    (hmapped : request.Mapped before)
    (hsources : ∀ name, previous.sourceManager = some name → name ≠ transaction ∧ Settled before name)
    (hbuild : ∀ name, previous.buildCache = some name → name ≠ transaction ∧ Settled before name) :
    CommitMeets before request
      (Holding before transaction (contentArea transaction)
        fun files => ∀ path, contentArea transaction path → files path = none)
      (writeParallel request.memory request.input transaction manifest previous)
      fun _ => Holding before transaction (contentArea transaction) fun files =>
        ∀ artifact, ArtifactWritten request transaction manifest artifact files := by
  have hinjective : ∀ i j, artifactOfTask i = artifactOfTask j → i = j := by decide
  have hsurjective : Function.Surjective artifactOfTask := by
    intro artifact
    cases artifact
    · exact ⟨0, rfl⟩
    · exact ⟨1, rfl⟩
    · exact ⟨2, rfl⟩
    · exact ⟨3, rfl⟩
    · exact ⟨4, rfl⟩
  have harea : (fun path => ∃ i, artifactArea transaction (artifactOfTask i) path) =
      contentArea transaction := by
    funext path
    apply propext
    constructor
    · rintro ⟨i, hi⟩
      exact ⟨_, hi⟩
    · rintro ⟨artifact, hin⟩
      obtain ⟨i, rfl⟩ := hsurjective artifact
      exact ⟨i, hin⟩
  have htogether := tasks_together
    (fun i j path hi hj => by
      have hsame : (transaction, artifactOfTask i) = (transaction, artifactOfTask j) :=
        Option.some.inj (hi.symm.trans hj)
      exact hinjective i j (congrArg Prod.snd hsame))
    (fun i => @artifactTask_meets before request transaction manifest hmapped previous hsources
      hbuild (artifactOfTask i))
    (fun i result s s' => TaskMeets.ends_stable)
    (fun i result s hs => by cases result <;> exact hs.1) (by decide)
  rw [harea] at htogether
  refine commit_cleaning hfresh (Meets.bind ((htogether.restrict fun _ _ _ _ h => h.1).mono
    (fun _ _ h => h.elim) ?_ ?_ fun _ _ h => h) ?_)
  · intro s s' hguarantee
    refine ⟨hguarantee.2.1, .inl (hguarantee.1.unpublished ?_)⟩
    rintro name ⟨⟩
    exact hfresh
  · intro s hs
    exact hs.mono fun files hempty i path hpath => hempty path ⟨_, hpath⟩
  · intro results
    refine Meets.done (fun _ _ h _ => h.elim) ?_
    intro s hs
    cases hresult : firstError results with
    | error code =>
      obtain ⟨i, hi⟩ := firstError_error hresult
      have hfailed := hs i
      rw [hi] at hfailed
      apply hfailed.1.unpublished
      rintro name ⟨⟩
      exact hfresh
    | ok value =>
      have hok : ∀ i, Holding before transaction (artifactArea transaction (artifactOfTask i))
          (ArtifactWritten request transaction manifest (artifactOfTask i)) s := by
        intro i
        have hwritten := hs i
        rw [firstError_ok hresult i] at hwritten
        exact hwritten
      obtain ⟨files, hfiles, hknown⟩ := holds_together (fun i => (hok i).2)
        fun i files files' hsame hwritten => hwritten.congr hsame
      rw [harea] at hfiles
      refine ⟨(hok 0).1, files, hfiles, ?_⟩
      intro artifact
      obtain ⟨i, rfl⟩ := hsurjective artifact
      exact hknown i

theorem writeArtifacts_meets (hfresh : before.entries (.transaction transaction) = none)
    (hmapped : request.Mapped before) {previous : PreviousSections}
    (hsources : ∀ name, previous.sourceManager = some name →
      name ≠ transaction ∧ Settled before name)
    (hbuild : ∀ name, previous.buildCache = some name →
      name ≠ transaction ∧ Settled before name) :
    CommitMeets before request
      (Holding before transaction (contentArea transaction)
        fun files => ∀ path, contentArea transaction path → files path = none)
      (writeArtifacts request.memory request.input transaction manifest previous)
      fun _ => Holding before transaction (contentArea transaction) fun files =>
        ∀ artifact, ArtifactWritten request transaction manifest artifact files := by
  unfold writeArtifacts
  split
  · exact writeParallel_meets hfresh hmapped hsources hbuild
  · refine (writeSequential_meets hfresh).conseq (fun v hv => hv.mono ?_) fun _ _ h => h
    intro files hempty
    exact ⟨fun _ => False.elim, fun artifact _ => hempty _ ⟨artifact, rfl⟩⟩

/-! ## The publication -/

variable {selector : Bytes}

theorem readSelector_committed
    (hmanifest : commitManifest request.input transaction = .ok manifest)
    (hselector : createCurrentSelector transaction manifest (request.input.generation.change.bytes request.memory) = .ok selector) :
    readCurrentSelector selector = .ok ⟨transaction, some manifest,
      if request.input.generation.change.bytes request.memory = [] then none
      else some (request.input.generation.change.bytes request.memory)⟩ := by
  have hfits : ∀ segment : Segment, segment.size < 2 ^ 64 := by
    intro segment
    have := segment.fits
    unfold sizeMax at this
    unfold Segment.size
    omega
  exact readCurrentSelector_create (createManifest_ok hmanifest) (hfits _) (hfits _) (hfits _)
    hselector

variable {number : Nat}

theorem published_of_replace (hfresh : before.entries (.transaction transaction) = none)
    (hmanifest : commitManifest request.input transaction = .ok manifest)
    (hselector : createCurrentSelector transaction manifest (request.input.generation.change.bytes request.memory) = .ok selector)
    (hbefore : Untouched before v) (hfiles : Holds (contentArea transaction) files v)
    (hwritten : ∀ artifact, ArtifactWritten request transaction manifest artifact files)
    (htemp : v.read (.selectorTemp number) = some ⟨selector, true⟩)
    (hchanged : Changed (fun path => path = .selectorTemp number ∨ path = .current) v v')
    (hread : v'.read .current = v.read (.selectorTemp number)) :
    Published before request transaction v' := by
  have hsame : ∀ path, path.inside ≠ none → v.Same v' path := by
    intro path hinside
    apply hchanged.same
    rintro (rfl | rfl)
    · exact hinside rfl
    · exact hinside rfl
  refine ⟨hchanged.sound, ?_, hfresh, ⟨selector, manifest, hread.trans htemp, hmanifest,
    readSelector_committed hmanifest hselector, files, ?_, hwritten⟩⟩
  · intro path name hinside hthere
    exact (hbefore.kept path name hinside hthere).trans (hsame path (by rw [hinside]; simp))
  · exact hfiles.same fun path hpath => hsame path (by rw [contentArea_inside hpath]; simp)

theorem temp_outside : ∀ path, path = StorePath.selectorTemp number →
    path ≠ .current ∧
      ∀ name, path.inside = some name → before.entries (.transaction name) = none := by
  rintro path rfl
  exact ⟨nofun, nofun⟩

theorem publishSelector_meets (hfresh : before.entries (.transaction transaction) = none)
    (hmanifest : commitManifest request.input transaction = .ok manifest)
    (hselector : createCurrentSelector transaction manifest (request.input.generation.change.bytes request.memory) = .ok selector) :
    CommitMeets before request
      (Holding before transaction (contentArea transaction) fun files =>
        ∀ artifact, ArtifactWritten request transaction manifest artifact files)
      (publishSelector transaction selector) fun _ => Published before request transaction := by
  let ready : StoreVolume → Prop := Holding before transaction (contentArea transaction)
    fun files => ∀ artifact, ArtifactWritten request transaction manifest artifact files
  have hready : ∀ v, ready v → Untouched before v := fun _ => Holding.unpublished hfresh
  refine CommitMeets.bind (allocate_meets .selectorPath hready) ?_
  intro _
  refine @CommitMeets.ask _ _ _ _ _ _ _ (fun _ => ready) ?_ ?_
  · intro v number v' hv hstep
    rw [exec_selectorNumber hstep]
    exact ⟨(hready v hv).guarantee, hv⟩
  · intro number
    let written : StoreVolume → Prop := fun v =>
      ready v ∧ v.read (.selectorTemp number) = some ⟨selector, true⟩
    have hwrite : CommitMeets before request ready
        (StoreM.write (.selectorTemp number) selector) fun _ => written := by
      refine Meets.perform (fun _ _ h _ => h.elim) (fun _ _ _ h _ => h.elim) ?_
      rintro s answer s' ⟨hworking, files, hfiles, hartifacts⟩ hstep
      obtain ⟨hchanged, hanswer⟩ := exec_write hstep.1 hworking.sound (.inr rfl)
      have hworking' : Working before (some transaction) s' :=
        hworking.changed hchanged (by rintro path rfl; exact .inr (.inl rfl))
      have hfiles' : Holds (contentArea transaction) files s' := by
        refine hfiles.same fun path hpath => hchanged.same path ?_
        rintro rfl
        cases contentArea_inside hpath
      have hready' : ready s' := ⟨hworking', files, hfiles', hartifacts⟩
      refine ⟨⟨filesKept_of_changed hchanged nofun, .inl (hready s' hready')⟩, ?_⟩
      rcases hanswer with ⟨rfl, hread⟩ | rfl
      · exact ⟨hready', hread⟩
      · exact hready s' hready'
    refine commit_cleaning hfresh (CommitMeets.bind hwrite ?_)
    intro _
    let replaced : Except StatusCode Unit → StoreVolume → Prop :=
      Ends (fun _ => Published before request transaction) fun _ => Untouched before
    refine Meets.bind (@Meets.perform _ _ _ _ _ _ _ _ _ replaced (fun _ _ h _ => h.elim)
      (fun _ _ _ h _ => h.elim) ?_) ?_
    · rintro s answer s' ⟨hs, htemp⟩ hstep
      have hunpublished := hready s hs
      obtain ⟨hworking, files, hfiles, hartifacts⟩ := hs
      obtain ⟨hchanged, ⟨rfl, hread⟩ | ⟨hfailed, rfl⟩⟩ := exec_replace hstep.1 hworking.sound
      · have hpublished := published_of_replace hfresh hmanifest hselector hunpublished hfiles
          hartifacts htemp hchanged hread
        have hthere : s'.entries .current ≠ none := by
          obtain ⟨selector, _, hselector, -⟩ := hpublished.selected.selected
          intro hnone
          rw [read_of_none hnone] at hselector
          cases hselector
        exact ⟨⟨⟨hchanged.files, fun _ => hthere⟩, .inr ⟨transaction, hpublished⟩⟩, hpublished⟩
      · refine ⟨hunpublished.guarantee, ?_⟩
        cases answer with
        | ok value => exact absurd rfl hfailed
        | error code => exact hunpublished
    · intro answer
      cases answer with
      | ok value => exact Meets.done (fun _ _ h _ => h.elim) fun _ h => h
      | error code =>
        refine Meets.bind (@Meets.perform _ _ _ _ _ _ _ _ _ (fun _ => Untouched before)
          (fun _ _ h _ => h.elim) (fun _ _ _ h _ => h.elim) ?_) ?_
        · intro s answer s' hs hstep
          have hchanged := exec_removeFile hstep.1 hs.sound
          have hleft := hs.changed hchanged temp_outside
          exact ⟨⟨filesKept_of_changed hchanged nofun, .inl hleft⟩, hleft⟩
        · intro _
          exact Meets.done (fun _ _ h _ => h.elim) fun _ h => h

/-! ## The steps of a commit -/

theorem allocateResult_meets :
    CommitMeets before request (Published before request transaction) (StoreM.allocate .result)
      fun _ => Published before request transaction := by
  have hask : Meets SparedExec (fun _ _ => False) (CommitGuarantee before request)
      (Published before request transaction) (ask (.allocate .result))
      fun (spare : Bool) v => spare = true ∧ Published before request transaction v := by
    refine Meets.perform (fun _ _ h _ => h.elim) (fun _ _ _ h _ => h.elim) ?_
    intro v spare v' hv hstep
    have hsame := exec_allocate hstep.1
    subst hsame
    exact ⟨⟨.refl v', .inr ⟨transaction, hv⟩⟩, hstep.2, hv⟩
  change Meets _ _ _ _ ((ask (.allocate .result)).bind fun spare : Bool =>
    (if spare = true then (pure () : StoreM Unit) else throw .notAvailable).run) _
  refine Meets.bind hask ?_
  intro spare
  cases spare with
  | false => exact Meets.done (fun _ _ h _ => h.elim) fun v hv => nomatch hv.1
  | true => exact Meets.done (fun _ _ h _ => h.elim) fun v hv => hv.2

theorem commitTransaction_meets (hfresh : before.entries (.transaction transaction) = none)
    (hmapped : request.Mapped before)
    (hsources : ∀ name, previous.sourceManager = some name → Settled before name)
    (hbuild : ∀ name, previous.buildCache = some name → Settled before name) :
    CommitMeets before request
      (Holding before transaction (contentArea transaction)
        fun files => ∀ path, contentArea transaction path → files path = none)
      (commitTransaction request.memory request.input previous transaction)
      fun name v => name = transaction ∧ Published before request transaction v := by
  have hother : ∀ name, Settled before name → name ≠ transaction ∧ Settled before name := by
    intro name hsettled
    refine ⟨?_, hsettled⟩
    rintro rfl
    exact hsettled.1 hfresh
  have hholding : ∀ {known : Files → Prop} (v : StoreVolume),
      Holding before transaction (contentArea transaction) known v → Untouched before v :=
    fun _ => Holding.unpublished hfresh
  refine CommitMeets.bind (commit_cleaning hfresh (CommitMeets.result _ hholding)) ?_
  intro manifest
  refine Meets.of_pre ?_
  rintro s ⟨hs, hmanifest⟩
  have hwriting := @writeArtifacts_meets before request transaction manifest hfresh hmapped previous
    (fun name hname => hother name (hsources name hname))
    fun name hname => hother name (hbuild name hname)
  refine CommitMeets.bind (hwriting.conseq (by rintro _ rfl; exact hs) fun _ _ h => h) ?_
  intro _
  refine CommitMeets.bind (commit_cleaning hfresh (CommitMeets.bind
    (flush_meets (.transaction transaction) hholding) fun _ => flush_meets .root hholding)) ?_
  intro _
  refine CommitMeets.bind (commit_cleaning hfresh (CommitMeets.bind
    (allocate_meets .selector hholding) fun _ => CommitMeets.result _ hholding)) ?_
  intro selector
  refine Meets.of_pre ?_
  rintro s' ⟨hs', hselector⟩
  refine CommitMeets.bind ((publishSelector_meets hfresh hmanifest hselector).conseq
    (by rintro _ rfl; exact hs') fun _ _ h => h) ?_
  intro _
  have hpublished : ∀ v, Published before request transaction v → CommitGuarantee before request v v :=
    fun v hv => ⟨.refl v, .inr ⟨transaction, hv⟩⟩
  refine @CommitMeets.ask _ _ _ _ _ _ _ (fun _ => Published before request transaction) ?_ ?_
  · intro v answer v' hv hstep
    rw [(exec_flush hstep).1]
    exact ⟨hpublished v hv, hv⟩
  · intro _
    refine CommitMeets.bind allocateResult_meets ?_
    exact fun _ => CommitMeets.pure fun v hv => ⟨rfl, hv⟩

theorem createTransaction_meets (attempts : Nat) :
    CommitMeets before request (Working before none) (createTransaction attempts)
      fun name v => before.entries (.transaction name) = none ∧
        Holding before name (contentArea name)
          (fun files => ∀ path, contentArea name path → files path = none) v := by
  have hworking : ∀ v, Working before none v → Untouched before v :=
    fun v h => h.unpublished (by rintro _ ⟨⟩)
  induction attempts with
  | zero => exact CommitMeets.throw hworking
  | succ attempts ih =>
    refine CommitMeets.bind (allocate_meets .transaction hworking) ?_
    intro _
    refine @CommitMeets.ask _ _ _ _ _ _ _ (fun _ => Working before none) ?_ ?_
    · intro v name v' hv hstep
      rw [(exec_candidate hstep).1]
      exact ⟨(hworking v hv).guarantee, hv⟩
    · intro name
      have hmake : CommitMeets before request (Working before none)
          (StoreM.createDirectory (.transaction name)) fun created v =>
          if created = true then before.entries (.transaction name) = none ∧
            Holding before name (contentArea name)
              (fun files => ∀ path, contentArea name path → files path = none) v
          else Working before none v := by
        refine Meets.perform (fun _ _ h _ => h.elim) (fun _ _ _ h _ => h.elim) ?_
        intro v answer v' hv hstep
        obtain ⟨hchanged, ⟨rfl, hnone, -⟩ | ⟨hfailed, rfl⟩⟩ :=
          exec_createDirectory hstep.1 hv.sound
        · have hfresh : before.entries (.transaction name) = none := by
            rw [← (hv.same (.transaction name) ?_).entry, hnone]
            rintro (hroot | htemp | ⟨-, hin⟩)
            · cases hroot
            · cases htemp
            · cases hin
          have hworking' : Working before (some name) v' := by
            refine ⟨hchanged.sound, ?_⟩
            intro path hpath
            refine (hv.same path ?_).trans (hchanged.same path ?_)
            · rintro (hroot | htemp | ⟨hinside, hin⟩)
              · exact hpath (.inl hroot)
              · exact hpath (.inr (.inl htemp))
              · exact hinside hin
            · rintro rfl
              exact hpath (.inr (.inr ⟨by simp [StorePath.inside], rfl⟩))
          have hempty : Holds (contentArea name) (fun _ => none) v' := by
            intro path hpath
            have hne : path ≠ .transaction name := by
              rintro rfl
              obtain ⟨artifact, hartifact⟩ := hpath
              cases hartifact
            rw [(hchanged.same path hne).read]
            exact read_of_none (hv.sound.below hnone (contentArea_inside hpath))
          have hholding : Holding before name (contentArea name)
              (fun files => ∀ path, contentArea name path → files path = none) v' :=
            ⟨hworking', _, hempty, fun _ _ => rfl⟩
          exact ⟨⟨filesKept_of_changed hchanged (by rintro ⟨⟩),
            .inl (hholding.unpublished hfresh)⟩, hfresh, hholding⟩
        · refine ⟨(hworking _ hv).guarantee, ?_⟩
          cases answer with
          | error code => exact hworking _ hv
          | ok created =>
            cases created with
            | true => exact absurd rfl hfailed
            | false => exact hv
      refine CommitMeets.bind hmake ?_
      intro created
      cases created with
      | true => exact CommitMeets.pure fun _ h => h
      | false => exact ih

theorem readCurrentSelector_error {code : StatusCode}
    (h : readCurrentSelector bytes = .error code) : code = .artifactCorrupt := by
  have htransaction : ∀ {offset size : Nat} {code : StatusCode},
      readTransaction bytes offset size = .error code → code = .artifactCorrupt := by
    intro offset size code h
    unfold readTransaction at h
    split at h
    · cases h
      rfl
    · split at h
      · cases h
      · cases h
        rfl
  have hembedded : ∀ {transaction embedded : Bytes} {code : StatusCode},
      embeddedManifest transaction embedded = .error code → code = .artifactCorrupt := by
    intro transaction embedded code h
    unfold embeddedManifest at h
    split at h
    · split at h
      · cases h
      · cases h
        rfl
    · cases h
      rfl
  unfold readCurrentSelector at h
  split at h
  · unfold readSelectorV3 at h
    dsimp only [bind, Except.bind] at h
    split at h
    · cases h
      rfl
    · split at h
      · rename_i herror
        cases h
        exact htransaction herror
      · split at h
        · rename_i herror
          cases h
          exact hembedded herror
        · cases h
  · split at h
    · unfold readSelectorV2 at h
      dsimp only [bind, Except.bind] at h
      split at h
      · cases h
        rfl
      · split at h
        · rename_i herror
          cases h
          exact htransaction herror
        · split at h
          · rename_i herror
            cases h
            exact hembedded herror
          · cases h
    · unfold readPlainSelector at h
      dsimp only at h
      split at h
      · cases h
        rfl
      · split at h
        · cases h
        · cases h
          rfl

theorem readCurrent_meets {guarantee : StoreVolume → StoreVolume → Prop}
    {pre : StoreVolume → Prop} (hcurrent : ∀ v, pre v → before.Same v .current)
    (hguarantee : ∀ v, pre v → guarantee v v) :
    Meets SparedExec (fun _ _ => False) guarantee pre readCurrentTransaction.run fun result v =>
      pre v ∧ (∀ name, result = .ok name → Selects before name) ∧
        (result = .error .notFound → before.entries .current = none) := by
  refine Meets.bind (@Meets.perform _ _ _ _ _ _ _ _ _ (fun answer v => pre v ∧
    (∀ bytes, answer = .ok bytes → ∃ node, before.read .current = some node ∧
      node.content = bytes) ∧ (answer = .error .notFound → before.entries .current = none))
    (fun _ _ h _ => h.elim) (fun _ _ _ h _ => h.elim) ?_) ?_
  · intro v answer v' hv hstep
    obtain ⟨rfl, hnode, hmissing⟩ := exec_readFile hstep.1
    have hsame := hcurrent _ hv
    rw [hsame.read] at hnode
    rw [hsame.entry] at hmissing
    exact ⟨hguarantee _ hv, hv, hnode, hmissing⟩
  · intro answer
    cases answer with
    | error code =>
      refine Meets.done (fun _ _ h _ => h.elim) fun v hv => ⟨hv.1, by rintro _ ⟨⟩, ?_⟩
      intro hcode
      cases hcode
      exact hv.2.2 rfl
    | ok bytes =>
      dsimp only [ExceptT.bindCont]
      cases hselection : readCurrentSelector bytes with
      | error code =>
        refine Meets.done (fun _ _ h _ => h.elim) fun v hv => ⟨hv.1, by rintro _ ⟨⟩, ?_⟩
        intro hcode
        cases hcode
        cases readCurrentSelector_error hselection
      | ok selection =>
        refine Meets.done (fun _ _ h _ => h.elim) fun v hv => ⟨hv.1, ?_, by rintro ⟨⟩⟩
        intro name hname
        cases hname
        obtain ⟨node, hread, rfl⟩ := hv.2.1 bytes rfl
        exact ⟨node, selection, hread, hselection, rfl⟩

theorem previousSections_meets (hsettled : ∀ name, Selects before name → Settled before name) :
    CommitMeets before request (Working before none) previousSections
      fun previous v => Working before none v ∧
        (∀ name, previous.sourceManager = some name → Settled before name) ∧
        ∀ name, previous.buildCache = some name → Settled before name := by
  have hworking : ∀ v, Working before none v → Untouched before v :=
    fun v h => h.unpublished nofun
  refine Meets.bind (readCurrent_meets (fun v hv => (hworking v hv).current)
    fun v hv => (hworking v hv).guarantee) ?_
  intro result
  cases result with
  | error code => exact Meets.done (fun _ _ h _ => h.elim) fun v hv => ⟨hv.1, nofun, nofun⟩
  | ok name =>
    have hpresent : ∀ path, CommitMeets before request (Working before none)
        (StoreM.present path) fun _ => Working before none := by
      intro path
      refine CommitMeets.attempt (@commit_keep _ _ _ (.present path) (fun _ _ => True) hworking ?_)
        (fun _ _ h => h.1) fun _ v h => hworking v h.1
      intro v answer v' _ hstep
      exact ⟨(exec_present hstep).1, trivial⟩
    refine Meets.of_pre ?_
    rintro s ⟨hs, hselects, -⟩
    have hname := hsettled name (hselects name rfl)
    have hrest : CommitMeets before request (Working before none)
        (do
          StoreM.allocate .paths
          let sources ← StoreM.present (.sectionPrefix name .sourceManager)
          let build ← StoreM.present (.sectionPrefix name .buildCache)
          pure ⟨if sources then some name else none, if build then some name else none⟩)
        fun (previous : PreviousSections) v => Working before none v ∧
          (∀ name, previous.sourceManager = some name → Settled before name) ∧
          ∀ name, previous.buildCache = some name → Settled before name := by
      refine CommitMeets.bind (allocate_meets .paths hworking) fun _ => ?_
      refine CommitMeets.bind (hpresent _) fun sources => ?_
      refine CommitMeets.bind (hpresent _) fun build => ?_
      refine CommitMeets.pure fun v hv => ⟨hv, ?_, ?_⟩
      · intro other hother
        cases sources with
        | true =>
          cases hother
          exact hname
        | false => cases hother
      · intro other hother
        cases build with
        | true =>
          cases hother
          exact hname
        | false => cases hother
    exact hrest.conseq (by rintro _ rfl; exact hs) fun _ _ h => h

theorem commit_working (hmapped : request.Mapped before)
    (hsettled : ∀ name, Selects before name → Settled before name) :
    CommitMeets before request (Working before none) (commit request.memory request.input)
      (Published before request) := by
  have hworking : ∀ v, Working before none v → Untouched before v :=
    fun v h => h.unpublished nofun
  unfold commit
  split
  · exact CommitMeets.throw hworking
  · refine CommitMeets.bind (allocate_meets .paths hworking) ?_
    intro _
    have hroot : CommitMeets before request (Working before none) StoreM.createRoot
        fun _ => Working before none := by
      refine CommitMeets.attempt (@Meets.perform _ _ _ _ _ _ _ _ _ (fun _ => Working before none)
        (fun _ _ h _ => h.elim) (fun _ _ _ h _ => h.elim) ?_) (fun _ _ h => h)
        fun _ => hworking
      intro v answer v' hv hstep
      have hchanged := exec_createRoot hstep.1 hv.sound
      have hworking' : Working before none v' := hv.changed hchanged fun path hpath => .inl hpath
      exact ⟨⟨filesKept_of_changed hchanged nofun, .inl (hworking v' hworking')⟩, hworking'⟩
    refine CommitMeets.bind hroot ?_
    intro _
    refine CommitMeets.bind (previousSections_meets hsettled) ?_
    intro previous
    refine Meets.of_pre ?_
    rintro s ⟨hs, hsources, hbuild⟩
    refine CommitMeets.bind ((createTransaction_meets 1024).conseq (by rintro _ rfl; exact hs)
      fun _ _ h => h) ?_
    intro name
    refine Meets.of_pre ?_
    rintro s' ⟨hfresh, hempty⟩
    refine (commitTransaction_meets hfresh hmapped hsources hbuild).conseq
      (by rintro _ rfl; exact hempty) ?_
    intro result v hv
    cases result with
    | error code => exact hv
    | ok committed =>
      obtain ⟨rfl, hpublished⟩ := hv
      exact hpublished

theorem commit_meets (hsound : before.Sound) (hmapped : request.Mapped before)
    (hsettled : ∀ name, Selects before name → Settled before name) :
    CommitMeets before request (· = before) (commit request.memory request.input)
      (Published before request) := by
  refine (commit_working hmapped hsettled).conseq ?_ fun _ _ h => h
  rintro _ rfl
  exact ⟨hsound, fun _ _ => .rfl⟩

end Commit

end ServerEngine
