import ServerEngine.Persistence.HistorySound

/-! # Every history of engines

The steps keep what `HistorySound` says, so an activation is compatible exactly where its fast path
met the condition.
-/
namespace ServerEngine
open Relation ErrorFold

variable {Digest : Type} [DecidableEq Digest] {platform : ProjectPlatform Digest}
  {s s' : HistoryState Digest}

/-! ## Changes of the files -/

/-- The files are the old ones, one of them maybe with a content of its own and the next token. -/
structure FilesStep (s s' : HistoryState Digest) (content : Bytes) : Prop where
  stamp : s.stamp ≤ s'.stamp
  files : ∀ path file, s'.files path = some file →
    (∃ origin, s.files origin = some file) ∨ (file = ⟨content, s.stamp⟩ ∧ s.stamp < s'.stamp)
  commits : ∀ path commit, s'.commits path = some commit →
    ∃ origin, s.commits origin = some commit
  engine : s'.engine = s.engine ∨ s'.project = none
  project : s'.project = s.project ∨ s'.project = none

omit [DecidableEq Digest] in
theorem HistorySound.filesStep {content : Bytes} (h : HistorySound platform s)
    (hstep : FilesStep s s' content) : HistorySound platform s' := by
  have hextends : s.Extends s' := by
    refine ⟨hstep.stamp, ?_⟩
    intro path file hfile
    rcases hstep.files path file hfile with hold | ⟨rfl, -⟩
    · exact .inl hold
    · exact .inr (Nat.le_refl _)
  refine ⟨?_, ?_, ?_, ?_⟩
  · intro path file hfile
    rcases hstep.files path file hfile with ⟨origin, horigin⟩ | ⟨rfl, hlt⟩
    · exact Nat.lt_of_lt_of_le (h.tokens origin file horigin) hstep.stamp
    · exact hlt
  · intro path file path' file' hfile hfile' htoken
    rcases hstep.files path file hfile with ⟨origin, horigin⟩ | ⟨rfl, -⟩
    · rcases hstep.files path' file' hfile' with ⟨origin', horigin'⟩ | ⟨rfl, -⟩
      · exact h.unique origin file origin' file' horigin horigin' htoken
      · exact absurd (h.tokens origin file horigin) (by rw [htoken]; exact Nat.lt_irrefl _)
    · rcases hstep.files path' file' hfile' with ⟨origin', horigin'⟩ | ⟨rfl, -⟩
      · exact absurd (h.tokens origin' file' horigin') (by rw [← htoken]; exact Nat.lt_irrefl _)
      · rfl
  · intro path commit hcommit
    obtain ⟨origin, horigin⟩ := hstep.commits path commit hcommit
    obtain ⟨content, configuration, hsound⟩ := h.commits origin commit horigin
    exact ⟨content, configuration, hsound.extends hextends⟩
  · intro project hproject
    rcases hstep.project with hsame | hnone
    · rcases hstep.engine with hengine | hnone
      · exact (h.project project (by rw [← hsame]; exact hproject)).extends hextends hengine
      · rw [hproject] at hnone
        cases hnone
    · rw [hproject] at hnone
      cases hnone

omit [DecidableEq Digest] in
theorem HistorySound.published {project : ActiveProject Digest} (h : HistorySound platform s)
    (hproject : ProjectSound platform s project) :
    HistorySound platform { s with project := some project } := by
  refine ⟨h.tokens, h.unique, ?_, ?_⟩
  · intro path commit hcommit
    obtain ⟨content, configuration, hsound⟩ := h.commits path commit hcommit
    exact ⟨content, configuration, hsound.extends (.refl rfl rfl)⟩
  · intro other hother
    obtain rfl : project = other := Option.some.inj hother
    exact hproject.extends (.refl rfl rfl) rfl

omit [DecidableEq Digest] in
theorem update_origin {commits : Bytes → Option (BaselineCommit Digest)} {source target path : Bytes}
    {commit : BaselineCommit Digest}
    (h : Function.update commits target (commits source) path = some commit) :
    ∃ origin, commits origin = some commit := by
  by_cases hpath : path = target
  · subst hpath
    rw [Function.update_self] at h
    exact ⟨source, h⟩
  · rw [Function.update_of_ne hpath] at h
    exact ⟨path, h⟩

/-! ## Projects -/

section Projects
variable {path : Bytes} {faults : ManagerFaults} {detection : DirtyDetection}
  {project : ActiveProject Digest} {configuration : ProjectConfiguration}
  {proof : Option (ConfigurationProof Digest)}

omit [DecidableEq Digest] in
theorem projectSound_of_read {fileConfiguration : ProjectConfiguration} {file : ConfigurationFile}
    (h : HistorySound platform s) (hfile : s.files path = some file)
    (hload : loadProjectConfiguration platform s.engine.rules path file.content =
      .ok fileConfiguration)
    (hfingerprint : makeProjectBaselineFingerprint platform.hash s.engine.versions s.engine.rules
      fileConfiguration = .ok project.fingerprint) (hpath : project.path = path)
    (hread : ∀ p, project.proof = some p → ReadProof platform s.volume path p) :
    ProjectSound platform s project := by
  intro contentHash token hproof
  obtain ⟨file', hfile', hhash, htoken⟩ := hread _ hproof
  have hsame : file' = file := by
    have hfiles : s.files path = some file' := hfile'
    rw [hfile] at hfiles
    exact (Option.some.inj hfiles).symm
  subst hsame
  refine ⟨file'.content, fileConfiguration, Option.some.inj hhash, ?_, hfingerprint, ?_⟩
  · rw [hpath]
    exact hload
  · rw [htoken token rfl]
    exact h.tokenOf hfile

/-- What a construction of `build` starts from. -/
theorem build_construct_ok
    (h : build platform s.volume s.engine path faults detection =
      .ok (.construct configuration proof)) :
    (∀ p, proof = some p → ReadProof platform s.volume path p) ∧
      ∃ file, s.files path = some file ∧
        loadProjectConfiguration platform s.engine.rules path file.content = .ok configuration := by
  have hfinish : ∀ {snapshot : BaselineSnapshot Digest} {current : ProjectConfiguration}
      {read : Option (ConfigurationProof Digest)} {dirty : Bool},
      finishBuild s.engine faults snapshot current read dirty ≠
        .ok (.construct configuration proof) := by
    intro snapshot current read dirty hf
    obtain ⟨-, proof', hkept, -⟩ := finishBuild_ok hf
    cases hkept
  obtain ⟨fast, hfast, h⟩ := bind_ok.mp h
  cases fast with
  | none =>
    obtain ⟨⟨current, read⟩, hread, h⟩ := bind_ok.mp h
    obtain ⟨fingerprint, hfingerprint, h⟩ := bind_ok.mp h
    obtain ⟨hreadProof, file, hfile, hload⟩ := loadGenerationConfiguration_ok hread
    have hgoal : ∀ p, some read = some p → ReadProof platform s.volume path p := by
      intro p hp
      rw [← Option.some.inj hp]
      exact hreadProof
    split at h
    · cases h
      exact ⟨hgoal, file, hfile, hload⟩
    · cases h
      exact ⟨hgoal, file, hfile, hload⟩
    · cases h
    · split at h
      · cases h
      · cases h
      · exact absurd h hfinish
  | some accepted =>
    obtain ⟨opened, provisional⟩ := accepted
    have hcheck : ∃ scanned : BaselineSnapshot Digest,
        (if detection.proves then finishBuild s.engine faults scanned provisional
            (some ⟨scanned.baseline.configuration.contentHash,
              scanned.baseline.configuration.changeToken⟩) detection.dirty
          else checkConfiguration platform s.volume s.engine path faults scanned provisional
            detection.dirty) = .ok (.construct configuration proof) := by
      dsimp only at h
      unfold buildProvisional at h
      split at h
      · obtain ⟨scanned, -, h⟩ := bind_ok.mp h
        exact ⟨scanned, h⟩
      · obtain ⟨scanned, -, h⟩ := bind_ok.mp h
        exact ⟨scanned, h⟩
      · cases h
      · cases h
      · cases h
    obtain ⟨scanned, h⟩ := hcheck
    split at h
    · exact absurd h hfinish
    · obtain ⟨token, htoken, h⟩ := bind_ok.mp h
      obtain ⟨content, hcontent, h⟩ := bind_ok.mp h
      obtain ⟨file, hfile, rfl⟩ := acquireConfiguration_ok hcontent
      split at h
      · obtain ⟨current, hcurrent, h⟩ := bind_ok.mp h
        obtain ⟨fingerprint, hfingerprint, h⟩ := bind_ok.mp h
        split at h
        · cases h
          refine ⟨?_, file, hfile, hcurrent⟩
          intro p hp
          cases hp
          refine ⟨file, hfile, rfl, ?_⟩
          intro captured hsome
          obtain rfl : token = some captured := hsome
          exact optionalToken_ok htoken hfile
        · exact absurd h hfinish
      · exact absurd h hfinish

omit [DecidableEq Digest] in
theorem fingerprint_of_activates {commit : BaselineCommit Digest} {content : Bytes}
    (hcommit : s.commits path = some commit)
    (hsound : CommitSound platform s commit content configuration)
    (hactivates : s.ActivatesCompatible platform path) :
    ∃ file current, s.files path = some file ∧
      loadProjectConfiguration platform s.engine.rules path file.content = .ok current ∧
      makeProjectBaselineFingerprint platform.hash s.engine.versions s.engine.rules current =
        .ok commit.baseline.fingerprint := by
  obtain ⟨other, saved, current, hother, hsaved, hcurrent, hcompatible⟩ := hactivates
  rw [hcommit] at hother
  cases hother
  rw [hsound.read] at hsaved
  cases hsaved
  cases hfile : s.files path with
  | none =>
    unfold HistoryState.configurationAt at hcurrent
    rw [hfile] at hcurrent
    cases hcurrent
  | some file =>
    rw [configurationAt_of hfile] at hcurrent
    exact ⟨file, current, rfl, hcurrent, fingerprint_of_compatible hcompatible hsound.fingerprint⟩

omit [DecidableEq Digest] in
theorem projectSound_of_kept {decision : BuildDecision Digest} {changed : Bool}
    {baseline : StoredBaseline Digest} (h : HistorySound platform s)
    (hbuilt : s.built platform path changed decision = .ok project)
    (hkept : decision.kept = some (baseline, proof))
    (hbuild : BuildKept platform s.volume s.engine path faults detection baseline proof)
    (hhonest : s.HonestJournal path detection)
    (hactivates : s.ActivatesCompatible platform path) : ProjectSound platform s project := by
  obtain ⟨commit, hcommit, hbaseline⟩ := volume_stores hbuild.selected.stored
  obtain ⟨content, saved, hsound⟩ := h.commits path commit hcommit
  obtain ⟨file, current, hfile, hload, hfingerprint⟩ :=
    fingerprint_of_activates hcommit hsound hactivates
  have hproject : project.path = path ∧ project.fingerprint = baseline.fingerprint ∧
      project.proof = proof := by
    cases decision with
    | construct => cases hkept
    | activate snapshot given =>
      cases hkept
      cases hbuilt
      exact ⟨rfl, rfl, rfl⟩
    | update snapshot given read =>
      cases hkept
      cases hbuilt
      exact ⟨rfl, rfl, rfl⟩
  obtain ⟨hpath, hsame, hproof⟩ := hproject
  rw [hbaseline, ← hsame] at hfingerprint
  refine projectSound_of_read h hfile hload hfingerprint hpath ?_
  intro p hp
  rw [hproof] at hp
  rcases hbuild.proof p hp with ⟨hproves, hfast, rfl⟩ | hread
  · have hsome : baseline.configuration.changeToken.isSome = true := by
      simp only [BaselineConfigurationState.fast, Bool.and_eq_true] at hfast
      exact hfast.1.2
    obtain ⟨token, htoken⟩ := Option.isSome_iff_exists.mp hsome
    rw [← hbaseline] at htoken ⊢
    obtain ⟨file', hfile', hcurrent⟩ := hhonest hproves commit token hcommit htoken
    have hcontent := (hsound.token token htoken).content path file' hfile' hcurrent
    refine ⟨file', hfile', ?_, ?_⟩
    · rw [hcontent]
      exact hsound.hash
    · intro other hother
      rw [htoken] at hother
      rw [← Option.some.inj hother, hcurrent]
  · exact hread

end Projects

/-! ## Commits -/

section Commits
variable {faults : ManagerFaults} {project : ActiveProject Digest} {fingerprint : Digest}
  {state : BaselineConfigurationState Digest}

structure CommitRead (platform : ProjectPlatform Digest) (s : HistoryState Digest)
    (path : Bytes) (fingerprint : Digest) (state : BaselineConfigurationState Digest)
    (file : ConfigurationFile) (configuration : ProjectConfiguration) : Prop where
  stored : s.files path = some file
  load : loadProjectConfiguration platform s.engine.rules path file.content = .ok configuration
  fingerprint : makeProjectBaselineFingerprint platform.hash s.engine.versions s.engine.rules
    configuration = .ok fingerprint
  hash : state.contentHash = some (platform.hash file.content)
  token : ∀ token, state.changeToken = some token → token = file.token

omit [DecidableEq Digest] in
theorem provenConfiguration_ok {contentHash : Digest} {token : ChangeToken}
    {volume : ProjectVolume Digest}
    (h : provenConfiguration platform volume faults project = .ok (some (contentHash, token))) :
    project.proof = some ⟨some contentHash, some token⟩ ∧
      ∃ file, volume.files project.path = some file ∧ file.token = token := by
  unfold provenConfiguration at h
  split at h
  · rename_i hash saved hproof
    split at h
    · rename_i hunchanged
      cases h
      exact ⟨hproof, proveFileUnchanged_ok hunchanged⟩
    · cases h
    · cases h
    · cases h
  · cases h

theorem readConfiguration_ok
    (h : readConfiguration platform s.volume s.engine faults project = .ok (fingerprint, state)) :
    ∃ file configuration,
      CommitRead platform s project.path fingerprint state file configuration := by
  obtain ⟨token, htoken, h⟩ := bind_ok.mp h
  obtain ⟨content, hcontent, h⟩ := bind_ok.mp h
  obtain ⟨configuration, hload, h⟩ := bind_ok.mp h
  obtain ⟨computed, hcomputed, h⟩ := bind_ok.mp h
  obtain ⟨file, hfile, rfl⟩ := acquireConfiguration_ok hcontent
  split at h
  · cases h
  · cases h
    refine ⟨file, configuration, hfile, hload, hcomputed, rfl, ?_⟩
    intro captured hsome
    obtain rfl : token = some captured := hsome
    exact optionalToken_ok htoken hfile

theorem savedIdentity_ok (h : HistorySound platform s) (hproject : s.project = some project)
    (hsaved : savedIdentity platform s.volume s.engine faults project =
      .ok (fingerprint, state)) :
    ∃ file configuration,
      CommitRead platform s project.path fingerprint state file configuration := by
  obtain ⟨proven, hproven, hsaved⟩ := bind_ok.mp hsaved
  cases proven with
  | none => exact readConfiguration_ok hsaved
  | some identity =>
    obtain ⟨contentHash, token⟩ := identity
    cases hsaved
    obtain ⟨hproof, file, hfile, hcurrent⟩ := provenConfiguration_ok hproven
    obtain ⟨content, configuration, hsound⟩ := h.project project hproject contentHash token hproof
    have hcontent : file.content = content :=
      hsound.token.content project.path file hfile hcurrent
    refine ⟨file, configuration, hfile, ?_, hsound.fingerprint, ?_, ?_⟩
    · rw [hcontent]
      exact hsound.load
    · rw [hcontent, ← hsound.hash]
    · intro other hother
      rw [← Option.some.inj hother, hcurrent]

theorem save_ok (h : HistorySound platform s) (hproject : s.project = some project)
    (hsave : save platform s.volume s.engine faults project = .ok (.commit fingerprint state)) :
    ∃ file configuration,
      CommitRead platform s project.path fingerprint state file configuration := by
  obtain ⟨done, -, hsave⟩ := bind_ok.mp hsave
  split at hsave
  · cases hsave
  · obtain ⟨identity, hidentity, hsave⟩ := bind_ok.mp hsave
    split at hsave
    · obtain ⟨_, -, hsave⟩ := bind_ok.mp hsave
      cases hsave
    · cases hsave
      exact savedIdentity_ok h hproject hidentity

omit [DecidableEq Digest] in
theorem HistorySound.committed {file : ConfigurationFile} {configuration : ProjectConfiguration}
    (h : HistorySound platform s) (hproject : s.project = some project)
    (hread : CommitRead platform s project.path fingerprint state file configuration)
    (transaction : Nat) (sectioned : Bool) :
    HistorySound platform (s.committed platform project fingerprint state transaction sectioned) := by
  refine ⟨h.tokens, h.unique, ?_, ?_⟩
  · intro path commit hcommit
    by_cases hpath : path = project.path
    · subst hpath
      have hsame := hcommit
      simp only [HistoryState.committed, Function.update_self] at hsame
      obtain rfl := Option.some.inj hsame
      refine ⟨file.content, configuration, rfl, rfl, ?_, hread.load, hread.fingerprint,
        hread.hash, ?_⟩
      · show s.configurationAt platform project.path = .ok configuration
        rw [configurationAt_of hread.stored]
        exact hread.load
      · intro token htoken
        rw [hread.token token htoken]
        exact (h.tokenOf hread.stored).extends (.refl rfl rfl)
    · have hold : s.commits path = some commit := by
        simpa [HistoryState.committed, Function.update_of_ne hpath] using hcommit
      obtain ⟨content, saved, hsound⟩ := h.commits path commit hold
      exact ⟨content, saved, hsound.extends (.refl rfl rfl)⟩
  · intro other hother
    obtain rfl := Option.some.inj hother
    intro contentHash token hproof
    obtain ⟨content, saved, hsound⟩ := h.project project hproject contentHash token hproof
    exact ⟨content, saved, hsound.hash, hsound.load, hsound.fingerprint,
      hsound.token.extends (.refl rfl rfl)⟩

end Commits

/-! ## Runs -/

theorem HistorySound.step (h : HistorySound platform s)
    (hinjective : Function.Injective platform.hash) (hstep : HistoryStep platform s s') :
    HistorySound platform s' := by
  cases hstep with
  | write path content =>
    refine @HistorySound.filesStep _ _ _ _ content h ?_
    refine ⟨Nat.le_succ _, ?_, fun path commit h => ⟨path, h⟩, .inl rfl, .inl rfl⟩
    intro path' file hfile
    by_cases hpath : path' = path
    · subst hpath
      simp only [Function.update_self] at hfile
      exact .inr ⟨(Option.some.inj hfile).symm, Nat.lt_succ_self _⟩
    · simp only [Function.update_of_ne hpath] at hfile
      exact .inl ⟨path', hfile⟩
  | remove path =>
    refine @HistorySound.filesStep _ _ _ _ [] h ?_
    refine ⟨Nat.le_refl _, ?_, fun path commit h => ⟨path, h⟩, .inl rfl, .inl rfl⟩
    intro path' file hfile
    by_cases hpath : path' = path
    · subst hpath
      simp only [Function.update_self] at hfile
      cases hfile
    · simp only [Function.update_of_ne hpath] at hfile
      exact .inl ⟨path', hfile⟩
  | move origin =>
    refine @HistorySound.filesStep _ _ _ _ [] h ?_
    exact ⟨Nat.le_refl _, fun path file h => .inl ⟨origin path, h⟩,
      fun path commit h => ⟨origin path, h⟩, .inl rfl, .inl rfl⟩
  | copy source target =>
    cases hsource : s.files source with
    | none =>
      refine @HistorySound.filesStep _ _ _ _ [] h ?_
      refine ⟨Nat.le_succ _, ?_, ?_, .inl rfl, .inl rfl⟩
      · intro path file hfile
        by_cases hpath : path = target
        · subst hpath
          simp at hfile
        · simp only [Function.update_of_ne hpath] at hfile
          exact .inl ⟨path, hfile⟩
      · intro path commit hcommit
        exact update_origin hcommit
    | some original =>
      refine @HistorySound.filesStep _ _ _ _ original.content h ?_
      refine ⟨Nat.le_succ _, ?_, ?_, .inl rfl, .inl rfl⟩
      · intro path file hfile
        by_cases hpath : path = target
        · subst hpath
          simp only [Function.update_self] at hfile
          exact .inr ⟨(Option.some.inj hfile).symm, Nat.lt_succ_self _⟩
        · simp only [Function.update_of_ne hpath] at hfile
          exact .inl ⟨path, hfile⟩
      · intro path commit hcommit
        exact update_origin hcommit
  | start engine =>
    refine @HistorySound.filesStep _ _ _ _ [] h ?_
    exact ⟨Nat.le_refl _, fun path file h => .inl ⟨path, h⟩, fun path commit h => ⟨path, h⟩,
      .inr rfl, .inr rfl⟩
  | unload =>
    refine @HistorySound.filesStep _ _ _ _ [] h ?_
    exact ⟨Nat.le_refl _, fun path file h => .inl ⟨path, h⟩, fun path commit h => ⟨path, h⟩,
      .inl rfl, .inr rfl⟩
  | rebuild path faults _ hload hbuilt =>
    obtain ⟨hread, file, hfile, hconfiguration⟩ := loadGenerationConfiguration_ok hload
    obtain ⟨fingerprint, hfingerprint, hproject⟩ := bind_ok.mp hbuilt
    cases hproject
    apply h.published
    refine projectSound_of_read h hfile hconfiguration hfingerprint rfl ?_
    intro p hp
    cases hp
    exact hread
  | load path faults _ hload _ => exact h.published (projectSound_of_none rfl)
  | @build path faults detection changed decision project _ hhonest hbuild hcondition hbuilt =>
    apply h.published
    cases hkept : decision.kept with
    | none =>
      cases decision with
      | construct configuration proof =>
        obtain ⟨hread, file, hfile, hconfiguration⟩ := build_construct_ok hbuild
        obtain ⟨fingerprint, hfingerprint, hproject⟩ := bind_ok.mp hbuilt
        cases hproject
        exact projectSound_of_read h hfile hconfiguration hfingerprint rfl hread
      | activate snapshot configuration => cases hkept
      | update snapshot configuration proof => cases hkept
    | some kept =>
      have hok := build_ok hbuild hkept
      have hactivates := (h.build_iff hinjective hhonest hok).mpr hcondition
      exact projectSound_of_kept h hbuilt hkept hok hhonest hactivates
  | save faults transaction sectioned hproject hsave =>
    obtain ⟨file, configuration, hread⟩ := save_ok h hproject hsave
    exact h.committed hproject hread transaction sectioned

omit [DecidableEq Digest] in
theorem historySound_empty (engine : Engine) :
    HistorySound platform (HistoryState.empty engine) := by
  refine ⟨?_, ?_, ?_, ?_⟩
  · intro path file hfile
    cases hfile
  · intro path file path' file' hfile
    cases hfile
  · intro path commit hcommit
    cases hcommit
  · intro project hproject
    cases hproject

theorem historySound_of_reachable (hinjective : Function.Injective platform.hash)
    (h : HistoryReachable platform s) : HistorySound platform s := by
  obtain ⟨engine, hrun⟩ := h
  induction hrun with
  | refl => exact historySound_empty engine
  | tail _ hstep ih => exact ih.step hinjective hstep

/-! ## Activations -/

/-- Over every history: what `load` activates, and what `build` activates or updates, was committed
with the same versions for the same configuration exactly if a fast path that took it met the
condition; and the bytes that are hashed tell the versions and the configurations apart. -/
theorem activated_baselines (hinjective : Function.Injective platform.hash)
    (h : HistoryReachable platform s) :
    (∀ path faults snapshot configuration,
      load platform s.volume s.engine path faults = .ok (snapshot, configuration) →
      (s.ActivatesCompatible platform path ↔
        (s.TrustedByLoad platform path faults → s.SameContract platform path))) ∧
    (∀ path faults detection decision baseline proof, s.HonestJournal path detection →
      build platform s.volume s.engine path faults detection = .ok decision →
      decision.kept = some (baseline, proof) →
      (s.ActivatesCompatible platform path ↔
        (s.TrustedByBuild platform path faults detection → s.SameContract platform path))) ∧
    (∀ versions versions' rules rules' configuration configuration' text,
      canonicalConfiguration versions rules configuration = .ok text →
      canonicalConfiguration versions' rules' configuration' = .ok text →
      Compatible versions versions' rules rules' configuration configuration') := by
  have hsound := historySound_of_reachable hinjective h
  refine ⟨?_, ?_, ?_⟩
  · intro path faults snapshot configuration hload
    exact hsound.load_iff hinjective hload
  · intro path faults detection decision baseline proof hhonest hbuild hkept
    exact hsound.build_iff hinjective hhonest (build_ok hbuild hkept)
  · intro versions versions' rules rules' configuration configuration' text htext htext'
    exact canonicalConfiguration_injective htext htext'

def contractEngine (contract : UInt32) : Engine :=
  ⟨⟨1, 3, 3, 6, contract⟩, ⟨false, .ok, fun _ path => path, fun _ => true⟩⟩

def rootlessPlatform : ProjectPlatform Bytes :=
  ⟨id, fun _ => .ok ⟨1, [112], [], .windowsX64, 8⟩, true⟩

def noFaults : ManagerFaults := ⟨none, none, none, none, none, none, none⟩

theorem saved_then_loaded (saving loading : UInt32) :
    ∃ s commit result, HistoryReachable rootlessPlatform s ∧
      s.commits [112] = some commit ∧ commit.engine = contractEngine saving ∧
      commit.path = [112] ∧ s.engine = contractEngine loading ∧
      load rootlessPlatform s.volume s.engine [112] noFaults = .ok result := by
  have hwrite := @HistoryStep.write _ _ rootlessPlatform
    (HistoryState.empty (contractEngine saving)) [112] [123, 125]
  have hrebuild := (ReflTransGen.refl.tail hwrite).tail (.rebuild _ [112] noFaults rfl rfl rfl)
  have hsave := hrebuild.tail (.save _ noFaults 1 true rfl rfl)
  have hstart := hsave.tail (.start _ (contractEngine loading))
  exact ⟨_, _, _, ⟨_, hstart⟩, rfl, rfl, rfl, rfl, rfl⟩

/-- A baseline is activated by the engine that committed it. -/
theorem activated_baselines_same_engine :
    ∃ (s : HistoryState Bytes) (result : BaselineSnapshot Bytes × ProjectConfiguration),
      load rootlessPlatform s.volume s.engine [112] noFaults = .ok result ∧
      s.ActivatesCompatible rootlessPlatform [112] := by
  obtain ⟨s, commit, ⟨snapshot, configuration⟩, hreachable, hcommit, hsaving, hpath, hloading,
    hload⟩ := saved_then_loaded 3 3
  refine ⟨s, (snapshot, configuration), hload, ?_⟩
  have hiff := (activated_baselines (fun _ _ h => h) hreachable).1 _ _ _ _ hload
  apply hiff.mpr
  intro _ other hother
  rw [hcommit] at hother
  cases hother
  rw [hsaving, hloading, hpath]
  exact ⟨rfl, rfl, rfl, fun file document _ _ => rfl⟩

/-- An engine with another build contract activates the baseline by the token of project.json. -/
theorem contract_upgrade_slips :
    ∃ s result, HistoryReachable rootlessPlatform s ∧
      load rootlessPlatform s.volume s.engine [112] noFaults = .ok result ∧
      ¬s.ActivatesCompatible rootlessPlatform [112] := by
  obtain ⟨s, commit, result, hreachable, hcommit, hsaving, -, hloading, hload⟩ :=
    saved_then_loaded 2 3
  refine ⟨s, result, hreachable, hload, ?_⟩
  intro hactivates
  obtain ⟨other, configuration, configuration', hother, -, -, hcompatible⟩ := hactivates
  rw [hcommit] at hother
  cases hother
  have hversions := hcompatible.versions
  rw [hsaving, hloading] at hversions
  cases hversions

end ServerEngine
