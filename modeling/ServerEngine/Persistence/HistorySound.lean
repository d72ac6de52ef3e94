import ServerEngine.Persistence.Compatibility

/-! # What a history keeps

A commit's fingerprint, content hash and token are those of the file it was made beside, and a
token stands for one content as long as the file exists.
-/
namespace ServerEngine
open Relation ErrorFold

variable {Digest : Type} {platform : ProjectPlatform Digest} {s s' : HistoryState Digest}

/-! ## Tokens -/

namespace HistoryState

structure TokenOf (s : HistoryState Digest) (token : ChangeToken) (content : Bytes) : Prop where
  old : token < s.stamp
  content : ∀ path file, s.files path = some file → file.token = token → file.content = content

structure Extends (s s' : HistoryState Digest) : Prop where
  stamp : s.stamp ≤ s'.stamp
  files : ∀ path file, s'.files path = some file →
    (∃ origin, s.files origin = some file) ∨ s.stamp ≤ file.token

theorem Extends.refl (hfiles : s'.files = s.files) (hstamp : s'.stamp = s.stamp) : Extends s s' :=
  ⟨Nat.le_of_eq hstamp.symm, fun path file h => .inl ⟨path, by rw [← hfiles]; exact h⟩⟩

theorem TokenOf.extends {token : ChangeToken} {content : Bytes} (h : s.TokenOf token content)
    (he : Extends s s') : s'.TokenOf token content := by
  refine ⟨Nat.lt_of_lt_of_le h.old he.stamp, ?_⟩
  intro path file hfile htoken
  rcases he.files path file hfile with ⟨origin, horigin⟩ | hnew
  · exact h.content origin file horigin htoken
  · rw [htoken] at hnew
    exact absurd h.old (Nat.not_lt.mpr hnew)

end HistoryState

/-! ## Commits and projects -/

/-- What a baseline says is what was so when it was committed. -/
structure CommitSound (platform : ProjectPlatform Digest) (s : HistoryState Digest)
    (commit : BaselineCommit Digest) (content : Bytes) (configuration : ProjectConfiguration) :
    Prop where
  format : commit.baseline.formatVersion = commit.engine.versions.baseline
  compiled : commit.baseline.compiledVersion = commit.engine.versions.compiled
  read : commit.configuration = .ok configuration
  load : loadProjectConfiguration platform commit.engine.rules commit.path content =
    .ok configuration
  fingerprint : makeProjectBaselineFingerprint platform.hash commit.engine.versions
    commit.engine.rules configuration = .ok commit.baseline.fingerprint
  hash : commit.baseline.configuration.contentHash = some (platform.hash content)
  token : ∀ token, commit.baseline.configuration.changeToken = some token →
    s.TokenOf token content

/-- The proof of a project's configuration stands for a content with the project's fingerprint. -/
structure ProofSound (platform : ProjectPlatform Digest) (s : HistoryState Digest)
    (project : ActiveProject Digest) (contentHash : Digest) (token : ChangeToken)
    (content : Bytes) (configuration : ProjectConfiguration) : Prop where
  hash : contentHash = platform.hash content
  load : loadProjectConfiguration platform s.engine.rules project.path content = .ok configuration
  fingerprint : makeProjectBaselineFingerprint platform.hash s.engine.versions s.engine.rules
    configuration = .ok project.fingerprint
  token : s.TokenOf token content

def ProjectSound (platform : ProjectPlatform Digest) (s : HistoryState Digest)
    (project : ActiveProject Digest) : Prop :=
  ∀ contentHash token, project.proof = some ⟨some contentHash, some token⟩ →
    ∃ content configuration, ProofSound platform s project contentHash token content configuration

structure HistorySound (platform : ProjectPlatform Digest) (s : HistoryState Digest) : Prop where
  tokens : ∀ path file, s.files path = some file → file.token < s.stamp
  unique : ∀ path file path' file', s.files path = some file → s.files path' = some file' →
    file.token = file'.token → file.content = file'.content
  commits : ∀ path commit, s.commits path = some commit →
    ∃ content configuration, CommitSound platform s commit content configuration
  project : ∀ project, s.project = some project → ProjectSound platform s project

section Sound
variable {path : Bytes} {file : ConfigurationFile} {commit : BaselineCommit Digest}
  {content : Bytes} {configuration : ProjectConfiguration}

theorem HistorySound.tokenOf (h : HistorySound platform s) (hfile : s.files path = some file) :
    s.TokenOf file.token file.content :=
  ⟨h.tokens path file hfile, fun path' file' hfile' htoken =>
    h.unique path' file' path file hfile' hfile htoken⟩

theorem CommitSound.extends (h : CommitSound platform s commit content configuration)
    (he : s.Extends s') : CommitSound platform s' commit content configuration :=
  ⟨h.format, h.compiled, h.read, h.load, h.fingerprint, h.hash,
    fun token htoken => (h.token token htoken).extends he⟩

variable {project : ActiveProject Digest}

theorem ProjectSound.extends (h : ProjectSound platform s project) (he : s.Extends s')
    (hengine : s'.engine = s.engine) : ProjectSound platform s' project := by
  intro contentHash token hproof
  obtain ⟨content, configuration, hsound⟩ := h contentHash token hproof
  refine ⟨content, configuration, hsound.hash, ?_, ?_, hsound.token.extends he⟩
  · rw [hengine]
    exact hsound.load
  · rw [hengine]
    exact hsound.fingerprint

theorem projectSound_of_none (h : project.proof = none) : ProjectSound platform s project := by
  intro contentHash token hproof
  rw [h] at hproof
  cases hproof

variable {rules : PathRules}

theorem loadProjectConfiguration_ok
    (h : loadProjectConfiguration platform rules path content = .ok configuration) :
    ∃ document, platform.parseJson content = .ok document ∧
      document.version = currentProjectConfigurationVersion ∧
      configuration = resolveDocument rules path document := by
  obtain ⟨document, hparse, h⟩ := bind_ok.mp h
  split at h
  · cases h
  · rename_i hversion
    cases h
    exact ⟨document, hparse, by simpa using hversion, rfl⟩

theorem loadProjectConfiguration_of {document : ProjectDocument}
    (hparse : platform.parseJson content = .ok document)
    (hversion : document.version = currentProjectConfigurationVersion) :
    loadProjectConfiguration platform rules path content =
      .ok (resolveDocument rules path document) := by
  unfold loadProjectConfiguration
  simp only [hparse, bind, Except.bind]
  rw [if_neg (by simp [hversion])]

variable {hash : Bytes → Digest} {versions : EngineVersions} {fingerprint : Digest}

theorem makeFingerprint_ok
    (h : makeProjectBaselineFingerprint hash versions rules configuration = .ok fingerprint) :
    ∃ text, canonicalConfiguration versions rules configuration = .ok text ∧
      hash text = fingerprint := by
  obtain ⟨text, htext, h⟩ := bind_ok.mp h
  cases h
  exact ⟨text, htext, rfl⟩

variable {versions' : EngineVersions} {rules' : PathRules} {configuration' : ProjectConfiguration}

theorem compatible_of_fingerprint (hinjective : Function.Injective hash)
    (h : makeProjectBaselineFingerprint hash versions rules configuration = .ok fingerprint)
    (h' : makeProjectBaselineFingerprint hash versions' rules' configuration' = .ok fingerprint) :
    Compatible versions versions' rules rules' configuration configuration' := by
  obtain ⟨text, htext, hhash⟩ := makeFingerprint_ok h
  obtain ⟨text', htext', hhash'⟩ := makeFingerprint_ok h'
  obtain rfl := hinjective (hhash.trans hhash'.symm)
  exact canonicalConfiguration_injective htext htext'

theorem fingerprint_of_compatible
    (hc : Compatible versions versions' rules rules' configuration configuration')
    (h : makeProjectBaselineFingerprint hash versions rules configuration = .ok fingerprint) :
    makeProjectBaselineFingerprint hash versions' rules' configuration' = .ok fingerprint := by
  obtain ⟨text, htext, hhash⟩ := makeFingerprint_ok h
  unfold makeProjectBaselineFingerprint
  simp only [canonicalConfiguration_congr hc htext, bind, Except.bind, hhash]

theorem volume_stores {baseline : StoredBaseline Digest}
    (h : s.volume.stores path = some baseline) :
    ∃ commit, s.commits path = some commit ∧ commit.baseline = baseline := by
  have hmap : (s.commits path).map (·.baseline) = some baseline := h
  cases hcommit : s.commits path with
  | none =>
    rw [hcommit] at hmap
    cases hmap
  | some commit =>
    rw [hcommit] at hmap
    exact ⟨commit, rfl, Option.some.inj hmap⟩

theorem configurationAt_of (hfile : s.files path = some file) :
    s.configurationAt platform path =
      loadProjectConfiguration platform s.engine.rules path file.content := by
  unfold HistoryState.configurationAt
  rw [hfile]

theorem activates_of_compared (hinjective : Function.Injective platform.hash)
    (hcommit : s.commits path = some commit)
    (hsound : CommitSound platform s commit content configuration)
    (hcompared : Compared platform s.volume s.engine path commit.baseline) :
    s.ActivatesCompatible platform path := by
  obtain ⟨file, current, hfile, hload, hfingerprint⟩ := hcompared
  refine ⟨commit, configuration, current, hcommit, hsound.read, ?_,
    compatible_of_fingerprint hinjective hsound.fingerprint hfingerprint⟩
  rw [configurationAt_of hfile]
  exact hload

/-- On the content of the commit, compatibility is what the fast paths do not check. -/
theorem activates_iff_of_content (hcommit : s.commits path = some commit)
    (hsound : CommitSound platform s commit content configuration)
    (hformat : commit.baseline.formatVersion = s.engine.versions.baseline)
    (hcompiled : commit.baseline.compiledVersion = s.engine.versions.compiled)
    (hfile : s.files path = some file) (hcontent : file.content = content) :
    s.ActivatesCompatible platform path ↔ s.SameContract platform path := by
  obtain ⟨document, hparse, hversion, rfl⟩ := loadProjectConfiguration_ok hsound.load
  have hcurrent : s.configurationAt platform path =
      .ok (resolveDocument s.engine.rules path document) := by
    rw [configurationAt_of hfile, hcontent]
    exact loadProjectConfiguration_of hparse hversion
  have hbaseline : commit.engine.versions.baseline = s.engine.versions.baseline := by
    rw [← hsound.format, hformat]
  have himage : commit.engine.versions.compiled = s.engine.versions.compiled := by
    rw [← hsound.compiled, hcompiled]
  constructor
  · intro hactivates commit' hcommit'
    obtain ⟨other, first, second, hother, hfirst, hsecond, hcompatible⟩ := hactivates
    rw [hcommit] at hother hcommit'
    cases hother
    cases hcommit'
    rw [hsound.read] at hfirst
    rw [hcurrent] at hsecond
    cases hfirst
    cases hsecond
    refine ⟨by rw [hcompatible.versions], by rw [hcompatible.versions],
      by rw [hcompatible.versions], ?_⟩
    intro file' document' hfile' hparse'
    rw [hfile] at hfile'
    cases hfile'
    rw [hcontent, hparse] at hparse'
    cases hparse'
    exact hcompatible.roots
  · intro hcontract
    obtain ⟨hsource, hcache, hbuild, hroots⟩ := hcontract commit hcommit
    refine ⟨commit, _, _, hcommit, hsound.read, hcurrent, ?_, rfl, rfl, rfl, rfl,
      hroots file document hfile (by rw [hcontent]; exact hparse)⟩
    have heta : ∀ a b : EngineVersions, a.baseline = b.baseline →
        a.sourceManager = b.sourceManager → a.compiled = b.compiled →
        a.buildCache = b.buildCache → a.buildContract = b.buildContract → a = b := by
      intro a b h1 h2 h3 h4 h5
      cases a
      cases b
      simp_all
    exact heta _ _ hbaseline hsource himage hcache hbuild

end Sound

section Activations
variable {path : Bytes} {faults : ManagerFaults}
  {snapshot : BaselineSnapshot Digest} {configuration : ProjectConfiguration}
  {detection : DirtyDetection} {baseline : StoredBaseline Digest} {proof : Option (ConfigurationProof Digest)}

theorem HistorySound.load_iff [DecidableEq Digest] (h : HistorySound platform s)
    (hinjective : Function.Injective platform.hash)
    (hload : load platform s.volume s.engine path faults = .ok (snapshot, configuration)) :
    s.ActivatesCompatible platform path ↔
      (s.TrustedByLoad platform path faults → s.SameContract platform path) := by
  obtain ⟨hselected, hcompiled, hgate⟩ := load_ok hload
  obtain ⟨commit, hcommit, hbaseline⟩ := volume_stores hselected.stored
  obtain ⟨content, saved, hsound⟩ := h.commits path commit hcommit
  have hformat := hselected.format
  rw [← hbaseline] at hformat hcompiled hgate
  by_cases htrusted : s.TrustedByLoad platform path faults
  · have htrust := htrusted
    obtain ⟨opened, token, hopened, -, htoken, hproof⟩ := htrust
    obtain ⟨other, hother, hsame⟩ := volume_stores (openCurrentReady_ok hopened).1.stored
    rw [hcommit] at hother
    cases hother
    rw [← hsame] at htoken
    obtain ⟨file, hfile, hcurrent⟩ := proveFileUnchanged_ok hproof
    have hcontent := (hsound.token token htoken).content path file hfile hcurrent
    have hiff := activates_iff_of_content hcommit hsound hformat hcompiled hfile hcontent
    exact ⟨fun hactivates _ => hiff.mp hactivates, fun hcontract =>
      hiff.mpr (hcontract htrusted)⟩
  · rcases hgate with ⟨token, hopened, hfast, htoken, hproof⟩ | hcompared
    · refine absurd ⟨snapshot, token, hopened, ?_, ?_, hproof⟩ htrusted
      · rw [← hbaseline]
        exact hfast
      · rw [← hbaseline]
        exact htoken
    · have hactivates := activates_of_compared hinjective hcommit hsound hcompared
      exact ⟨fun _ himp => absurd himp htrusted, fun _ => hactivates⟩

theorem HistorySound.build_iff (h : HistorySound platform s)
    (hinjective : Function.Injective platform.hash) (hhonest : s.HonestJournal path detection)
    (hkept : BuildKept platform s.volume s.engine path faults detection baseline proof) :
    s.ActivatesCompatible platform path ↔
      (s.TrustedByBuild platform path faults detection → s.SameContract platform path) := by
  obtain ⟨commit, hcommit, rfl⟩ := volume_stores hkept.selected.stored
  obtain ⟨content, saved, hsound⟩ := h.commits path commit hcommit
  by_cases htrusted : s.TrustedByBuild platform path faults detection
  · have htrust := htrusted
    obtain ⟨opened, hopened, hfast, hproven⟩ := htrust
    obtain ⟨other, hother, hsame⟩ := volume_stores (openCurrentDecision_ok hopened).stored
    rw [hcommit] at hother
    cases hother
    rw [← hsame] at hfast hproven
    have hfile : ∃ file, s.files path = some file ∧ file.content = content := by
      rcases hproven with hproves | ⟨file, hfile, hhash⟩
      · have hsome : commit.baseline.configuration.changeToken.isSome = true := by
          simp only [BaselineConfigurationState.fast, Bool.and_eq_true] at hfast
          exact hfast.1.2
        obtain ⟨token, htoken⟩ := Option.isSome_iff_exists.mp hsome
        obtain ⟨file, hfile, hcurrent⟩ := hhonest hproves commit token hcommit htoken
        exact ⟨file, hfile, (hsound.token token htoken).content path file hfile hcurrent⟩
      · rw [hsound.hash] at hhash
        exact ⟨file, hfile, (hinjective (Option.some.inj hhash)).symm⟩
    obtain ⟨file, hfile, hcontent⟩ := hfile
    have hiff := activates_iff_of_content hcommit hsound hkept.selected.format hkept.compiled
      hfile hcontent
    exact ⟨fun hactivates _ => hiff.mp hactivates, fun hcontract => hiff.mpr (hcontract htrusted)⟩
  · rcases hkept.gate with ⟨opened, hopened, hsame, hfast, hproven⟩ | hcompared
    · refine absurd ⟨opened, hopened, ?_, ?_⟩ htrusted
      · rw [hsame]
        exact hfast
      · rw [hsame]
        exact hproven
    · have hactivates := activates_of_compared hinjective hcommit hsound hcompared
      exact ⟨fun _ himp => absurd himp htrusted, fun _ => hactivates⟩

end Activations

end ServerEngine
