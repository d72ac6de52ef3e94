import Mathlib.Logic.Relation
import ServerEngine.Persistence.Activation

/-! # Histories of builds, saves and loads

Engines run one after another over the same files. Every change of a file gives it a token of its
own; a directory that is moved takes its files and its baseline along.
-/
namespace ServerEngine
open Relation

/-! ## save -/

/-- The READY project. `persisted` is `persisted_transaction()`. -/
structure ActiveProject (Digest : Type) where
  path : Bytes
  configuration : ProjectConfiguration
  fingerprint : Digest
  proof : Option (ConfigurationProof Digest)
  persisted : Option Nat

/-- What `save` comes to: the state is durable already, or it is committed. -/
inductive SaveDecision (Digest : Type)
  | persisted
  | commit (fingerprint : Digest) (state : BaselineConfigurationState Digest)

section Save
variable {Digest : Type} [DecidableEq Digest] (platform : ProjectPlatform Digest)
  (volume : ProjectVolume Digest) (engine : Engine) (faults : ManagerFaults)
  (project : ActiveProject Digest)

def checkPersisted (transaction : Nat) (fingerprint : Digest) :
    Except StatusCode (StoredBaseline Digest) := do
  raise faults.probe
  let current ← currentBaseline volume engine project.path
  if current.fingerprint ≠ fingerprint ∨ current.transaction ≠ transaction then
    .error .rebuildRequired
  else .ok current

/-- The gate of an idempotent `save`. -/
def saveIsDone : Except StatusCode Bool :=
  match project.persisted with
  | none => .ok false
  | some transaction => do
    let current ← checkPersisted volume engine faults project transaction project.fingerprint
    match current.configuration.available, current.configuration.changeToken with
    | true, some token =>
      match proveFileUnchanged platform volume project.path faults token with
      | .ok unchanged => .ok unchanged
      | .error .notFound => .ok false
      | .error code => .error code
    | _, _ => .ok false

/-- The identity of the configuration that the generation was built with, if it still is the
file's. -/
def provenConfiguration : Except StatusCode (Option (Digest × ChangeToken)) :=
  match project.proof with
  | some ⟨some contentHash, some token⟩ =>
    match proveFileUnchanged platform volume project.path faults token with
    | .ok true => .ok (some (contentHash, token))
    | .ok false | .error .notFound => .ok none
    | .error code => .error code
  | _ => .ok none

/-- The configuration is read again and must have the fingerprint of the project. -/
def readConfiguration : Except StatusCode (Digest × BaselineConfigurationState Digest) := do
  let token ← optionalToken platform volume project.path faults
  let content ← acquireConfiguration volume project.path faults
  let configuration ← loadProjectConfiguration platform engine.rules project.path content
  let fingerprint ←
    makeProjectBaselineFingerprint platform.hash engine.versions engine.rules configuration
  if project.fingerprint ≠ fingerprint then .error .rebuildRequired
  else .ok (fingerprint, ⟨true, configuration.version, configuration.abiTarget.code,
    configuration.abiPack, some (platform.hash content), token⟩)

def savedIdentity : Except StatusCode (Digest × BaselineConfigurationState Digest) := do
  let proven ← provenConfiguration platform volume faults project
  match proven with
  | some (contentHash, token) =>
    .ok (project.fingerprint, ⟨true, project.configuration.version,
      project.configuration.abiTarget.code, project.configuration.abiPack, some contentHash,
      some token⟩)
  | none => readConfiguration platform volume engine faults project

/-- `project_manager::save` up to the commit. -/
def save : Except StatusCode (SaveDecision Digest) := do
  let done ← saveIsDone platform volume engine faults project
  if done then .ok .persisted
  else
    let identity ← savedIdentity platform volume engine faults project
    match project.persisted with
    | some transaction =>
      let _ ← checkPersisted volume engine faults project transaction identity.1
      .ok .persisted
    | none => .ok (.commit identity.1 identity.2)

end Save

/-! ## Histories -/

/-- A commit: the baseline, the engine and the path it was committed by and for, and what
project.json was read as. -/
structure BaselineCommit (Digest : Type) where
  baseline : StoredBaseline Digest
  engine : Engine
  path : Bytes
  configuration : Except StatusCode ProjectConfiguration

/-- The files, what CURRENT selects beside them, the next token, and the running process. -/
structure HistoryState (Digest : Type) where
  files : Bytes → Option ConfigurationFile
  commits : Bytes → Option (BaselineCommit Digest)
  stamp : ChangeToken
  engine : Engine
  project : Option (ActiveProject Digest)

namespace HistoryState
variable {Digest : Type} [DecidableEq Digest]

def volume (s : HistoryState Digest) : ProjectVolume Digest :=
  ⟨s.files, fun path => (s.commits path).map (·.baseline)⟩

def configurationAt (platform : ProjectPlatform Digest) (s : HistoryState Digest) (path : Bytes) :
    Except StatusCode ProjectConfiguration :=
  match s.files path with
  | none => .error .notFound
  | some file => loadProjectConfiguration platform s.engine.rules path file.content

/-- The project after a decision of `build`, if the construction or the update succeeds. -/
def built (platform : ProjectPlatform Digest) (s : HistoryState Digest) (path : Bytes)
    (changed : Bool) : BuildDecision Digest → Except StatusCode (ActiveProject Digest)
  | .construct configuration proof => do
    let fingerprint ← makeProjectBaselineFingerprint platform.hash s.engine.versions
      s.engine.rules configuration
    .ok ⟨path, configuration, fingerprint, proof, none⟩
  | .activate snapshot configuration =>
    .ok ⟨path, configuration, snapshot.baseline.fingerprint, none,
      some snapshot.baseline.transaction⟩
  | .update snapshot configuration proof =>
    .ok ⟨path, configuration, snapshot.baseline.fingerprint, proof,
      if changed then none else some snapshot.baseline.transaction⟩

def committed (platform : ProjectPlatform Digest) (s : HistoryState Digest)
    (project : ActiveProject Digest) (fingerprint : Digest)
    (state : BaselineConfigurationState Digest) (transaction : Nat) (sectioned : Bool) :
    HistoryState Digest :=
  { s with
    commits := Function.update s.commits project.path (some ⟨⟨s.engine.versions.baseline,
      fingerprint, state, transaction, s.engine.versions.compiled, s.engine.versions.sourceManager,
      s.engine.versions.buildCache, sectioned⟩, s.engine, project.path,
      s.configurationAt platform project.path⟩)
    project := some { project with persisted := some transaction } }

/-- The selected baseline was committed by an engine with the same versions, for a configuration
that agrees with what the file holds now. -/
def ActivatesCompatible (platform : ProjectPlatform Digest) (s : HistoryState Digest)
    (path : Bytes) : Prop :=
  ∃ commit configuration configuration', s.commits path = some commit ∧
    commit.configuration = .ok configuration ∧
    s.configurationAt platform path = .ok configuration' ∧
    Compatible commit.engine.versions s.engine.versions commit.engine.rules s.engine.rules
      configuration configuration'

/-- The fast paths check the formats of the manifest and of the images that are opened. What they
do not check is the same: the other formats, the build contract, and where the roots lead. -/
def SameContract (platform : ProjectPlatform Digest) (s : HistoryState Digest) (path : Bytes) :
    Prop :=
  ∀ commit, s.commits path = some commit →
    commit.engine.versions.sourceManager = s.engine.versions.sourceManager ∧
    commit.engine.versions.buildCache = s.engine.versions.buildCache ∧
    commit.engine.versions.buildContract = s.engine.versions.buildContract ∧
    ∀ file document, s.files path = some file → platform.parseJson file.content = .ok document →
      normalizedRoots commit.engine.rules
          (resolveDocument commit.engine.rules commit.path document).project =
        normalizedRoots s.engine.rules (resolveDocument s.engine.rules path document).project

/-- `load` takes the change token of project.json for proof of the configuration. -/
def TrustedByLoad (platform : ProjectPlatform Digest) (s : HistoryState Digest) (path : Bytes)
    (faults : ManagerFaults) : Prop :=
  ∃ snapshot token, openCurrentReady s.volume s.engine path faults = .ok snapshot ∧
    snapshot.baseline.configuration.fast = true ∧
    snapshot.baseline.configuration.changeToken = some token ∧
    proveFileUnchanged platform s.volume path faults token = .ok true

/-- `build` takes the journal or the content of project.json for proof of the configuration. -/
def TrustedByBuild (platform : ProjectPlatform Digest) (s : HistoryState Digest) (path : Bytes)
    (faults : ManagerFaults) (detection : DirtyDetection) : Prop :=
  ∃ snapshot, openCurrentDecision s.volume s.engine path faults = .ok snapshot ∧
    snapshot.baseline.configuration.fast = true ∧
    (detection.proves = true ∨ ∃ file, s.files path = some file ∧
      snapshot.baseline.configuration.contentHash = some (platform.hash file.content))

/-- The journal has a record of every change of the file: where it has none since the commit, the
token is the one the commit has kept. -/
def HonestJournal (s : HistoryState Digest) (path : Bytes) (detection : DirtyDetection) : Prop :=
  detection.proves = true → ∀ commit token, s.commits path = some commit →
    commit.baseline.configuration.changeToken = some token →
    ∃ file, s.files path = some file ∧ file.token = token

end HistoryState

/-- One step of a history. A failed operation leaves everything as it is; a fast path is taken
under the condition of `SameContract`. -/
inductive HistoryStep {Digest : Type} [DecidableEq Digest] (platform : ProjectPlatform Digest) :
    HistoryState Digest → HistoryState Digest → Prop
  | write (s : HistoryState Digest) (path content : Bytes) : HistoryStep platform s
    { s with
      files := Function.update s.files path (some ⟨content, s.stamp⟩)
      stamp := s.stamp + 1 }
  | remove (s : HistoryState Digest) (path : Bytes) : HistoryStep platform s
    { s with files := Function.update s.files path none }
  | move (s : HistoryState Digest) (origin : Bytes → Bytes) : HistoryStep platform s
    { s with
      files := s.files ∘ origin
      commits := s.commits ∘ origin }
  | copy (s : HistoryState Digest) (source target : Bytes) : HistoryStep platform s
    { s with
      files := Function.update s.files target
        ((s.files source).map fun file => ⟨file.content, s.stamp⟩)
      commits := Function.update s.commits target (s.commits source)
      stamp := s.stamp + 1 }
  | start (s : HistoryState Digest) (engine : Engine) : HistoryStep platform s
    { s with
      engine := engine
      project := none }
  | unload (s : HistoryState Digest) : HistoryStep platform s { s with project := none }
  | rebuild (s : HistoryState Digest) (path : Bytes) (faults : ManagerFaults)
    {configuration : ProjectConfiguration} {proof : ConfigurationProof Digest}
    {project : ActiveProject Digest} : s.project = none →
    loadGenerationConfiguration platform s.volume s.engine path faults =
      .ok (configuration, proof) →
    s.built platform path false (.construct configuration (some proof)) = .ok project →
    HistoryStep platform s { s with project := some project }
  | load (s : HistoryState Digest) (path : Bytes) (faults : ManagerFaults)
    {snapshot : BaselineSnapshot Digest} {configuration : ProjectConfiguration} :
    s.project = none →
    load platform s.volume s.engine path faults = .ok (snapshot, configuration) →
    (s.TrustedByLoad platform path faults → s.SameContract platform path) →
    HistoryStep platform s { s with
      project := some ⟨path, configuration, snapshot.baseline.fingerprint, none,
        some snapshot.baseline.transaction⟩ }
  | build (s : HistoryState Digest) (path : Bytes) (faults : ManagerFaults)
    (detection : DirtyDetection) (changed : Bool) {decision : BuildDecision Digest}
    {project : ActiveProject Digest} : s.project = none → s.HonestJournal path detection →
    build platform s.volume s.engine path faults detection = .ok decision →
    (s.TrustedByBuild platform path faults detection → s.SameContract platform path) →
    s.built platform path changed decision = .ok project →
    HistoryStep platform s { s with project := some project }
  | save (s : HistoryState Digest) (faults : ManagerFaults) (transaction : Nat) (sectioned : Bool)
    {project : ActiveProject Digest} {fingerprint : Digest}
    {state : BaselineConfigurationState Digest} : s.project = some project →
    save platform s.volume s.engine faults project = .ok (.commit fingerprint state) →
    HistoryStep platform s
      (s.committed platform project fingerprint state transaction sectioned)

def HistoryState.empty {Digest : Type} (engine : Engine) : HistoryState Digest :=
  ⟨fun _ => none, fun _ => none, 0, engine, none⟩

def HistoryReachable {Digest : Type} [DecidableEq Digest] (platform : ProjectPlatform Digest)
    (s : HistoryState Digest) : Prop :=
  ∃ engine, ReflTransGen (HistoryStep platform) (HistoryState.empty engine) s

end ServerEngine
