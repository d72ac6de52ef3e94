import ServerEngine.Persistence.Fingerprint

/-! # Which baseline is activated

The configuration gates of `project_manager::load`, `build` and `save`: the file change token, the
content hash and the fingerprint. What the images hold beside their versions is left out.
-/
namespace ServerEngine

/-! ## The configuration file -/

/-- `file_change_token`: the volume, the file and its journal position in one number. -/
abbrev ChangeToken := Nat

structure ConfigurationFile where
  content : Bytes
  token : ChangeToken

structure ProjectDocument where
  version : UInt32
  name : Bytes
  items : List (Bytes × ProjectItemRole)
  abiTarget : AbiTarget
  abiPack : UInt32

/-- The machine: the hash, the reading of JSON, and whether the file system has change tokens. -/
structure ProjectPlatform (Digest : Type) where
  hash : Bytes → Digest
  parseJson : Bytes → Except StatusCode ProjectDocument
  changeTokens : Bool

/-- An engine as it runs: what it is compiled with, and its process's paths. -/
structure Engine where
  versions : EngineVersions
  rules : PathRules

def finishItem (rules : PathRules) (configurationPath : Bytes) (item : Bytes × ProjectItemRole) :
    ProjectItemConfiguration :=
  let path := rules.resolve configurationPath item.1
  ⟨path, item.2, rules.isAbsolute path⟩

def resolveDocument (rules : PathRules) (configurationPath : Bytes) (document : ProjectDocument) :
    ProjectConfiguration :=
  ⟨document.version, document.name, document.items.map (finishItem rules configurationPath),
    document.abiTarget, document.abiPack, true⟩

section Manager
variable {Digest : Type} [DecidableEq Digest] (platform : ProjectPlatform Digest)

def loadProjectConfiguration (rules : PathRules) (configurationPath content : Bytes) :
    Except StatusCode ProjectConfiguration := do
  let document ← platform.parseJson content
  if document.version ≠ currentProjectConfigurationVersion then .error .configurationFailed
  else .ok (resolveDocument rules configurationPath document)

/-! ## Stored baselines -/

structure BaselineConfigurationState (Digest : Type) where
  available : Bool
  projectVersion : UInt32
  abiTarget : Nat
  abiPack : UInt32
  contentHash : Option Digest
  changeToken : Option ChangeToken

/-- What CURRENT selects: the manifest, and the versions and the form of the images. -/
structure StoredBaseline (Digest : Type) where
  formatVersion : UInt32
  fingerprint : Digest
  configuration : BaselineConfigurationState Digest
  transaction : Nat
  compiledVersion : UInt32
  sourceManagerVersion : UInt32
  buildCacheVersion : UInt32
  sectioned : Bool

/-- The artifacts a snapshot has mapped beside `compiled.bin`. -/
structure BaselineSnapshot (Digest : Type) where
  baseline : StoredBaseline Digest
  sourceManager : Bool
  changeState : Bool
  buildCache : Bool

structure ManagerFaults where
  openCurrent : Option StatusCode
  openSelected : Option StatusCode
  proveUnchanged : Option StatusCode
  captureToken : Option StatusCode
  read : Option StatusCode
  probe : Option StatusCode
  activate : Option StatusCode

def raise (fault : Option StatusCode) : Except StatusCode Unit :=
  match fault with
  | none => .ok ()
  | some code => .error code

structure ProjectVolume (Digest : Type) where
  files : Bytes → Option ConfigurationFile
  stores : Bytes → Option (StoredBaseline Digest)

variable (volume : ProjectVolume Digest) (engine : Engine) (path : Bytes) (faults : ManagerFaults)

def proveFileUnchanged (token : ChangeToken) : Except StatusCode Bool := do
  if platform.changeTokens then
    raise faults.proveUnchanged
    match volume.files path with
    | none => .error .notFound
    | some file => .ok (file.token = token)
  else .error .notFound

def captureFileChangeToken : Except StatusCode ChangeToken := do
  if platform.changeTokens then
    raise faults.captureToken
    match volume.files path with
    | none => .error .notFound
    | some file => .ok file.token
  else .error .notFound

def optionalToken : Except StatusCode (Option ChangeToken) :=
  match captureFileChangeToken platform volume path faults with
  | .ok token => .ok (some token)
  | .error .notFound => .ok none
  | .error code => .error code

/-- `acquire_file_snapshot` of the configuration. -/
def acquireConfiguration : Except StatusCode Bytes := do
  raise faults.read
  match volume.files path with
  | none => .error .notFound
  | some file => .ok file.content

/-- CURRENT and its manifest, which `parse_manifest` accepts in the engine's format only. -/
def currentBaseline : Except StatusCode (StoredBaseline Digest) :=
  match volume.stores path with
  | none => .error .notFound
  | some baseline =>
    if baseline.formatVersion ≠ engine.versions.baseline then .error .artifactCorrupt
    else .ok baseline

def openCurrentReady : Except StatusCode (BaselineSnapshot Digest) := do
  raise faults.openCurrent
  let baseline ← currentBaseline volume engine path
  .ok ⟨baseline, false, false, false⟩

def openCurrentDecision : Except StatusCode (BaselineSnapshot Digest) := do
  raise faults.openCurrent
  let baseline ← currentBaseline volume engine path
  .ok ⟨baseline, false, true, false⟩

def mapSourceManager (snapshot : BaselineSnapshot Digest) :
    Except StatusCode (BaselineSnapshot Digest) :=
  if snapshot.baseline.sectioned ∧
      snapshot.baseline.sourceManagerVersion ≠ engine.versions.sourceManager then
    .error .artifactCorrupt
  else .ok { snapshot with sourceManager := true }

def mapBuildCache (snapshot : BaselineSnapshot Digest) :
    Except StatusCode (BaselineSnapshot Digest) :=
  if snapshot.baseline.sectioned ∧
      snapshot.baseline.buildCacheVersion ≠ engine.versions.buildCache then
    .error .rebuildRequired
  else .ok { snapshot with buildCache := true }

/-- `open_selected`, with the source manager and without the change state. -/
def openSelected (expected : Digest) (includeBuildCache : Bool) :
    Except StatusCode (BaselineSnapshot Digest) := do
  raise faults.openSelected
  let baseline ← currentBaseline volume engine path
  if baseline.fingerprint ≠ expected then .error .rebuildRequired
  else
    let snapshot ← mapSourceManager engine ⟨baseline, false, false, false⟩
    if includeBuildCache then mapBuildCache engine snapshot else .ok snapshot

def BaselineConfigurationState.fast (state : BaselineConfigurationState Digest) : Bool :=
  state.available && state.changeToken.isSome && state.contentHash.isSome

def supportedPack (pack : UInt32) : Bool :=
  pack == 1 || pack == 2 || pack == 4 || pack == 8 || pack == 16

def provisionalConfiguration (state : BaselineConfigurationState Digest) :
    Except StatusCode ProjectConfiguration :=
  if state.projectVersion ≠ currentProjectConfigurationVersion ∨ state.abiTarget > 1 then
    .error .artifactCorrupt
  else if supportedPack state.abiPack then
    .ok ⟨state.projectVersion, [], [],
      if state.abiTarget = 0 then .windowsX64 else .posixX64, state.abiPack, false⟩
  else .error .artifactCorrupt

/-- `activate_baseline_reserved`: the images that are mapped bind in the engine's format only. -/
def activateReady (snapshot : BaselineSnapshot Digest) : Except StatusCode Unit := do
  raise faults.activate
  if snapshot.baseline.compiledVersion ≠ engine.versions.compiled then .error .rebuildRequired
  else if snapshot.sourceManager ∧
      snapshot.baseline.sourceManagerVersion ≠ engine.versions.sourceManager then
    .error .rebuildRequired
  else .ok ()

def activateBuild (snapshot : BaselineSnapshot Digest) : Except StatusCode Unit := do
  activateReady engine faults snapshot
  if snapshot.baseline.buildCacheVersion ≠ engine.versions.buildCache then .error .rebuildRequired
  else .ok ()

/-- Whether `load` takes the saved configuration for the file's, when a snapshot is open. -/
def loadFast (snapshot : BaselineSnapshot Digest) : Except StatusCode (Option ProjectConfiguration) :=
  match snapshot.baseline.configuration.fast, snapshot.baseline.configuration.changeToken with
  | true, some token => do
    let configuration ← provisionalConfiguration snapshot.baseline.configuration
    match proveFileUnchanged platform volume path faults token with
    | .ok true => .ok (some configuration)
    | .ok false | .error .notFound => .ok none
    | .error code => .error code
  | _, _ => .ok none

def loadGate (opened : Except StatusCode (BaselineSnapshot Digest)) :
    Except StatusCode (Option (BaselineSnapshot Digest × ProjectConfiguration)) :=
  match opened with
  | .error _ => .ok none
  | .ok snapshot => (loadFast platform volume path faults snapshot).map (·.map (snapshot, ·))

def loadCompared (opened : Except StatusCode (BaselineSnapshot Digest)) (fingerprint : Digest) :
    Except StatusCode (BaselineSnapshot Digest) :=
  match opened with
  | .ok snapshot =>
    if fingerprint = snapshot.baseline.fingerprint then .ok snapshot else .error .rebuildRequired
  | .error _ => openSelected volume engine path faults fingerprint false

/-- `project_manager::load`: the snapshot that is activated, and the configuration it is given. -/
def load : Except StatusCode (BaselineSnapshot Digest × ProjectConfiguration) := do
  let opened := openCurrentReady volume engine path faults
  let fast ← loadGate platform volume path faults opened
  match fast with
  | some (snapshot, configuration) =>
    activateReady engine faults snapshot
    .ok (snapshot, configuration)
  | none =>
    let content ← acquireConfiguration volume path faults
    let configuration ← loadProjectConfiguration platform engine.rules path content
    let fingerprint ←
      makeProjectBaselineFingerprint platform.hash engine.versions engine.rules configuration
    let snapshot ← loadCompared volume engine path faults opened fingerprint
    activateReady engine faults snapshot
    .ok (snapshot, configuration)

/-! ## build -/

structure ConfigurationProof (Digest : Type) where
  contentHash : Option Digest
  changeToken : Option ChangeToken

/-- What the detection of dirty sources reports, with the identity of the configuration file;
`fallback` where the full scan has mapped the source manager. -/
structure DirtyDetection where
  identity : Except StatusCode Bool
  result : Option StatusCode
  fallback : Bool
  dirty : Bool
  configurationProven : Bool
  configurationChanged : Bool

/-- How `build` goes on. -/
inductive BuildDecision (Digest : Type)
  | construct (configuration : ProjectConfiguration) (proof : Option (ConfigurationProof Digest))
  | activate (snapshot : BaselineSnapshot Digest) (configuration : ProjectConfiguration)
  | update (snapshot : BaselineSnapshot Digest) (configuration : ProjectConfiguration)
    (proof : Option (ConfigurationProof Digest))

/-- `load_generation_configuration`; the file does not change meanwhile. -/
def loadGenerationConfiguration :
    Except StatusCode (ProjectConfiguration × ConfigurationProof Digest) := do
  let token ← optionalToken platform volume path faults
  let content ← acquireConfiguration volume path faults
  let configuration ← loadProjectConfiguration platform engine.rules path content
  .ok (configuration, ⟨some (platform.hash content), token⟩)

/-- The provisional configuration where the gate of `build` lets it pass. -/
def buildFast (snapshot : BaselineSnapshot Digest) : Except StatusCode (Option ProjectConfiguration) :=
  if snapshot.baseline.configuration.fast then
    (provisionalConfiguration snapshot.baseline.configuration).map some
  else .ok none

def DirtyDetection.proves (detection : DirtyDetection) : Bool :=
  match detection.identity with
  | .ok true => detection.configurationProven && !detection.configurationChanged
  | _ => false

def ensureSourceManager (snapshot : BaselineSnapshot Digest) :
    Except StatusCode (BaselineSnapshot Digest) :=
  if snapshot.sourceManager then .ok snapshot else mapSourceManager engine snapshot

def ensureBuildCache (snapshot : BaselineSnapshot Digest) :
    Except StatusCode (BaselineSnapshot Digest) :=
  if snapshot.buildCache then .ok snapshot else mapBuildCache engine snapshot

/-- What `build` does once the dirty sources are known. -/
def finishBuild (snapshot : BaselineSnapshot Digest) (configuration : ProjectConfiguration)
    (proof : Option (ConfigurationProof Digest)) (dirty : Bool) :
    Except StatusCode (BuildDecision Digest) := do
  if dirty then
    let snapshot ← ensureSourceManager engine snapshot
    let snapshot ← ensureBuildCache engine snapshot
    activateBuild engine faults snapshot
    .ok (.update snapshot configuration proof)
  else
    activateReady engine faults snapshot
    .ok (.activate snapshot configuration)

/-- The configuration that the journal has not proven is compared by content. -/
def checkConfiguration (snapshot : BaselineSnapshot Digest) (configuration : ProjectConfiguration)
    (dirty : Bool) : Except StatusCode (BuildDecision Digest) := do
  let token ← optionalToken platform volume path faults
  let content ← acquireConfiguration volume path faults
  let proof : ConfigurationProof Digest := ⟨some (platform.hash content), token⟩
  if some (platform.hash content) ≠ snapshot.baseline.configuration.contentHash then
    let current ← loadProjectConfiguration platform engine.rules path content
    let fingerprint ←
      makeProjectBaselineFingerprint platform.hash engine.versions engine.rules current
    if fingerprint ≠ snapshot.baseline.fingerprint then .ok (.construct current (some proof))
    else finishBuild engine faults snapshot current (some proof) dirty
  else finishBuild engine faults snapshot configuration (some proof) dirty

def buildGate (opened : Except StatusCode (BaselineSnapshot Digest)) :
    Except StatusCode (Option (BaselineSnapshot Digest × ProjectConfiguration)) :=
  match opened with
  | .error _ => .ok none
  | .ok snapshot => (buildFast snapshot).map (·.map (snapshot, ·))

/-- `build` with the configuration that is read: `open` maps no change state, and an empty image
does not bind. -/
def buildCompared (detection : DirtyDetection) : Except StatusCode (BuildDecision Digest) := do
  let (configuration, proof) ← loadGenerationConfiguration platform volume engine path faults
  let fingerprint ←
    makeProjectBaselineFingerprint platform.hash engine.versions engine.rules configuration
  match openSelected volume engine path faults fingerprint true with
  | .error .notFound | .error .rebuildRequired => .ok (.construct configuration (some proof))
  | .error code => .error code
  | .ok snapshot =>
    match snapshot.changeState, detection.result with
    | false, _ => .error .artifactCorrupt
    | true, some code => .error code
    | true, none => finishBuild engine faults snapshot configuration (some proof) detection.dirty

def scannedSnapshot (detection : DirtyDetection) (snapshot : BaselineSnapshot Digest) :
    Except StatusCode (BaselineSnapshot Digest) :=
  if detection.fallback then mapSourceManager engine snapshot else .ok snapshot

/-- `build` with the provisional configuration of the saved baseline. -/
def buildProvisional (detection : DirtyDetection) (snapshot : BaselineSnapshot Digest)
    (configuration : ProjectConfiguration) : Except StatusCode (BuildDecision Digest) :=
  match detection.identity, detection.result with
  | .ok _, none | .error .notFound, none => do
    let snapshot ← scannedSnapshot engine detection snapshot
    if detection.proves then
      finishBuild engine faults snapshot configuration
        (some ⟨snapshot.baseline.configuration.contentHash,
          snapshot.baseline.configuration.changeToken⟩) detection.dirty
    else
      checkConfiguration platform volume engine path faults snapshot configuration detection.dirty
  | .ok _, some code | .error .notFound, some code => .error code
  | .error code, _ => .error code

/-- `project_manager::build` up to the construction, the activation or the update. -/
def build (detection : DirtyDetection) : Except StatusCode (BuildDecision Digest) := do
  let fast ← buildGate (openCurrentDecision volume engine path faults)
  match fast with
  | none => buildCompared platform volume engine path faults detection
  | some (snapshot, configuration) =>
    buildProvisional platform volume engine path faults detection snapshot configuration

end Manager

end ServerEngine
