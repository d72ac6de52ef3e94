import ServerEngine.Source.Manager
import ServerEngine.Library.Transaction
import ServerEngine.Library.ErrorFold

/-! # Updates of the source manager

An update collects new sources and a candidate for each source it touches, prepares their
publication and publishes them. The owner is part of the state: preparing caches baseline states and
reserves capacity there.
-/
namespace ServerEngine

def u64Max : Nat := 18446744073709551615

/-! ## State -/

structure CandidateSource where
  source : Nat
  snapshot : Option SourceSnapshot := none
  includes : List Nat := []
  dependents : List Nat := []
  hasSnapshot : Bool := false
  hasIncludes : Bool := false
  hasDependents : Bool := false

def CandidateSource.changed (item : CandidateSource) : Bool :=
  item.hasSnapshot || item.hasIncludes || item.hasDependents

structure NewSource where
  source : Nat
  normalizedPath : Bytes

/-- `source_manager_update`, with the manager behind `owner`. -/
structure SourceManagerUpdate where
  owner : SourceManager
  newSources : List NewSource := []
  candidates : List CandidateSource := []
  preparedPathIndexSlots : Nat := 0
  semanticChanges : List Nat := []
  physicalChanges : List Nat := []
  candidateSnapshots : SnapshotPageStore := {}
  preparedPathStorageSize : Nat := 0
  preparedTextBytes : Nat := 0
  prepared : Bool := false
  committed : Bool := false

/-- `source_acquire_result`: its kind, with the file snapshot of a present file. -/
inductive SourceAcquireKind
  | unchanged
  | missing
  | present (bytes : Bytes) (observation : FileSnapshotObservation) (hash identity : Nat)
  deriving DecidableEq

abbrev UpdateM := EStateM StatusCode SourceManagerUpdate

def SourceManager.beginUpdate (m : SourceManager) : SourceManagerUpdate := { owner := m }

namespace SourceManagerUpdate

def sourceCount (u : SourceManagerUpdate) : Nat := u.owner.records.size + u.newSources.length

def validSource (u : SourceManagerUpdate) (source : Nat) : Bool :=
  source ≠ 0 && source ≤ u.sourceCount

def candidate (u : SourceManagerUpdate) (source : Nat) : Option CandidateSource :=
  u.candidates.find? (·.source = source)

def path (u : SourceManagerUpdate) (source : Nat) : Bytes :=
  if source = 0 then []
  else if source ≤ u.owner.records.size then u.owner.path source
  else match u.newSources[source - u.owner.records.size - 1]? with
  | some item => item.normalizedPath
  | none => []

def snapshot (u : SourceManagerUpdate) (source : Nat) : Option SourceSnapshot :=
  match (u.candidate source).filter (·.hasSnapshot) with
  | some item => item.snapshot
  | none => u.owner.current source

def includes (u : SourceManagerUpdate) (source : Nat) : List Nat :=
  match (u.candidate source).filter (·.hasIncludes) with
  | some item => item.includes
  | none => u.owner.includes source

def dependents (u : SourceManagerUpdate) (source : Nat) : List Nat :=
  match (u.candidate source).filter (·.hasDependents) with
  | some item => item.dependents
  | none => u.owner.dependents source

def updateCandidate (u : SourceManagerUpdate) (source : Nat)
    (f : CandidateSource → CandidateSource) : SourceManagerUpdate :=
  { u with candidates := u.candidates.map fun c => if c.source = source then f c else c }

def touch (source : Nat) : UpdateM Unit := fun u =>
  if (u.candidate source).isSome then .ok () u
  else if !u.validSource source then .error .invalidArgument u
  else .ok () { u with candidates := u.candidates ++ [{ source }], prepared := false }

def resolveNormalized (normalized : Bytes) : UpdateM Nat := fun u =>
  if u.committed || normalized = [] then .error .invalidArgument u
  else match u.owner.find normalized with
  | some source => .ok source u
  | none => match u.newSources.find? (·.normalizedPath = normalized) with
    | some item => .ok item.source u
    | none =>
      if u32Max ≤ u.sourceCount then .error .notAvailable u
      else
        let source := u.sourceCount + 1
        .ok source { u with
          newSources := u.newSources ++ [⟨source, normalized⟩]
          prepared := false }

def setSnapshot (source : Nat) (snapshot : Option SourceSnapshot)
    (semanticChange firstPhysicalChange : Bool) (u : SourceManagerUpdate) : SourceManagerUpdate :=
  { u.updateCandidate source (fun c => { c with snapshot, hasSnapshot := true }) with
    semanticChanges := if semanticChange then u.semanticChanges ++ [source] else u.semanticChanges
    physicalChanges :=
      if firstPhysicalChange then u.physicalChanges ++ [source] else u.physicalChanges
    prepared := false }

/-- The branches of `apply_acquire` after the candidate is touched. -/
def acquireTouched (source : Nat) (kind : SourceAcquireKind) (previous : Option SourceSnapshot) :
    UpdateM Unit := fun u =>
  let isNewSource := u.owner.records.size < source
  let firstPhysicalChange := !(u.candidate source).any (·.hasSnapshot)
  match kind with
  | .unchanged => .ok () u
  | .missing =>
    if isNewSource || previous.isNone then .error .notFound u
    else .ok () (u.setSnapshot source none true firstPhysicalChange)
  | .present bytes observation hash identity =>
    let normalized := u.path source
    if normalized = [] then .error .invalidArgument u
    else match u.candidateSnapshots.append source normalized bytes with
    | .error code => .error code u
    | .ok pages =>
      let semanticChange := !previous.any (·.hash = hash)
      let snapshot : SourceSnapshot :=
        { source, normalizedPath := normalized, text := bytes, observation, hash, identity }
      .ok () (setSnapshot source (some snapshot) semanticChange firstPhysicalChange
        { u with candidateSnapshots := pages })

def applyAcquire (source : Nat) (kind : SourceAcquireKind) : UpdateM Unit := fun u =>
  if !u.validSource source then .error .invalidArgument u
  else if kind = .unchanged then .ok () u
  else (do touch source; acquireTouched source kind (u.snapshot source)) u

def storeIncludes (source : Nat) (dependencies : List Nat) (u : SourceManagerUpdate) :
    SourceManagerUpdate :=
  { u.updateCandidate source (fun c =>
      { c with includes := dependencies, hasIncludes := true }) with prepared := false }

def setIncludes (source : Nat) (dependencies : List Nat) : UpdateM Unit := fun u =>
  if !u.validSource source then .error .invalidArgument u
  else if dependencies.any fun d => !u.validSource d || d = source then .error .invalidArgument u
  else (do
    touch source
    modify (storeIncludes source dependencies)) u

structure EdgePatch where
  target : Nat
  dependent : Nat
  add : Bool

def edgePatches (dependent : Nat) (old new : List Nat) : List EdgePatch :=
  (old.filter (· ∉ new)).map (⟨·, dependent, false⟩) ++
    (new.filter (· ∉ old)).map (⟨·, dependent, true⟩)

def oldIncludes (m : SourceManager) (source : Nat) : List Nat :=
  if source ≤ m.states.size then m.includes source else []

/-- The collecting loop of `prepare_dependent_patches`; a null id fails its set insertion. -/
def collectPatches : List CandidateSource → EStateM StatusCode SourceManager (List EdgePatch)
  | [] => pure []
  | item :: rest => fun m =>
    if !item.hasIncludes then collectPatches rest m
    else
      let old := oldIncludes m item.source
      let m := if item.source ≤ m.states.size then m.cacheEdges .includes item.source else m
      if 0 ∈ old || 0 ∈ item.includes then .error .invalidArgument m
      else (do return edgePatches item.source old item.includes ++ (← collectPatches rest)) m

/-- `*found = back; pop_back` for the first occurrence. -/
def swapRemove (values : List Nat) (value : Nat) : List Nat :=
  match values.getLast? with
  | some last => if value ∈ values then (values.set (values.idxOf value) last).dropLast else values
  | none => values

def EdgePatch.apply (patch : EdgePatch) (dependents : List Nat) : List Nat :=
  if patch.add then
    if patch.dependent ∈ dependents then dependents else dependents ++ [patch.dependent]
  else swapRemove dependents patch.dependent

def loadDependents (target : Nat) (u : SourceManagerUpdate) : SourceManagerUpdate :=
  if (u.candidate target).any (·.hasDependents) then u
  else
    { u.updateCandidate target fun c =>
        { c with dependents := u.owner.dependents target, hasDependents := true } with
      owner := u.owner.cacheEdges .dependents target }

def applyPatch (patch : EdgePatch) : UpdateM Unit := do
  touch patch.target
  modify fun u => (u.loadDependents patch.target).updateCandidate patch.target fun c =>
    { c with dependents := patch.apply c.dependents }

def onOwner {α : Type} (x : EStateM StatusCode SourceManager α) : UpdateM α := fun u =>
  match x u.owner with
  | .ok a owner => .ok a { u with owner }
  | .error code owner => .error code { u with owner }

def prepareDependentPatches : UpdateM Unit := fun u =>
  (do
    let patches ← onOwner (collectPatches u.candidates)
    forM patches applyPatch) u

/-! ## Preparing the publication -/

def nextCapacityLoop : Nat → Nat → Nat → Nat
  | 0, _, _ => 0
  | fuel + 1, required, capacity =>
    if capacity < required then
      if sizeMax / 2 < capacity then 0 else nextCapacityLoop fuel required (capacity * 2)
    else capacity

def nextCapacity (required : Nat) : Nat := nextCapacityLoop 64 required 16

def incrementalHeadroom (size minimumExtra : Nat) : Option Nat :=
  let extra := max (size / 16) minimumExtra
  if sizeMax - extra < size then none else some (size + extra)

/-- `build_prepared_path_index`, as far as its size. -/
def buildPreparedPathIndex : UpdateM Unit := fun u =>
  let count := u.owner.records.localValues.length + u.newSources.length
  let capacity := nextCapacity (if sizeMax / 2 < count then 0 else count * 2 + 1)
  if sizeMax < count || capacity = 0 ||
      u32Max < u.owner.baselineSourceCount + u.owner.records.localValues.length then
    .error .notAvailable u
  else .ok () { u with preparedPathIndexSlots := capacity }

/-- `build_sparse_path_insertions`, as far as its status. -/
def buildSparsePathInsertions : UpdateM Unit := fun u =>
  if u.owner.pathIndexSlots = 0 then buildPreparedPathIndex u
  else if u.owner.pathIndexSlots / 2 <
      u.owner.records.localValues.length + u.newSources.length then .error .rebuildRequired u
  else .ok () u

def preparePathIndex : UpdateM Unit := fun u =>
  if u.owner.baselineBacked || u.owner.records.size = 0 then buildPreparedPathIndex u
  else buildSparsePathInsertions u

def addedPathBytes (u : SourceManagerUpdate) : Nat :=
  (u.newSources.map fun item => item.normalizedPath.length).sum

/-- The bound on the path bytes, its subtraction wrapping as `std::size_t` does. -/
def checkPathBytes : UpdateM Unit := fun u =>
  let added := u.addedPathBytes
  let room := (u32Max + (sizeMax + 1) - added) % (sizeMax + 1)
  if sizeMax < added || room < u.owner.pathStorage.size then .error .notAvailable u else .ok () u

def materializeCandidates (m : SourceManager) (candidates : List CandidateSource) : SourceManager :=
  { m with states := candidates.foldl (fun states item =>
      if item.source - 1 < m.baselineSourceCount then states.materialize (item.source - 1)
      else states) m.states }

/-- The capacity steps of `prepare_publish` for new sources. -/
def reserveNewSources : UpdateM Unit := fun u =>
  let u := { u with preparedPathStorageSize := u.owner.pathStorage.size + u.addedPathBytes }
  let m := u.owner
  let count := u.newSources.length
  if m.baselineBacked then
    let m := m.reserveSources (m.records.size + count) u.preparedPathStorageSize
    let u := { u with owner := materializeCandidates m u.candidates }
    match u.owner.states.readFailure with
    | some code => .error code u
    | none => .ok () u
  else if m.records.size = 0 then
    match incrementalHeadroom count 64, incrementalHeadroom u.preparedPathStorageSize 4096 with
    | some sources, some paths =>
      .ok () { u with owner := m.reserveSources sources paths }
    | _, _ => .error .notAvailable u
  else if m.records.capacity < m.records.size + count ||
      m.states.capacity < m.states.size + count ||
      m.pathStorage.capacity < u.preparedPathStorageSize then
    .error .rebuildRequired { u with preparedPathIndexSlots := 0, preparedPathStorageSize := 0 }
  else .ok () u

/-- The steps of `prepare_publish` that new sources alone need. -/
def prepareNewSources : UpdateM Unit := fun u =>
  if u.newSources = [] then .ok () u
  else (do
    preparePathIndex
    checkPathBytes
    reserveNewSources) u

def countTextBytes (m : SourceManager) (total : Nat) (item : CandidateSource) :
    Except StatusCode Nat :=
  if !item.hasSnapshot then .ok total
  else
    let previous := if item.source ≤ m.records.size then
      ((m.current item.source).map (·.observation.size)).getD 0 else 0
    if u64Max < previous then .error .notAvailable
    else if total < previous then .error .initializationFailed
    else match item.snapshot with
    | none => .ok (total - previous)
    | some snapshot =>
      if u64Max < total - previous + snapshot.observation.size then .error .notAvailable
      else .ok (total - previous + snapshot.observation.size)

def prepareTextBytes : UpdateM Unit := fun u =>
  match u.candidates.foldlM (countTextBytes u.owner) u.owner.persistenceTextBytes with
  | .ok total => .ok () { u with preparedTextBytes := total }
  | .error code => .error code u

def additionalForwardEdges (candidates : List CandidateSource) : Nat :=
  (candidates.map fun item => if item.hasIncludes then item.includes.length else 0).sum

def additionalReverseEdges (candidates : List CandidateSource) : Nat :=
  (candidates.map fun item => if item.hasDependents then item.dependents.length else 0).sum

/-- `generation_storage_value.prepare_publish` on the owner. -/
def prepareGeneration : UpdateM Unit := fun u =>
  let forward := additionalForwardEdges u.candidates
  let reverse := additionalReverseEdges u.candidates
  if sizeMax < forward || sizeMax < reverse then .error .notAvailable u
  else match u.owner.generationStorage.preparePublish u.newSources.length forward reverse with
  | .ok generationStorage => .ok () { u with owner := { u.owner with generationStorage } }
  | .error code => .error code u

/-- `generation_storage_value.prepare_source` for a changed candidate the storage knows. -/
def prepareSource (item : CandidateSource) : EStateM StatusCode SourceManager PUnit := fun m =>
  if !item.changed then .ok ⟨⟩ m
  else if m.generationStorage.sourceCount < item.source then .ok ⟨⟩ m
  else if item.source = 0 then .error .invalidArgument m
  else
    let generationStorage := m.generationStorage.materializeSource item.source
    match generationStorage.readStatus with
    | none => .ok ⟨⟩ { m with generationStorage }
    | some code => .error code { m with generationStorage }

def prepareSources : UpdateM Unit := fun u =>
  onOwner (forM u.candidates prepareSource) u

def prepareAbsorb : UpdateM Unit := fun u =>
  match u.owner.snapshotStorage.prepareAbsorb u.candidateSnapshots with
  | .ok snapshotStorage => .ok () { u with owner := { u.owner with snapshotStorage } }
  | .error code => .error code u

def markPrepared (u : SourceManagerUpdate) : SourceManagerUpdate := { u with prepared := true }

def preparePublish : UpdateM Unit := fun u =>
  if u.committed then .error .invalidArgument u
  else if u.prepared then .ok () u
  else (do
    prepareDependentPatches
    prepareNewSources
    prepareTextBytes
    prepareGeneration
    prepareSources
    prepareAbsorb
    modify markPrepared) u

def publishSource (m : SourceManager) (item : NewSource) : SourceManager :=
  { m with
    pathStorage := m.pathStorage.append item.normalizedPath
    records := m.records.pushBack
      ⟨m.pathStorage.size % (u32Max + 1), item.normalizedPath.length % (u32Max + 1)⟩
    states := m.states.pushBack {}
    generationStorage := m.generationStorage.publishSource }

/-- The assignment to `states[index].snapshot` and `publish_snapshot` of what it then holds. -/
def publishSnapshot (m : SourceManager) (source : Nat) (snapshot : Option SourceSnapshot) :
    SourceManager :=
  let states := m.states.set (source - 1) { m.states.value (source - 1) with snapshot }
  let states := states.materialize (source - 1)
  { m with
    states
    generationStorage :=
      m.generationStorage.publishSnapshot source (states.value (source - 1)).snapshot }

def publishCandidate (m : SourceManager) (item : CandidateSource) : SourceManager :=
  if item.source = 0 || m.states.size < item.source then m
  else
    let m := if item.hasSnapshot then publishSnapshot m item.source item.snapshot else m
    let storage := m.generationStorage
    let storage := if item.hasIncludes then storage.publishIncludes item.source item.includes
      else storage
    let storage := if item.hasDependents then storage.publishDependents item.source item.dependents
      else storage
    { m with generationStorage := storage }

def publishPrepared (u : SourceManagerUpdate) : SourceManagerUpdate :=
  if !u.prepared || u.committed then u
  else
    let m := { u.owner with
      snapshotStorage := u.owner.snapshotStorage.absorbPrepared u.candidateSnapshots }
    let m := u.newSources.foldl publishSource m
    let m := u.candidates.foldl publishCandidate m
    { u with
      owner := { m with
        pathIndexSlots :=
          if u.preparedPathIndexSlots ≠ 0 then u.preparedPathIndexSlots else m.pathIndexSlots
        persistenceTextBytes := u.preparedTextBytes }
      candidateSnapshots := {}
      committed := true }

def commit : UpdateM Unit := do
  preparePublish
  modify publishPrepared

/-- The calls an update takes before it is published, reads of the owner among them. -/
inductive Call
  | resolve (normalized : Bytes)
  | applyAcquire (source : Nat) (kind : SourceAcquireKind)
  | setIncludes (source : Nat) (dependencies : List Nat)
  | preparePublish
  | readEdges (kind : SourceGenerationEdgeKind) (source : Nat)

def call (u : SourceManagerUpdate) : Call → SourceManagerUpdate
  | .resolve normalized => Transaction.left (resolveNormalized normalized u)
  | .applyAcquire source kind => Transaction.left (SourceManagerUpdate.applyAcquire source kind u)
  | .setIncludes source dependencies =>
    Transaction.left (SourceManagerUpdate.setIncludes source dependencies u)
  | .preparePublish => Transaction.left (SourceManagerUpdate.preparePublish u)
  | .readEdges kind source => { u with owner := u.owner.cacheEdges kind source }

def run (u : SourceManagerUpdate) (calls : List Call) : SourceManagerUpdate := calls.foldl call u

end SourceManagerUpdate

end ServerEngine
