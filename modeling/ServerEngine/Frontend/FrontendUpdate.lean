import ServerEngine.Frontend.FrontendCache

/-! # Updates of the frontend cache

`source_frontend_cache_update`: replacements are collected, prepared with everything that can fail,
and published or cancelled. A full update moves the persistence data of its interfaces into a block
store of its own.
-/
namespace ServerEngine
open SourceIndex

structure Replacement where
  source : Nat
  interface : Option CachedInterface

/-- `source_frontend_cache_update`; it has no `owner` once it is published, cancelled or moved. A
context candidate is there if and only if it is active. -/
structure FrontendUpdate where
  owner : Bool := true
  fullReconstruction : Bool := false
  fullCandidate : List (Option CachedInterface) := []
  fullCandidateCapacity : Nat := 0
  fullContextCandidate : Option (List (Option CachedInterface)) := none
  fullFrontendBlocks : BlockStore := .initial
  fullFrontendBlockRefs : List Nat := []
  replacements : List Replacement := []
  replacementIndex : List SourceSlot := []
  frontendBlockUpdates : List (Nat × Nat) := []
  frontendBlockCheckpoint : BlockCheckpoint := {}
  frontendBlockSparsePrepared : Bool := false
  candidateSummary : PersistenceSummary := {}
  requiredSourceCount : Nat := 0
  prepared : Bool := false
  published : Bool := false
  failure : Option StatusCode := none

structure ReplaceFaults where
  candidate : Bool := false
  index : Bool := false
  replacements : Bool := false

/-- The allocations for one interface of a preparation: its scratch vectors and its block. -/
structure EntryFaults where
  scratch : Bool := false
  block : BlockFaults := {}

structure PrepareFaults where
  candidate : Bool := false
  refs : Bool := false
  overlay : Bool := false
  index : Bool := false
  context : Bool := false
  updates : Bool := false
  entries : Nat → EntryFaults := fun _ => {}

def cacheHeadroom (size : Nat) : Option Nat :=
  let extra := max (size / 16) 64
  if size > sizeMax - extra then none else some (size + extra)

/-- `resize`, which only ever makes these vectors longer. -/
def resizeTo (values : List (Option CachedInterface)) (size : Nat) : List (Option CachedInterface) :=
  values ++ List.replicate (size - values.length) none

namespace FrontendUpdate

def fail (update : FrontendUpdate) (code : StatusCode) : FrontendUpdate × Except StatusCode Unit :=
  ({ update with failure := some code }, .error code)

/-! ## Collecting replacements -/

/-- `begin_update`; without the allocation of its pages the block store of the update takes nothing. -/
def beginUpdate (full storeAllocated : Bool) : FrontendUpdate where
  fullReconstruction := full
  fullFrontendBlocks := { BlockStore.initial with valid := storeAllocated }

def ensureReplacementIndex (indexFault : Bool) (update : FrontendUpdate) (required : Nat) :
    Except StatusCode FrontendUpdate :=
  if required = 0 then .ok update
  else if !update.replacementIndex.isEmpty && required ≤ update.replacementIndex.length / 2 then
    .ok update
  else if overlayCapacity required = 0 then .error .notAvailable
  else if indexFault then .error .notAvailable
  else .ok { update with
    replacementIndex := rebuild (overlayCapacity required) (update.replacements.map (·.source)) }

def replace (faults : ReplaceFaults) (cache : FrontendCache) (update : FrontendUpdate)
    (source : Nat) (interface : Option CachedInterface) :
    FrontendUpdate × Except StatusCode Unit :=
  match update.failure with
  | some code => (update, .error code)
  | none =>
    if !update.owner || source = 0 || update.prepared || update.published then
      (update, .error .invalidArgument)
    else if update.fullReconstruction then
      if cache.baseline.isSome then (update, .error .invalidState)
      else if faults.candidate && source > update.fullCandidate.length then
        update.fail .notAvailable
      else
        let candidate := resizeTo update.fullCandidate source
        match (subtractPersistenceRecord update.candidateSummary
            (persistenceRecordOf (candidate.getD (source - 1) none))).bind
            (addPersistenceRecord · (persistenceRecordOf interface)) with
        | none => { update with fullCandidate := candidate }.fail .notAvailable
        | some summary =>
          ({ update with
            fullCandidate := candidate.set (source - 1) interface
            candidateSummary := summary }, .ok ())
    else match update.ensureReplacementIndex faults.index (update.replacements.length + 1) with
    | .error code => update.fail code
    | .ok update =>
      match position update.replacementIndex update.replacements.length source with
      | some index =>
        ({ update with replacements := update.replacements.modify index fun item =>
          { item with interface := interface } }, .ok ())
      | none =>
        if faults.replacements then update.fail .notAvailable
        else ({ update with
          replacements := update.replacements ++ [⟨source, interface⟩]
          replacementIndex :=
            place update.replacementIndex source (update.replacements.length + 1) }, .ok ())

/-- `replace_full_context`; a context that is not active is `none`. -/
def replaceFullContext (cache : FrontendCache) (update : FrontendUpdate)
    (context : Option (List (Option CachedInterface))) :
    FrontendUpdate × Except StatusCode Unit :=
  match update.failure with
  | some code => (update, .error code)
  | none =>
    if !update.owner || update.prepared || update.published || !update.fullReconstruction ||
        cache.baseline.isSome then update.fail .invalidState
    else match context with
    | none => update.fail .invalidState
    | some values =>
      if values.length > u32Max then update.fail .notAvailable
      else match values.foldlM
          (fun summary value => addPersistenceRecord summary (persistenceRecordOf value)) {} with
      | none => update.fail .notAvailable
      | some summary =>
        ({ update with
          fullContextCandidate := some values
          fullCandidate := []
          candidateSummary := summary }, .ok ())

/-! ## Preparing -/

def previousRecord (cache : FrontendCache) (source : Nat) : Except StatusCode PersistenceRecord :=
  match cache.persistenceRecord source with
  | .ok record => .ok record
  | .error code =>
    if code = .notFound && source > cache.logicalSourceCount then .ok {}
    else match cache.baseline with
    | none => .error code
    | some baseline =>
      if code = .invalidState && source ≤ baseline.sourceCount then
        (baseline.cache.source source).map fun persisted =>
          if persisted.frontendPresent then ⟨true, persisted.counts⟩ else {}
      else .error code

/-- One round of the loop over the replacements that keeps the summary. -/
def summarize (cache : FrontendCache) (summary : PersistenceSummary) (item : Replacement) :
    Except StatusCode PersistenceSummary := do
  let previous ← previousRecord cache item.source
  match subtractPersistenceRecord summary previous with
  | none => .error .initializationFailed
  | some next =>
    match addPersistenceRecord next (persistenceRecordOf item.interface) with
    | none => .error .notAvailable
    | some next => .ok next

def compactData (runtime : InterfaceData) : Option InterfaceData := do
  let types ← runtime.localTypes.mapM fun identity =>
    runtime.typeSlots.find? (·.identity == identity)
  return ⟨runtime.localTypes, types, runtime.objectSlots.filter (·.identity.valid),
    runtime.memberSlots.filter (·.type.valid)⟩

/-- The data `build_generation_frontend_blocks` stores for an interface, and the interface after its
own data are released. -/
def generationData (scratchFault : Bool) (blocks : BlockStore) (item : CachedInterface) :
    Except StatusCode (InterfaceData × CachedInterface) :=
  let runtime := item.runtimeDataView blocks
  let (owned, released) := item.releasePersistenceData
  if item.compactPersistenceAvailable then
    if owned.counts ≠ item.persistenceCounts then .error .initializationFailed
    else .ok (owned, released)
  else if owned.typeSlots ≠ [] || owned.objectSlots ≠ [] || owned.memberSlots ≠ [] ||
      runtime.localTypes.length ≠ item.persistenceCounts.localTypes then
    .error .initializationFailed
  else if scratchFault then .error .notAvailable
  else match compactData runtime with
  | none => .error .initializationFailed
  | some data =>
    if data.typeSlots.length ≠ item.persistenceCounts.typeSlots ||
        data.objectSlots.length ≠ item.persistenceCounts.objectSlots ||
        data.memberSlots.length ≠ item.persistenceCounts.memberSlots then
      .error .initializationFailed
    else .ok (data, released)

/-- The loop of `build_generation_frontend_blocks`: every interface is bound to a block. -/
def buildBlocks (faults : Nat → EntryFaults) (blocks : BlockStore) :
    Nat → List (Option CachedInterface) →
      Except StatusCode (BlockStore × List Nat × List (Option CachedInterface))
  | _, [] => .ok (blocks, [], [])
  | index, none :: rest => do
    let (blocks, refs, items) ← buildBlocks faults blocks (index + 1) rest
    return (blocks, 0 :: refs, none :: items)
  | index, some item :: rest => do
    let (data, released) ← generationData (faults index).scratch blocks item
    let (grown, appended) := blocks.append (faults index).block (index + 1) data
    let block ← appended
    match grown.view block with
    | .error _ => .error .initializationFailed
    | .ok view =>
      if view.counts ≠ item.persistenceCounts then .error .initializationFailed
      else
        let (blocks, refs, items) ← buildBlocks faults grown (index + 1) rest
        return (blocks, block :: refs, some (released.bindPersistenceData view) :: items)

/-- `build_generation_frontend_blocks` over the first `count` interfaces. A failing one leaves only
what the failed update never shows again. -/
def buildGenerationFrontendBlocks (refsFault : Bool) (faults : Nat → EntryFaults)
    (blocks : BlockStore) (values : List (Option CachedInterface)) (count : Nat) :
    Except StatusCode (BlockStore × List Nat × List (Option CachedInterface)) :=
  if count > u32Max then .error .notAvailable
  else if refsFault then .error .notAvailable
  else do
    let (blocks, refs, items) ← buildBlocks faults blocks.clear 0 (values.take count)
    return (blocks, refs, items ++ values.drop count)

def prepareFull (faults : PrepareFaults) (cache : FrontendCache) (update : FrontendUpdate) :
    FrontendUpdate × Except StatusCode Unit :=
  if cache.baseline.isSome then (update, .error .invalidState)
  else match update.fullContextCandidate with
  | some values =>
    if values.length ≠ update.requiredSourceCount then (update, .error .initializationFailed)
    else match buildGenerationFrontendBlocks faults.refs faults.entries update.fullFrontendBlocks
        values update.requiredSourceCount with
    | .error code => update.fail code
    | .ok (blocks, refs, items) =>
      ({ update with
        fullContextCandidate := some items
        fullFrontendBlocks := blocks
        fullFrontendBlockRefs := refs
        prepared := true }, .ok ())
  | none =>
    if faults.candidate then update.fail .notAvailable
    else
      let update := { update with
        fullCandidate := resizeTo update.fullCandidate update.requiredSourceCount }
      match cacheHeadroom update.requiredSourceCount with
      | none => (update, .error .notAvailable)
      | some capacity =>
        match buildGenerationFrontendBlocks faults.refs faults.entries update.fullFrontendBlocks
            update.fullCandidate update.requiredSourceCount with
        | .error code => update.fail code
        | .ok (blocks, refs, items) =>
          ({ update with
            fullCandidate := items
            fullCandidateCapacity := max capacity items.length
            fullFrontendBlocks := blocks
            fullFrontendBlockRefs := refs
            prepared := true }, .ok ())

def appendBlocks (faults : Nat → EntryFaults) (blocks : BlockStore) :
    Nat → List Replacement → BlockStore × Except StatusCode (List (Nat × Nat))
  | _, [] => (blocks, .ok [])
  | index, item :: rest =>
    match item.interface with
    | none =>
      let (grown, result) := appendBlocks faults blocks (index + 1) rest
      (grown, result.map ((item.source, 0) :: ·))
    | some value =>
      let data := value.persistenceDataView blocks
      if data.counts ≠ value.persistenceCounts then (blocks, .error .initializationFailed)
      else match blocks.append (faults index).block item.source data with
      | (grown, .error code) => (grown, .error code)
      | (grown, .ok block) =>
        let (grown, result) := appendBlocks faults grown (index + 1) rest
        (grown, result.map ((item.source, block) :: ·))

def prepareBlocks (faults : PrepareFaults) (cache : FrontendCache) (update : FrontendUpdate) :
    FrontendCache × FrontendUpdate × Except StatusCode Unit :=
  if cache.baseline.isSome || cache.nativeFrontendBlockStorageComplete then
    let checkpoint := cache.frontendBlocks.mark
    let update := { update with frontendBlockCheckpoint := checkpoint, frontendBlockUpdates := [] }
    if faults.updates then
      ({ cache with frontendBlocks := cache.frontendBlocks.restore checkpoint }, update,
        .error .notAvailable)
    else match appendBlocks faults.entries cache.frontendBlocks 0 update.replacements with
    | (grown, .error code) =>
      ({ cache with frontendBlocks := grown.restore checkpoint }, update, .error code)
    | (grown, .ok updates) =>
      ({ cache with frontendBlocks := grown }, { update with
        frontendBlockUpdates := updates
        frontendBlockSparsePrepared := true
        prepared := true }, .ok ())
  else (cache, { update with prepared := true }, .ok ())

def outOfRange (update : FrontendUpdate) : Bool :=
  update.replacements.any fun item => item.source = 0 || item.source > update.requiredSourceCount

/-- The room for an incremental update in the cache it is for. -/
def prepareRoom (faults : PrepareFaults) (cache : FrontendCache) (update : FrontendUpdate) :
    FrontendCache × Except StatusCode Unit :=
  match cache.baseline with
  | some baseline =>
    if update.requiredSourceCount < baseline.sourceCount then (cache, .error .invalidArgument)
    else cache.prepareOverlayCapacity faults.overlay faults.index update.replacements.length
  | none =>
    match cache.denseContext with
    | some context =>
      if faults.context && update.requiredSourceCount > context.length then
        (cache, .error .notAvailable)
      else
        ({ cache with denseContext := some (resizeTo context update.requiredSourceCount) }, .ok ())
    | none =>
      if update.requiredSourceCount > cache.interfacesCapacity then (cache, .error .rebuildRequired)
      else (cache, .ok ())

def preparePublish (faults : PrepareFaults) (cache : FrontendCache) (update : FrontendUpdate)
    (required : Nat) : FrontendCache × FrontendUpdate × Except StatusCode Unit :=
  match update.failure with
  | some code => (cache, update, .error code)
  | none =>
    if !update.owner || update.prepared || update.published then
      (cache, update, .error .invalidArgument)
    else if !update.fullReconstruction && !cache.completeState then
      (cache, update, .error .notAvailable)
    else
      let update := { update with requiredSourceCount := required }
      if update.fullReconstruction then (cache, prepareFull faults cache update)
      else match update.replacements.foldlM (summarize cache) cache.persistenceSummary with
      | .error code => (cache, update, .error code)
      | .ok summary =>
        let update := { update with candidateSummary := summary }
        match prepareRoom faults cache update with
        | (cache, .error code) => (cache, update, .error code)
        | (cache, .ok ()) =>
          if update.outOfRange then (cache, update, .error .invalidArgument)
          else prepareBlocks faults cache update

/-! ## Publishing and cancelling -/

/-- The loop that publishes the replacements over a baseline; `none` where the overlay has no slot
left, with the number of replacements published before. -/
def publishReplacements (sparse : Bool) :
    FrontendCache → List (Replacement × Nat) → FrontendCache × Option Nat
  | cache, [] => (cache, none)
  | cache, (item, block) :: rest =>
    match cache.publishOverlay item.source item.interface true with
    | (cache, none) => (cache, some 0)
    | (cache, some position) =>
      let cache := if sparse then { cache with
          overlay := cache.overlay.modify position fun entry =>
            { entry with nativeBlock := block, nativeBlockOverridesBaseline := true } }
        else cache
      let (cache, stopped) := publishReplacements sparse cache rest
      (cache, stopped.map (· + 1))

def storeAt (values : List (Option CachedInterface)) (item : Replacement) :
    List (Option CachedInterface) :=
  values.set (item.source - 1) item.interface

def storeRef (refs : List Nat) (item : Nat × Nat) : List Nat := refs.set (item.1 - 1) item.2

def publishNative (cache : FrontendCache) (update : FrontendUpdate) : FrontendCache :=
  let invalidates := !update.replacements.isEmpty ||
    update.requiredSourceCount ≠ cache.logicalSourceCount
  let cache := match cache.denseContext with
    | some context => { cache with denseContext := some (update.replacements.foldl storeAt context) }
    | none => { cache with
        interfaces := update.replacements.foldl storeAt
          (resizeTo cache.interfaces update.requiredSourceCount) }
  let cache := if invalidates then { cache with nativeFrontendBlockBulkComplete := false } else cache
  if update.frontendBlockSparsePrepared then { cache with
    frontendBlockRefs := update.frontendBlockUpdates.foldl storeRef
      ((cache.frontendBlockRefs ++ List.replicate
        (update.requiredSourceCount - cache.frontendBlockRefs.length) 0).take
          update.requiredSourceCount)
    nativeFrontendBlockComplete := true
    nativeFrontendBlockBulkComplete := false
    logicalSourceCount := update.requiredSourceCount }
  else if invalidates then { cache with
    nativeFrontendBlockComplete := false
    logicalSourceCount := update.requiredSourceCount }
  else { cache with logicalSourceCount := update.requiredSourceCount }

def publishFull (cache : FrontendCache) (update : FrontendUpdate) : FrontendCache :=
  let cache := match update.fullContextCandidate with
    | some context => { cache with denseContext := some context, interfaces := [] }
    | none => { cache with
        denseContext := none
        interfaces := update.fullCandidate
        interfacesCapacity := update.fullCandidateCapacity }
  { cache with
    frontendBlocks := update.fullFrontendBlocks
    frontendBlockRefs := update.fullFrontendBlockRefs
    nativeFrontendBlockComplete := true
    nativeFrontendBlockBulkComplete := true
    logicalSourceCount := update.requiredSourceCount }

def movedOut (replacements : List Replacement) (count : Nat) : List Replacement :=
  (replacements.take count).map (fun item => { item with interface := none }) ++
    replacements.drop count

def publishSummary (cache : FrontendCache) (update : FrontendUpdate) :
    FrontendCache × FrontendUpdate :=
  ({ cache with persistenceSummary := update.candidateSummary, completeState := true },
    { update with published := true, prepared := false, owner := false })

def publishPrepared (cache : FrontendCache) (update : FrontendUpdate) :
    FrontendCache × FrontendUpdate :=
  if !update.prepared || update.published || !update.owner then (cache, update)
  else if update.fullReconstruction then publishSummary (publishFull cache update) update
  else if cache.baseline.isSome then
    match publishReplacements update.frontendBlockSparsePrepared cache
        (update.replacements.zip (update.frontendBlockUpdates.map (·.2))) with
    | (cache, some published) =>
      -- No slot is left: the update ends here, with what came before already published.
      (cache, { update with replacements := movedOut update.replacements (published + 1) })
    | (cache, none) =>
      publishSummary { cache with logicalSourceCount := update.requiredSourceCount }
        { update with frontendBlockSparsePrepared := false }
  else publishSummary (publishNative cache update)
    { update with frontendBlockSparsePrepared := false }

/-- `cancel`, which the destructor calls as well. -/
def cancel (cache : FrontendCache) (update : FrontendUpdate) : FrontendCache × FrontendUpdate :=
  if !update.owner || update.published then (cache, update)
  else if update.frontendBlockSparsePrepared then
    ({ cache with frontendBlocks := cache.frontendBlocks.restore update.frontendBlockCheckpoint },
      { update with
        frontendBlockUpdates := []
        frontendBlockSparsePrepared := false
        owner := false
        prepared := false })
  else (cache, { update with owner := false, prepared := false })

end FrontendUpdate
end ServerEngine
