import ServerEngine.Core.PathHash
import ServerEngine.Library.Probing
import ServerEngine.Source.Update

/-! # The path index

A source is found by its path through open-addressing tables: the manager's over the sources added
since the baseline, and one of each update over its new sources. An update prepares the table that
its publication takes over.
-/
namespace ServerEngine
open Transaction

/-- How an operation fails: with a status, or in a probe loop that visits every slot and goes on. -/
inductive PathFailure
  | status (code : StatusCode)
  | endless

/-! ## Tables -/

/-- `path_slot`; a free slot has no source. -/
structure PathSlot where
  fingerprint : Nat := 0
  source : Nat := 0

/-- `local_path_slot`; a free slot has index 0. -/
structure LocalPathSlot where
  fingerprint : Nat := 0
  newSourceIndex : Nat := 0

def pathSlot (path : Bytes) (source : Nat) : PathSlot := ⟨pathFingerprint (hashPath path), source⟩

def localPathSlot (path : Bytes) (index : Nat) : LocalPathSlot :=
  ⟨pathFingerprint (hashPath path), index⟩

def freePosition (taken : Nat → Bool) (slots : Nat) (path : Bytes) : Option Nat :=
  Probing.stopAt (fun position => !taken position) (slots - 1) slots (hashPath path &&& (slots - 1))

def placePath (slots : List PathSlot) (path : Bytes) (source : Nat) :
    Except PathFailure (List PathSlot) :=
  match freePosition (fun position => (slots.getD position {}).source ≠ 0) slots.length path with
  | some position => .ok (slots.set position (pathSlot path source))
  | none => .error .endless

def placeLocalPath (slots : List LocalPathSlot) (path : Bytes) (index : Nat) :
    Except PathFailure (List LocalPathSlot) :=
  match freePosition (fun position => (slots.getD position {}).newSourceIndex ≠ 0)
    slots.length path with
  | some position => .ok (slots.set position (localPathSlot path index))
  | none => .error .endless

namespace SourceManager

/-- The loop of `find_in_index`, a slot a step. -/
def findLoop (m : SourceManager) (normalizedPath : Bytes) (index : List PathSlot) :
    Nat → Nat → Option Nat
  | 0, _ => none
  | fuel + 1, position =>
    let slot := index.getD position {}
    if slot.source = 0 then none
    else if slot.fingerprint = pathFingerprint (hashPath normalizedPath) &&
        m.path slot.source = normalizedPath then some slot.source
    else m.findLoop normalizedPath index fuel ((position + 1) &&& (index.length - 1))

def findInIndex (m : SourceManager) (normalizedPath : Bytes) (index : List PathSlot) : Option Nat :=
  if normalizedPath = [] || index = [] then none
  else m.findLoop normalizedPath index index.length
    (hashPath normalizedPath &&& (index.length - 1))

def localSources (m : SourceManager) : List Nat :=
  (List.range m.records.localValues.length).map (m.baselineSourceCount + · + 1)

def rebuildPathIndex (m : SourceManager) (additional : Nat) : Except PathFailure (List PathSlot) :=
  let count := m.records.localValues.length + additional
  let capacity := SourceManagerUpdate.nextCapacity (if sizeMax / 2 < count then 0 else count * 2 + 1)
  if sizeMax < count || capacity = 0 ||
      u32Max < m.baselineSourceCount + m.records.localValues.length then
    .error (.status .notAvailable)
  else m.localSources.foldlM (fun slots source => placePath slots (m.path source) source)
    (List.replicate capacity {})

end SourceManager

/-- The source manager with its `path_index`. -/
structure IndexedManager where
  manager : SourceManager
  pathIndex : List PathSlot := []

structure PreparedPathInsertion where
  position : Nat
  slot : PathSlot

/-- The update with its indexes; `pathIndex` is the owner's. -/
structure IndexedUpdate where
  update : SourceManagerUpdate
  pathIndex : List PathSlot
  localPathIndex : List LocalPathSlot := []
  preparedPathIndex : List PathSlot := []
  preparedPathInsertions : List PreparedPathInsertion := []

abbrev IndexedM := EStateM PathFailure IndexedUpdate

namespace IndexedManager

/-- `find`: the image first, then the index. -/
def find (i : IndexedManager) (normalizedPath : Bytes) : Option Nat :=
  let saved := match i.manager.baseline with
    | some b => (b.sources.find normalizedPath).toOption
    | none => none
  saved.or (i.manager.findInIndex normalizedPath i.pathIndex)

def path (i : IndexedManager) (source : Nat) : Bytes := i.manager.path source

def sourceCount (i : IndexedManager) : Nat := i.manager.sourceCount

def ofBaseline (b : Baseline) : IndexedManager := { manager := .ofBaseline b }

def beginUpdate (i : IndexedManager) : IndexedUpdate :=
  { update := i.manager.beginUpdate, pathIndex := i.pathIndex }

end IndexedManager

namespace IndexedUpdate

def owner (i : IndexedUpdate) : IndexedManager := ⟨i.update.owner, i.pathIndex⟩

def path (i : IndexedUpdate) (source : Nat) : Bytes := i.update.path source

def sourceCount (i : IndexedUpdate) : Nat := i.update.sourceCount

def onUpdate {α : Type} (x : UpdateM α) : IndexedM α := fun i =>
  match x i.update with
  | .ok a update => .ok a { i with update }
  | .error code update => .error (.status code) { i with update }

def findLocalLoop (i : IndexedUpdate) (normalized : Bytes) : Nat → Nat → Option Nat
  | 0, _ => none
  | fuel + 1, position =>
    let slot := i.localPathIndex.getD position {}
    let next := (position + 1) &&& (i.localPathIndex.length - 1)
    if slot.newSourceIndex = 0 then none
    else if slot.fingerprint = pathFingerprint (hashPath normalized) then
      match i.update.newSources[slot.newSourceIndex - 1]? with
      | some item =>
        if item.normalizedPath = normalized then some item.source
        else i.findLocalLoop normalized fuel next
      | none => i.findLocalLoop normalized fuel next
    else i.findLocalLoop normalized fuel next

def findLocalPath (i : IndexedUpdate) (normalized : Bytes) : Option Nat :=
  if i.localPathIndex = [] then none
  else i.findLocalLoop normalized i.localPathIndex.length
    (hashPath normalized &&& (i.localPathIndex.length - 1))

def localEntries (i : IndexedUpdate) : List (Bytes × Nat) :=
  i.update.newSources.mapIdx fun index item => (item.normalizedPath, index + 1)

def ensureLocalPathCapacity (required : Nat) : IndexedM Unit := fun i =>
  if required * 2 ≤ i.localPathIndex.length && i.localPathIndex ≠ [] then .ok () i
  else
    let capacity := SourceManagerUpdate.nextCapacity (required * 2 + 1)
    if capacity = 0 then .error (.status .notAvailable) i
    else match i.localEntries.foldlM (fun slots entry => placeLocalPath slots entry.1 entry.2)
      (List.replicate capacity {}) with
    | .ok slots => .ok () { i with localPathIndex := slots }
    | .error failure => .error failure i

def insertLocalPath (newSourceIndex : Nat) : IndexedM Unit := fun i =>
  if i.localPathIndex = [] then .error (.status .initializationFailed) i
  else match i.update.newSources[newSourceIndex - 1]? with
  | none => .error (.status .initializationFailed) i
  | some item => match placeLocalPath i.localPathIndex item.normalizedPath newSourceIndex with
    | .ok slots => .ok () { i with localPathIndex := slots }
    | .error failure => .error failure i

def pushNewSource (source : Nat) (normalized : Bytes) (i : IndexedUpdate) : IndexedUpdate :=
  { i with update := { i.update with
      newSources := i.update.newSources ++ [⟨source, normalized⟩] } }

def markUnprepared (i : IndexedUpdate) : IndexedUpdate :=
  { i with update := { i.update with prepared := false } }

/-- The allocation of a new id by `resolve_normalized`. -/
def addSource (normalized : Bytes) : IndexedM Nat := do
  let i ← get
  ensureLocalPathCapacity (i.update.newSources.length + 1)
  let source := i.update.sourceCount + 1
  modify (pushNewSource source normalized)
  insertLocalPath (i.update.newSources.length + 1)
  modify markUnprepared
  return source

def resolveNormalized (normalized : Bytes) : IndexedM Nat := fun i =>
  if i.update.committed || normalized = [] then .error (.status .invalidArgument) i
  else match i.owner.find normalized with
  | some source => .ok source i
  | none => match i.findLocalPath normalized with
    | some source => .ok source i
    | none =>
      if u32Max ≤ i.update.sourceCount then .error (.status .notAvailable) i
      else addSource normalized i

/-- `reserve_sources`, as far as the paths; a count whose double is no `std::size_t` is more than
the containers it reserves first can have. -/
def reserveSources (additional : Nat) : IndexedM Unit := fun i =>
  let required := i.update.newSources.length + additional
  let room := (u32Max + (sizeMax + 1) - required) % (sizeMax + 1)
  if i.update.committed then .error (.status .invalidArgument) i
  else if additional = 0 then .ok () i
  else if sizeMax < required * 2 || room < i.update.owner.records.size then
    .error (.status .notAvailable) i
  else ensureLocalPathCapacity required i

/-! ## Preparing -/

def buildPreparedPathIndex : IndexedM Unit := fun i =>
  match i.update.owner.rebuildPathIndex i.update.newSources.length with
  | .error failure => .error failure i
  | .ok slots =>
    match i.update.newSources.foldlM
      (fun slots item => placePath slots item.normalizedPath item.source) slots with
    | .error failure => .error failure i
    | .ok slots => .ok () { i with
        update := { i.update with preparedPathIndexSlots := slots.length }
        preparedPathIndex := slots }

/-- The loop of `build_sparse_path_insertions` over the new sources, with the positions reserved so
far. -/
def reserveInsertions (index : List PathSlot) :
    List NewSource → List Nat → Except PathFailure (List PreparedPathInsertion)
  | [], _ => .ok []
  | item :: rest, reserved =>
    match freePosition (fun position => (index.getD position {}).source ≠ 0 ||
        reserved.contains position) index.length item.normalizedPath with
    | none => .error .endless
    | some position =>
      match reserveInsertions index rest (position :: reserved) with
      | .error failure => .error failure
      | .ok insertions =>
        .ok (⟨position, pathSlot item.normalizedPath item.source⟩ :: insertions)

def buildSparsePathInsertions : IndexedM Unit := fun i =>
  let i := { i with preparedPathInsertions := [] }
  if i.update.newSources = [] then .ok () i
  else if i.pathIndex = [] then buildPreparedPathIndex i
  else if i.pathIndex.length / 2 <
      i.update.owner.records.localValues.length + i.update.newSources.length then
    .error (.status .rebuildRequired) i
  else match reserveInsertions i.pathIndex i.update.newSources [] with
  | .error failure => .error failure i
  | .ok insertions => .ok () { i with preparedPathInsertions := insertions }

/-- The choice of `prepare_publish` between the two. -/
def preparePathIndex : IndexedM Unit := fun i =>
  if i.update.owner.baselineBacked || i.update.owner.records.size = 0 then buildPreparedPathIndex i
  else buildSparsePathInsertions i

/-- The capacity steps; where the storage of a manager in memory would move, the prepared index is
dropped. -/
def reserveNewSources : IndexedM Unit := fun i =>
  match onUpdate SourceManagerUpdate.reserveNewSources i with
  | .ok a j => .ok a j
  | .error failure j =>
    if i.update.owner.baselineBacked || i.update.owner.records.size = 0 then .error failure j
    else .error failure { j with preparedPathIndex := [], preparedPathInsertions := [] }

def prepareNewSources : IndexedM Unit := fun i =>
  if i.update.newSources = [] then .ok () i
  else (do
    preparePathIndex
    onUpdate SourceManagerUpdate.checkPathBytes
    reserveNewSources) i

def preparePublish : IndexedM Unit := fun i =>
  if i.update.committed then .error (.status .invalidArgument) i
  else if i.update.prepared then .ok () i
  else (do
    onUpdate SourceManagerUpdate.prepareDependentPatches
    prepareNewSources
    onUpdate SourceManagerUpdate.prepareTextBytes
    onUpdate SourceManagerUpdate.prepareGeneration
    onUpdate SourceManagerUpdate.prepareSources
    onUpdate SourceManagerUpdate.prepareAbsorb
    onUpdate (modify SourceManagerUpdate.markPrepared)) i

def publishedIndex (i : IndexedUpdate) : List PathSlot :=
  if i.preparedPathIndex ≠ [] then i.preparedPathIndex
  else i.preparedPathInsertions.foldl (fun index insertion =>
    index.set insertion.position insertion.slot) i.pathIndex

def publishPrepared (i : IndexedUpdate) : IndexedUpdate :=
  if !i.update.prepared || i.update.committed then i
  else { i with
    update := SourceManagerUpdate.publishPrepared i.update
    pathIndex := i.publishedIndex
    preparedPathIndex := if i.preparedPathIndex ≠ [] then i.pathIndex else [] }

inductive PathCall
  | reserveSources (additional : Nat)
  | call (c : SourceManagerUpdate.Call)

def call (i : IndexedUpdate) : PathCall → IndexedUpdate
  | .reserveSources additional => left (IndexedUpdate.reserveSources additional i)
  | .call (.resolve normalized) => left (resolveNormalized normalized i)
  | .call .preparePublish => left (IndexedUpdate.preparePublish i)
  | .call c => { i with update := i.update.call c }

def run (i : IndexedUpdate) (calls : List PathCall) : IndexedUpdate := calls.foldl call i

end IndexedUpdate

end ServerEngine
