import ServerEngine.Storage.MappedVector
import ServerEngine.Storage.GrowVector
import ServerEngine.Library.Slice
import ServerEngine.Library.Traversal

/-! # The source manager

The committed sources of a project: a mapped baseline, the records added since, and the include
edges of each source in both directions. Replaced edge lists are appended to arenas; one record
selects the current range of a source.
-/
namespace ServerEngine
open Slice

/-! ## Snapshots and images -/

structure FileSnapshotObservation where
  writeTimeTicks : Int := 0
  size : Nat := 0
  deriving DecidableEq

/-- `source_snapshot`; the empty snapshot is `none` wherever one may stand. -/
structure SourceSnapshot where
  source : Nat
  normalizedPath : Bytes
  text : Bytes
  observation : FileSnapshotObservation
  hash : Nat
  identity : Nat := 0

structure ImagePhysicalState where
  present : Bool
  writeTimeTicks : Int
  size : Nat
  hash : Nat

/-- What is read of `source_manager_image_view`: binding checks the source count against the 32-bit
range, and the edge counts of a record are 32-bit words. -/
structure SourceManagerImageView where
  sourceCount : Nat
  physical : Nat → Except StatusCode ImagePhysicalState
  path : Nat → Bytes
  includes : Nat → List Nat
  dependents : Nat → List Nat
  find : Bytes → Except StatusCode Nat
  sourceCount_le : sourceCount ≤ u32Max
  includes_le : ∀ source, (includes source).length ≤ u32Max
  dependents_le : ∀ source, (dependents source).length ≤ u32Max

/-- What is read of `build_cache_image_view`. -/
structure BuildCacheImageView where
  sourceBytesCount : Nat
  sourceText : Nat → Bytes

structure Baseline where
  sources : SourceManagerImageView
  cache : BuildCacheImageView

structure CommittedSource where
  snapshot : Option SourceSnapshot := none
  baselineIncludes : List Nat := []
  baselineDependents : List Nat := []
  deriving Inhabited

inductive SourceGenerationEdgeKind
  | includes
  | dependents
  deriving DecidableEq

def CommittedSource.baselineEdges (state : CommittedSource) : SourceGenerationEdgeKind → List Nat
  | .includes => state.baselineIncludes
  | .dependents => state.baselineDependents

namespace Baseline

def snapshotOf (b : Baseline) (source : Nat) (physical : ImagePhysicalState) : SourceSnapshot where
  source := source
  normalizedPath := b.sources.path source
  text := b.cache.sourceText source
  observation := ⟨physical.writeTimeTicks, physical.size⟩
  hash := physical.hash

def readState (b : Baseline) (index : Nat) : Except StatusCode CommittedSource :=
  if b.sources.sourceCount ≤ index || u32Max ≤ index then .error .notFound
  else
    let source := index + 1
    let edges : CommittedSource :=
      { baselineIncludes := b.sources.includes source
        baselineDependents := b.sources.dependents source }
    match b.sources.physical source with
    | .error code => .error code
    | .ok physical =>
      if !physical.present then .ok edges
      else if (b.cache.sourceText source).length ≠ physical.size then .error .artifactCorrupt
      else .ok { edges with snapshot := some (b.snapshotOf source physical) }

/-- The baseline branch of `source_manager::current`. -/
def current (b : Baseline) (source : Nat) : Option SourceSnapshot :=
  match b.sources.physical source with
  | .error _ => none
  | .ok physical =>
    if !physical.present then none
    else if (b.cache.sourceText source).length ≠ physical.size then none
    else some (b.snapshotOf source physical)

end Baseline

/-! ## Generation storage -/

structure SourceEdgeRange where
  offset : Nat := 0
  count : Nat := 0
  deriving Inhabited

/-- `source_generation_record`, with the two bits of `flags` as fields. -/
structure SourceGenerationRecord where
  includes : SourceEdgeRange := {}
  dependents : SourceEdgeRange := {}
  includesPresent : Bool := false
  dependentsPresent : Bool := false
  deriving Inhabited

structure SourceGenerationPhysicalRecord where
  present : Bool := false
  writeTimeTicks : Int := 0
  size : Nat := 0
  hash : Nat := 0
  deriving Inhabited

namespace SourceGenerationRecord

def range (record : SourceGenerationRecord) : SourceGenerationEdgeKind → SourceEdgeRange
  | .includes => record.includes
  | .dependents => record.dependents

def present (record : SourceGenerationRecord) : SourceGenerationEdgeKind → Bool
  | .includes => record.includesPresent
  | .dependents => record.dependentsPresent

def replace (record : SourceGenerationRecord) (kind : SourceGenerationEdgeKind)
    (replacement : SourceEdgeRange) : SourceGenerationRecord :=
  match kind with
  | .includes => { record with includes := replacement, includesPresent := true }
  | .dependents => { record with dependents := replacement, dependentsPresent := true }

end SourceGenerationRecord

structure SourceGenerationStorage where
  records : MappedVector SourceGenerationRecord := {}
  physicalRecords : MappedVector SourceGenerationPhysicalRecord := {}
  forwardEdges : GrowVector Nat := {}
  reverseEdges : GrowVector Nat := {}

namespace SourceGenerationStorage

/-- `bind_baseline`; untouched baseline records read as empty overlays. -/
def ofBaseline (count : Nat) : SourceGenerationStorage where
  records := { baselineCount := count, reader := fun _ => .ok {} }
  physicalRecords := { baselineCount := count, reader := fun _ => .ok {} }

def sourceCount (s : SourceGenerationStorage) : Nat := s.records.size

def arena (s : SourceGenerationStorage) : SourceGenerationEdgeKind → GrowVector Nat
  | .includes => s.forwardEdges
  | .dependents => s.reverseEdges

def materialized (s : SourceGenerationStorage) (source : Nat) : Option SourceGenerationRecord :=
  if source = 0 then none else s.records.materialized (source - 1)

def range (arena : GrowVector Nat) (value : SourceEdgeRange) : List Nat :=
  if arena.size < value.offset || arena.size - value.offset < value.count then []
  else slice arena.values value.offset value.count

def hasEdges (s : SourceGenerationStorage) (kind : SourceGenerationEdgeKind) (source : Nat) : Bool :=
  (s.materialized source).any fun record => record.present kind

def edges (s : SourceGenerationStorage) (kind : SourceGenerationEdgeKind) (source : Nat) : List Nat :=
  match s.materialized source with
  | some record => if record.present kind then range (s.arena kind) (record.range kind) else []
  | none => []

def hasIncludes (s : SourceGenerationStorage) : Nat → Bool := s.hasEdges .includes

def hasDependents (s : SourceGenerationStorage) : Nat → Bool := s.hasEdges .dependents

def includes (s : SourceGenerationStorage) : Nat → List Nat := s.edges .includes

def dependents (s : SourceGenerationStorage) : Nat → List Nat := s.edges .dependents

def preparePublish (s : SourceGenerationStorage)
    (additionalSources additionalForward additionalReverse : Nat) :
    Except StatusCode SourceGenerationStorage :=
  if sizeMax < s.records.size + additionalSources ||
      sizeMax < s.forwardEdges.size + additionalForward ||
      sizeMax < s.reverseEdges.size + additionalReverse then .error .notAvailable
  else .ok { s with
    records := s.records.reserve (s.records.size + additionalSources)
    physicalRecords := s.physicalRecords.reserve (s.physicalRecords.size + additionalSources)
    forwardEdges := s.forwardEdges.reserve (s.forwardEdges.size + additionalForward)
    reverseEdges := s.reverseEdges.reserve (s.reverseEdges.size + additionalReverse) }

/-- The accesses of `prepare_source`. -/
def materializeSource (s : SourceGenerationStorage) (source : Nat) : SourceGenerationStorage :=
  { s with
    records := s.records.materialize (source - 1)
    physicalRecords := s.physicalRecords.materialize (source - 1) }

/-- The status of `prepare_source` after its accesses. -/
def readStatus (s : SourceGenerationStorage) : Option StatusCode :=
  s.records.readFailure.or s.physicalRecords.readFailure

def publishSource (s : SourceGenerationStorage) : SourceGenerationStorage :=
  { s with records := s.records.pushBack {}, physicalRecords := s.physicalRecords.pushBack {} }

def publishSnapshot (s : SourceGenerationStorage) (source : Nat) (snapshot : Option SourceSnapshot) :
    SourceGenerationStorage :=
  if source = 0 || s.physicalRecords.size < source then s
  else
    let output : SourceGenerationPhysicalRecord := match snapshot with
      | none => {}
      | some snapshot =>
        { present := true
          writeTimeTicks := snapshot.observation.writeTimeTicks
          size := snapshot.observation.size
          hash := snapshot.hash }
    { s with physicalRecords := s.physicalRecords.set (source - 1) output }

def appendEdges (s : SourceGenerationStorage) (kind : SourceGenerationEdgeKind) (values : List Nat) :
    SourceGenerationStorage :=
  match kind with
  | .includes => { s with forwardEdges := s.forwardEdges.append values }
  | .dependents => { s with reverseEdges := s.reverseEdges.append values }

/-- `publish_edges`: a record that is not materialized, or a list whose length is no 32-bit word,
stays as it was. -/
def publishEdges (s : SourceGenerationStorage) (kind : SourceGenerationEdgeKind) (source : Nat)
    (values : List Nat) : SourceGenerationStorage :=
  if u32Max < values.length then s
  else match s.materialized source with
  | none => s
  | some record =>
    let replacement : SourceEdgeRange := ⟨(s.arena kind).size, values.length⟩
    let s := s.appendEdges kind values
    { s with records := s.records.assign (source - 1) (record.replace kind replacement) }

def publishIncludes (s : SourceGenerationStorage) : Nat → List Nat → SourceGenerationStorage :=
  s.publishEdges .includes

def publishDependents (s : SourceGenerationStorage) : Nat → List Nat → SourceGenerationStorage :=
  s.publishEdges .dependents

end SourceGenerationStorage

/-- `source_snapshot_page`, by the bytes used of it. -/
structure SnapshotPage where
  capacity : Nat
  bytes : Bytes

structure SnapshotPageStore where
  pathPages : GrowVector SnapshotPage := {}
  textPages : GrowVector SnapshotPage := {}
  textSourceCount : Nat := 0
  textBytes : Nat := 0

namespace SnapshotPageStore

def nextPageCapacity (pages : List SnapshotPage) (required : Nat) : Nat :=
  let minimumPage := 4 * 1024
  let maximumPage := 1024 * 1024
  if required = 0 then 0
  else
    let capacity := match pages.getLast? with
      | none => minimumPage
      | some page =>
        if maximumPage ≤ page.capacity then maximumPage else min (page.capacity * 2) maximumPage
    max capacity required

/-- `append_bytes`: the last page takes the bytes when they fit what is left of it. -/
def appendBytes (pages : GrowVector SnapshotPage) (value : Bytes) : GrowVector SnapshotPage :=
  if value = [] then pages
  else match pages.values.getLast? with
  | some page =>
    if page.capacity - page.bytes.length < value.length then
      pages.append [⟨nextPageCapacity pages.values value.length, value⟩]
    else { pages with
      values := pages.values.dropLast ++ [{ page with bytes := page.bytes ++ value }] }
  | none => pages.append [⟨nextPageCapacity [] value.length, value⟩]

def append (s : SnapshotPageStore) (source : Nat) (path text : Bytes) :
    Except StatusCode SnapshotPageStore :=
  if source = 0 || path = [] then .error .invalidArgument
  else if sizeMax - s.textBytes < text.length then .error .notAvailable
  else .ok {
    pathPages := appendBytes s.pathPages path
    textPages := appendBytes s.textPages text
    textSourceCount := s.textSourceCount + 1
    textBytes := s.textBytes + text.length }

def prepareAbsorb (s other : SnapshotPageStore) : Except StatusCode SnapshotPageStore :=
  if other.pathPages.size = 0 && other.textPages.size = 0 then .ok s
  else if sizeMax < s.pathPages.size + other.pathPages.size ||
      sizeMax < s.textPages.size + other.textPages.size ||
      sizeMax < s.textSourceCount + other.textSourceCount ||
      sizeMax < s.textBytes + other.textBytes then .error .notAvailable
  else .ok { s with
    pathPages := s.pathPages.reserve (s.pathPages.size + other.pathPages.size)
    textPages := s.textPages.reserve (s.textPages.size + other.textPages.size) }

def absorbPrepared (s other : SnapshotPageStore) : SnapshotPageStore where
  pathPages := s.pathPages.append other.pathPages.values
  textPages := s.textPages.append other.textPages.values
  textSourceCount := s.textSourceCount + other.textSourceCount
  textBytes := s.textBytes + other.textBytes

end SnapshotPageStore

/-! ## The manager -/

structure SourceRecord where
  pathOffset : Nat := 0
  pathLength : Nat := 0
  deriving Inhabited

/-- `source_manager`. Of the path index only the number of its slots is kept. -/
structure SourceManager where
  baseline : Option Baseline := none
  records : MappedVector SourceRecord := {}
  pathStorage : GrowVector UInt8 := {}
  states : MappedVector CommittedSource := {}
  generationStorage : SourceGenerationStorage := {}
  snapshotStorage : SnapshotPageStore := {}
  pathIndexSlots : Nat := 0
  persistenceTextBytes : Nat := 0

namespace SourceManager

def ofBaseline (b : Baseline) : SourceManager where
  baseline := some b
  records := { baselineCount := b.sources.sourceCount, reader := fun _ => .ok {} }
  states := { baselineCount := b.sources.sourceCount, reader := b.readState }
  generationStorage := .ofBaseline b.sources.sourceCount
  persistenceTextBytes := b.cache.sourceBytesCount

def baselineBacked (m : SourceManager) : Bool := m.baseline.isSome

def baselineSourceCount (m : SourceManager) : Nat :=
  match m.baseline with
  | some b => b.sources.sourceCount
  | none => 0

def sourceCount (m : SourceManager) : Nat := m.records.size

def path (m : SourceManager) (source : Nat) : Bytes :=
  if source = 0 || m.records.size < source then []
  else match m.baseline with
  | some b => if source ≤ b.sources.sourceCount then b.sources.path source else stored
  | none => stored
where
  stored : Bytes :=
    let record := m.records.value (source - 1)
    if m.pathStorage.size < record.pathOffset ||
        m.pathStorage.size - record.pathOffset < record.pathLength then []
    else slice m.pathStorage.values record.pathOffset record.pathLength

/-- `find`: the image first, then the sources added since. -/
def find (m : SourceManager) (normalizedPath : Bytes) : Option Nat :=
  let saved := match m.baseline with
    | some b => (b.sources.find normalizedPath).toOption
    | none => none
  saved.or ((List.range m.records.localValues.length).map (m.baselineSourceCount + · + 1)
    |>.find? fun source => normalizedPath ≠ [] && m.path source = normalizedPath)

/-- `current`: a baseline state that is not materialized is decoded without caching it. -/
def current (m : SourceManager) (source : Nat) : Option SourceSnapshot :=
  if source = 0 || m.states.size < source then none
  else match m.states.materialized (source - 1) with
  | some state => state.snapshot
  | none => match m.baseline with
    | some b => if source ≤ b.sources.sourceCount then b.current source else none
    | none => none

/-- `includes` and `dependents` get to `states[index]`. -/
def readsState (m : SourceManager) (kind : SourceGenerationEdgeKind) (source : Nat) : Bool :=
  source ≠ 0 && !m.generationStorage.hasEdges kind source && m.baseline.isSome &&
    source ≤ m.baselineSourceCount && source ≤ m.states.size

def edges (m : SourceManager) (kind : SourceGenerationEdgeKind) (source : Nat) : List Nat :=
  if source = 0 then []
  else if m.generationStorage.hasEdges kind source then m.generationStorage.edges kind source
  else if m.readsState kind source then (m.states.value (source - 1)).baselineEdges kind
  else []

/-- `includes`: the list it returns. -/
def includes (m : SourceManager) : Nat → List Nat := m.edges .includes

/-- `dependents`: the list it returns. -/
def dependents (m : SourceManager) : Nat → List Nat := m.edges .dependents

/-- What `includes` and `dependents` leave behind: the baseline state they read stays cached. -/
def cacheEdges (m : SourceManager) (kind : SourceGenerationEdgeKind) (source : Nat) : SourceManager :=
  if m.readsState kind source then { m with states := m.states.materialize (source - 1) } else m

def reserveSources (m : SourceManager) (sources paths : Nat) : SourceManager :=
  { m with
    records := m.records.reserve sources
    states := m.states.reserve sources
    pathStorage := m.pathStorage.reserve paths }

/-- `collect_dependents`; a null dependent fails the insertion into the visited set, and no result
means that the fuel of one step a source did not do. -/
def collectDependents (m : SourceManager) (source : Nat) : Option (Except StatusCode (List Nat)) :=
  if source = 0 || m.states.size < source then some (.error .invalidArgument)
  else
    let (visited, queue) := Traversal.insertNew [source] (m.dependents source)
    match Traversal.loop m.dependents m.states.size visited queue with
    | none => none
    | some output =>
      if (source :: output).any fun current => 0 ∈ m.dependents current then
        some (.error .invalidArgument)
      else some (.ok output)

end SourceManager

end ServerEngine
