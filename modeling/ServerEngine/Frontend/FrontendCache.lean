import ServerEngine.Frontend.PersistedInterface
import ServerEngine.Frontend.SourceIndex

/-! # The frontend cache

`source_frontend_cache`: a cache over a baseline keeps changed sources in an overlay and restores
untouched ones from the build cache image when they are looked up; a look-up is a `const` member
that writes the overlay.
-/
namespace ServerEngine
open SourceIndex

/-! ## Records -/

structure PersistenceRecord where
  present : Bool := false
  counts : PersistenceCounts := {}

structure PersistenceSummary where
  frontendCount : Nat := 0
  counts : PersistenceCounts := {}

inductive PersistenceStorage
  | none
  | nativeInterface
  | persistedBaseline

structure PersistenceView where
  storage : PersistenceStorage := .none
  record : PersistenceRecord := {}
  data : InterfaceData := {}

def persistenceRecordOf (value : Option CachedInterface) : PersistenceRecord :=
  match value with
  | none => {}
  | some item => ⟨true, item.persistenceCounts⟩

def addPersistenceRecord (summary : PersistenceSummary) (value : PersistenceRecord) :
    Option PersistenceSummary :=
  if !value.present then some summary
  else if summary.frontendCount = sizeMax ||
      summary.counts.localTypes > sizeMax - value.counts.localTypes ||
      summary.counts.typeSlots > sizeMax - value.counts.typeSlots ||
      summary.counts.objectSlots > sizeMax - value.counts.objectSlots ||
      summary.counts.memberSlots > sizeMax - value.counts.memberSlots then none
  else some ⟨summary.frontendCount + 1,
    ⟨summary.counts.localTypes + value.counts.localTypes,
      summary.counts.typeSlots + value.counts.typeSlots,
      summary.counts.objectSlots + value.counts.objectSlots,
      summary.counts.memberSlots + value.counts.memberSlots⟩⟩

def subtractPersistenceRecord (summary : PersistenceSummary) (value : PersistenceRecord) :
    Option PersistenceSummary :=
  if !value.present then some summary
  else if summary.frontendCount = 0 ||
      summary.counts.localTypes < value.counts.localTypes ||
      summary.counts.typeSlots < value.counts.typeSlots ||
      summary.counts.objectSlots < value.counts.objectSlots ||
      summary.counts.memberSlots < value.counts.memberSlots then none
  else some ⟨summary.frontendCount - 1,
    ⟨summary.counts.localTypes - value.counts.localTypes,
      summary.counts.typeSlots - value.counts.typeSlots,
      summary.counts.objectSlots - value.counts.objectSlots,
      summary.counts.memberSlots - value.counts.memberSlots⟩⟩

structure OverlayEntry where
  source : Nat
  interface : Option CachedInterface := none
  nativeBlock : Nat := 0
  resolved : Bool := false
  nativeBlockOverridesBaseline : Bool := false

/-- The two images of a baseline: the build cache, and of the source manager the includes. -/
structure FrontendBaseline where
  cache : BuildCacheImage
  sourceCount : Nat
  includes : Nat → List Nat

/-- `source_frontend_cache`; `nextAddress` is where the next interface object is allocated, and
`overlayReserved` the capacity of the overlay. -/
structure FrontendCache where
  nextAddress : Nat := 0
  denseContext : Option (List (Option CachedInterface)) := none
  interfaces : List (Option CachedInterface) := []
  interfacesCapacity : Nat := 0
  frontendBlocks : BlockStore := .initial
  frontendBlockRefs : List Nat := []
  nativeFrontendBlockComplete : Bool := false
  nativeFrontendBlockBulkComplete : Bool := false
  baseline : Option FrontendBaseline := none
  logicalSourceCount : Nat := 0
  overlay : List OverlayEntry := []
  overlayReserved : Nat := 0
  overlayIndex : List SourceSlot := []
  persistenceSummary : PersistenceSummary := {}
  completeState : Bool := false

/-- The allocations for one source of a look-up: the room in the overlay and in its index, the list
of imports, the interface object, and its tables. -/
structure LookupFaults where
  overlay : Bool := false
  index : Bool := false
  imports : Bool := false
  object : Bool := false
  tables : Bool := false

namespace FrontendCache

def ofBaseline (baseline : FrontendBaseline) : FrontendCache where
  baseline := some baseline
  logicalSourceCount := baseline.sourceCount
  persistenceSummary := ⟨baseline.cache.frontendCount, baseline.cache.frontendCounts⟩
  completeState := baseline.cache.frontendComplete &&
    baseline.cache.sourceCount == baseline.sourceCount

def nativeFrontendBlockStorageComplete (cache : FrontendCache) : Bool :=
  cache.nativeFrontendBlockComplete && cache.frontendBlockRefs.length == cache.logicalSourceCount

def overlayPosition (cache : FrontendCache) (source : Nat) : Option Nat :=
  position cache.overlayIndex cache.overlay.length source

def findOverlay (cache : FrontendCache) (source : Nat) : Option OverlayEntry :=
  (cache.overlayPosition source).bind (cache.overlay[·]?)

/-- `prepare_overlay_capacity`; `reserve` gives the capacity it is asked for. -/
def prepareOverlayCapacity (overlayFault indexFault : Bool) (cache : FrontendCache)
    (additional : Nat) : FrontendCache × Except StatusCode Unit :=
  if additional = 0 then (cache, .ok ())
  else if cache.overlay.length > sizeMax - additional then (cache, .error .notAvailable)
  else
    let required := cache.overlay.length + additional
    if overlayFault && required > cache.overlayReserved then (cache, .error .notAvailable)
    else
      let cache := { cache with overlayReserved := max cache.overlayReserved required }
      if !cache.overlayIndex.isEmpty && required * 2 < cache.overlayIndex.length then (cache, .ok ())
      else if overlayCapacity required = 0 then (cache, .error .notAvailable)
      else if indexFault then (cache, .error .notAvailable)
      else ({ cache with
        overlayIndex := rebuild (overlayCapacity required)
          (cache.overlay.map (·.source)) }, .ok ())

/-- `publish_overlay`; the result is the position of the entry it leaves. -/
def publishOverlay (cache : FrontendCache) (source : Nat) (interface : Option CachedInterface)
    (resolved : Bool) : FrontendCache × Option Nat :=
  match cache.overlayPosition source with
  | some position =>
    ({ cache with overlay := cache.overlay.modify position fun entry =>
        { entry with interface := interface, resolved := resolved } }, some position)
  | none =>
    if source = 0 || cache.overlay.length = cache.overlayReserved || cache.overlayIndex.isEmpty then
      (cache, none)
    else
      ({ cache with
        overlay := cache.overlay ++ [{ source := source, interface := interface, resolved := resolved }]
        overlayIndex := place cache.overlayIndex source (cache.overlay.length + 1) },
        some cache.overlay.length)

/-! ## Look-ups -/

/-- The loop over the includes, which ends at the first that has no interface. -/
def importAll (materialize : FrontendCache → Nat → FrontendCache × Option CachedInterface) :
    FrontendCache → List Nat → FrontendCache × Option (List Nat)
  | cache, [] => (cache, some [])
  | cache, source :: rest =>
    match materialize cache source with
    | (cache, none) => (cache, none)
    | (cache, some imported) =>
      match importAll materialize cache rest with
      | (cache, none) => (cache, none)
      | (cache, some addresses) => (cache, some (imported.address :: addresses))

/-- The end of `materialize_baseline`: the sentinel becomes the interface. -/
def resolveOverlay (cache : FrontendCache) (source : Nat) (value : CachedInterface) :
    FrontendCache × Option CachedInterface :=
  match cache.overlayPosition source with
  | none => (cache, none)
  | some position =>
    if (cache.overlay[position]?.map (·.resolved)).getD false then (cache, none)
    else ({ cache with overlay := cache.overlay.modify position fun entry =>
      { entry with interface := some value, resolved := true } }, some value)

/-- `materialize_baseline`. Every level of the recursion enters a source of its own into the overlay,
so there are no more levels than sources. -/
def materializeBaseline (faults : Nat → LookupFaults) (baseline : FrontendBaseline) :
    Nat → FrontendCache → Nat → FrontendCache × Option CachedInterface
  | 0, cache, _ => (cache, none)
  | fuel + 1, cache, source =>
    if source = 0 || source > baseline.sourceCount then (cache, none)
    else match cache.findOverlay source with
    | some existing => (cache, if existing.resolved then existing.interface else none)
    | none =>
      match baseline.cache.source source with
      | .error _ => (cache, none)
      | .ok persisted =>
        if !persisted.frontendPresent then (cache, none)
        else match cache.prepareOverlayCapacity (faults source).overlay (faults source).index 1 with
        | (cache, .error _) => (cache, none)
        | (cache, .ok ()) =>
          -- The unresolved sentinel. No way out below takes it away again.
          match cache.publishOverlay source none false with
          | (cache, none) => (cache, none)
          | (cache, some _) =>
            if (faults source).imports then (cache, none)
            else match importAll (materializeBaseline faults baseline fuel) cache
                (baseline.includes source) with
            | (cache, none) => (cache, none)
            | (cache, some addresses) =>
              if (faults source).object then (cache, none)
              else match SourceInterface.initializePersisted baseline.cache source
                  (addresses.map some) (!(faults source).tables) with
              | .error _ => (cache, none)
              | .ok tables =>
                { cache with nextAddress := cache.nextAddress + 1 }.resolveOverlay source
                  ⟨cache.nextAddress, tables, none⟩

def nativeInterface (cache : FrontendCache) (source : Nat) : Option CachedInterface :=
  match cache.denseContext with
  | some context => context.getD (source - 1) none
  | none => cache.interfaces.getD (source - 1) none

def interface (faults : Nat → LookupFaults) (cache : FrontendCache) (source : Nat) :
    FrontendCache × Option CachedInterface :=
  if source = 0 || source > cache.logicalSourceCount then (cache, none)
  else match cache.baseline with
  | none => (cache, cache.nativeInterface source)
  | some baseline =>
    match cache.findOverlay source with
    | some item => (cache, if item.resolved then item.interface else none)
    | none => materializeBaseline faults baseline (baseline.sourceCount + 1) cache source

/-- The view of an interface object: its counts, and its data if they have these sizes. -/
def interfaceView (cache : FrontendCache) (value : Option CachedInterface) :
    Except StatusCode PersistenceView :=
  match value with
  | none => .ok {}
  | some item =>
    let data := item.persistenceDataView cache.frontendBlocks
    if data.counts ≠ item.persistenceCounts then .error .invalidState
    else .ok ⟨.nativeInterface, ⟨true, item.persistenceCounts⟩, data⟩

def persistenceView (cache : FrontendCache) (source : Nat) : Except StatusCode PersistenceView :=
  if source = 0 || source > cache.logicalSourceCount then .error .notFound
  else match cache.baseline with
  | none => cache.interfaceView (cache.nativeInterface source)
  | some baseline =>
    match cache.findOverlay source with
    | some item =>
      if !item.resolved then .error .invalidState else cache.interfaceView item.interface
    | none =>
      if source ≤ baseline.sourceCount then
        match baseline.cache.source source with
        | .error code => .error code
        | .ok persisted =>
          if !persisted.frontendPresent then .ok {}
          else .ok ⟨.persistedBaseline, ⟨true, persisted.counts⟩, {}⟩
      else .ok {}

def persistenceRecord (cache : FrontendCache) (source : Nat) : Except StatusCode PersistenceRecord :=
  (cache.persistenceView source).map (·.record)

def persistenceOverlay (cache : FrontendCache) (index : Nat) :
    Except StatusCode (Nat × PersistenceView) :=
  if cache.baseline.isNone then .error .notFound
  else match cache.overlay[index]? with
  | none => .error .notFound
  | some item =>
    if item.source = 0 || !item.resolved then .error .invalidState
    else (cache.persistenceView item.source).map fun view => (item.source, view)

end FrontendCache
end ServerEngine
