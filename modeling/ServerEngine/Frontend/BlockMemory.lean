import ServerEngine.Frontend.BlockStore

/-! # Where the blocks are

The addresses behind the frontend block store: a page's items are where its reservation put them, and
an insertion beyond the capacity moves them. Then the operations of a client: appending, marking,
going back to a mark.
-/
namespace ServerEngine
open Pages Slice

/-! ## Queries -/

structure LogicalRange where
  begin : Nat := 0
  count : Nat := 0

structure BlockLayout where
  source : Nat := 0
  localTypes : LogicalRange := {}
  typeSlots : LogicalRange := {}
  objectSlots : LogicalRange := {}
  memberSlots : LogicalRange := {}

namespace BlockStore

def source (store : BlockStore) (block : Nat) : Nat :=
  if !store.valid then 0
  else if block = 0 || block > store.records.length then 0
  else (store.records.getD (block - 1) {}).source

def layout (store : BlockStore) (block : Nat) : Except StatusCode BlockLayout :=
  if !store.valid then .error .notAvailable
  else if block = 0 || block > store.records.length then .error .notFound
  else
    let record := store.records.getD (block - 1) {}
    .ok { source := record.source
          localTypes := ⟨record.localTypes.logicalBegin, record.localTypes.count⟩
          typeSlots := ⟨record.typeSlots.logicalBegin, record.typeSlots.count⟩
          objectSlots := ⟨record.objectSlots.logicalBegin, record.objectSlots.count⟩
          memberSlots := ⟨record.memberSlots.logicalBegin, record.memberSlots.count⟩ }

end BlockStore

/-! ## Addresses -/

/-- What the allocator answers: the address of a new page's items, that of moved ones. -/
structure PageGrant where
  fresh : Nat := 0
  moved : Nat := 0

namespace TypedPageStore
variable {T : Type}

/-- `page.insert` moves the last page's items when they exceed its capacity. -/
def insertBuffers (grant : PageGrant) (store : TypedPageStore T) (values : List T)
    (buffers : List Nat) : List Nat :=
  match store.pages.getLast? with
  | none => buffers
  | some page =>
    if page.capacity < page.items.length + values.length then buffers.dropLast ++ [grant.moved]
    else buffers

/-- The addresses after `append`; a page whose reservation failed has none. -/
def appendBuffers (faults : PageFaults) (grant : PageGrant) (store : TypedPageStore T)
    (values : List T) (buffers : List Nat) : List Nat :=
  if store.logicalSize > u32Max then buffers
  else if values.isEmpty then buffers
  else if values.length > u32Max || values.length > u32Max - store.logicalSize then buffers
  else if store.needsPage values.length then
    if faults.page then buffers
    else if faults.items then buffers ++ [0]
    else
      let capacity := max store.nextPageCapacity values.length
      insertBuffers grant { store with pages := store.pages ++ [{ capacity := capacity }] } values
        (buffers ++ [grant.fresh])
  else insertBuffers grant store values buffers

end TypedPageStore

def locate (buffers : List Nat) (view : BlockRange) : Option (Nat × Nat) :=
  if view.count = 0 then none else buffers[view.page - 1]?.map fun address => (address, view.begin)

structure DataLocation where
  localTypes : Option (Nat × Nat) := none
  typeSlots : Option (Nat × Nat) := none
  objectSlots : Option (Nat × Nat) := none
  memberSlots : Option (Nat × Nat) := none

structure BlockGrants where
  localTypes : PageGrant := {}
  typeSlots : PageGrant := {}
  objectSlots : PageGrant := {}
  memberSlots : PageGrant := {}

structure BlockMemory where
  localTypes : List Nat := []
  typeSlots : List Nat := []
  objectSlots : List Nat := []
  memberSlots : List Nat := []

namespace BlockMemory

def locate (memory : BlockMemory) (view : BlockView) : DataLocation where
  localTypes := ServerEngine.locate memory.localTypes view.localTypes
  typeSlots := ServerEngine.locate memory.typeSlots view.typeSlots
  objectSlots := ServerEngine.locate memory.objectSlots view.objectSlots
  memberSlots := ServerEngine.locate memory.memberSlots view.memberSlots

def restore (memory : BlockMemory) (state : BlockCheckpoint) : BlockMemory where
  localTypes := memory.localTypes.take state.localTypes.pageCount
  typeSlots := memory.typeSlots.take state.typeSlots.pageCount
  objectSlots := memory.objectSlots.take state.objectSlots.pageCount
  memberSlots := memory.memberSlots.take state.memberSlots.pageCount

def appendParts (faults : BlockFaults) (grants : BlockGrants) (store : BlockStore)
    (data : InterfaceData) (memory : BlockMemory) : BlockMemory :=
  let localDone := (store.localTypes.append faults.localTypes data.localTypes).2.isOk
  let typesDone := localDone && (store.typeSlots.append faults.typeSlots data.typeSlots).2.isOk
  let objectsDone :=
    typesDone && (store.objectSlots.append faults.objectSlots data.objectSlots).2.isOk
  { localTypes := store.localTypes.appendBuffers faults.localTypes grants.localTypes
      data.localTypes memory.localTypes
    typeSlots :=
      if localDone then
        store.typeSlots.appendBuffers faults.typeSlots grants.typeSlots data.typeSlots
          memory.typeSlots
      else memory.typeSlots
    objectSlots :=
      if typesDone then
        store.objectSlots.appendBuffers faults.objectSlots grants.objectSlots data.objectSlots
          memory.objectSlots
      else memory.objectSlots
    memberSlots :=
      if objectsDone then
        store.memberSlots.appendBuffers faults.memberSlots grants.memberSlots data.memberSlots
          memory.memberSlots
      else memory.memberSlots }

/-- The addresses after `append`, which cuts off what a failed one left. -/
def append (faults : BlockFaults) (grants : BlockGrants) (store : BlockStore) (source : Nat)
    (data : InterfaceData) (memory : BlockMemory) : BlockMemory :=
  if !store.valid then memory
  else if source = 0 then memory
  else if store.records.length ≥ u32Max then memory
  else
    let grown := memory.appendParts faults grants store data
    if (store.append faults source data).2.isOk then grown else grown.restore store.mark

end BlockMemory

/-- A block that was appended, and where its view pointed then. -/
structure PlacedBlock where
  source : Nat
  data : InterfaceData
  location : DataLocation

/-- A store, the addresses of its pages, and the blocks that were not rolled back. -/
structure StackState where
  store : BlockStore
  memory : BlockMemory := {}
  blocks : List PlacedBlock := []

namespace StackState

def location (store : BlockStore) (memory : BlockMemory) (block : Nat) : DataLocation :=
  match store.view block with
  | .error _ => {}
  | .ok view => memory.locate view

def append (s : StackState) (faults : BlockFaults) (grants : BlockGrants) (source : Nat)
    (data : InterfaceData) : StackState :=
  let (store, result) := s.store.append faults source data
  let memory := s.memory.append faults grants s.store source data
  match result with
  | .error _ => { s with store := store, memory := memory }
  | .ok block =>
    { store := store
      memory := memory
      blocks := s.blocks ++ [⟨source, data, location store memory block⟩] }

def restore (s marked : StackState) : StackState where
  store := s.store.restore marked.store.mark
  memory := s.memory.restore marked.store.mark
  blocks := marked.blocks

end StackState

inductive StackOp
  | append (faults : BlockFaults) (grants : BlockGrants) (source : Nat) (data : InterfaceData)
  | mark
  | restore (depth : Nat)

/-- The state now and the states where outstanding marks were taken, the newest first. -/
structure StackRun where
  now : StackState
  marks : List StackState := []

namespace StackRun

def step (run : StackRun) : StackOp → StackRun
  | .append faults grants source data => { run with now := run.now.append faults grants source data }
  | .mark => { run with marks := run.now :: run.marks }
  | .restore depth =>
    match run.marks[depth]? with
    | none => run
    | some marked => { now := run.now.restore marked, marks := run.marks.drop depth }

def start (pageBytes : Nat) (valid : Bool) : StackRun where
  now := { store := { BlockStore.ofPageBytes pageBytes with valid := valid } }

def run (start : StackRun) (ops : List StackOp) : StackRun := ops.foldl step start

end StackRun
end ServerEngine
