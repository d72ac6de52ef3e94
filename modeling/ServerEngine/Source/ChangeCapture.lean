import ServerEngine.Core.Hash
import ServerEngine.Library.ProbedTable
import ServerEngine.Source.Update

/-! # Change capture

The file and directory identities a generation keeps for the journal, and how an incremental
generation's sparse updates are merged with the identities of the persisted image.
-/
namespace ServerEngine
open ProbedTable

/-! ## Captures -/

inductive SourceChangeBackend
  | none
  | windowsUsn
  deriving DecidableEq

structure SourceChangeCheckpoint where
  backend : SourceChangeBackend := .none
  volumeSerial : Nat := 0
  journalId : Nat := 0
  nextUsn : Int := 0

/-- `operator bool`. -/
def SourceChangeCheckpoint.enabled (checkpoint : SourceChangeCheckpoint) : Bool :=
  checkpoint.backend != .none

structure SourceChangeFileIndexSlot where
  fileReference : Nat := 0
  source : Nat := 0
  reserved : Nat := 0

/-- `source_change_directory_watch_known`: topology is bit 0, arrival bit 1. -/
def directoryWatchKnown : Nat := 3

structure SourceChangeDirectoryIndexSlot where
  fileReference : Nat := 0
  flags : Nat := 0
  reserved : Nat := 0
  deriving DecidableEq

structure SourceChangeFileIdentityUpdate where
  fileReference : Nat := 0
  source : Nat := 0
  reserved : Nat := 0

inductive SourceChangeCaptureKind
  | complete
  | baselineOverlay
  deriving DecidableEq

structure SourceChangeCapture where
  kind : SourceChangeCaptureKind := .complete
  checkpoint : SourceChangeCheckpoint := {}
  journalAnchorPath : String := ""
  fileIndex : List SourceChangeFileIndexSlot := []
  directoryIndex : List SourceChangeDirectoryIndexSlot := []
  fileUpdates : List SourceChangeFileIdentityUpdate := []
  directoryUpdates : List SourceChangeDirectoryIndexSlot := []

/-- A failing status, or an access behind the end of a vector. -/
inductive CaptureStop
  | failed (code : StatusCode)
  | outOfRange
  deriving DecidableEq

def fileFormat : Format SourceChangeFileIndexSlot Nat where
  empty := {}
  free s := s.fileReference == 0
  key s := s.fileReference
  hash := mix64

def directoryFormat : Format SourceChangeDirectoryIndexSlot Nat where
  empty := {}
  free s := s.fileReference == 0
  key s := s.fileReference
  hash := mix64

/-- `flags & ~source_change_directory_watch_known`. -/
def unknownFlags (flags : Nat) : Nat := flags &&& (u32Max ^^^ directoryWatchKnown)

namespace SourceChange

/-- `next_capacity`: a load below 80 percent. -/
def nextCapacity (count : Nat) : Nat :=
  let quarter := count / 4 + if count % 4 ≠ 0 then 1 else 0
  if count > sizeMax - quarter - 1 then 0
  else SourceManagerUpdate.nextCapacityLoop 64 (count + quarter + 1) 16

/-- `insert_file_identity`; a reference has one source only. -/
def insertFileIdentity (slots : List SourceChangeFileIndexSlot) (fileReference source : Nat) :
    Option (List SourceChangeFileIndexSlot) :=
  if fileReference = 0 || slots.isEmpty || source = 0 then none
  else match probe fileFormat slots fileReference with
    | none => none
    | some pos =>
      let slot := slotAt fileFormat slots pos
      if slot.fileReference = 0 then
        some (slots.set pos { slot with fileReference := fileReference, source := source })
      else if slot.source = source then some slots else none

/-- `insert_directory_identity`; the flags of a reference add up. -/
def insertDirectoryIdentity (slots : List SourceChangeDirectoryIndexSlot)
    (fileReference flags : Nat) : Option (List SourceChangeDirectoryIndexSlot) :=
  if fileReference = 0 || slots.isEmpty || flags = 0 || unknownFlags flags ≠ 0 then none
  else match probe directoryFormat slots fileReference with
    | none => none
    | some pos =>
      let slot := slotAt directoryFormat slots pos
      if slot.fileReference = 0 then some (slots.set pos ⟨fileReference, flags, 0⟩)
      else some (slots.set pos { slot with flags := slot.flags ||| flags })

def notPowerOfTwo (count : Nat) : Bool := count = 0 || count &&& (count - 1) ≠ 0

/-- `find_source_file` of an image with these slots. -/
def findSourceFile (sourceCount : Nat) (slots : List SourceChangeFileIndexSlot)
    (fileReference : Nat) : Nat :=
  if fileReference = 0 || notPowerOfTwo slots.length then 0
  else match find fileFormat slots fileReference with
    | none => 0
    | some slot =>
      if slot.source ≠ 0 && slot.source ≤ sourceCount && slot.reserved = 0 then slot.source else 0

/-- `directory_watch_flags` of an image with these slots. -/
def directoryWatchFlags (slots : List SourceChangeDirectoryIndexSlot) (fileReference : Nat) : Nat :=
  if fileReference = 0 || notPowerOfTwo slots.length then 0
  else match find directoryFormat slots fileReference with
    | none => 0
    | some slot => if slot.reserved = 0 && unknownFlags slot.flags = 0 then slot.flags else 0

/-- `source_manager_image_view` as the capture reads it. -/
structure IdentityImage where
  sourceCount : Nat
  checkpoint : SourceChangeCheckpoint
  fileSlots : List SourceChangeFileIndexSlot
  directorySlots : List SourceChangeDirectoryIndexSlot

/-- `source_file_identity_slot`: what is read of a slot, or that it is corrupt. -/
def readFileSlot (image : IdentityImage) (slot : SourceChangeFileIndexSlot) :
    Except CaptureStop SourceChangeFileIndexSlot :=
  if slot.fileReference = 0 then
    if slot.source = 0 && slot.reserved = 0 then .ok slot else .error (.failed .artifactCorrupt)
  else if slot.source ≠ 0 && slot.source ≤ image.sourceCount && slot.reserved = 0 then .ok slot
  else .error (.failed .artifactCorrupt)

def readDirectorySlot (slot : SourceChangeDirectoryIndexSlot) :
    Except CaptureStop SourceChangeDirectoryIndexSlot :=
  if slot.fileReference = 0 then
    if slot.flags = 0 && slot.reserved = 0 then .ok slot else .error (.failed .artifactCorrupt)
  else if slot.reserved = 0 && slot.flags ≠ 0 && unknownFlags slot.flags = 0 then .ok slot
  else .error (.failed .artifactCorrupt)

/-! ## Materialization -/

def disabledCapture (journalAnchorPath : String) : SourceChangeCapture :=
  { journalAnchorPath := journalAnchorPath }

def indexUpdate (sourceCount : Nat) (updateIndex : List Nat)
    (item : SourceChangeFileIdentityUpdate × Nat) : Except CaptureStop (List Nat) :=
  if item.1.source = 0 || item.1.source > sourceCount || item.1.reserved ≠ 0 ||
      item.2 ≥ u32Max then .error (.failed .invalidArgument)
  else if updateIndex.getD item.1.source 0 ≠ 0 then .error (.failed .invalidArgument)
  else .ok (updateIndex.set item.1.source (item.2 + 1))

def countFile (image : IdentityImage) (count : Nat) (slot : SourceChangeFileIndexSlot) :
    Except CaptureStop Nat := do
  let slot ← readFileSlot image slot
  return if slot.fileReference ≠ 0 then count + 1 else count

/-- One round over the persisted files: a source with an update is left out. -/
def mergeFile (image : IdentityImage) (updateIndex : List Nat)
    (state : List SourceChangeFileIndexSlot × Nat) (slot : SourceChangeFileIndexSlot) :
    Except CaptureStop (List SourceChangeFileIndexSlot × Nat) := do
  let slot ← readFileSlot image slot
  if slot.fileReference = 0 then return state
  match updateIndex[slot.source]? with
  | none => throw .outOfRange
  | some updated =>
    if updated ≠ 0 then return state
    match insertFileIdentity state.1 slot.fileReference slot.source with
    | none => throw (.failed .artifactCorrupt)
    | some slots => return (slots, state.2 + 1)

def updateFile (state : List SourceChangeFileIndexSlot × Nat)
    (update : SourceChangeFileIdentityUpdate) :
    Except CaptureStop (List SourceChangeFileIndexSlot × Nat) :=
  if update.fileReference = 0 then .ok state
  else match insertFileIdentity state.1 update.fileReference update.source with
    | none => .error (.failed .artifactCorrupt)
    | some slots => .ok (slots, state.2 + 1)

def materializeFiles (sourceCount : Nat) (image : IdentityImage)
    (updates : List SourceChangeFileIdentityUpdate) :
    Except CaptureStop (List SourceChangeFileIndexSlot × Nat) := do
  let updateIndex ← updates.zipIdx.foldlM (indexUpdate sourceCount)
    (List.replicate (sourceCount + 1) 0)
  let baselineCount ← image.fileSlots.foldlM (countFile image) 0
  if baselineCount > sizeMax - updates.length then throw (.failed .notAvailable)
  let upperBound := baselineCount + updates.length
  if upperBound ≠ 0 ∧ nextCapacity upperBound = 0 then throw (.failed .notAvailable)
  let empty := List.replicate (if upperBound ≠ 0 then nextCapacity upperBound else 0) {}
  let state ← image.fileSlots.foldlM (mergeFile image updateIndex) (empty, 0)
  updates.foldlM updateFile state

def countDirectory (count : Nat) (slot : SourceChangeDirectoryIndexSlot) :
    Except CaptureStop Nat := do
  let slot ← readDirectorySlot slot
  return if slot.fileReference ≠ 0 then count + 1 else count

def mergeDirectory (slots : List SourceChangeDirectoryIndexSlot)
    (slot : SourceChangeDirectoryIndexSlot) :
    Except CaptureStop (List SourceChangeDirectoryIndexSlot) := do
  let slot ← readDirectorySlot slot
  if slot.fileReference = 0 then return slots
  match insertDirectoryIdentity slots slot.fileReference slot.flags with
  | none => throw (.failed .notAvailable)
  | some slots => return slots

def updateDirectory (slots : List SourceChangeDirectoryIndexSlot)
    (slot : SourceChangeDirectoryIndexSlot) :
    Except CaptureStop (List SourceChangeDirectoryIndexSlot) :=
  if slot.fileReference = 0 || slot.reserved ≠ 0 || slot.flags = 0 || unknownFlags slot.flags ≠ 0 then
    .error (.failed .invalidArgument)
  else match insertDirectoryIdentity slots slot.fileReference slot.flags with
    | none => .error (.failed .notAvailable)
    | some slots => .ok slots

/-- `materialize_directories`; `allocates` tells whether a table of that size can be had. -/
def materializeDirectories (image : IdentityImage) (updates : List SourceChangeDirectoryIndexSlot)
    (allocates : Nat → Bool) (baselineCount capacity : Nat) :
    Except CaptureStop (List SourceChangeDirectoryIndexSlot) :=
  if capacity = 0 then
    if baselineCount = 0 && updates.isEmpty then .ok [] else .error (.failed .notAvailable)
  else if !allocates capacity then .error (.failed .notAvailable)
  else do
    let slots ← image.directorySlots.foldlM mergeDirectory (List.replicate capacity {})
    updates.foldlM updateDirectory slots

/-- The directory index: in a table of the persisted size if the directories fit, else in a larger
one. -/
def materializeDirectoryIndex (image : IdentityImage)
    (updates : List SourceChangeDirectoryIndexSlot) (allocates : Nat → Bool) :
    Except CaptureStop (List SourceChangeDirectoryIndexSlot) := do
  let baselineCount ← image.directorySlots.foldlM countDirectory 0
  if baselineCount > sizeMax - updates.length then throw (.failed .notAvailable)
  let expandedCapacity := nextCapacity (baselineCount + updates.length)
  let result := materializeDirectories image updates allocates baselineCount
    image.directorySlots.length
  if result ≠ .error (.failed .notAvailable) ∨ expandedCapacity = 0 ∨
      expandedCapacity ≤ image.directorySlots.length then result
  else materializeDirectories image updates allocates baselineCount expandedCapacity

/-- `materialize_generation_source_change_capture`; without a valid baseline image there is none. -/
def materializeCapture (sourceCount : Nat) (baseline : Option IdentityImage)
    (allocates : Nat → Bool) (prepared : SourceChangeCapture) :
    Except CaptureStop SourceChangeCapture :=
  if prepared.kind ≠ .baselineOverlay then .error (.failed .invalidArgument)
  else if !prepared.checkpoint.enabled then .ok (disabledCapture prepared.journalAnchorPath)
  else match baseline with
    | none => .error (.failed .invalidState)
    | some image =>
      if !image.checkpoint.enabled ||
          image.checkpoint.volumeSerial ≠ prepared.checkpoint.volumeSerial then
        .error (.failed .artifactCorrupt)
      else if sourceCount > u32Max then .error (.failed .notAvailable)
      else do
        let (fileIndex, materialized) ← materializeFiles sourceCount image prepared.fileUpdates
        if sourceCount ≠ 0 ∧ materialized = 0 then
          return disabledCapture prepared.journalAnchorPath
        let directoryIndex ←
          materializeDirectoryIndex image prepared.directoryUpdates allocates
        return {
          checkpoint := prepared.checkpoint
          journalAnchorPath := prepared.journalAnchorPath
          fileIndex := fileIndex
          directoryIndex := directoryIndex }

end SourceChange
end ServerEngine
