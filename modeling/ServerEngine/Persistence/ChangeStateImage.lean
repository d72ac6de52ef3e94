import ServerEngine.Core.PathHash
import ServerEngine.Library.BitFilter
import ServerEngine.Persistence.Selector
import ServerEngine.Source.ChangeCapture

/-! # The change state image

The compact state by which a build decides which journal records concern the project: three filters
and the anchor path in the third format, exact tables in the two before. Reads of a bound image are
checked against its end.
-/
namespace ServerEngine
open ByteFields BitFilter
open PathHash (add64)

namespace ChangeState

/-! ## Layout -/

/-- `"CWCSV"`, the digit of the format and two zeros. -/
def imageMagic (format : Nat) : Bytes := [67, 87, 67, 83, 86, UInt8.ofNat (48 + format), 0, 0]

def headerSize : Nat := 128
def directoryEntrySize : Nat := 32

def directoryCount : Nat → Nat
  | 1 => 3
  | 2 => 5
  | _ => 4

def firstSectionOffset : Nat → Nat
  | 1 => 256
  | 2 => 320
  | _ => 256

def align64 (value : Nat) : Nat := add64 value 63 / 64 * 64

def powerOfTwoOrZero (value : Nat) : Bool := value = 0 || value &&& (value - 1) = 0

def bloomHashCount : Nat := 14

def bloomBytesLoop : Nat → Nat → Nat → Nat
  | 0, _, _ => 0
  | fuel + 1, required, bytes =>
    if bytes < required then
      if bytes > sizeMax / 2 then 0 else bloomBytesLoop fuel required (bytes * 2)
    else bytes

/-- `bloom_bytes_for_count`: twenty bits for an entry, rounded up to a power of two. -/
def bloomBytesForCount (count : Nat) : Nat :=
  if count = 0 then 0
  else if count > sizeMax / 20 then 0
  else bloomBytesLoop 64 (count * 20 / 8 + if count * 20 % 8 ≠ 0 then 1 else 0) 64

def bloomBit (size value index : Nat) : Nat :=
  let h1 := mix64 (value ^^^ 0x9e3779b97f4a7c15)
  let h2 := mix64 (value ^^^ 0xd1b54a32d192ed03) ||| 1
  add64 h1 (mul64 index h2) &&& ((mul64 size 8 + (2 ^ 64 - 1)) % 2 ^ 64)

def bloomBits (size value : Nat) : List Nat := (List.range bloomHashCount).map (bloomBit size value)

def bloomAdd (bloom : Bytes) (value : Nat) : Bytes :=
  if bloom.isEmpty || value = 0 then bloom else setBits bloom (bloomBits bloom.length value)

def validCheckpoint (sourceCount fileCount directoryCountValue : Nat)
    (checkpoint : SourceChangeCheckpoint) : Bool :=
  (!checkpoint.enabled && checkpoint.volumeSerial = 0 && checkpoint.journalId = 0 &&
    checkpoint.nextUsn = 0 && fileCount = 0 && directoryCountValue = 0) ||
  (checkpoint.enabled && checkpoint.volumeSerial ≠ 0 && checkpoint.journalId ≠ 0 &&
    checkpoint.nextUsn ≥ 0 && (sourceCount = 0 || fileCount ≠ 0))

def backendCode : SourceChangeBackend → Nat
  | .none => 0
  | .windowsUsn => 1

def backendOf (code : Nat) : SourceChangeBackend := if code = 0 then .none else .windowsUsn

/-- The conversion of `std::uint64_t` to `std::int64_t`. -/
def signed64 (value : Nat) : Int := if value < 2 ^ 63 then value else (value : Int) - 2 ^ 64

def unsigned64 (value : Int) : Nat := (value % 2 ^ 64).toNat

/-! ## Bound images -/

/-- `change_state_image_view`; a section is where it begins in the image. -/
structure ChangeStateImageView where
  bytes : Bytes := []
  formatVersion : Nat := 0
  legacyFileIndex : Nat := 0
  fileControl : Nat := 0
  fileReferences : Nat := 0
  fileSources : Nat := 0
  sourceBloom : Nat := 0
  topologyBloom : Nat := 0
  arrivalBloom : Nat := 0
  sourceBloomBytes : Nat := 0
  topologyBloomBytes : Nat := 0
  arrivalBloomBytes : Nat := 0
  directoryIndex : Nat := 0
  anchorOffset : Nat := 0
  anchorSize : Nat := 0
  fileIndexCount : Nat := 0
  directoryIndexCount : Nat := 0
  sourceCount : Nat := 0
  checkpoint : SourceChangeCheckpoint := {}
  fileControlCrc : Nat := 0
  fileReferenceCrc : Nat := 0
  fileSourceCrc : Nat := 0
  directoryIndexCrc : Nat := 0
  legacyFileIndexCrc : Nat := 0
  sourceBloomCrc : Nat := 0
  topologyBloomCrc : Nat := 0
  arrivalBloomCrc : Nat := 0

structure DirectoryEntry where
  kind : Nat
  recordSize : Nat
  offset : Nat
  count : Nat
  crc : Nat

def readEntry (image : Bytes) (index : Nat) : DirectoryEntry :=
  let base := headerSize + directoryEntrySize * index
  ⟨readU32 image base, readU32 image (base + 4), readU64 image (base + 8),
    readU64 image (base + 16), readU64 image (base + 24)⟩

def clearedHeader (image : Bytes) : Bytes :=
  field image 0 96 ++ bytesOf 8 0 ++ field image 104 24

/-- `read_common_header`: the source count and the checkpoint. -/
def readCommonHeader (image : Bytes) (format : Nat) :
    Except StatusCode (Nat × SourceChangeCheckpoint) :=
  if image.length < firstSectionOffset format ||
      readU32 image 8 ≠ format ||
      readU32 image 12 ≠ endianMarker ||
      readU32 image 16 ≠ headerSize ||
      readU32 image 20 ≠ directoryCount format ||
      readU32 image 24 ≠ directoryEntrySize ||
      readU64 image 32 ≠ headerSize ||
      readU64 image 40 ≠ image.length then .error .artifactCorrupt
  else if (persistenceCrc64 (clearedHeader image)).toNat ≠ readU64 image 96 then
    .error .artifactCorrupt
  else if (persistenceCrc64 (field image headerSize
      (directoryEntrySize * directoryCount format))).toNat ≠ readU64 image 104 then
    .error .artifactCorrupt
  else if readU64 image 48 > u32Max then .error .artifactCorrupt
  else if readU32 image 56 > 1 || readU32 image 60 ≠ 0 then .error .artifactCorrupt
  else .ok (readU64 image 48, {
    backend := backendOf (readU32 image 56)
    volumeSerial := readU64 image 64
    journalId := readU64 image 72
    nextUsn := signed64 (readU64 image 80) })

def DirectoryEntry.is (entry : DirectoryEntry) (kind recordSize : Nat) : Bool :=
  entry.kind = kind && entry.recordSize = recordSize

def DirectoryEntry.next (entry : DirectoryEntry) : Nat :=
  align64 (add64 entry.offset (mul64 entry.count entry.recordSize))

def badAnchor (image : Bytes) (anchor : DirectoryEntry) : Bool :=
  anchor.count = 0 || add64 anchor.offset anchor.count ≠ image.length

def bindV3 (image : Bytes) : Except StatusCode ChangeStateImageView := do
  let (sourceCount, checkpoint) ← readCommonHeader image 3
  let source := readEntry image 0
  let topology := readEntry image 1
  let arrival := readEntry image 2
  let anchor := readEntry image 3
  if !source.is 1 1 || !topology.is 2 1 || !arrival.is 3 1 || !anchor.is 4 1 then
    throw .artifactCorrupt
  if !powerOfTwoOrZero source.count || !powerOfTwoOrZero topology.count ||
      !powerOfTwoOrZero arrival.count then
    throw .artifactCorrupt
  if source.offset ≠ firstSectionOffset 3 || topology.offset ≠ source.next ||
      arrival.offset ≠ topology.next || anchor.offset ≠ arrival.next || badAnchor image anchor then
    throw .artifactCorrupt
  if !validCheckpoint sourceCount source.count (add64 topology.count arrival.count) checkpoint then
    throw .artifactCorrupt
  return {
    bytes := image
    formatVersion := 3
    sourceBloom := source.offset
    topologyBloom := topology.offset
    arrivalBloom := arrival.offset
    sourceBloomBytes := source.count
    topologyBloomBytes := topology.count
    arrivalBloomBytes := arrival.count
    anchorOffset := anchor.offset
    anchorSize := anchor.count
    sourceCount := sourceCount
    checkpoint := checkpoint
    sourceBloomCrc := source.crc
    topologyBloomCrc := topology.crc
    arrivalBloomCrc := arrival.crc }

def bindV1 (image : Bytes) : Except StatusCode ChangeStateImageView := do
  let (sourceCount, checkpoint) ← readCommonHeader image 1
  let file := readEntry image 0
  let directory := readEntry image 1
  let anchor := readEntry image 2
  if !file.is 1 16 || !directory.is 2 16 || !anchor.is 3 1 then
    throw .artifactCorrupt
  if !powerOfTwoOrZero file.count || !powerOfTwoOrZero directory.count then
    throw .artifactCorrupt
  if file.offset ≠ firstSectionOffset 1 || directory.offset ≠ file.next ||
      anchor.offset ≠ directory.next || badAnchor image anchor then
    throw .artifactCorrupt
  if !validCheckpoint sourceCount file.count directory.count checkpoint then
    throw .artifactCorrupt
  return {
    bytes := image
    formatVersion := 1
    legacyFileIndex := file.offset
    directoryIndex := directory.offset
    anchorOffset := anchor.offset
    anchorSize := anchor.count
    fileIndexCount := file.count
    directoryIndexCount := directory.count
    sourceCount := sourceCount
    checkpoint := checkpoint
    legacyFileIndexCrc := file.crc
    directoryIndexCrc := directory.crc }

def bindV2 (image : Bytes) : Except StatusCode ChangeStateImageView := do
  let (sourceCount, checkpoint) ← readCommonHeader image 2
  let control := readEntry image 0
  let reference := readEntry image 1
  let source := readEntry image 2
  let directory := readEntry image 3
  let anchor := readEntry image 4
  if !control.is 1 1 || !reference.is 2 8 || !source.is 3 4 || !directory.is 4 16 ||
      !anchor.is 5 1 then
    throw .artifactCorrupt
  if control.count ≠ reference.count || control.count ≠ source.count ||
      !powerOfTwoOrZero control.count || !powerOfTwoOrZero directory.count then
    throw .artifactCorrupt
  if control.offset ≠ firstSectionOffset 2 || reference.offset ≠ control.next ||
      source.offset ≠ reference.next || directory.offset ≠ source.next ||
      anchor.offset ≠ directory.next || badAnchor image anchor then
    throw .artifactCorrupt
  if !validCheckpoint sourceCount control.count directory.count checkpoint then
    throw .artifactCorrupt
  return {
    bytes := image
    formatVersion := 2
    fileControl := control.offset
    fileReferences := reference.offset
    fileSources := source.offset
    directoryIndex := directory.offset
    anchorOffset := anchor.offset
    anchorSize := anchor.count
    fileIndexCount := control.count
    directoryIndexCount := directory.count
    sourceCount := sourceCount
    checkpoint := checkpoint
    fileControlCrc := control.crc
    fileReferenceCrc := reference.crc
    fileSourceCrc := source.crc
    directoryIndexCrc := directory.crc }

def bind (image : Bytes) : Except StatusCode ChangeStateImageView :=
  if image.length < headerSize then .error .artifactCorrupt
  else if field image 0 8 = imageMagic 3 then bindV3 image
  else if field image 0 8 = imageMagic 1 then bindV1 image
  else if field image 0 8 = imageMagic 2 then bindV2 image
  else .error .artifactCorrupt

/-! ## Reads -/

def readAt (image : Bytes) (count offset : Nat) : Option Nat :=
  if offset + count ≤ image.length then some (valueOf (field image offset count)) else none

def crcAt (image : Bytes) (offset size : Nat) : Option Nat :=
  if size = 0 ∨ offset + size ≤ image.length then
    some (persistenceCrc64 (field image offset size)).toNat
  else none

namespace ChangeStateImageView
variable (view : ChangeStateImageView)

def gateOnly : Bool := view.formatVersion = 3

/-- The loop of `bloom_maybe` from one hash on. -/
def bloomLoop (offset size value : Nat) : List Nat → Option Bool
  | [] => some true
  | index :: rest => do
    let bit := bloomBit size value index
    let byte ← readAt view.bytes 1 (offset + bit / 8)
    if !byte.testBit (bit % 8) then some false else bloomLoop offset size value rest

/-- `bloom_maybe` on a section of the image. -/
def bloomMaybe (offset size value : Nat) : Option Bool :=
  if size = 0 || value = 0 then some false
  else view.bloomLoop offset size value (List.range bloomHashCount)

/-- One probe of `find_source_file`: the result, or that the next slot is asked. -/
def probeFile (fileReference position : Nat) : Option (Option Nat) := do
  if view.formatVersion = 1 then
    let slot := view.legacyFileIndex + mul64 position 16
    let candidate ← readAt view.bytes 8 slot
    if candidate = 0 then return some 0
    if candidate ≠ fileReference then return none
    let source ← readAt view.bytes 4 (slot + 8)
    if source = 0 || source > view.sourceCount then return some 0
    let reserved ← readAt view.bytes 4 (slot + 12)
    return some (if reserved = 0 then source else 0)
  else
    let control ← readAt view.bytes 1 (view.fileControl + position)
    if control ≠ 1 then return some 0
    let candidate ← readAt view.bytes 8 (view.fileReferences + mul64 position 8)
    if candidate ≠ fileReference then return none
    let source ← readAt view.bytes 4 (view.fileSources + mul64 position 4)
    return some (if source ≠ 0 && source ≤ view.sourceCount then source else 0)

def probeDirectory (fileReference position : Nat) : Option (Option Nat) := do
  let slot := view.directoryIndex + mul64 position 16
  let candidate ← readAt view.bytes 8 slot
  if candidate = 0 then return some 0
  if candidate ≠ fileReference then return none
  let flags ← readAt view.bytes 4 (slot + 8)
  let reserved ← readAt view.bytes 4 (slot + 12)
  return some (if reserved = 0 && unknownFlags flags = 0 then flags else 0)

def probeLoop (probe : Nat → Option (Option Nat)) (mask : Nat) : Nat → Nat → Option Nat
  | 0, _ => some 0
  | fuel + 1, position => do
    match ← probe position with
    | some result => return result
    | none => probeLoop probe mask fuel ((position + 1) &&& mask)

def findSourceFile (fileReference : Nat) : Option Nat :=
  if view.gateOnly then some 0
  else if fileReference = 0 || view.fileIndexCount = 0 then some 0
  else probeLoop (view.probeFile fileReference) (view.fileIndexCount - 1) view.fileIndexCount
    (mix64 fileReference &&& (view.fileIndexCount - 1))

def directoryWatchFlags (fileReference : Nat) : Option Nat :=
  if view.gateOnly then some 0
  else if fileReference = 0 || view.directoryIndexCount = 0 then some 0
  else probeLoop (view.probeDirectory fileReference) (view.directoryIndexCount - 1)
    view.directoryIndexCount (mix64 fileReference &&& (view.directoryIndexCount - 1))

def mayContainSourceFile (fileReference : Nat) : Option Bool :=
  if view.gateOnly then view.bloomMaybe view.sourceBloom view.sourceBloomBytes fileReference
  else (view.findSourceFile fileReference).map (· ≠ 0)

def mayWatchDirectoryTopology (fileReference : Nat) : Option Bool :=
  if view.gateOnly then view.bloomMaybe view.topologyBloom view.topologyBloomBytes fileReference
  else (view.directoryWatchFlags fileReference).map (·.testBit 0)

def mayWatchDirectoryArrival (fileReference : Nat) : Option Bool :=
  if view.gateOnly then view.bloomMaybe view.arrivalBloom view.arrivalBloomBytes fileReference
  else (view.directoryWatchFlags fileReference).map (·.testBit 1)

/-- The sections that `verify_contents` checks, with their sizes and checksums, in its order. -/
def verifiedSections : List (Nat × Nat × Nat) :=
  let anchorEntry := match view.formatVersion with
    | 1 => 2
    | 2 => 4
    | _ => 3
  let anchor := (view.anchorOffset, view.anchorSize, (readEntry view.bytes anchorEntry).crc)
  let directory := (view.directoryIndex, mul64 view.directoryIndexCount 16, view.directoryIndexCrc)
  match view.formatVersion with
  | 1 => [directory, anchor,
    (view.legacyFileIndex, mul64 view.fileIndexCount 16, view.legacyFileIndexCrc)]
  | 2 => [directory, anchor, (view.fileControl, view.fileIndexCount, view.fileControlCrc),
    (view.fileReferences, mul64 view.fileIndexCount 8, view.fileReferenceCrc),
    (view.fileSources, mul64 view.fileIndexCount 4, view.fileSourceCrc)]
  | _ => [(view.sourceBloom, view.sourceBloomBytes, view.sourceBloomCrc),
    (view.topologyBloom, view.topologyBloomBytes, view.topologyBloomCrc),
    (view.arrivalBloom, view.arrivalBloomBytes, view.arrivalBloomCrc), anchor]

def verifySections : List (Nat × Nat × Nat) → Option Bool
  | [] => some true
  | (offset, size, crc) :: rest => do
    let actual ← crcAt view.bytes offset size
    if actual ≠ crc then some false else verifySections rest

def verifyContents : Option Bool := view.verifySections view.verifiedSections

/-- `path`: the anchor path, if it is in the image. -/
def path : Option Bytes :=
  if view.anchorOffset + view.anchorSize ≤ view.bytes.length then
    some (field view.bytes view.anchorOffset view.anchorSize)
  else none

end ChangeStateImageView

def badFileSlot (sourceCount : Nat) (slot : SourceChangeFileIndexSlot) : Bool :=
  if slot.fileReference = 0 then slot.source ≠ 0 || slot.reserved ≠ 0
  else slot.source = 0 || slot.source > sourceCount || slot.reserved ≠ 0

def badDirectorySlot (slot : SourceChangeDirectoryIndexSlot) : Bool :=
  if slot.fileReference = 0 then slot.flags ≠ 0 || slot.reserved ≠ 0
  else slot.reserved ≠ 0 || slot.flags = 0 || unknownFlags slot.flags ≠ 0

def fileValues (capture : SourceChangeCapture) : List Nat :=
  (capture.fileIndex.filter fun slot => slot.fileReference ≠ 0).map (·.fileReference)

def directoryValues (capture : SourceChangeCapture) (flag : Nat) : List Nat :=
  (capture.directoryIndex.filter fun slot =>
    slot.fileReference ≠ 0 && slot.flags.testBit flag).map (·.fileReference)

def place (text : Bytes) (offset : Nat) (content : Bytes) : Bytes :=
  text ++ List.replicate (offset - text.length) 0 ++ content

def entryBytes (kind offset : Nat) (content : Bytes) : Bytes :=
  bytesOf 4 kind ++ (bytesOf 4 1 ++ (bytesOf 8 offset ++ (bytesOf 8 content.length ++
    bytesOf 8 (persistenceCrc64 content).toNat)))

def headerBytes (fileSize sourceCount : Nat) (checkpoint : SourceChangeCheckpoint) : Bytes :=
  imageMagic 3 ++ (bytesOf 4 3 ++ (bytesOf 4 endianMarker ++ (bytesOf 4 headerSize ++
    (bytesOf 4 (directoryCount 3) ++ (bytesOf 4 directoryEntrySize ++ (bytesOf 4 0 ++
    (bytesOf 8 headerSize ++ (bytesOf 8 fileSize ++ (bytesOf 8 sourceCount ++
    (bytesOf 4 (backendCode checkpoint.backend) ++ (bytesOf 4 0 ++
    (bytesOf 8 checkpoint.volumeSerial ++ (bytesOf 8 checkpoint.journalId ++
    (bytesOf 8 (unsigned64 checkpoint.nextUsn) ++ bytesOf 8 0))))))))))))))

/-- What `encode_change_state_image` refuses. -/
def badCapture (sourceCount : Nat) (anchorPath : Bytes) (capture : SourceChangeCapture) : Bool :=
  sourceCount > u32Max || (capture.checkpoint.enabled && anchorPath.isEmpty) ||
  (!capture.checkpoint.enabled &&
    (!capture.fileIndex.isEmpty || !capture.directoryIndex.isEmpty)) ||
  (capture.checkpoint.enabled &&
    (capture.checkpoint.volumeSerial = 0 || capture.checkpoint.journalId = 0 ||
      capture.checkpoint.nextUsn < 0 || (sourceCount ≠ 0 && capture.fileIndex.isEmpty))) ||
  !powerOfTwoOrZero capture.fileIndex.length || !powerOfTwoOrZero capture.directoryIndex.length ||
  capture.fileIndex.any (badFileSlot sourceCount) || capture.directoryIndex.any badDirectorySlot

def encode (sourceCount : Nat) (anchorPath : Bytes) (capture : SourceChangeCapture) :
    Except StatusCode Bytes :=
  if badCapture sourceCount anchorPath capture then .error .invalidArgument
  else
    let files := fileValues capture
    let topologies := directoryValues capture 0
    let arrivals := directoryValues capture 1
    let sourceBytes := bloomBytesForCount files.length
    let topologyBytes := bloomBytesForCount topologies.length
    let arrivalBytes := bloomBytesForCount arrivals.length
    if (files.length ≠ 0 && sourceBytes = 0) || (topologies.length ≠ 0 && topologyBytes = 0) ||
        (arrivals.length ≠ 0 && arrivalBytes = 0) then .error .notAvailable
    else
      let sourceOffset := firstSectionOffset 3
      let topologyOffset := align64 (add64 sourceOffset sourceBytes)
      let arrivalOffset := align64 (add64 topologyOffset topologyBytes)
      let anchorOffset := align64 (add64 arrivalOffset arrivalBytes)
      let fileSize := add64 anchorOffset anchorPath.length
      let sourceFilter := files.foldl bloomAdd (List.replicate sourceBytes 0)
      let topologyFilter := topologies.foldl bloomAdd (List.replicate topologyBytes 0)
      let arrivalFilter := arrivals.foldl bloomAdd (List.replicate arrivalBytes 0)
      let directory := entryBytes 1 sourceOffset sourceFilter ++
        (entryBytes 2 topologyOffset topologyFilter ++
        (entryBytes 3 arrivalOffset arrivalFilter ++ entryBytes 4 anchorOffset anchorPath))
      let header := headerBytes fileSize sourceCount capture.checkpoint
      let directoryCrc := bytesOf 8 (persistenceCrc64 directory).toNat
      let rest := directoryCrc ++ List.replicate 16 0
      let headerCrc := bytesOf 8 (persistenceCrc64 (header ++ bytesOf 8 0 ++ rest)).toNat
      .ok (place (place (place (place (header ++ headerCrc ++ rest ++ directory)
        sourceOffset sourceFilter) topologyOffset topologyFilter) arrivalOffset arrivalFilter)
          anchorOffset anchorPath)

end ChangeState
end ServerEngine
