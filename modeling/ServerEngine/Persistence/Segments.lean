import ServerEngine.Persistence.Selector

/-! # Segments of a generation and the sections of an image

An image is given as extents of memory. Its prefix says where the sections are, which are cut out
of the extents.
-/
namespace ServerEngine
open ByteFields

/-! ## Extents -/

/-- The memory of the process; what a frozen generation and the mapped baselines hold does not
change. -/
abbrev Memory := Nat → UInt8

structure Span where
  data : Nat
  size : Nat
  deriving DecidableEq

def Span.bytes (memory : Memory) (span : Span) : Bytes :=
  (List.range span.size).map fun i => memory (span.data + i)

def segmentMaxExtents : Nat := 96

structure Segment where
  extents : List Span
  nonempty : ∀ extent ∈ extents, extent.size ≠ 0
  bounded : extents.length ≤ segmentMaxExtents
  fits : (extents.map (·.size)).sum ≤ sizeMax

namespace Segment

def empty : Segment := ⟨[], by simp, by simp, by simp⟩

def size (segment : Segment) : Nat := (segment.extents.map (·.size)).sum

def bytes (memory : Memory) (segment : Segment) : Bytes :=
  segment.extents.flatMap (·.bytes memory)

def append (segment : Segment) (span : Span) : Option Segment :=
  if hsize : span.size = 0 then some segment
  else if hroom : segment.extents.length < segmentMaxExtents ∧
      segment.size + span.size ≤ sizeMax then
    some ⟨segment.extents ++ [span], by
      intro extent hextent
      rcases List.mem_append.mp hextent with hold | hnew
      · exact segment.nonempty extent hold
      · rw [List.mem_singleton.mp hnew]
        exact hsize, by
      rw [List.length_append, List.length_singleton]
      omega, by
      rw [List.map_append, List.sum_append]
      simpa [size] using hroom.2⟩
  else none

def isContiguous (segment : Segment) : Bool := decide (segment.extents.length ≤ 1)

def contiguous (segment : Segment) : Span :=
  match segment.extents with
  | [extent] => extent
  | _ => ⟨0, 0⟩

end Segment

/-- The bytes that `copy_segment_prefix` copies. -/
def copyExtents (memory : Memory) : List Span → Nat → Bytes
  | [], _ => []
  | extent :: rest, room =>
    (extent.bytes memory).take room ++ copyExtents memory rest (room - extent.size)

def copySegmentPrefix (memory : Memory) (input : Segment) (size : Nat) : Option Bytes :=
  let copied := copyExtents memory input.extents size
  if copied.length = size then some copied else none

/-- What of an extent at `logical` is between two offsets. -/
def cutExtent (first last logical : Nat) (extent : Span) : Span :=
  let start := if first > logical then first - logical else 0
  let stop := if last < logical + extent.size then last - logical else extent.size
  ⟨extent.data + start, stop - start⟩

/-- The loop of `slice_generation_segment`. -/
def sliceExtents (first last : Nat) : List Span → Nat → Segment → Option Segment
  | [], _, output => some output
  | extent :: rest, logical, output =>
    let appended :=
      if logical + extent.size > first ∧ logical < last then
        output.append (cutExtent first last logical extent)
      else some output
    match appended with
    | none => none
    | some output =>
      if logical + extent.size ≥ last then some output
      else sliceExtents first last rest (logical + extent.size) output

def sliceGenerationSegment (input : Segment) (offset size : Nat) : Option Segment :=
  if offset > input.size ∨ size > input.size - offset then none
  else
    match sliceExtents offset (offset + size) input.extents 0 .empty with
    | none => none
    | some output => if output.size = size then some output else none

structure SectionFormat where
  version : Nat
  headerSize : Nat
  directoryCount : Nat
  prefixSize : Nat

structure StorageSection where
  recordSize : Nat
  count : Nat
  offset : Nat
  byteCount : Nat
  crc64 : Nat

/-- `source_manager_image_directory_entry_size`, and that of the build cache. -/
def directoryEntrySize : Nat := 32

/-- The loop over the directory, with the end of the last section. -/
def parseEntries (format : SectionFormat) (input : Bytes) (expected : Nat) :
    Nat → Nat → Nat → Option (List StorageSection × Nat)
  | 0, _, previousEnd => some ([], previousEnd)
  | remaining + 1, index, previousEnd =>
    let entry := format.headerSize + index * directoryEntrySize
    let recordSize := readU32 input (entry + 4)
    let offset := readU64 input (entry + 8)
    let count := readU64 input (entry + 16)
    if entry + directoryEntrySize > input.length then none
    else if readU32 input entry ≠ index + 1 ∨ recordSize = 0 then none
    else if offset ≠ (previousEnd + 63) % 2 ^ 64 / 64 * 64 then none
    else if count ≠ 0 ∧ recordSize > sizeMax / count then none
    else if offset > sizeMax - count * recordSize then none
    else if offset + count * recordSize > expected then none
    else
      match parseEntries format input expected remaining (index + 1)
        (offset + count * recordSize) with
      | none => none
      | some (rest, last) =>
        some (⟨recordSize, count, offset, count * recordSize, readU64 input (entry + 24)⟩ :: rest,
          last)

/-- What the two images' prefixes are checked for, but for the constants. -/
def parsePrefix (format : SectionFormat) (input : Bytes) (expected : Nat) :
    Option (List StorageSection) :=
  if input.length ≠ format.prefixSize ∨ readU32 input 8 ≠ format.version ∨
      readU32 input 12 ≠ endianMarker ∨ readU32 input 16 ≠ format.headerSize ∨
      readU32 input 20 ≠ format.directoryCount ∨ readU32 input 24 ≠ directoryEntrySize ∨
      readU64 input 32 ≠ format.headerSize ∨ readU64 input 40 ≠ expected then none
  else
    match parseEntries format input expected format.directoryCount 0 format.prefixSize with
    | none => none
    | some (sections, last) => if last = expected then some sections else none

def sourceManagerFormat : SectionFormat := ⟨3, 160, 10, 512⟩

def buildCacheFormat : SectionFormat := ⟨6, 256, 25, 1088⟩

def parseSourceManagerPrefix : Bytes → Nat → Option (List StorageSection) :=
  parsePrefix sourceManagerFormat

def parseBuildCachePrefix : Bytes → Nat → Option (List StorageSection) :=
  parsePrefix buildCacheFormat

/-! ## What is cut out -/

theorem Span.bytes_length (memory : Memory) (span : Span) :
    (span.bytes memory).length = span.size := by
  simp [Span.bytes]

theorem Segment.append_ok {segment segment' : Segment} {span : Span}
    (h : segment.append span = some segment') (memory : Memory) :
    segment'.bytes memory = segment.bytes memory ++ span.bytes memory := by
  unfold Segment.append at h
  split at h
  · rename_i hsize
    cases h
    have hnil : span.bytes memory = [] := by simp [Span.bytes, hsize]
    rw [hnil, List.append_nil]
  · split at h
    · cases h
      simp [Segment.bytes]
    · cases h

variable {first last logical : Nat}

theorem cutExtent_bytes (memory : Memory) {extent : Span} (hbegin : logical < last)
    (hle : first ≤ last) : (cutExtent first last logical extent).bytes memory =
      field (extent.bytes memory) (first - logical) (last - max first logical) := by
  apply List.ext_getElem?
  intro i
  simp only [cutExtent, Span.bytes, field, List.getElem?_take, List.getElem?_drop,
    List.getElem?_map]
  have hstart : (if first > logical then first - logical else 0) = first - logical := by
    split <;> omega
  have hstop : (if last < logical + extent.size then last - logical else extent.size) =
      min (last - logical) extent.size := by
    split <;> omega
  rw [hstart, hstop]
  by_cases hi : i < last - max first logical
  · rw [if_pos hi]
    by_cases hsize : first - logical + i < extent.size
    · rw [List.getElem?_range (by omega), List.getElem?_range hsize, Option.map_some,
        Option.map_some, Nat.add_assoc]
    · rw [List.getElem?_eq_none (by simp; omega), List.getElem?_eq_none (by simp; omega)]
      rfl
  · rw [if_neg hi, List.getElem?_eq_none (by simp; omega)]
    rfl

variable {output : Segment}

theorem sliceExtents_ok (memory : Memory) (hle : first ≤ last) {extents : List Span}
    {output' : Segment} (h : sliceExtents first last extents logical output = some output') :
    output'.bytes memory = output.bytes memory ++
      field (extents.flatMap (·.bytes memory)) (first - logical) (last - max first logical) := by
  induction extents generalizing logical output with
  | nil =>
    cases h
    simp [field]
  | cons extent rest ih =>
    rw [List.flatMap_cons, field_append, Span.bytes_length]
    have hlater : field (rest.flatMap (·.bytes memory)) (first - logical - extent.size)
        (last - max first logical - (extent.size - (first - logical))) =
        field (rest.flatMap (·.bytes memory)) (first - (logical + extent.size))
          (last - max first (logical + extent.size)) := by
      congr 1 <;> omega
    rw [hlater]
    unfold sliceExtents at h
    dsimp only at h
    have happended : ∀ {appended : Option Segment} {next : Segment}, appended = some next →
        appended = (if logical + extent.size > first ∧ logical < last then
          output.append (cutExtent first last logical extent) else some output) →
        next.bytes memory = output.bytes memory ++
          field (extent.bytes memory) (first - logical) (last - max first logical) := by
      intro appended next hnext happended
      rw [hnext] at happended
      split at happended
      · rename_i hcut
        rw [Segment.append_ok happended.symm memory, cutExtent_bytes memory hcut.2 hle]
      · rename_i hcut
        cases happended
        have hnone : field (extent.bytes memory) (first - logical) (last - max first logical) =
            [] := by
          by_cases hend : logical + extent.size > first
          · rw [show last - max first logical = 0 by omega, field_zero]
          · exact field_none (by rw [Span.bytes_length]; omega) _
        rw [hnone, List.append_nil]
    generalize hgen : (if logical + extent.size > first ∧ logical < last then
      output.append (cutExtent first last logical extent) else some output) = appended at h
    cases appended with
    | none => cases h
    | some next =>
      have hnext := happended rfl hgen.symm
      dsimp only at h
      split at h
      · rename_i hstop
        cases h
        rw [hnext, show last - max first (logical + extent.size) = 0 by omega, field_zero,
          List.append_nil]
      · rw [ih h, hnext, List.append_assoc]

variable {input : Segment} {offset size : Nat}

theorem sliceGenerationSegment_ok (memory : Memory)
    (h : sliceGenerationSegment input offset size = some output) :
    output.bytes memory = field (input.bytes memory) offset size ∧ output.size = size := by
  unfold sliceGenerationSegment at h
  split at h
  · cases h
  · split at h
    · cases h
    · rename_i sliced hsliced
      split at h
      · rename_i hsize
        cases h
        have hbytes := sliceExtents_ok memory (by omega) hsliced
        refine ⟨?_, hsize⟩
        rw [hbytes]
        simp only [Segment.bytes, Segment.empty, List.flatMap_nil, List.nil_append]
        congr 1
        omega
      · cases h

theorem copyExtents_eq (memory : Memory) (extents : List Span) (room : Nat) :
    copyExtents memory extents room = (extents.flatMap (·.bytes memory)).take room := by
  induction extents generalizing room with
  | nil => simp [copyExtents]
  | cons extent rest ih =>
    rw [copyExtents, List.flatMap_cons, List.take_append, Span.bytes_length, ih]

theorem copySegmentPrefix_ok {memory : Memory} {bytes : Bytes}
    (h : copySegmentPrefix memory input size = some bytes) :
    bytes = (input.bytes memory).take size := by
  unfold copySegmentPrefix at h
  dsimp only at h
  split at h
  · cases h
    exact copyExtents_eq memory input.extents size
  · cases h

end ServerEngine
