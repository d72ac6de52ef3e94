import ServerEngine.Persistence.ChangeStateBounds

/-! # An encoded change state reads back

What the encoder writes is bound again, its checksums hold, and no reference of the capture is missed
by the filters. The binder refuses three kinds of captures that the encoder accepts.
-/
namespace ServerEngine
open ByteFields BitFilter ErrorFold
open PathHash (add64)

namespace ChangeState

variable {image : Bytes} {view : ChangeStateImageView}

/-! ## Sizes of filters -/

theorem bloomBytesLoop_power {required k fuel : Nat} (hrequired : required ≤ 2 ^ 61) (hk : k ≤ 61)
    (hfuel : 61 < fuel + k) :
    ∃ j, k ≤ j ∧ j ≤ 61 ∧ bloomBytesLoop fuel required (2 ^ k) = 2 ^ j := by
  induction fuel generalizing k with
  | zero => omega
  | succ fuel ih =>
    unfold bloomBytesLoop
    split
    · rename_i hsmall
      have hlt : k < 61 := (Nat.pow_lt_pow_iff_right (by omega)).mp (by omega : 2 ^ k < 2 ^ 61)
      have hhalf : ¬ 2 ^ k > sizeMax / 2 := by
        have hmax : sizeMax / 2 = 9223372036854775807 := rfl
        omega
      rw [if_neg hhalf, ← Nat.pow_succ]
      obtain ⟨j, hkj, hj, heq⟩ := ih (by omega : k + 1 ≤ 61) (by omega)
      exact ⟨j, by omega, hj, heq⟩
    · exact ⟨k, Nat.le_refl k, hk, rfl⟩

variable {count : Nat}

theorem bloomBytesForCount_power (h : count < 2 ^ 59) (hcount : count ≠ 0) :
    ∃ j, 6 ≤ j ∧ j ≤ 61 ∧ bloomBytesForCount count = 2 ^ j := by
  unfold bloomBytesForCount
  have hmax : ¬ count > sizeMax / 20 := by
    have hvalue : sizeMax / 20 = 922337203685477580 := rfl
    omega
  rw [if_neg hcount, if_neg hmax]
  apply bloomBytesLoop_power (k := 6)
  · split <;> omega
  · omega
  · omega

theorem bloomBytesForCount_mod (h : count < 2 ^ 59) :
    bloomBytesForCount count % 64 = 0 ∧ bloomBytesForCount count ≤ 2 ^ 61 ∧
      powerOfTwoOrZero (bloomBytesForCount count) = true := by
  by_cases hcount : count = 0
  · rw [hcount]
    exact ⟨rfl, Nat.zero_le _, rfl⟩
  · obtain ⟨j, hmin, hmax, heq⟩ := bloomBytesForCount_power h hcount
    rw [heq]
    refine ⟨?_, Nat.pow_le_pow_right (by omega) hmax, ?_⟩
    · exact Nat.mod_eq_zero_of_dvd (Nat.pow_dvd_pow 2 hmin)
    · have hpos := Nat.two_pow_pos j
      have hand := (Nat.and_sub_one_eq_zero_iff_isPowerOfTwo (by omega)).mpr ⟨j, rfl⟩
      simp [powerOfTwoOrZero, hand]

theorem bloomBytesForCount_zero (h : count < 2 ^ 59) :
    bloomBytesForCount count = 0 ↔ count = 0 := by
  constructor
  · intro hzero
    apply Classical.byContradiction
    intro hcount
    obtain ⟨j, _, _, heq⟩ := bloomBytesForCount_power h hcount
    have hpos := Nat.two_pow_pos j
    omega
  · rintro rfl
    rfl

def filterOf (size : Nat) (values : List Nat) : Bytes :=
  values.foldl bloomAdd (List.replicate size 0)

theorem bloomAdd_length (bloom : Bytes) (value : Nat) :
    (bloomAdd bloom value).length = bloom.length := by
  unfold bloomAdd
  split
  · rfl
  · exact setBits_length _ _

theorem foldl_bloomAdd_length (values : List Nat) (bloom : Bytes) :
    (values.foldl bloomAdd bloom).length = bloom.length := by
  induction values generalizing bloom with
  | nil => rfl
  | cons value rest ih => exact (ih _).trans (bloomAdd_length bloom value)

@[simp] theorem filterOf_length (size : Nat) (values : List Nat) :
    (filterOf size values).length = size := by
  rw [filterOf, foldl_bloomAdd_length, List.length_replicate]

variable {value : Nat}

theorem bloomBits_lt {size : Nat} (hsize : 0 < size) :
    ∀ bit ∈ bloomBits size value, bit < size * 8 := by
  intro bit hbit
  obtain ⟨index, _, rfl⟩ := List.mem_map.mp hbit
  have hlt := @bloomBit_lt size value index hsize
  omega

variable {bloom : Bytes}

theorem bloomAdd_mono {size other : Nat} (hsize : bloom.length = size)
    (h : testBits bloom (bloomBits size value) = true) :
    testBits (bloomAdd bloom other) (bloomBits size value) = true := by
  unfold bloomAdd
  split
  · exact h
  · rename_i hne
    apply testBits_mono _ h
    apply bloomBits_lt
    cases bloom with
    | nil => simp at hne
    | cons byte rest => exact Nat.succ_pos _

theorem bloomAdd_entered {bloom : Bytes} {value : Nat} (hsize : 0 < bloom.length)
    (hvalue : value ≠ 0) :
    testBits (bloomAdd bloom value) (bloomBits bloom.length value) = true := by
  have hempty : bloom.isEmpty = false := by
    cases bloom with
    | nil => simp at hsize
    | cons byte rest => rfl
  unfold bloomAdd
  rw [if_neg (by simp [hempty, hvalue])]
  exact testBits_setBits (bloomBits_lt hsize)

variable {values : List Nat}

theorem foldl_bloomAdd_mono {size : Nat} (hsize : bloom.length = size)
    (h : testBits bloom (bloomBits size value) = true) :
    testBits (values.foldl bloomAdd bloom) (bloomBits size value) = true := by
  induction values generalizing bloom with
  | nil => exact h
  | cons other rest ih =>
    exact ih ((bloomAdd_length bloom other).trans hsize) (bloomAdd_mono hsize h)

theorem filterOf_entered {size : Nat} (hsize : 0 < size) (hmem : value ∈ values)
    (hvalue : value ≠ 0) : testBits (filterOf size values) (bloomBits size value) = true := by
  obtain ⟨before, after, rfl⟩ := List.append_of_mem hmem
  have hlength := foldl_bloomAdd_length before (List.replicate size 0)
  rw [List.length_replicate] at hlength
  rw [filterOf, List.foldl_append, List.foldl_cons]
  apply foldl_bloomAdd_mono ((bloomAdd_length _ _).trans hlength)
  have hentered := @bloomAdd_entered (before.foldl bloomAdd (List.replicate size 0)) value
    (by omega) hvalue
  rw [hlength] at hentered
  exact hentered

variable {content : Bytes} {offset : Nat}

theorem readAt_byte {index : Nat} (h : field image offset content.length = content)
    (hinside : offset + content.length ≤ image.length) (hindex : index < content.length) :
    readAt image 1 (offset + index) = some (content.getD index 0).toNat := by
  have hbyte : field image (offset + index) 1 = [content.getD index 0] := by
    rw [← field_field (show index + 1 ≤ content.length by omega), h, field,
      List.drop_eq_getElem_cons hindex, List.getD_eq_getElem _ _ hindex]
    rfl
  rw [readAt, if_pos (by omega), hbyte]
  simp [valueOf]

theorem bloomTurn {bit byte : Nat} {rest : Option Bool}
    (h : readAt image 1 (offset + bit / 8) = some byte) : (do
      let byte ← readAt image 1 (offset + bit / 8)
      if !byte.testBit (bit % 8) then some false else rest) =
      if byte.testBit (bit % 8) then rest else some false := by
  rw [h]
  cases hbit : byte.testBit (bit % 8) <;> simp [hbit]

theorem bloomLoop_eq {filter : Bytes} {offset value : Nat}
    (h : field view.bytes offset filter.length = filter)
    (hinside : offset + filter.length ≤ view.bytes.length) (hsize : 0 < filter.length)
    (indexes : List Nat) : view.bloomLoop offset filter.length value indexes =
      some (testBits filter (indexes.map (bloomBit filter.length value))) := by
  induction indexes with
  | nil => rfl
  | cons index rest ih =>
    have hread := readAt_byte h hinside (@bloomBit_lt _ value index hsize)
    refine (bloomTurn hread).trans ?_
    rw [ih, List.map_cons]
    generalize bloomBit filter.length value index = bit
    have hall : ∀ bits, testBits filter (bit :: bits) = (testBit filter bit && testBits filter bits) :=
      fun bits => List.all_cons
    rw [hall, testBit]
    cases (filter.getD (bit / 8) 0).toNat.testBit (bit % 8) <;> rfl

theorem bloomMaybe_entered {size : Nat} (h : field view.bytes offset size = filterOf size values)
    (hinside : offset + size ≤ view.bytes.length) (hsize : 0 < size) (hmem : value ∈ values)
    (hvalue : value ≠ 0) : view.bloomMaybe offset size value = some true := by
  have hloop := @bloomLoop_eq view (filterOf size values) offset value
  simp only [filterOf_length] at hloop
  have hentered := filterOf_entered hsize hmem hvalue
  unfold bloomBits at hentered
  rw [ChangeStateImageView.bloomMaybe, if_neg (by simp [hvalue]; omega),
    hloop h hinside hsize, hentered]

/-! ## The encoded bytes -/

/-- The bytes of an image with these sections, one directly behind the other. -/
structure Parts where
  sourceCount : Nat
  checkpoint : SourceChangeCheckpoint
  source : Bytes
  topology : Bytes
  arrival : Bytes
  path : Bytes

namespace Parts
variable (parts : Parts)

def topologyOffset : Nat := 256 + parts.source.length
def arrivalOffset : Nat := parts.topologyOffset + parts.topology.length
def anchorOffset : Nat := parts.arrivalOffset + parts.arrival.length
def size : Nat := parts.anchorOffset + parts.path.length

def directory : Bytes :=
  entryBytes 1 256 parts.source ++ (entryBytes 2 parts.topologyOffset parts.topology ++
    (entryBytes 3 parts.arrivalOffset parts.arrival ++ entryBytes 4 parts.anchorOffset parts.path))

def header : Bytes := headerBytes parts.size parts.sourceCount parts.checkpoint

def headerRest : Bytes :=
  bytesOf 8 (persistenceCrc64 parts.directory).toNat ++ List.replicate 16 0

def headerCrc : Nat := (persistenceCrc64 (parts.header ++ bytesOf 8 0 ++ parts.headerRest)).toNat

def front : Bytes :=
  parts.header ++ (bytesOf 8 parts.headerCrc ++ (parts.headerRest ++ parts.directory))

def bytes : Bytes :=
  parts.front ++ (parts.source ++ (parts.topology ++ (parts.arrival ++ parts.path)))

/-- The sections are whole filters, and everything fits into the words that hold it. -/
structure Fits : Prop where
  source : parts.source.length % 64 = 0 ∧ powerOfTwoOrZero parts.source.length = true
  topology : parts.topology.length % 64 = 0 ∧ powerOfTwoOrZero parts.topology.length = true
  arrival : parts.arrival.length % 64 = 0 ∧ powerOfTwoOrZero parts.arrival.length = true
  size : parts.size < 2 ^ 64
  sourceCount : parts.sourceCount < 2 ^ 32
  volumeSerial : parts.checkpoint.volumeSerial < 2 ^ 64
  journalId : parts.checkpoint.journalId < 2 ^ 64
  nextUsn : -2 ^ 63 ≤ parts.checkpoint.nextUsn ∧ parts.checkpoint.nextUsn < 2 ^ 63

@[simp] theorem imageMagic_length (format : Nat) : (imageMagic format).length = 8 := rfl

@[simp] theorem header_length : parts.header.length = 96 := by
  simp [header, headerBytes]

@[simp] theorem headerRest_length : parts.headerRest.length = 24 := by simp [headerRest]

@[simp] theorem entryBytes_length (kind offset : Nat) (content : Bytes) :
    (entryBytes kind offset content).length = 32 := by simp [entryBytes]

@[simp] theorem directory_length : parts.directory.length = 128 := by simp [directory]

@[simp] theorem front_length : parts.front.length = 256 := by simp [front]

theorem bytes_length : parts.bytes.length = parts.size := by
  simp [bytes, size, anchorOffset, arrivalOffset, topologyOffset]
  omega

/-! ### The header -/

variable {offset count : Nat}

theorem field_header (h : offset + count ≤ 96) :
    field parts.bytes offset count = field parts.header offset count := by
  rw [bytes, field_within (by rw [front_length]; omega), front,
    field_within (by rw [header_length]; exact h)]

theorem magic : field parts.bytes 0 8 = imageMagic 3 := by
  rw [field_header _ (by omega), header, headerBytes]
  exact field_first rfl

theorem field_headerCrc : readU64 parts.bytes 96 = parts.headerCrc := by
  rw [readU64, bytes, field_within (by rw [front_length]; omega), front,
    field_skip (by rw [header_length]), header_length]
  rw [field_first (bytesOf_length _ _)]
  exact valueOf_bytesOf (persistenceCrc64 _).toNat_lt

theorem field_rest : field parts.bytes 104 24 = parts.headerRest := by
  exact field_first (headerRest_length parts)

theorem clearedHeader_eq :
    clearedHeader parts.bytes = parts.header ++ bytesOf 8 0 ++ parts.headerRest := by
  rw [clearedHeader, field_rest, field_header _ (by omega), field_whole (header_length parts)]

theorem field_directory : field parts.bytes 128 128 = parts.directory := by
  exact field_whole (directory_length parts)

theorem directoryCrc : readU64 parts.bytes 104 = (persistenceCrc64 parts.directory).toNat := by
  have hfield := @field_field _ parts.bytes 104 24 0 8 (by omega)
  rw [field_rest, headerRest, field_first (bytesOf_length _ _)] at hfield
  rw [readU64, ← hfield]
  exact valueOf_bytesOf (persistenceCrc64 _).toNat_lt

theorem header_words : readU32 parts.bytes 8 = 3 ∧ readU32 parts.bytes 12 = endianMarker ∧
    readU32 parts.bytes 16 = headerSize ∧ readU32 parts.bytes 20 = 4 ∧
    readU32 parts.bytes 24 = directoryEntrySize ∧ readU64 parts.bytes 32 = headerSize ∧
    readU32 parts.bytes 56 = backendCode parts.checkpoint.backend ∧
    readU32 parts.bytes 60 = 0 := by
  have hbackend : backendCode parts.checkpoint.backend < 4294967296 := by
    cases parts.checkpoint.backend <;> decide
  refine ⟨?_, ?_, ?_, ?_, ?_, ?_, ?_, ?_⟩
  all_goals
    simp only [readU32, readU64]
    rw [field_header _ (by omega), header, headerBytes, field_skip (by simp), imageMagic_length]
    simp [field_skip, field_first, valueOf_bytesOf, endianMarker, headerSize,
      directoryCount, directoryEntrySize, hbackend]

theorem header_values (h : parts.Fits) : readU64 parts.bytes 40 = parts.size ∧
    readU64 parts.bytes 48 = parts.sourceCount ∧
    readU64 parts.bytes 64 = parts.checkpoint.volumeSerial ∧
    readU64 parts.bytes 72 = parts.checkpoint.journalId ∧
    readU64 parts.bytes 80 = unsigned64 parts.checkpoint.nextUsn := by
  have hread : ∀ {value : Nat}, value < 2 ^ 64 → valueOf (bytesOf 8 value) = value :=
    fun hvalue => valueOf_bytesOf hvalue
  have husn : unsigned64 parts.checkpoint.nextUsn < 2 ^ 64 := by
    unfold unsigned64
    omega
  have hcount : parts.sourceCount < 2 ^ 64 := by
    have := h.sourceCount
    omega
  refine ⟨?_, ?_, ?_, ?_, ?_⟩
  all_goals
    rw [readU64, field_header _ (by omega), header, headerBytes, field_skip (by simp),
      imageMagic_length]
    simp [field_skip, field_first, hread h.size, hread hcount, hread h.volumeSerial,
      hread h.journalId, hread husn]

/-! ### The directory and the sections -/

variable {index : Nat}

theorem entry_of_field {image content : Bytes} {kind : Nat}
    (h : field image (128 + 32 * index) 32 = entryBytes kind offset content)
    (hkind : kind < 2 ^ 32) (hoffset : offset < 2 ^ 64) (hcontent : content.length < 2 ^ 64) :
    readEntry image index =
      ⟨kind, 1, offset, content.length, (persistenceCrc64 content).toNat⟩ := by
  have hpart : ∀ {start size : Nat}, start + size ≤ 32 →
      field image (128 + 32 * index + start) size = field (entryBytes kind offset content) start size :=
    fun hle => h ▸ (field_field hle).symm
  have hread : ∀ {value : Nat}, value < 2 ^ 64 → valueOf (bytesOf 8 value) = value :=
    fun hvalue => valueOf_bytesOf hvalue
  have hkindRead : valueOf (bytesOf 4 kind) = kind := valueOf_bytesOf hkind
  have hcrc := hread (persistenceCrc64 content).toNat_lt
  have hbase := @hpart 0 4 (by omega)
  simp only [readEntry, readU32, readU64, headerSize, directoryEntrySize, DirectoryEntry.mk.injEq]
  rw [Nat.add_zero] at hbase
  rw [hbase, hpart (by omega), hpart (by omega), hpart (by omega), hpart (by omega)]
  simp [entryBytes, field_skip, field_first, field_whole, hkindRead, hread hoffset, hread hcontent,
    hcrc, valueOf_bytesOf]

theorem field_entry (h : index < 4) :
    field parts.bytes (128 + 32 * index) 32 = field parts.directory (32 * index) 32 := by
  rw [← field_directory, field_field (by omega)]

theorem offsets_lt (h : parts.size < 2 ^ 64) : parts.topologyOffset < 2 ^ 64 ∧
    parts.arrivalOffset < 2 ^ 64 ∧ parts.anchorOffset < 2 ^ 64 ∧ parts.source.length < 2 ^ 64 ∧
    parts.topology.length < 2 ^ 64 ∧ parts.arrival.length < 2 ^ 64 ∧
    parts.path.length < 2 ^ 64 := by
  unfold size anchorOffset arrivalOffset topologyOffset at *
  omega

theorem entries (h : parts.size < 2 ^ 64) :
    readEntry parts.bytes 0 =
      ⟨1, 1, 256, parts.source.length, (persistenceCrc64 parts.source).toNat⟩ ∧
    readEntry parts.bytes 1 =
      ⟨2, 1, parts.topologyOffset, parts.topology.length,
        (persistenceCrc64 parts.topology).toNat⟩ ∧
    readEntry parts.bytes 2 =
      ⟨3, 1, parts.arrivalOffset, parts.arrival.length, (persistenceCrc64 parts.arrival).toNat⟩ ∧
    readEntry parts.bytes 3 =
      ⟨4, 1, parts.anchorOffset, parts.path.length, (persistenceCrc64 parts.path).toNat⟩ := by
  obtain ⟨htopology, harrival, hanchor, hs, ht, ha, hp⟩ := offsets_lt parts h
  refine ⟨entry_of_field ?_ (by omega) (by omega) hs, entry_of_field ?_ (by omega) htopology ht,
    entry_of_field ?_ (by omega) harrival ha, entry_of_field ?_ (by omega) hanchor hp⟩
  all_goals
    rw [field_entry _ (by omega), directory]
    simp [field_skip, field_first, field_whole]

theorem field_source : field parts.bytes 256 parts.source.length = parts.source := by
  exact field_first rfl

theorem field_topology :
    field parts.bytes parts.topologyOffset parts.topology.length = parts.topology := by
  have hle : 256 ≤ parts.topologyOffset := by simp [topologyOffset]
  rw [bytes, field_skip (by rw [front_length]; exact hle), front_length, topologyOffset,
    Nat.add_sub_cancel_left, field_skip (Nat.le_refl _), Nat.sub_self]
  exact field_first rfl

theorem field_arrival :
    field parts.bytes parts.arrivalOffset parts.arrival.length = parts.arrival := by
  rw [bytes, field_skip (by rw [front_length, arrivalOffset, topologyOffset]; omega), front_length,
    field_skip (by rw [arrivalOffset, topologyOffset]; omega),
    field_skip (by rw [arrivalOffset, topologyOffset]; omega)]
  have hzero : parts.arrivalOffset - 256 - parts.source.length - parts.topology.length = 0 := by
    rw [arrivalOffset, topologyOffset]
    omega
  rw [hzero]
  exact field_first rfl

theorem field_path : field parts.bytes parts.anchorOffset parts.path.length = parts.path := by
  rw [bytes, field_skip (by rw [front_length, anchorOffset, arrivalOffset, topologyOffset]; omega),
    front_length, field_skip (by rw [anchorOffset, arrivalOffset, topologyOffset]; omega),
    field_skip (by rw [anchorOffset, arrivalOffset, topologyOffset]; omega),
    field_skip (by rw [anchorOffset, arrivalOffset, topologyOffset]; omega)]
  have hzero : parts.anchorOffset - 256 - parts.source.length - parts.topology.length -
      parts.arrival.length = 0 := by
    rw [anchorOffset, arrivalOffset, topologyOffset]
    omega
  rw [hzero]
  exact field_whole rfl

/-! ### Binding -/

theorem signed64_unsigned64 {value : Int} (hlow : -2 ^ 63 ≤ value) (hhigh : value < 2 ^ 63) :
    signed64 (unsigned64 value) = value := by
  unfold signed64 unsigned64
  split <;> omega

theorem backendOf_backendCode (backend : SourceChangeBackend) :
    backendOf (backendCode backend) = backend := by
  cases backend <;> rfl

theorem commonHeader (h : parts.Fits) :
    readCommonHeader parts.bytes 3 = .ok (parts.sourceCount, parts.checkpoint) := by
  obtain ⟨hformat, hendian, hheader, hcount, hentry, hoffset, hbackend, hreserved⟩ :=
    header_words parts
  obtain ⟨hsize, hsources, hvolume, hjournal, husn⟩ := header_values parts h
  have hlength := bytes_length parts
  have hlong : 256 ≤ parts.size := by
    rw [size, anchorOffset, arrivalOffset, topologyOffset]
    omega
  have hsmall := h.sourceCount
  have hcode : ¬ backendCode parts.checkpoint.backend > 1 := by
    cases parts.checkpoint.backend <;> decide
  have hmax : ¬ parts.sourceCount > u32Max := by
    have hvalue : u32Max = 4294967295 := rfl
    omega
  have hcrc : (persistenceCrc64 (clearedHeader parts.bytes)).toNat = readU64 parts.bytes 96 := by
    rw [clearedHeader_eq, field_headerCrc]
    rfl
  have hdirectory : (persistenceCrc64 (field parts.bytes 128 128)).toNat =
      readU64 parts.bytes 104 := by
    rw [field_directory, directoryCrc]
  unfold readCommonHeader
  simp [hformat, hendian, hheader, hcount, hentry, hoffset, hbackend, hreserved, hsize, hsources,
    hvolume, hjournal, husn, hlong, hcode, hmax, hcrc, hdirectory, firstSectionOffset,
    directoryCount, hlength, directoryEntrySize, headerSize, backendOf_backendCode,
    signed64_unsigned64 h.nextUsn.1 h.nextUsn.2]

def bound : ChangeStateImageView where
  bytes := parts.bytes
  formatVersion := 3
  sourceBloom := 256
  topologyBloom := parts.topologyOffset
  arrivalBloom := parts.arrivalOffset
  sourceBloomBytes := parts.source.length
  topologyBloomBytes := parts.topology.length
  arrivalBloomBytes := parts.arrival.length
  anchorOffset := parts.anchorOffset
  anchorSize := parts.path.length
  sourceCount := parts.sourceCount
  checkpoint := parts.checkpoint
  sourceBloomCrc := (persistenceCrc64 parts.source).toNat
  topologyBloomCrc := (persistenceCrc64 parts.topology).toNat
  arrivalBloomCrc := (persistenceCrc64 parts.arrival).toNat

theorem align64_exact (h : offset + count < 2 ^ 64) (haligned : (offset + count) % 64 = 0) :
    align64 (add64 offset count) = offset + count := by
  have hpad : offset + count + 63 < 2 ^ 64 := by omega
  unfold align64
  rw [add64_of_lt h, add64_of_lt hpad]
  omega

theorem chained (h : parts.Fits) :
    align64 (add64 256 parts.source.length) = parts.topologyOffset ∧
    align64 (add64 parts.topologyOffset parts.topology.length) = parts.arrivalOffset ∧
    align64 (add64 parts.arrivalOffset parts.arrival.length) = parts.anchorOffset := by
  have hs := h.source.1
  have ht := h.topology.1
  have ha := h.arrival.1
  have hoffsets := offsets_lt parts h.size
  unfold topologyOffset arrivalOffset anchorOffset arrivalOffset topologyOffset at *
  exact ⟨align64_exact (by omega) (by omega), align64_exact (by omega) (by omega),
    align64_exact (by omega) (by omega)⟩

def accepted : Bool :=
  !parts.path.isEmpty && validCheckpoint parts.sourceCount parts.source.length
    (add64 parts.topology.length parts.arrival.length) parts.checkpoint

theorem bind_bytes (h : parts.Fits) :
    bind parts.bytes = if parts.accepted then .ok parts.bound else .error .artifactCorrupt := by
  obtain ⟨hsource, htopology, harrival, hanchor⟩ := entries parts h.size
  obtain ⟨hfirst, hsecond, hthird⟩ := chained parts h
  obtain ⟨_, _, _, hs, ht, ha, hp⟩ := offsets_lt parts h.size
  have hone : ∀ {value : Nat}, value < 2 ^ 64 → mul64 value 1 = value := fun hvalue => by
    rw [mul64_of_lt (by omega), Nat.mul_one]
  have hend : add64 parts.anchorOffset parts.path.length = parts.bytes.length := by
    rw [bytes_length]
    exact add64_of_lt h.size
  have hlong : ¬ parts.bytes.length < headerSize := by
    rw [bytes_length, size, anchorOffset, arrivalOffset, topologyOffset, headerSize]
    omega
  have hempty : parts.path.isEmpty = decide (parts.path.length = 0) := by
    cases parts.path <;> rfl
  unfold bind
  rw [if_neg hlong, if_pos (magic parts), bindV3, commonHeader parts h]
  simp only [hsource, htopology, harrival, hanchor, DirectoryEntry.next, badAnchor, hone hs,
    hone ht, hone ha, hfirst, hsecond, hthird, hend, h.source.2, h.topology.2, h.arrival.2]
  by_cases hpath : parts.path.length = 0
  · simp [accepted, hempty, hpath, DirectoryEntry.is, firstSectionOffset, Bind.bind, Except.bind,
      throw, throwThe, MonadExceptOf.throw]
  · cases hvalid : validCheckpoint parts.sourceCount parts.source.length
        (add64 parts.topology.length parts.arrival.length) parts.checkpoint with
    | false =>
      simp [accepted, hempty, hpath, hvalid, DirectoryEntry.is, firstSectionOffset, Bind.bind,
        Except.bind, throw, throwThe, MonadExceptOf.throw]
    | true =>
      simp [accepted, hempty, hpath, hvalid, DirectoryEntry.is, firstSectionOffset, Bind.bind,
        Except.bind, pure, Except.pure, bound]

theorem inside : 256 + parts.source.length ≤ parts.bytes.length ∧
    parts.topologyOffset + parts.topology.length ≤ parts.bytes.length ∧
    parts.arrivalOffset + parts.arrival.length ≤ parts.bytes.length ∧
    parts.anchorOffset + parts.path.length ≤ parts.bytes.length := by
  rw [bytes_length]
  simp only [size, anchorOffset, arrivalOffset, topologyOffset]
  omega

theorem reads_bound (h : parts.Fits) : parts.bound.verifyContents = some true ∧
    parts.bound.path = some parts.path := by
  obtain ⟨_, _, _, hanchor⟩ := entries parts h.size
  obtain ⟨hsIn, htIn, haIn, hpIn⟩ := inside parts
  have hs := field_source parts
  have ht := field_topology parts
  have ha := field_arrival parts
  have hp := field_path parts
  constructor
  · simp [ChangeStateImageView.verifyContents, ChangeStateImageView.verifiedSections,
      ChangeStateImageView.verifySections, bound, crcAt, hsIn, htIn, haIn, hpIn, hs, ht, ha, hp,
      hanchor]
  · simp [ChangeStateImageView.path, bound, hpIn, hp]

end Parts

/-! ## Captures -/

/-- The counts and numbers of a capture fit into the memory and the words that hold them. -/
structure CaptureFits (anchorPath : Bytes) (capture : SourceChangeCapture) : Prop where
  files : capture.fileIndex.length < 2 ^ 59
  directories : capture.directoryIndex.length < 2 ^ 59
  path : anchorPath.length < 2 ^ 63
  volumeSerial : capture.checkpoint.volumeSerial < 2 ^ 64
  journalId : capture.checkpoint.journalId < 2 ^ 64
  nextUsn : -2 ^ 63 ≤ capture.checkpoint.nextUsn ∧ capture.checkpoint.nextUsn < 2 ^ 63

def partsOf (sourceCount : Nat) (anchorPath : Bytes) (capture : SourceChangeCapture) : Parts where
  sourceCount := sourceCount
  checkpoint := capture.checkpoint
  source := filterOf (bloomBytesForCount (fileValues capture).length) (fileValues capture)
  topology := filterOf (bloomBytesForCount (directoryValues capture 0).length)
    (directoryValues capture 0)
  arrival := filterOf (bloomBytesForCount (directoryValues capture 1).length)
    (directoryValues capture 1)
  path := anchorPath

variable {sourceCount : Nat} {anchorPath : Bytes} {capture : SourceChangeCapture}

theorem values_length (hfits : CaptureFits anchorPath capture) (flag : Nat) :
    (fileValues capture).length < 2 ^ 59 ∧ (directoryValues capture flag).length < 2 ^ 59 := by
  have hfiles := List.length_filter_le (fun slot => slot.fileReference ≠ 0) capture.fileIndex
  have hdirectories := List.length_filter_le
    (fun slot => slot.fileReference ≠ 0 && slot.flags.testBit flag) capture.directoryIndex
  have hfilesFit := hfits.files
  have hdirectoriesFit := hfits.directories
  simp only [fileValues, directoryValues, List.length_map]
  omega

theorem partsOf_fits (hfits : CaptureFits anchorPath capture) (hcount : sourceCount ≤ u32Max) :
    (partsOf sourceCount anchorPath capture).Fits := by
  have hs := bloomBytesForCount_mod (values_length hfits 0).1
  have ht := bloomBytesForCount_mod (values_length hfits 0).2
  have ha := bloomBytesForCount_mod (values_length hfits 1).2
  have hpath := hfits.path
  have hmax : u32Max = 4294967295 := rfl
  refine ⟨?_, ?_, ?_, ?_, ?_, hfits.volumeSerial, hfits.journalId, hfits.nextUsn⟩
  · simp only [partsOf, filterOf_length]
    exact ⟨hs.1, hs.2.2⟩
  · simp only [partsOf, filterOf_length]
    exact ⟨ht.1, ht.2.2⟩
  · simp only [partsOf, filterOf_length]
    exact ⟨ha.1, ha.2.2⟩
  · simp only [partsOf, Parts.size, Parts.anchorOffset, Parts.arrivalOffset, Parts.topologyOffset,
      filterOf_length]
    omega
  · show sourceCount < 2 ^ 32
    omega

theorem place_end {text : Bytes} (h : text.length = offset) :
    place text offset content = text ++ content := by
  rw [place, h, Nat.sub_self, List.replicate_zero, List.append_nil]

theorem Parts.placed (parts : Parts) :
    place (place (place (place (parts.header ++ bytesOf 8 parts.headerCrc ++ parts.headerRest ++
      parts.directory) 256 parts.source) parts.topologyOffset parts.topology)
        parts.arrivalOffset parts.arrival) parts.anchorOffset parts.path = parts.bytes := by
  have hfront : parts.header ++ bytesOf 8 parts.headerCrc ++ parts.headerRest ++ parts.directory =
      parts.front := by
    rw [Parts.front, List.append_assoc, List.append_assoc]
  have hlength := Parts.front_length parts
  have hsource : (parts.front ++ parts.source).length = parts.topologyOffset := by
    rw [List.length_append, hlength, Parts.topologyOffset]
  have htopology : (parts.front ++ parts.source ++ parts.topology).length =
      parts.arrivalOffset := by
    rw [List.length_append, hsource, Parts.arrivalOffset]
  have harrival : (parts.front ++ parts.source ++ parts.topology ++ parts.arrival).length =
      parts.anchorOffset := by
    rw [List.length_append, htopology, Parts.anchorOffset]
  rw [hfront, place_end hlength, place_end hsource, place_end htopology, place_end harrival]
  simp only [Parts.bytes, List.append_assoc]

theorem encode_ok (hfits : CaptureFits anchorPath capture)
    (h : encode sourceCount anchorPath capture = .ok image) :
    badCapture sourceCount anchorPath capture = false ∧ sourceCount ≤ u32Max ∧
      image = (partsOf sourceCount anchorPath capture).bytes := by
  unfold encode at h
  split at h
  · cases h
  rename_i hgood
  have hgood := eq_false_of_ne_true hgood
  have hcount : sourceCount ≤ u32Max := by
    simp only [badCapture, Bool.or_eq_false_iff, decide_eq_false_iff_not] at hgood
    omega
  have hparts := partsOf_fits hfits hcount
  obtain ⟨hfirst, hsecond, hthird⟩ := Parts.chained _ hparts
  have hsize : add64 (partsOf sourceCount anchorPath capture).anchorOffset anchorPath.length =
      (partsOf sourceCount anchorPath capture).size := add64_of_lt hparts.size
  refine ⟨hgood, hcount, ?_⟩
  dsimp only at h
  split at h
  · cases h
  have himage := Except.ok.inj h
  have hsource : bloomBytesForCount (fileValues capture).length =
      (partsOf sourceCount anchorPath capture).source.length := (filterOf_length _ _).symm
  have htopology : bloomBytesForCount (directoryValues capture 0).length =
      (partsOf sourceCount anchorPath capture).topology.length := (filterOf_length _ _).symm
  have harrival : bloomBytesForCount (directoryValues capture 1).length =
      (partsOf sourceCount anchorPath capture).arrival.length := (filterOf_length _ _).symm
  have hstart : firstSectionOffset 3 = 256 := rfl
  have htopologyOffset : align64 (add64 (firstSectionOffset 3)
      (bloomBytesForCount (fileValues capture).length)) =
        (partsOf sourceCount anchorPath capture).topologyOffset := by
    rw [hsource, hstart, hfirst]
  have harrivalOffset : align64 (add64 (partsOf sourceCount anchorPath capture).topologyOffset
      (bloomBytesForCount (directoryValues capture 0).length)) =
        (partsOf sourceCount anchorPath capture).arrivalOffset := by
    rw [htopology, hsecond]
  have hanchorOffset : align64 (add64 (partsOf sourceCount anchorPath capture).arrivalOffset
      (bloomBytesForCount (directoryValues capture 1).length)) =
        (partsOf sourceCount anchorPath capture).anchorOffset := by
    rw [harrival, hthird]
  rw [htopologyOffset, harrivalOffset, hanchorOffset, hsize, hstart] at himage
  rw [← Parts.placed]
  exact himage.symm

/-! ## The round trip -/

/-- The image is bound, everything in it reads back, and no change is filtered out. -/
structure ReadsBack (sourceCount : Nat) (anchorPath : Bytes) (capture : SourceChangeCapture)
    (view : ChangeStateImageView) : Prop where
  contents : view.verifyContents = some true
  checkpoint : view.checkpoint = capture.checkpoint
  path : view.path = some anchorPath
  sourceCount : view.sourceCount = sourceCount
  files : ∀ slot ∈ capture.fileIndex, slot.fileReference ≠ 0 →
    view.mayContainSourceFile slot.fileReference = some true
  topologies : ∀ slot ∈ capture.directoryIndex, slot.fileReference ≠ 0 →
    slot.flags.testBit 0 = true → view.mayWatchDirectoryTopology slot.fileReference = some true
  arrivals : ∀ slot ∈ capture.directoryIndex, slot.fileReference ≠ 0 →
    slot.flags.testBit 1 = true → view.mayWatchDirectoryArrival slot.fileReference = some true

/-- There is an anchor path; a capture without a checkpoint has none of its numbers, and one with a
checkpoint that counts sources has a file. -/
def Rebindable (sourceCount : Nat) (anchorPath : Bytes) (capture : SourceChangeCapture) : Prop :=
  anchorPath ≠ [] ∧
  (capture.checkpoint.enabled = false → capture.checkpoint.volumeSerial = 0 ∧
    capture.checkpoint.journalId = 0 ∧ capture.checkpoint.nextUsn = 0) ∧
  (capture.checkpoint.enabled = true → sourceCount ≠ 0 →
    ∃ slot ∈ capture.fileIndex, slot.fileReference ≠ 0)

theorem filter_passes
    (hfield : field view.bytes offset (filterOf (bloomBytesForCount values.length) values).length = filterOf (bloomBytesForCount values.length) values)
    (hinside : offset + (filterOf (bloomBytesForCount values.length) values).length ≤ view.bytes.length)
    (hvalues : values.length < 2 ^ 59) (hmem : value ∈ values) (hvalue : value ≠ 0) :
    view.bloomMaybe offset (filterOf (bloomBytesForCount values.length) values).length value =
      some true := by
  have hne : values.length ≠ 0 := by
    have hpos := List.length_pos_of_mem hmem
    omega
  have hsize : bloomBytesForCount values.length ≠ 0 := fun h =>
    hne ((bloomBytesForCount_zero hvalues).mp h)
  rw [filterOf_length] at hfield hinside ⊢
  exact bloomMaybe_entered hfield hinside (by omega) hmem hvalue

theorem bound_readsBack (hfits : CaptureFits anchorPath capture) (hcount : sourceCount ≤ u32Max) :
    ReadsBack sourceCount anchorPath capture (partsOf sourceCount anchorPath capture).bound := by
  have hparts := partsOf_fits hfits hcount
  obtain ⟨hcontents, hpath⟩ := Parts.reads_bound _ hparts
  obtain ⟨hsource, htopology, harrival, _⟩ :=
    Parts.inside (partsOf sourceCount anchorPath capture)
  have hgate : (partsOf sourceCount anchorPath capture).bound.gateOnly = true := rfl
  refine ⟨hcontents, rfl, hpath, rfl, ?_, ?_, ?_⟩
  · intro slot hslot hreference
    rw [ChangeStateImageView.mayContainSourceFile, if_pos hgate]
    apply filter_passes (Parts.field_source _) hsource (values_length hfits 0).1 _ hreference
    exact List.mem_map.mpr ⟨slot, List.mem_filter.mpr ⟨hslot, by simpa using hreference⟩, rfl⟩
  · intro slot hslot hreference hflag
    rw [ChangeStateImageView.mayWatchDirectoryTopology, if_pos hgate]
    apply filter_passes (Parts.field_topology _) htopology (values_length hfits 0).2 _ hreference
    exact List.mem_map.mpr
      ⟨slot, List.mem_filter.mpr ⟨hslot, by simpa [hflag] using hreference⟩, rfl⟩
  · intro slot hslot hreference hflag
    rw [ChangeStateImageView.mayWatchDirectoryArrival, if_pos hgate]
    apply filter_passes (Parts.field_arrival _) harrival (values_length hfits 1).2 _ hreference
    exact List.mem_map.mpr
      ⟨slot, List.mem_filter.mpr ⟨hslot, by simpa [hflag] using hreference⟩, rfl⟩

theorem source_length_ne (hfits : CaptureFits anchorPath capture) :
    (partsOf sourceCount anchorPath capture).source.length ≠ 0 ↔
      ∃ slot ∈ capture.fileIndex, slot.fileReference ≠ 0 := by
  have hzero := bloomBytesForCount_zero (values_length hfits 0).1
  simp only [partsOf, filterOf_length, ne_eq, hzero]
  simp [fileValues]

theorem filters_empty (h : capture.directoryIndex = []) :
    add64 (partsOf sourceCount anchorPath capture).topology.length
      (partsOf sourceCount anchorPath capture).arrival.length = 0 := by
  simp only [partsOf, filterOf_length, directoryValues, h]
  decide

theorem accepted_iff (hfits : CaptureFits anchorPath capture)
    (hgood : badCapture sourceCount anchorPath capture = false) :
    (partsOf sourceCount anchorPath capture).accepted = true ↔
      Rebindable sourceCount anchorPath capture := by
  have hsource := @source_length_ne sourceCount anchorPath capture hfits
  have hpath : (partsOf sourceCount anchorPath capture).path = anchorPath := rfl
  have hcheckpoint : (partsOf sourceCount anchorPath capture).checkpoint = capture.checkpoint := rfl
  have hcount : (partsOf sourceCount anchorPath capture).sourceCount = sourceCount := rfl
  unfold Parts.accepted validCheckpoint Rebindable
  rw [hpath, hcheckpoint, hcount, ← hsource]
  simp only [badCapture, Bool.or_eq_false_iff, Bool.and_eq_false_imp] at hgood
  cases henabled : capture.checkpoint.enabled with
  | false =>
    have hindexes := hgood.1.1.1.1.1.2 (by simp [henabled])
    simp only [Bool.not_eq_false', List.isEmpty_iff] at hindexes
    have hempty : (partsOf sourceCount anchorPath capture).source.length = 0 := by
      apply Classical.byContradiction
      intro hne
      obtain ⟨slot, hslot, _⟩ := hsource.mp hne
      rw [hindexes.1] at hslot
      cases hslot
    simp [hempty, filters_empty hindexes.2, and_assoc]
  | true =>
    have hvalid := hgood.1.1.1.1.2 henabled
    simp only [decide_eq_false_iff_not] at hvalid
    have husn : 0 ≤ capture.checkpoint.nextUsn := by omega
    simp [hvalid, husn]
    tauto

/-- An encoded capture reads back exactly when the binder accepts its path and checkpoint. -/
theorem encoded_reads_back {sourceCount : Nat} {anchorPath : Bytes} {capture : SourceChangeCapture}
    {image : Bytes} (hfits : CaptureFits anchorPath capture)
    (h : encode sourceCount anchorPath capture = .ok image) :
    (∃ view, bind image = .ok view ∧ ReadsBack sourceCount anchorPath capture view) ↔
      Rebindable sourceCount anchorPath capture := by
  obtain ⟨hgood, hcount, rfl⟩ := encode_ok hfits h
  have hbind := Parts.bind_bytes _ (partsOf_fits hfits hcount)
  rw [← accepted_iff hfits hgood]
  constructor
  · rintro ⟨view, hview, _⟩
    apply Classical.byContradiction
    intro hrefused
    rw [hview, if_neg hrefused] at hbind
    cases hbind
  · intro haccepted
    rw [if_pos haccepted] at hbind
    exact ⟨_, hbind, bound_readsBack hfits hcount⟩

def sampleCapture : SourceChangeCapture where
  checkpoint := ⟨.windowsUsn, 1, 1, 5⟩
  fileIndex := [{ fileReference := 7, source := 1 }]
  directoryIndex := [{ fileReference := 9, flags := 3 }]

theorem encoded_reads_back_sample : ∃ image view, encode 1 [67] sampleCapture = .ok image ∧
    bind image = .ok view ∧ ReadsBack 1 [67] sampleCapture view := by
  have hok : (match encode 1 [67] sampleCapture with
      | .ok _ => true
      | .error _ => false) = true := by
    decide +kernel
  have hfits : CaptureFits [67] sampleCapture := by
    constructor <;> decide
  have hcondition : Rebindable 1 [67] sampleCapture :=
    ⟨by decide, by decide, fun _ _ => ⟨_, List.mem_cons_self, by decide⟩⟩
  cases himage : encode 1 [67] sampleCapture with
  | error status =>
    rw [himage] at hok
    cases hok
  | ok image =>
    obtain ⟨view, hview, hreads⟩ := (encoded_reads_back hfits himage).mpr hcondition
    exact ⟨image, view, rfl, hview, hreads⟩

def deadSlotCapture : SourceChangeCapture where
  checkpoint := ⟨.windowsUsn, 1, 1, 5⟩
  fileIndex := [{}]

theorem encoded_image_refused :
    ¬ ∀ sourceCount anchorPath capture image, encode sourceCount anchorPath capture = .ok image →
      ∃ view, bind image = .ok view ∧ ReadsBack sourceCount anchorPath capture view := by
  intro h
  have hrefused : (match encode 1 [67] deadSlotCapture with
      | .ok image => match bind image with
        | .ok _ => false
        | .error _ => true
      | .error _ => false) = true := by
    decide +kernel
  cases himage : encode 1 [67] deadSlotCapture with
  | error status =>
    rw [himage] at hrefused
    cases hrefused
  | ok image =>
    obtain ⟨view, hview, _⟩ := h 1 [67] deadSlotCapture image himage
    rw [himage] at hrefused
    simp only [hview] at hrefused
    cases hrefused

end ChangeState
end ServerEngine
