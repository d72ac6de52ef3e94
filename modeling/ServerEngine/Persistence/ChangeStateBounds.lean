import Mathlib.Tactic.IntervalCases
import ServerEngine.Persistence.ChangeStateImage

/-! # Where a bound image is read

The sections of an accepted image follow one another up to its end, by sums and products modulo
`2 ^ 64`. Every read is inside exactly when none of them wraps.
-/
namespace ServerEngine
open ByteFields ErrorFold
open PathHash (add64)

namespace ChangeState

variable {image : Bytes} {view : ChangeStateImageView}

/-! ## The exact layout -/

def roundUp64 (value : Nat) : Nat := (value + 63) / 64 * 64

def exactEnd : Nat → List DirectoryEntry → Nat
  | start, [] => start
  | start, entry :: rest => exactEnd (roundUp64 (start + entry.count * entry.recordSize)) rest

def formatOf (image : Bytes) : Nat :=
  if field image 0 8 = imageMagic 3 then 3 else if field image 0 8 = imageMagic 1 then 1 else 2

def sectionsOf (image : Bytes) (format : Nat) : List DirectoryEntry :=
  (List.range (directoryCount format - 1)).map (readEntry image)

def anchorOf (image : Bytes) (format : Nat) : DirectoryEntry :=
  readEntry image (directoryCount format - 1)

def layoutEnd (image : Bytes) (format : Nat) : Nat :=
  exactEnd (firstSectionOffset format) (sectionsOf image format) + (anchorOf image format).count

/-- The sizes that the directory names add up to less than `2 ^ 64`. -/
def NoWrap (image : Bytes) : Prop := layoutEnd image (formatOf image) < 2 ^ 64

instance (image : Bytes) : Decidable (NoWrap image) := by unfold NoWrap; infer_instance

def Chained : Nat → List DirectoryEntry → Nat → Prop
  | start, [], last => last = start
  | start, entry :: rest, last => entry.offset = start ∧ Chained entry.next rest last

theorem add64_le (a b : Nat) : add64 a b ≤ a + b := Nat.mod_le _ _

theorem mul64_le (a b : Nat) : mul64 a b ≤ a * b := Nat.mod_le _ _

variable {a b : Nat}

theorem add64_of_lt (h : a + b < 2 ^ 64) : add64 a b = a + b := Nat.mod_eq_of_lt h

theorem mul64_of_lt (h : a * b < 2 ^ 64) : mul64 a b = a * b := Nat.mod_eq_of_lt h

theorem next_le (entry : DirectoryEntry) :
    entry.next ≤ entry.offset + entry.count * entry.recordSize + 63 := by
  have hmul := mul64_le entry.count entry.recordSize
  have hsum := add64_le entry.offset (mul64 entry.count entry.recordSize)
  have hpad := add64_le (add64 entry.offset (mul64 entry.count entry.recordSize)) 63
  unfold DirectoryEntry.next align64
  omega

variable {entry : DirectoryEntry}

theorem next_of_lt (h : entry.offset + entry.count * entry.recordSize + 63 < 2 ^ 64) :
    entry.next = roundUp64 (entry.offset + entry.count * entry.recordSize) := by
  have hsum : entry.offset + entry.count * entry.recordSize < 2 ^ 64 := by omega
  unfold DirectoryEntry.next align64 roundUp64
  rw [mul64_of_lt (by omega), add64_of_lt hsum, add64_of_lt h]

variable {value : Nat}

theorem roundUp64_mod (value : Nat) : roundUp64 value % 64 = 0 := by
  unfold roundUp64
  omega

theorem le_roundUp64 (value : Nat) : value ≤ roundUp64 value := by
  unfold roundUp64
  omega

theorem exactEnd_ge (entries : List DirectoryEntry) (start : Nat) :
    start ≤ exactEnd start entries := by
  induction entries generalizing start with
  | nil => exact Nat.le_refl _
  | cons entry rest ih =>
    have hround := le_roundUp64 (start + entry.count * entry.recordSize)
    have hrest := ih (roundUp64 (start + entry.count * entry.recordSize))
    simp only [exactEnd]
    omega

variable {start : Nat} {entries : List DirectoryEntry} {last : Nat}

theorem chained_exact (hchain : Chained start entries last)
    (hend : exactEnd start entries < 2 ^ 64) : last = exactEnd start entries ∧
      ∀ entry ∈ entries, entry.offset + entry.count * entry.recordSize ≤ last := by
  induction entries generalizing start with
  | nil => exact ⟨hchain, fun _ h => absurd h List.not_mem_nil⟩
  | cons entry rest ih =>
    obtain ⟨rfl, hrest⟩ := hchain
    have hround := exactEnd_ge rest (roundUp64 (entry.offset + entry.count * entry.recordSize))
    simp only [exactEnd] at hend ⊢
    have hbound : entry.offset + entry.count * entry.recordSize + 63 < 2 ^ 64 := by
      unfold roundUp64 at hround
      unfold roundUp64 at hend
      omega
    rw [next_of_lt hbound] at hrest
    obtain ⟨hlast, hinside⟩ := ih hrest hend
    apply And.intro hlast
    intro other hother
    cases hother with
    | head =>
      have hle := le_roundUp64 (entry.offset + entry.count * entry.recordSize)
      omega
    | tail _ hmem => exact hinside other hmem

theorem exact_of_chained (hchain : Chained start entries last) (haligned : start % 64 = 0)
    (hstart : start < 2 ^ 64)
    (hbound : ∀ entry ∈ entries, entry.count * entry.recordSize = 0 ∨ entry.offset + entry.count * entry.recordSize + 63 < 2 ^ 64) :
    last = exactEnd start entries := by
  induction entries generalizing start with
  | nil => exact hchain
  | cons entry rest ih =>
    obtain ⟨rfl, hrest⟩ := hchain
    have hfits : entry.offset + entry.count * entry.recordSize + 63 < 2 ^ 64 := by
      cases hbound entry List.mem_cons_self with
      | inl hempty => omega
      | inr h => exact h
    rw [next_of_lt hfits] at hrest
    apply ih hrest (roundUp64_mod _)
    · unfold roundUp64
      omega
    · exact fun other hother => hbound other (List.mem_cons_of_mem _ hother)

/-! ## Reads inside the image -/

variable {count offset : Nat}

theorem readAt_isSome : (readAt image count offset).isSome ↔ offset + count ≤ image.length := by
  unfold readAt
  split <;> simp_all

variable {α : Type} {f : Nat → Option α}

theorem read_then (hread : offset + count ≤ image.length) (hrest : ∀ value, (f value).isSome) :
    (readAt image count offset >>= f).isSome := by
  obtain ⟨value, hvalue⟩ := Option.isSome_iff_exists.mp (readAt_isSome.mpr hread)
  rw [hvalue]
  exact hrest value

theorem bloomBit_lt {size value index : Nat} (hsize : 0 < size) :
    bloomBit size value index / 8 < size := by
  have hmask : bloomBit size value index ≤ (mul64 size 8 + (2 ^ 64 - 1)) % 2 ^ 64 := by
    unfold bloomBit
    exact Nat.and_le_right
  by_cases hwrap : size * 8 < 2 ^ 64
  · rw [mul64_of_lt hwrap] at hmask
    omega
  · omega

variable {size : Nat}

theorem bloomLoop_isSome (hsize : 0 < size) (hinside : offset + size ≤ view.bytes.length)
    (indexes : List Nat) : (view.bloomLoop offset size value indexes).isSome := by
  induction indexes with
  | nil => rfl
  | cons index rest ih =>
    have hbit := @bloomBit_lt size value index hsize
    unfold ChangeStateImageView.bloomLoop
    apply read_then (by omega)
    intro byte
    split
    · rfl
    · exact ih

theorem bloomMaybe_isSome (value : Nat) (hinside : size = 0 ∨ offset + size ≤ view.bytes.length) :
    (view.bloomMaybe offset size value).isSome := by
  unfold ChangeStateImageView.bloomMaybe
  split
  · rfl
  · rename_i hne
    simp only [Bool.or_eq_true, decide_eq_true_eq, not_or] at hne
    exact bloomLoop_isSome (by omega) (hinside.resolve_left hne.1) _

variable {probe : Nat → Option (Option Nat)} {mask position : Nat}

theorem probeLoop_isSome (hprobe : ∀ position ≤ mask, (probe position).isSome) (fuel : Nat)
    (hposition : position ≤ mask) :
    (ChangeStateImageView.probeLoop probe mask fuel position).isSome := by
  induction fuel generalizing position with
  | zero => rfl
  | succ fuel ih =>
    obtain ⟨answer, hanswer⟩ := Option.isSome_iff_exists.mp (hprobe position hposition)
    simp only [ChangeStateImageView.probeLoop, hanswer, Option.bind_eq_bind, Option.bind_some]
    cases answer with
    | some result => rfl
    | none => exact ih Nat.and_le_right

theorem crcAt_isSome (h : size = 0 ∨ offset + size ≤ image.length) :
    (crcAt image offset size).isSome := by
  unfold crcAt
  rw [if_pos h]
  rfl

theorem verifySections_isSome {sections : List (Nat × Nat × Nat)}
    (h : ∀ entry ∈ sections, entry.2.1 = 0 ∨ entry.1 + entry.2.1 ≤ view.bytes.length) :
    (view.verifySections sections).isSome := by
  induction sections with
  | nil => rfl
  | cons entry rest ih =>
    obtain ⟨offset, size, crc⟩ := entry
    obtain ⟨actual, hactual⟩ :=
      Option.isSome_iff_exists.mp (crcAt_isSome (h (offset, size, crc) List.mem_cons_self))
    simp only [ChangeStateImageView.verifySections, hactual, Option.bind_eq_bind, Option.bind_some]
    split
    · rfl
    · exact ih fun other hother => h other (List.mem_cons_of_mem _ hother)

/-! ## Safe views -/

structure SafeReads (view : ChangeStateImageView) : Prop where
  source : ∀ fileReference, (view.mayContainSourceFile fileReference).isSome
  topology : ∀ fileReference, (view.mayWatchDirectoryTopology fileReference).isSome
  arrival : ∀ fileReference, (view.mayWatchDirectoryArrival fileReference).isSome
  file : ∀ fileReference, (view.findSourceFile fileReference).isSome
  directory : ∀ fileReference, (view.directoryWatchFlags fileReference).isSome
  contents : view.verifyContents.isSome
  path : view.path.isSome

def Inside (image : Bytes) (offset size : Nat) : Prop := size = 0 ∨ offset + size ≤ image.length

variable {recordSize : Nat}

theorem slot_inside (hcount : count ≠ 0) (hinside : Inside image offset (count * recordSize))
    (hposition : position ≤ count - 1) :
    recordSize = 0 ∨ offset + mul64 position recordSize + recordSize ≤ image.length := by
  have hmul := mul64_le position recordSize
  have hslot : position * recordSize + recordSize ≤ count * recordSize := by
    rw [← Nat.succ_mul]
    exact Nat.mul_le_mul_right _ (by omega)
  unfold Inside at hinside
  generalize mul64 position recordSize = slot at hmul ⊢
  omega

theorem path_isSome (h : view.anchorOffset + view.anchorSize ≤ view.bytes.length) :
    view.path.isSome := by
  unfold ChangeStateImageView.path
  rw [if_pos h]
  rfl

theorem directoryWatchFlags_isSome
    (hinside : Inside view.bytes view.directoryIndex (view.directoryIndexCount * 16))
    (fileReference : Nat) : (view.directoryWatchFlags fileReference).isSome := by
  unfold ChangeStateImageView.directoryWatchFlags
  split
  · rfl
  split
  · rfl
  · rename_i hne
    simp only [Bool.or_eq_true, decide_eq_true_eq, not_or] at hne
    apply probeLoop_isSome _ _ Nat.and_le_right
    intro position hposition
    have hslot := slot_inside hne.2 hinside hposition
    unfold ChangeStateImageView.probeDirectory
    generalize view.directoryIndex + mul64 position 16 = slot at hslot ⊢
    apply read_then (by omega)
    intro candidate
    split
    · rfl
    split
    · rfl
    apply read_then (by omega)
    intro flags
    apply read_then (by omega)
    exact fun reserved => rfl

theorem findSourceFile_isSome
    (hlegacy : view.formatVersion = 1 →
      Inside view.bytes view.legacyFileIndex (view.fileIndexCount * 16))
    (hindex : view.formatVersion ≠ 1 → Inside view.bytes view.fileControl view.fileIndexCount ∧
      Inside view.bytes view.fileReferences (view.fileIndexCount * 8) ∧
      Inside view.bytes view.fileSources (view.fileIndexCount * 4))
    (fileReference : Nat) : (view.findSourceFile fileReference).isSome := by
  unfold ChangeStateImageView.findSourceFile
  split
  · rfl
  split
  · rfl
  · rename_i hne
    simp only [Bool.or_eq_true, decide_eq_true_eq, not_or] at hne
    apply probeLoop_isSome _ _ Nat.and_le_right
    intro position hposition
    unfold ChangeStateImageView.probeFile
    split
    · rename_i hformat
      have hslot := slot_inside hne.2 (hlegacy hformat) hposition
      generalize view.legacyFileIndex + mul64 position 16 = slot at hslot ⊢
      apply read_then (by omega)
      intro candidate
      split
      · rfl
      split
      · rfl
      apply read_then (by omega)
      intro source
      split
      · rfl
      apply read_then (by omega)
      exact fun reserved => rfl
    · rename_i hformat
      obtain ⟨hcontrol, hreference, hsource⟩ := hindex hformat
      have hreferenceSlot := slot_inside hne.2 hreference hposition
      have hsourceSlot := slot_inside hne.2 hsource hposition
      generalize view.fileReferences + mul64 position 8 = referenceSlot at hreferenceSlot ⊢
      generalize view.fileSources + mul64 position 4 = sourceSlot at hsourceSlot ⊢
      unfold Inside at hcontrol
      apply read_then (by omega)
      intro control
      split
      · rfl
      apply read_then (by omega)
      intro candidate
      split
      · rfl
      apply read_then (by omega)
      exact fun source => rfl

/-! ## Accepted layouts -/

/-- What `bind` has checked of the directory. -/
structure Laid (image : Bytes) (format : Nat) : Prop where
  chained : Chained (firstSectionOffset format) (sectionsOf image format)
    (anchorOf image format).offset
  power : ∀ entry ∈ sectionsOf image format, powerOfTwoOrZero entry.count = true
  anchor : badAnchor image (anchorOf image format) = false

variable {format : Nat}

theorem laid_inside (h : Laid image format) (hwrap : layoutEnd image format < 2 ^ 64) :
    (∀ entry ∈ sectionsOf image format,
      entry.offset + entry.count * entry.recordSize ≤ image.length) ∧
    (anchorOf image format).offset + (anchorOf image format).count = image.length := by
  unfold layoutEnd at hwrap
  obtain ⟨hlast, hinside⟩ := chained_exact h.chained (by omega)
  have hanchor := h.anchor
  rw [← hlast] at hwrap
  simp only [badAnchor, Bool.or_eq_false_iff, decide_eq_false_iff_not, ne_eq, not_not] at hanchor
  rw [add64_of_lt hwrap] at hanchor
  constructor
  · intro entry hentry
    have hle := hinside entry hentry
    omega
  · exact hanchor.2

theorem laid_exact (h : Laid image format)
    (hstart : firstSectionOffset format = 256 ∨ firstSectionOffset format = 320)
    (hpath : (anchorOf image format).offset + (anchorOf image format).count < 2 ^ 60)
    (hbound : ∀ entry ∈ sectionsOf image format, entry.count * entry.recordSize = 0 ∨ entry.offset + entry.count * entry.recordSize + 63 < 2 ^ 64) :
    layoutEnd image format < 2 ^ 64 := by
  have hlast := exact_of_chained h.chained (by omega) (by omega) hbound
  unfold layoutEnd
  omega

theorem is_recordSize {kind : Nat} (h : entry.is kind recordSize = true) :
    entry.recordSize = recordSize := by
  simp only [DirectoryEntry.is, Bool.and_eq_true, decide_eq_true_eq] at h
  exact h.2

theorem bindV1_ok (h : bindV1 image = .ok view) : Laid image 1 ∧
    ((readEntry image 0).recordSize = 16 ∧ (readEntry image 1).recordSize = 16) ∧
    ∃ sourceCount checkpoint, view = {
      bytes := image
      formatVersion := 1
      legacyFileIndex := (readEntry image 0).offset
      directoryIndex := (readEntry image 1).offset
      anchorOffset := (readEntry image 2).offset
      anchorSize := (readEntry image 2).count
      fileIndexCount := (readEntry image 0).count
      directoryIndexCount := (readEntry image 1).count
      sourceCount := sourceCount
      checkpoint := checkpoint
      legacyFileIndexCrc := (readEntry image 0).crc
      directoryIndexCrc := (readEntry image 1).crc } := by
  unfold bindV1 at h
  obtain ⟨⟨sourceCount, checkpoint⟩, _, h⟩ := bind_ok.mp h
  dsimp only at h
  split at h
  · cases h
  split at h
  · cases h
  split at h
  · cases h
  split at h
  · cases h
  rename_i hkinds hpowers hoffsets _
  simp only [Bool.or_eq_true, Bool.not_eq_true', decide_eq_true_eq, not_or, Bool.not_eq_false,
    ne_eq, not_not, Bool.not_eq_true] at hkinds hpowers hoffsets
  obtain rfl := Except.ok.inj h
  obtain ⟨⟨hfile, hdirectory⟩, _⟩ := hkinds
  refine ⟨⟨?_, ?_, hoffsets.2⟩, ⟨is_recordSize hfile, is_recordSize hdirectory⟩,
    sourceCount, checkpoint, rfl⟩
  · exact ⟨hoffsets.1.1.1, hoffsets.1.1.2, hoffsets.1.2⟩
  · intro entry hentry
    simp only [sectionsOf, directoryCount, List.mem_map, List.mem_range] at hentry
    obtain ⟨index, hindex, rfl⟩ := hentry
    interval_cases index
    · exact hpowers.1
    · exact hpowers.2

theorem bindV2_ok (h : bindV2 image = .ok view) : Laid image 2 ∧
    ((readEntry image 0).recordSize = 1 ∧ (readEntry image 1).recordSize = 8 ∧
      (readEntry image 2).recordSize = 4 ∧ (readEntry image 3).recordSize = 16) ∧
    ((readEntry image 1).count = (readEntry image 0).count ∧
      (readEntry image 2).count = (readEntry image 0).count) ∧
    ∃ sourceCount checkpoint, view = {
      bytes := image
      formatVersion := 2
      fileControl := (readEntry image 0).offset
      fileReferences := (readEntry image 1).offset
      fileSources := (readEntry image 2).offset
      directoryIndex := (readEntry image 3).offset
      anchorOffset := (readEntry image 4).offset
      anchorSize := (readEntry image 4).count
      fileIndexCount := (readEntry image 0).count
      directoryIndexCount := (readEntry image 3).count
      sourceCount := sourceCount
      checkpoint := checkpoint
      fileControlCrc := (readEntry image 0).crc
      fileReferenceCrc := (readEntry image 1).crc
      fileSourceCrc := (readEntry image 2).crc
      directoryIndexCrc := (readEntry image 3).crc } := by
  unfold bindV2 at h
  obtain ⟨⟨sourceCount, checkpoint⟩, _, h⟩ := bind_ok.mp h
  dsimp only at h
  split at h
  · cases h
  split at h
  · cases h
  split at h
  · cases h
  split at h
  · cases h
  rename_i hkinds hpowers hoffsets _
  simp only [Bool.or_eq_true, Bool.not_eq_true', decide_eq_true_eq, not_or, Bool.not_eq_false,
    ne_eq, not_not, Bool.not_eq_true] at hkinds hpowers hoffsets
  obtain rfl := Except.ok.inj h
  obtain ⟨⟨⟨⟨hcontrol, hreference⟩, hsource⟩, hdirectory⟩, _⟩ := hkinds
  obtain ⟨⟨⟨hreferenceCount, hsourceCount⟩, hcontrolPower⟩, hdirectoryPower⟩ := hpowers
  obtain ⟨⟨⟨⟨⟨hfirst, hsecond⟩, hthird⟩, hfourth⟩, hlast⟩, hanchor⟩ := hoffsets
  refine ⟨⟨⟨hfirst, hsecond, hthird, hfourth, hlast⟩, ?_, hanchor⟩,
    ⟨is_recordSize hcontrol, is_recordSize hreference, is_recordSize hsource,
      is_recordSize hdirectory⟩, ⟨hreferenceCount.symm, hsourceCount.symm⟩,
    sourceCount, checkpoint, rfl⟩
  intro entry hentry
  simp only [sectionsOf, directoryCount, List.mem_map, List.mem_range] at hentry
  obtain ⟨index, hindex, rfl⟩ := hentry
  interval_cases index
  · exact hcontrolPower
  · exact hreferenceCount ▸ hcontrolPower
  · exact hsourceCount ▸ hcontrolPower
  · exact hdirectoryPower

theorem bindV3_ok (h : bindV3 image = .ok view) : Laid image 3 ∧
    ((readEntry image 0).recordSize = 1 ∧ (readEntry image 1).recordSize = 1 ∧
      (readEntry image 2).recordSize = 1) ∧
    ∃ sourceCount checkpoint, view = {
      bytes := image
      formatVersion := 3
      sourceBloom := (readEntry image 0).offset
      topologyBloom := (readEntry image 1).offset
      arrivalBloom := (readEntry image 2).offset
      sourceBloomBytes := (readEntry image 0).count
      topologyBloomBytes := (readEntry image 1).count
      arrivalBloomBytes := (readEntry image 2).count
      anchorOffset := (readEntry image 3).offset
      anchorSize := (readEntry image 3).count
      sourceCount := sourceCount
      checkpoint := checkpoint
      sourceBloomCrc := (readEntry image 0).crc
      topologyBloomCrc := (readEntry image 1).crc
      arrivalBloomCrc := (readEntry image 2).crc } := by
  unfold bindV3 at h
  obtain ⟨⟨sourceCount, checkpoint⟩, _, h⟩ := bind_ok.mp h
  dsimp only at h
  split at h
  · cases h
  split at h
  · cases h
  split at h
  · cases h
  split at h
  · cases h
  rename_i hkinds hpowers hoffsets _
  simp only [Bool.or_eq_true, Bool.not_eq_true', decide_eq_true_eq, not_or, Bool.not_eq_false,
    ne_eq, not_not, Bool.not_eq_true] at hkinds hpowers hoffsets
  obtain rfl := Except.ok.inj h
  obtain ⟨⟨⟨hsource, htopology⟩, harrival⟩, _⟩ := hkinds
  obtain ⟨⟨hsourcePower, htopologyPower⟩, harrivalPower⟩ := hpowers
  obtain ⟨⟨⟨⟨hfirst, hsecond⟩, hthird⟩, hlast⟩, hanchor⟩ := hoffsets
  refine ⟨⟨⟨hfirst, hsecond, hthird, hlast⟩, ?_, hanchor⟩,
    ⟨is_recordSize hsource, is_recordSize htopology, is_recordSize harrival⟩,
    sourceCount, checkpoint, rfl⟩
  intro entry hentry
  simp only [sectionsOf, directoryCount, List.mem_map, List.mem_range] at hentry
  obtain ⟨index, hindex, rfl⟩ := hentry
  interval_cases index
  · exact hsourcePower
  · exact htopologyPower
  · exact harrivalPower

theorem bind_ok_cases (h : bind image = .ok view) :
    (formatOf image = 1 ∧ bindV1 image = .ok view) ∨
    (formatOf image = 2 ∧ bindV2 image = .ok view) ∨
    (formatOf image = 3 ∧ bindV3 image = .ok view) := by
  unfold bind at h
  unfold formatOf
  split at h
  · cases h
  split at h
  · rename_i hmagic
    exact Or.inr (Or.inr ⟨if_pos hmagic, h⟩)
  rename_i hthree
  rw [if_neg hthree]
  split at h
  · rename_i hmagic
    exact Or.inl ⟨if_pos hmagic, h⟩
  rename_i hone
  rw [if_neg hone]
  split at h
  · exact Or.inr (Or.inl ⟨rfl, h⟩)
  · cases h

/-! ## Without wrapping every read is inside -/

variable {index : Nat}

theorem readEntry_mem (h : index < directoryCount format - 1) :
    readEntry image index ∈ sectionsOf image format :=
  List.mem_map.mpr ⟨index, List.mem_range.mpr h, rfl⟩

theorem section_inside (h : Laid image format) (hwrap : layoutEnd image format < 2 ^ 64)
    (hindex : index < directoryCount format - 1) : Inside image (readEntry image index).offset
      ((readEntry image index).count * (readEntry image index).recordSize) :=
  Or.inr ((laid_inside h hwrap).1 _ (readEntry_mem hindex))

theorem anchor_inside (h : Laid image format) (hwrap : layoutEnd image format < 2 ^ 64) :
    (anchorOf image format).offset + (anchorOf image format).count ≤ image.length :=
  Nat.le_of_eq (laid_inside h hwrap).2

theorem inside_mul64 (h : Inside image offset (count * recordSize)) :
    mul64 count recordSize = 0 ∨ offset + mul64 count recordSize ≤ image.length := by
  have hmul := mul64_le count recordSize
  unfold Inside at h
  generalize mul64 count recordSize = size at hmul ⊢
  omega

theorem safe_tables (hgate : view.gateOnly = false)
    (hfind : ∀ fileReference, (view.findSourceFile fileReference).isSome)
    (hflags : ∀ fileReference, (view.directoryWatchFlags fileReference).isSome)
    (hcontents : view.verifyContents.isSome) (hpath : view.path.isSome) : SafeReads view := by
  refine ⟨fun r => ?_, fun r => ?_, fun r => ?_, hfind, hflags, hcontents, hpath⟩
  · simp [ChangeStateImageView.mayContainSourceFile, hgate, hfind r]
  · simp [ChangeStateImageView.mayWatchDirectoryTopology, hgate, hflags r]
  · simp [ChangeStateImageView.mayWatchDirectoryArrival, hgate, hflags r]

theorem safe_v1 (h : bindV1 image = .ok view) (hwrap : layoutEnd image 1 < 2 ^ 64) :
    SafeReads view := by
  obtain ⟨hlaid, ⟨hfileSize, hdirectorySize⟩, sourceCount, checkpoint, hview⟩ := bindV1_ok h
  have hfile := section_inside hlaid hwrap (show 0 < 2 by omega)
  have hdirectory := section_inside hlaid hwrap (show 1 < 2 by omega)
  have hanchor := anchor_inside hlaid hwrap
  rw [hfileSize] at hfile
  rw [hdirectorySize] at hdirectory
  have hfind : ∀ fileReference, (view.findSourceFile fileReference).isSome :=
    findSourceFile_isSome (fun _ => by rw [hview]; exact hfile)
      (fun hformat => absurd (by rw [hview]) hformat)
  have hflags : ∀ fileReference, (view.directoryWatchFlags fileReference).isSome :=
    directoryWatchFlags_isSome (by rw [hview]; exact hdirectory)
  apply safe_tables (by rw [hview]; rfl) hfind hflags
  · apply verifySections_isSome
    rw [hview]
    simp only [ChangeStateImageView.verifiedSections, List.mem_cons, List.not_mem_nil, or_false]
    rintro _ (rfl | rfl | rfl)
    · exact inside_mul64 hdirectory
    · exact Or.inr hanchor
    · exact inside_mul64 hfile
  · apply path_isSome
    rw [hview]
    exact hanchor

theorem safe_v2 (h : bindV2 image = .ok view) (hwrap : layoutEnd image 2 < 2 ^ 64) :
    SafeReads view := by
  obtain ⟨hlaid, ⟨hcontrolSize, hreferenceSize, hsourceSize, hdirectorySize⟩,
    ⟨hreferenceCount, hsourceCount⟩, sourceCount, checkpoint, hview⟩ := bindV2_ok h
  have hcontrol := section_inside hlaid hwrap (show 0 < 4 by omega)
  have hreference := section_inside hlaid hwrap (show 1 < 4 by omega)
  have hsource := section_inside hlaid hwrap (show 2 < 4 by omega)
  have hdirectory := section_inside hlaid hwrap (show 3 < 4 by omega)
  have hanchor := anchor_inside hlaid hwrap
  rw [hcontrolSize, Nat.mul_one] at hcontrol
  rw [hreferenceSize, hreferenceCount] at hreference
  rw [hsourceSize, hsourceCount] at hsource
  rw [hdirectorySize] at hdirectory
  have hfind : ∀ fileReference, (view.findSourceFile fileReference).isSome := by
    apply findSourceFile_isSome
    · intro hformat
      rw [hview] at hformat
      exact absurd hformat (show ¬ 2 = 1 by decide)
    · intro _
      rw [hview]
      exact ⟨hcontrol, hreference, hsource⟩
  have hflags : ∀ fileReference, (view.directoryWatchFlags fileReference).isSome :=
    directoryWatchFlags_isSome (by rw [hview]; exact hdirectory)
  apply safe_tables (by rw [hview]; rfl) hfind hflags
  · apply verifySections_isSome
    rw [hview]
    simp only [ChangeStateImageView.verifiedSections, List.mem_cons, List.not_mem_nil, or_false]
    rintro _ (rfl | rfl | rfl | rfl | rfl)
    · exact inside_mul64 hdirectory
    · exact Or.inr hanchor
    · exact hcontrol
    · exact inside_mul64 hreference
    · exact inside_mul64 hsource
  · apply path_isSome
    rw [hview]
    exact hanchor

theorem safe_v3 (h : bindV3 image = .ok view) (hwrap : layoutEnd image 3 < 2 ^ 64) :
    SafeReads view := by
  obtain ⟨hlaid, ⟨hsourceSize, htopologySize, harrivalSize⟩, sourceCount, checkpoint, hview⟩ :=
    bindV3_ok h
  have hsource := section_inside hlaid hwrap (show 0 < 3 by omega)
  have htopology := section_inside hlaid hwrap (show 1 < 3 by omega)
  have harrival := section_inside hlaid hwrap (show 2 < 3 by omega)
  have hanchor := anchor_inside hlaid hwrap
  rw [hsourceSize, Nat.mul_one] at hsource
  rw [htopologySize, Nat.mul_one] at htopology
  rw [harrivalSize, Nat.mul_one] at harrival
  have hgate : view.gateOnly = true := by rw [hview]; rfl
  refine ⟨fun r => ?_, fun r => ?_, fun r => ?_, fun r => ?_, fun r => ?_, ?_, ?_⟩
  · rw [ChangeStateImageView.mayContainSourceFile, if_pos hgate]
    exact bloomMaybe_isSome r (by rw [hview]; exact hsource)
  · rw [ChangeStateImageView.mayWatchDirectoryTopology, if_pos hgate]
    exact bloomMaybe_isSome r (by rw [hview]; exact htopology)
  · rw [ChangeStateImageView.mayWatchDirectoryArrival, if_pos hgate]
    exact bloomMaybe_isSome r (by rw [hview]; exact harrival)
  · rw [ChangeStateImageView.findSourceFile, if_pos hgate]
    rfl
  · rw [ChangeStateImageView.directoryWatchFlags, if_pos hgate]
    rfl
  · apply verifySections_isSome
    rw [hview]
    simp only [ChangeStateImageView.verifiedSections, List.mem_cons, List.not_mem_nil, or_false]
    rintro _ (rfl | rfl | rfl | rfl)
    · exact hsource
    · exact htopology
    · exact harrival
    · exact Or.inr hanchor
  · apply path_isSome
    rw [hview]
    exact hanchor

theorem safe_of_noWrap (h : bind image = .ok view) (hwrap : NoWrap image) : SafeReads view := by
  unfold NoWrap at hwrap
  rcases bind_ok_cases h with ⟨hformat, hbind⟩ | ⟨hformat, hbind⟩ | ⟨hformat, hbind⟩
  · exact safe_v1 hbind (hformat ▸ hwrap)
  · exact safe_v2 hbind (hformat ▸ hwrap)
  · exact safe_v3 hbind (hformat ▸ hwrap)

/-! ## A wrapped size leads outside -/

theorem power_cases (h : powerOfTwoOrZero value = true) : value = 0 ∨ ∃ k, value = 2 ^ k := by
  by_cases hzero : value = 0
  · exact Or.inl hzero
  · simp only [powerOfTwoOrZero, hzero, decide_false, Bool.false_or, decide_eq_true_eq] at h
    exact Or.inr ((Nat.and_sub_one_eq_zero_iff_isPowerOfTwo hzero).mp h)

theorem power_le (h : powerOfTwoOrZero value = true) (hlt : value < 2 ^ (b + 1)) :
    value ≤ 2 ^ b := by
  cases power_cases h with
  | inl hzero => omega
  | inr hpower =>
    obtain ⟨k, rfl⟩ := hpower
    exact Nat.pow_le_pow_right (by omega)
      (Nat.lt_succ_iff.mp ((Nat.pow_lt_pow_iff_right (by omega)).mp hlt))

theorem position_testBit (h : powerOfTwoOrZero count = true) (hlarge : 2 ^ (b + 1) ≤ count)
    (hbit : value.testBit b = true) : (value &&& (count - 1)).testBit b = true := by
  cases power_cases h with
  | inl hzero =>
    have hpos := Nat.two_pow_pos (b + 1)
    omega
  | inr hpower =>
    obtain ⟨k, rfl⟩ := hpower
    have hk : b + 1 ≤ k := (Nat.pow_le_pow_iff_right (by omega)).mp hlarge
    rw [Nat.testBit_and, hbit, Nat.testBit_two_pow_sub_one, decide_eq_true (by omega)]
    rfl

theorem mul64_ge (h : value.testBit 59 = true) : 2 ^ 63 ≤ mul64 value 16 := by
  apply Nat.ge_two_pow_of_testBit
  rw [mul64, Nat.testBit_mod_two_pow, show 16 = 2 ^ 4 from rfl, Nat.testBit_mul_two_pow]
  simp [h]

theorem inside_of_read (h : (readAt image count offset >>= f).isSome) :
    offset + count ≤ image.length := by
  unfold readAt at h
  split at h
  · assumption
  · cases h

theorem inside_of_path (h : view.path.isSome) :
    view.anchorOffset + view.anchorSize ≤ view.bytes.length := by
  unfold ChangeStateImageView.path at h
  split at h
  · assumption
  · cases h

theorem probe_of_loop {fuel : Nat} (hfuel : fuel ≠ 0)
    (h : (ChangeStateImageView.probeLoop probe mask fuel position).isSome) :
    (probe position).isSome := by
  obtain ⟨n, rfl⟩ := Nat.exists_eq_succ_of_ne_zero hfuel
  unfold ChangeStateImageView.probeLoop at h
  cases hprobe : probe position with
  | some answer => rfl
  | none =>
    rw [hprobe] at h
    cases h

theorem mix64_two_testBit : (mix64 2).testBit 59 = true ∧ (mix64 2).testBit 60 = true := by decide

theorem legacy_read (hformat : view.formatVersion = 1) (hcount : view.fileIndexCount ≠ 0)
    (h : (view.findSourceFile 2).isSome) :
    view.legacyFileIndex + mul64 (mix64 2 &&& (view.fileIndexCount - 1)) 16 + 8 ≤
      view.bytes.length := by
  have hgate : view.gateOnly = false := by simp [ChangeStateImageView.gateOnly, hformat]
  simp only [ChangeStateImageView.findSourceFile, hgate, hcount] at h
  have hprobe := probe_of_loop hcount h
  unfold ChangeStateImageView.probeFile at hprobe
  rw [if_pos hformat] at hprobe
  exact inside_of_read hprobe

theorem control_read (hformat : view.formatVersion = 2) (hcount : view.fileIndexCount ≠ 0)
    (h : (view.findSourceFile 2).isSome) :
    view.fileControl + (mix64 2 &&& (view.fileIndexCount - 1)) + 1 ≤ view.bytes.length := by
  have hgate : view.gateOnly = false := by simp [ChangeStateImageView.gateOnly, hformat]
  simp only [ChangeStateImageView.findSourceFile, hgate, hcount] at h
  have hprobe := probe_of_loop hcount h
  unfold ChangeStateImageView.probeFile at hprobe
  rw [if_neg (by omega)] at hprobe
  exact inside_of_read hprobe

theorem directory_read (hgate : view.gateOnly = false) (hcount : view.directoryIndexCount ≠ 0)
    (h : (view.directoryWatchFlags 2).isSome) :
    view.directoryIndex + mul64 (mix64 2 &&& (view.directoryIndexCount - 1)) 16 + 8 ≤
      view.bytes.length := by
  simp only [ChangeStateImageView.directoryWatchFlags, hgate, hcount] at h
  have hprobe := probe_of_loop hcount h
  unfold ChangeStateImageView.probeDirectory at hprobe
  exact inside_of_read hprobe

theorem table_bound (hpower : powerOfTwoOrZero count = true) (hlength : image.length < 2 ^ 60)
    (h : count ≠ 0 → offset + mul64 (mix64 2 &&& (count - 1)) 16 + 8 ≤ image.length) :
    count * 16 = 0 ∨ offset + count * 16 + 63 < 2 ^ 64 := by
  by_cases hcount : count = 0
  · exact Or.inl (by omega)
  have hread := h hcount
  by_cases hlarge : 2 ^ 60 ≤ count
  · have hfar := mul64_ge (position_testBit hpower hlarge mix64_two_testBit.1)
    omega
  · have hle := power_le hpower (Nat.lt_of_not_le hlarge)
    omega

theorem bloomBit_wrapped (h : mul64 size 8 = 0) : 2 ^ 63 ≤ bloomBit size 2 0 := by
  unfold bloomBit
  rw [h]
  decide

theorem filter_bound (hpower : powerOfTwoOrZero count = true)
    (hlength : view.bytes.length < 2 ^ 60) (h : (view.bloomMaybe offset count 2).isSome) :
    count * 1 = 0 ∨ offset + count * 1 + 63 < 2 ^ 64 := by
  by_cases hcount : count = 0
  · exact Or.inl (by omega)
  have hread : offset + bloomBit count 2 0 / 8 + 1 ≤ view.bytes.length := by
    simp only [ChangeStateImageView.bloomMaybe, hcount] at h
    exact inside_of_read h
  by_cases hlarge : 2 ^ 61 ≤ count
  · have hwrap : mul64 count 8 = 0 := by
      obtain ⟨k, rfl⟩ := (power_cases hpower).resolve_left hcount
      have hk : 61 ≤ k := (Nat.pow_le_pow_iff_right (by omega)).mp hlarge
      exact Nat.mod_eq_zero_of_dvd (Nat.mul_dvd_mul_right (Nat.pow_dvd_pow 2 hk) 8)
    have hfar := bloomBit_wrapped hwrap
    omega
  · omega

theorem noWrap_v1 (h : bindV1 image = .ok view) (hlength : image.length < 2 ^ 60)
    (hsafe : SafeReads view) : layoutEnd image 1 < 2 ^ 64 := by
  obtain ⟨hlaid, ⟨hfileSize, hdirectorySize⟩, sourceCount, checkpoint, hview⟩ := bindV1_ok h
  have hbytes : view.bytes = image := by rw [hview]
  have hpath := inside_of_path hsafe.path
  have hlegacy := @legacy_read view (by rw [hview])
  have hdirectory := @directory_read view (by rw [hview]; rfl)
  rw [hview] at hpath hlegacy hdirectory
  apply laid_exact hlaid (Or.inl rfl) (Nat.lt_of_le_of_lt hpath hlength)
  intro entry hentry
  have hpower := hlaid.power entry hentry
  simp only [sectionsOf, directoryCount, List.mem_map, List.mem_range] at hentry
  obtain ⟨index, hindex, rfl⟩ := hentry
  interval_cases index
  · rw [hfileSize]
    exact table_bound hpower hlength fun hcount => hlegacy hcount (hview ▸ hsafe.file 2)
  · rw [hdirectorySize]
    exact table_bound hpower hlength fun hcount => hdirectory hcount (hview ▸ hsafe.directory 2)

theorem noWrap_v2 (h : bindV2 image = .ok view) (hlength : image.length < 2 ^ 60)
    (hsafe : SafeReads view) : layoutEnd image 2 < 2 ^ 64 := by
  obtain ⟨hlaid, ⟨hcontrolSize, hreferenceSize, hsourceSize, hdirectorySize⟩,
    ⟨hreferenceCount, hsourceCount⟩, sourceCount, checkpoint, hview⟩ := bindV2_ok h
  have hpath := inside_of_path hsafe.path
  have hcontrol := @control_read view (by rw [hview])
  have hdirectory := @directory_read view (by rw [hview]; rfl)
  rw [hview] at hpath hcontrol hdirectory
  obtain ⟨hfirst, hsecond, hthird, _⟩ := hlaid.chained
  have hfirst : (readEntry image 0).offset = 320 := hfirst
  have hsecond : (readEntry image 1).offset = (readEntry image 0).next := hsecond
  have hthird : (readEntry image 2).offset = (readEntry image 1).next := hthird
  have hnext := next_le (readEntry image 0)
  have hnext' := next_le (readEntry image 1)
  -- the control bytes alone bound the three sections of the file index
  have hcount : (readEntry image 0).count ≤ 2 ^ 60 := by
    have hpower := hlaid.power _ (readEntry_mem (show 0 < 4 by omega))
    by_cases hzero : (readEntry image 0).count = 0
    · omega
    have hread := hcontrol hzero (hview ▸ hsafe.file 2)
    dsimp only at hread
    apply power_le hpower
    apply Nat.lt_of_not_le
    intro hlarge
    have hfar := Nat.ge_two_pow_of_testBit
      (position_testBit hpower hlarge mix64_two_testBit.2)
    omega
  apply laid_exact hlaid (Or.inr rfl) (Nat.lt_of_le_of_lt hpath hlength)
  intro entry hentry
  have hpower := hlaid.power entry hentry
  simp only [sectionsOf, directoryCount, List.mem_map, List.mem_range] at hentry
  obtain ⟨index, hindex, rfl⟩ := hentry
  rw [hcontrolSize] at hnext
  rw [hreferenceSize] at hnext'
  interval_cases index
  · rw [hcontrolSize]
    omega
  · rw [hreferenceSize]
    omega
  · rw [hsourceSize]
    omega
  · rw [hdirectorySize]
    exact table_bound hpower hlength fun hcount => hdirectory hcount (hview ▸ hsafe.directory 2)

theorem noWrap_v3 (h : bindV3 image = .ok view) (hlength : image.length < 2 ^ 60)
    (hsafe : SafeReads view) : layoutEnd image 3 < 2 ^ 64 := by
  obtain ⟨hlaid, ⟨hsourceSize, htopologySize, harrivalSize⟩, sourceCount, checkpoint, hview⟩ :=
    bindV3_ok h
  have hbytes : view.bytes = image := by rw [hview]
  have hgate : view.gateOnly = true := by rw [hview]; rfl
  have hpath := inside_of_path hsafe.path
  have hsource := hsafe.source 2
  have htopology := hsafe.topology 2
  have harrival := hsafe.arrival 2
  rw [ChangeStateImageView.mayContainSourceFile, if_pos hgate] at hsource
  rw [ChangeStateImageView.mayWatchDirectoryTopology, if_pos hgate] at htopology
  rw [ChangeStateImageView.mayWatchDirectoryArrival, if_pos hgate] at harrival
  rw [hview] at hpath hsource htopology harrival
  apply laid_exact hlaid (Or.inl rfl) (Nat.lt_of_le_of_lt hpath hlength)
  intro entry hentry
  have hpower := hlaid.power entry hentry
  simp only [sectionsOf, directoryCount, List.mem_map, List.mem_range] at hentry
  obtain ⟨index, hindex, rfl⟩ := hentry
  interval_cases index
  · rw [hsourceSize]
    exact filter_bound hpower hlength hsource
  · rw [htopologySize]
    exact filter_bound hpower hlength htopology
  · rw [harrivalSize]
    exact filter_bound hpower hlength harrival

def sizedEntryBytes (kind offset count : Nat) (crc : Nat) : Bytes :=
  bytesOf 4 kind ++ bytesOf 4 1 ++ bytesOf 8 offset ++ bytesOf 8 count ++ bytesOf 8 crc

def forgedImage (checkpoint : SourceChangeCheckpoint) (directory : Bytes) : Bytes :=
  let header := headerBytes 257 0 checkpoint
  let rest := bytesOf 8 (persistenceCrc64 directory).toNat ++ List.replicate 16 0
  let crc := persistenceCrc64 (header ++ bytesOf 8 0 ++ rest)
  header ++ bytesOf 8 crc.toNat ++ rest ++ directory ++ [65]

/-- Two filters of `2 ^ 63` bytes each, behind which the path begins where they began. -/
def wrappedImage : Bytes :=
  forgedImage ⟨.windowsUsn, 1, 1, 0⟩
    (sizedEntryBytes 1 256 (2 ^ 63) 0 ++ sizedEntryBytes 2 (2 ^ 63 + 256) (2 ^ 63) 0 ++
      sizedEntryBytes 3 256 0 0 ++ sizedEntryBytes 4 256 1 0)

def emptyImage : Bytes :=
  forgedImage {}
    (sizedEntryBytes 1 256 0 0 ++ sizedEntryBytes 2 256 0 0 ++ sizedEntryBytes 3 256 0 0 ++
      sizedEntryBytes 4 256 1 0)

end ChangeState
end ServerEngine
