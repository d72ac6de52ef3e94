import ServerEngine.Persistence.SelectorRoundTrip

/-! # The two readers of CURRENT

One reader takes the whole file, the other the part in front of the change state and the size. They
agree on every file but a bare name with many line ends.
-/
namespace ServerEngine
open ByteFields

/-! ## The readers -/

/-- `read_current_selector`: the file is refused before it is read when it is too large. -/
def readCurrentFile (file : Bytes) : Except StatusCode CurrentSelection :=
  if file.length > currentSelectorMaximumSize then .error .artifactCorrupt
  else readCurrentSelector file

/-- What `read_current_ready_selector` returns: the transaction and the embedded manifest. -/
structure ReadySelection where
  transaction : Bytes
  manifest : Option Bytes

def readReadyV3 (bytes : Bytes) (fileSize : Nat) : Except StatusCode ReadySelection := do
  let size := readU64 bytes 16
  if readU32 bytes 8 ≠ 3 ∨ readU64 bytes 24 ≠ 0 then .error .artifactCorrupt
  else if size = 0 ∨ size > currentSelectorChangeStateLimit ∨
      size > 2 ^ 64 - 1 - currentSelectorChangeStateOffsetV3 ∨
      fileSize ≠ currentSelectorChangeStateOffsetV3 + size then .error .artifactCorrupt
  else
    let transaction ← readTransaction bytes 32 (readU32 bytes 12)
    let manifest ← embeddedManifest transaction (field bytes 96 manifestSize)
    .ok ⟨transaction, some manifest⟩

def readReadyV2 (bytes : Bytes) : Except StatusCode ReadySelection := do
  if readU32 bytes 8 ≠ 2 then .error .artifactCorrupt
  else
    let transaction ← readTransaction bytes 16 (readU32 bytes 12)
    let manifest ← embeddedManifest transaction (field bytes 80 manifestSize)
    .ok ⟨transaction, some manifest⟩

def readReadyPlain (bytes : Bytes) (fileSize : Nat) : Except StatusCode ReadySelection :=
  if fileSize = 0 ∨ fileSize > 63 ∨ bytes.length ≠ fileSize then .error .artifactCorrupt
  else
    let name := bytes.rdropWhile fun c => c == 10 || c == 13
    if name = [] ∨ name.length > 63 then .error .artifactCorrupt
    else if validTransactionName name then .ok ⟨name, none⟩
    else .error .artifactCorrupt

/-- `read_current_ready_selector`, of the prefix that `read_file_prefix` reads. -/
def readCurrentReadySelector (file : Bytes) : Except StatusCode ReadySelection :=
  let bytes := file.take currentSelectorChangeStateOffsetV3
  if file.length ≥ currentSelectorChangeStateOffsetV3 ∧
      bytes.length ≥ currentSelectorChangeStateOffsetV3 ∧
      field bytes 0 8 = currentSelectorMagicV3 then readReadyV3 bytes file.length
  else if file.length = currentSelectorSizeV2 ∧ bytes.length = currentSelectorSizeV2 ∧
      field bytes 0 8 = currentSelectorMagicV2 then readReadyV2 bytes
  else readReadyPlain bytes file.length

/-! ## Where they agree -/

def CurrentSelection.ready (selection : CurrentSelection) : ReadySelection :=
  ⟨selection.transaction, selection.manifest⟩

/-- Both fail, or both select the same transaction with the same embedded manifest. -/
def ReadersAgree (file : Bytes) : Prop :=
  (readCurrentFile file).toOption.map CurrentSelection.ready =
    (readCurrentReadySelector file).toOption

/-- A bare name whose line ends make the file longer than any name. -/
def LongPlain (file : Bytes) : Prop :=
  63 < file.length ∧ file.length ≤ currentSelectorMaximumSize ∧
    validTransactionName (file.rdropWhile fun c => c == 10 || c == 13) = true

variable {file : Bytes}

theorem field_take {text : Bytes} {n offset count : Nat} (h : offset + count ≤ n) :
    field (text.take n) offset count = field text offset count := by
  rw [field, field, List.drop_take, List.take_take]
  congr 1
  omega

theorem readTransaction_take {n offset size : Nat} (hroom : offset + 64 ≤ n)
    (hlength : n ≤ file.length) :
    readTransaction (file.take n) offset size = readTransaction file offset size := by
  have hcapacity : currentSelectorTransactionCapacity = 64 := rfl
  have htake : (file.take n).length = n := List.length_take_of_le hlength
  unfold readTransaction
  by_cases hbad : size = 0 ∨ size > currentSelectorTransactionCapacity
  · rw [if_pos (by omega), if_pos (by omega)]
  · have hfront : ¬ (size = 0 ∨ size > currentSelectorTransactionCapacity ∨
        offset + size > (file.take n).length) := by omega
    have hfile : ¬ (size = 0 ∨ size > currentSelectorTransactionCapacity ∨
        offset + size > file.length) := by omega
    rw [if_neg hfront, if_neg hfile, field_take (by omega)]

theorem selected_agree (transaction : Except StatusCode Bytes) (changeState : Option Bytes)
    (f : Bytes → Except StatusCode Bytes) :
    (do
      let name ← transaction
      let manifest ← f name
      Except.ok (⟨name, some manifest, changeState⟩ : CurrentSelection)).toOption.map
        CurrentSelection.ready =
    (do
      let name ← transaction
      let manifest ← f name
      Except.ok (⟨name, some manifest⟩ : ReadySelection)).toOption := by
  cases transaction with
  | error status => rfl
  | ok name =>
    show Option.map _ (Except.toOption (f name >>= _)) = Except.toOption (f name >>= _)
    cases f name with
    | error status => rfl
    | ok manifest => rfl

theorem readSelectorV3_agree (hlength : file.length ≥ currentSelectorChangeStateOffsetV3) :
    (readSelectorV3 file).toOption.map CurrentSelection.ready =
      (readReadyV3 (file.take currentSelectorChangeStateOffsetV3) file.length).toOption := by
  have hoffset : currentSelectorChangeStateOffsetV3 = 352 := rfl
  have hlimit : currentSelectorChangeStateLimit = 67108864 := rfl
  have hmanifest : manifestSize = 256 := rfl
  rw [hoffset] at hlength
  unfold readSelectorV3 readReadyV3 readU32 readU64
  rw [hoffset, field_take (by omega), field_take (by omega), field_take (by omega),
    field_take (by omega), field_take (by omega), readTransaction_take (by omega) hlength]
  dsimp only
  generalize valueOf (field file 16 8) = size
  by_cases hheader : valueOf (field file 8 4) ≠ 3 ∨ valueOf (field file 24 8) ≠ 0
  · rw [if_pos (by omega), if_pos hheader]
    rfl
  · rw [if_neg hheader]
    by_cases hsize : size = 0 ∨ size > currentSelectorChangeStateLimit ∨ file.length ≠ 352 + size
    · rw [if_pos (by omega), if_pos (by omega)]
      rfl
    · rw [if_neg (by omega), if_neg (by omega)]
      exact selected_agree _ _ _

theorem readSelectorV2_agree (file : Bytes) :
    (readSelectorV2 file).toOption.map CurrentSelection.ready = (readReadyV2 file).toOption := by
  unfold readSelectorV2 readReadyV2
  split
  · rfl
  · exact selected_agree _ _ _

theorem readPlainSelector_agree (hne : file.length ≠ 0) (hlength : file.length ≤ 63) :
    (readPlainSelector file).toOption.map CurrentSelection.ready =
      (readReadyPlain file file.length).toOption := by
  have hshort : ¬ (file.length = 0 ∨ file.length > 63 ∨ file.length ≠ file.length) := by omega
  unfold readPlainSelector readReadyPlain
  rw [if_neg hshort]
  dsimp only
  split
  · rfl
  split
  · rfl
  · rfl

theorem readPlainSelector_ok :
    (readPlainSelector file).toOption.isSome ↔
      validTransactionName (file.rdropWhile fun c => c == 10 || c == 13) = true := by
  unfold readPlainSelector
  dsimp only
  constructor
  · intro h
    split at h
    · cases h
    · split at h
      · assumption
      · cases h
  · intro hname
    obtain ⟨hge, hle⟩ := validTransactionName_length hname
    have hne : ¬ ((file.rdropWhile fun c => c == 10 || c == 13) = [] ∨
        (file.rdropWhile fun c => c == 10 || c == 13).length > 63) := by
      rintro (hnil | hlong)
      · rw [hnil] at hge
        simp at hge
      · omega
    rw [if_neg hne, if_pos hname]
    rfl

theorem not_name_of_magic {magic : Bytes} (hmagic : field file 0 8 = magic)
    (hfirst : magic.head? = some 83) :
    ¬ validTransactionName (file.rdropWhile fun c => c == 10 || c == 13) = true := by
  intro hname
  have hfront := List.rdropWhile_prefix (fun c : UInt8 => c == 10 || c == 13) (l := file)
  have hhead : file.head? = some 83 := by
    cases file with
    | nil =>
      rw [← hmagic] at hfirst
      cases hfirst
    | cons c rest =>
      rw [← hmagic] at hfirst
      exact hfirst
  obtain ⟨hge, _⟩ := validTransactionName_length hname
  obtain ⟨after, hafter⟩ := hfront
  generalize hstripped : (file.rdropWhile fun c => c == 10 || c == 13) = name at *
  simp only [validTransactionName, Bool.and_eq_true, beq_iff_eq] at hname
  have htake := hname.1.2
  cases name with
  | nil => simp at hge
  | cons c rest =>
    rw [List.take_succ_cons, List.cons.injEq] at htake
    rw [← hafter, List.cons_append, List.head?_cons, htake.1] at hhead
    exact absurd (Option.some.inj hhead) (by decide)

theorem readCurrentReadySelector_large (hlarge : file.length > currentSelectorMaximumSize) :
    (readCurrentReadySelector file).toOption = none := by
  have hoffset : currentSelectorChangeStateOffsetV3 = 352 := rfl
  have hlimit : currentSelectorChangeStateLimit = 67108864 := rfl
  have hmaximum : currentSelectorMaximumSize = 67109216 := rfl
  have hsizeV2 : currentSelectorSizeV2 = 336 := rfl
  unfold readCurrentReadySelector
  dsimp only
  split
  · unfold readReadyV3
    dsimp only
    split
    · rfl
    · rw [if_pos (by omega)]
      rfl
  · rw [if_neg (by omega), readReadyPlain, if_pos (by omega)]
    rfl

/-- The two readers agree on every file but a bare name that line ends make too long. -/
theorem readersAgree_iff (file : Bytes) : ReadersAgree file ↔ ¬ LongPlain file := by
  have hoffset : currentSelectorChangeStateOffsetV3 = 352 := rfl
  have hmaximum : currentSelectorMaximumSize = 67109216 := rfl
  have hsizeV2 : currentSelectorSizeV2 = 336 := rfl
  unfold ReadersAgree LongPlain readCurrentFile
  by_cases hlarge : file.length > currentSelectorMaximumSize
  · rw [if_pos hlarge, readCurrentReadySelector_large hlarge]
    exact iff_of_true rfl (by omega)
  rw [if_neg hlarge]
  unfold readCurrentSelector readCurrentReadySelector
  have hfront : file.length ≥ 352 → (file.take 352).length = 352 := List.length_take_of_le
  have hmagic : field (file.take 352) 0 8 = field file 0 8 := field_take (by omega)
  simp only [hoffset, hmagic]
  by_cases hthird : file.length ≥ 352 ∧ field file 0 8 = currentSelectorMagicV3
  · have hready : file.length ≥ 352 ∧ (file.take 352).length ≥ 352 ∧
        field file 0 8 = currentSelectorMagicV3 :=
      ⟨hthird.1, Nat.le_of_eq (hfront hthird.1).symm, hthird.2⟩
    rw [if_pos hthird, if_pos hready]
    exact iff_of_true (readSelectorV3_agree hthird.1)
      fun h => not_name_of_magic hthird.2 rfl h.2.2
  have hready : ¬ (file.length ≥ 352 ∧ (file.take 352).length ≥ 352 ∧
      field file 0 8 = currentSelectorMagicV3) := fun h => hthird ⟨h.1, h.2.2⟩
  rw [if_neg hthird, if_neg hready, hsizeV2]
  by_cases hsecond : file.length = 336 ∧ field file 0 8 = currentSelectorMagicV2
  · have hwhole : file.take 352 = file := List.take_of_length_le (by omega)
    rw [if_pos hsecond, hwhole, if_pos ⟨hsecond.1, hsecond.1, hsecond.2⟩]
    exact iff_of_true (readSelectorV2_agree file)
      fun h => not_name_of_magic hsecond.2 rfl h.2.2
  rw [if_neg hsecond, if_neg fun h => hsecond ⟨h.1, h.2.2⟩]
  by_cases hshort : file.length ≤ 63
  · have hwhole : file.take 352 = file := List.take_of_length_le (by omega)
    rw [hwhole]
    apply iff_of_true _ (by omega)
    by_cases hempty : file.length = 0
    · rw [List.length_eq_zero_iff.mp hempty]
      rfl
    · exact readPlainSelector_agree hempty hshort
  · have hrefused : (readReadyPlain (file.take 352) file.length).toOption = none := by
      rw [readReadyPlain, if_pos (by omega)]
      rfl
    have hname := @readPlainSelector_ok file
    rw [hrefused, Option.map_eq_none_iff, ← Option.not_isSome_iff_eq_none, hname]
    constructor
    · exact fun h hlong => h hlong.2.2
    · exact fun h hvalid => h ⟨by omega, by omega, hvalid⟩

/-! ## The round trip -/

/-- Equal contents, each part available in one iff in the other. -/
structure SameConfiguration (read written : StoredConfiguration) : Prop where
  available : read.available = written.available
  contentHashAvailable : read.contentHashAvailable = written.contentHashAvailable
  changeTokenAvailable : read.changeTokenAvailable = written.changeTokenAvailable
  observation : written.available = true →
    read.writeTimeTicks = written.writeTimeTicks ∧ read.size = written.size
  metadata : written.available = true → read.projectVersion = written.projectVersion ∧
    read.abiTarget = written.abiTarget ∧ read.abiPack = written.abiPack
  contentHash : written.contentHashAvailable = true → read.contentHash = written.contentHash
  changeToken : written.changeTokenAvailable = true → read.changeToken = written.changeToken

/-- A change token comes with a content hash, and neither without the rest. -/
def StoredConfiguration.Graded (configuration : StoredConfiguration) : Prop :=
  (configuration.changeTokenAvailable = true → configuration.contentHashAvailable = true) ∧
    (configuration.contentHashAvailable = true → configuration.available = true)

theorem kept_same (configuration : StoredConfiguration) :
    SameConfiguration configuration.kept configuration ↔ configuration.Graded := by
  unfold StoredConfiguration.Graded
  constructor
  · intro h
    have hhash := h.contentHashAvailable
    have htoken := h.changeTokenAvailable
    unfold StoredConfiguration.kept at hhash htoken
    cases hc : configuration.available <;> cases hh : configuration.contentHashAvailable <;>
      cases ht : configuration.changeTokenAvailable <;> simp_all
  · intro h
    cases hc : configuration.available with
    | false =>
      have hhash : configuration.contentHashAvailable = false := by
        cases hh : configuration.contentHashAvailable with
        | false => rfl
        | true => exact absurd (h.2 hh) (by simp [hc])
      have htoken : configuration.changeTokenAvailable = false := by
        cases ht : configuration.changeTokenAvailable with
        | false => rfl
        | true => exact absurd (h.1 ht) (by simp [hhash])
      constructor <;> simp [StoredConfiguration.kept, hc, hhash, htoken]
    | true =>
      have hhash : (configuration.contentHashAvailable || configuration.changeTokenAvailable) =
          configuration.contentHashAvailable := by
        cases ht : configuration.changeTokenAvailable with
        | false => exact Bool.or_false _
        | true => rw [h.1 ht, Bool.or_true]
      constructor <;> simp [StoredConfiguration.kept, hc, hhash]
      · exact fun hh => funext fun i => if_pos hh
      · exact fun ht hnone => absurd (ht.symm.trans hnone) (by decide)

section RoundTrip
variable {fingerprint : BaselineFingerprint} {configuration : StoredConfiguration}
  {transaction manifest changeState bytes : Bytes}
  {compiledSize sourceManagerSize buildCacheSize : Nat}

/-- The manifest is parsed to what it was created of, and CURRENT is read with the change state that
it was created with. -/
structure RoundTrips (fingerprint : BaselineFingerprint) (configuration : StoredConfiguration)
    (transaction : Bytes) (compiledSize sourceManagerSize buildCacheSize : Nat)
    (manifest : Bytes) : Prop where
  parsed : ∃ parsed, parseManifest manifest = .ok parsed ∧ parsed.fingerprint = fingerprint ∧
    SameConfiguration parsed.configuration configuration ∧ parsed.transaction = transaction ∧
    parsed.compiledSize = compiledSize ∧ parsed.sourceManagerSize = sourceManagerSize ∧
    parsed.buildCacheSize = buildCacheSize
  selected : ∀ changeState bytes, createCurrentSelector transaction manifest changeState = .ok bytes →
    readCurrentFile bytes =
      .ok ⟨transaction, some manifest, if changeState = [] then none else some changeState⟩

theorem createCurrentSelector_length (hname : validTransactionName transaction = true)
    (hlength : manifest.length = 256)
    (h : createCurrentSelector transaction manifest changeState = .ok bytes) :
    bytes.length ≤ currentSelectorMaximumSize := by
  obtain ⟨hge, hle⟩ := validTransactionName_length hname
  have hpadded : (padded 64 transaction).length = 64 := padded_length (by omega)
  have hlimit : currentSelectorChangeStateLimit = 67108864 := rfl
  have hmaximum : currentSelectorMaximumSize = 67109216 := rfl
  unfold createCurrentSelector at h
  split at h
  · cases h
  rename_i hlimits
  split at h
  · cases h
    simp [hpadded, hlength, currentSelectorMagicV2, hmaximum]
  · obtain ⟨_, _, h⟩ := ErrorFold.bind_ok.mp h
    cases h
    simp [hpadded, hlength, currentSelectorMagicV3]
    omega

/-- A created manifest round trips exactly when its configuration is graded, and the two readers of
CURRENT agree exactly on the files that are no overlong bare name. -/
theorem selector_round_trip {fingerprint : BaselineFingerprint}
    {configuration : StoredConfiguration} {transaction manifest : Bytes}
    {compiledSize sourceManagerSize buildCacheSize : Nat} (hc : compiledSize < 2 ^ 64)
    (hs : sourceManagerSize < 2 ^ 64) (hb : buildCacheSize < 2 ^ 64)
    (h : createManifest fingerprint configuration transaction compiledSize sourceManagerSize
      buildCacheSize = .ok manifest) (file : Bytes) :
    (RoundTrips fingerprint configuration transaction compiledSize sourceManagerSize buildCacheSize
      manifest ↔ configuration.Graded) ∧ (ReadersAgree file ↔ ¬ LongPlain file) := by
  have hcreated := createManifest_ok h
  have hparse := hcreated.parse hc hs hb
  refine ⟨?_, readersAgree_iff file⟩
  rw [← kept_same]
  constructor
  · intro htrip
    obtain ⟨parsed, hparsed, _, hsame, _⟩ := htrip.parsed
    rw [hparse] at hparsed
    cases hparsed
    exact hsame
  · intro hsame
    refine ⟨⟨_, hparse, rfl, hsame, rfl, rfl, rfl, rfl⟩, ?_⟩
    intro changeState bytes hcreate
    have hlength := createCurrentSelector_length hcreated.name hcreated.length hcreate
    rw [readCurrentFile, if_neg (by omega)]
    exact readCurrentSelector_create hcreated hc hs hb hcreate

end RoundTrip

def sampleTransaction : Bytes := [116, 120, 45, 49]

theorem selector_round_trip_sample : ∃ manifest,
    RoundTrips (fun _ => 0) {} sampleTransaction 1 2 3 manifest ∧ ReadersAgree sampleTransaction := by
  cases h : createManifest (fun _ => 0) {} sampleTransaction 1 2 3 with
  | error status =>
    have hgood : (createManifest (fun _ => 0) {} sampleTransaction 1 2 3).toOption.isSome = true := rfl
    rw [h] at hgood
    cases hgood
  | ok manifest =>
    have hboth := selector_round_trip (by decide) (by decide) (by decide) h sampleTransaction
    exact ⟨manifest, hboth.1.mpr ⟨nofun, nofun⟩, hboth.2.mpr fun hlong => absurd hlong.1 (by decide)⟩

/-- A name and sixty line ends: one reader strips them first, the other looks at the size first. -/
theorem line_ends_disagree : ¬ ∀ file : Bytes, ReadersAgree file := by
  intro h
  have hagree := h (sampleTransaction ++ List.replicate 60 10)
  have hfirst : ((readCurrentFile (sampleTransaction ++ List.replicate 60 10)).toOption.map
      CurrentSelection.ready).isSome = true := by decide +kernel
  have hsecond : (readCurrentReadySelector
      (sampleTransaction ++ List.replicate 60 10)).toOption.isSome = false := by decide +kernel
  rw [hagree, hsecond] at hfirst
  cases hfirst

end ServerEngine
