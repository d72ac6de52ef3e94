import Mathlib.Data.List.DropRight
import ServerEngine.Core.Crc64
import ServerEngine.Library.ByteFields

/-! # CURRENT and the manifest

The manifest names a transaction, its fingerprint and the sizes of its artifacts. CURRENT names the
transaction, with the manifest and the change state embedded.
-/
namespace ServerEngine
open ByteFields

/-! ## What they hold -/

/-- `file_change_token`, as it is stored. -/
structure StoredChangeToken where
  volumeSerial : UInt64
  fileReference : UInt64
  fileUsn : Int64

def StoredChangeToken.valid (token : StoredChangeToken) : Bool :=
  token.volumeSerial != 0 && token.fileReference != 0 && decide (0 ≤ token.fileUsn)

/-- `baseline_configuration_state`, with the defaults of the source. -/
structure StoredConfiguration where
  writeTimeTicks : Int64 := 0
  size : UInt64 := 0
  contentHash : Fin 32 → UInt8 := fun _ => 0
  changeToken : StoredChangeToken := ⟨0, 0, -1⟩
  projectVersion : UInt32 := 0
  abiTarget : UInt32 := 0
  abiPack : UInt32 := 0
  available : Bool := false
  contentHashAvailable : Bool := false
  changeTokenAvailable : Bool := false

abbrev BaselineFingerprint := Fin 32 → UInt8

structure ParsedManifest where
  fingerprint : BaselineFingerprint
  configuration : StoredConfiguration
  transaction : Bytes
  compiledSize : Nat
  sourceManagerSize : Nat
  buildCacheSize : Nat

structure CurrentSelection where
  transaction : Bytes
  manifest : Option Bytes
  changeState : Option Bytes

def manifestSize : Nat := 256
def manifestCrcOffset : Nat := 248
def baselineFormatVersion : Nat := 1
def endianMarker : Nat := 0x01020304

/-- `"SEBASE1"` and a zero. -/
def manifestMagic : Bytes := [83, 69, 66, 65, 83, 69, 49, 0]

/-- `"SECURR2"` and a zero. -/
def currentSelectorMagicV2 : Bytes := [83, 69, 67, 85, 82, 82, 50, 0]

/-- `"SECURR3"` and a zero. -/
def currentSelectorMagicV3 : Bytes := [83, 69, 67, 85, 82, 82, 51, 0]

def currentSelectorTransactionCapacity : Nat := 64
def currentSelectorSizeV2 : Nat := 80 + manifestSize
def currentSelectorChangeStateOffsetV3 : Nat := 96 + manifestSize
def currentSelectorChangeStateLimit : Nat := 64 * 1024 * 1024

def currentSelectorMaximumSize : Nat :=
  currentSelectorChangeStateOffsetV3 + currentSelectorChangeStateLimit

def readU32 (input : Bytes) (offset : Nat) : Nat := valueOf (field input offset 4)

def readU64 (input : Bytes) (offset : Nat) : Nat := valueOf (field input offset 8)

def transactionCharacter (c : UInt8) : Bool :=
  (48 ≤ c && c ≤ 57) || (97 ≤ c && c ≤ 122) || (65 ≤ c && c ≤ 90) || c == 45

/-- `valid_transaction_name`: it starts with `"tx-"`. -/
def validTransactionName (value : Bytes) : Bool :=
  decide (4 ≤ value.length) && decide (value.length ≤ 63) && value.take 3 == [116, 120, 45] &&
    value.all transactionCharacter

/-! ## The manifest -/

def padded (size : Nat) (text : Bytes) : Bytes := text ++ List.replicate (size - text.length) 0

def digestBytes (digest : Fin 32 → UInt8) : Bytes := List.ofFn digest

def StoredConfiguration.identityVersion (configuration : StoredConfiguration) : Nat :=
  if configuration.changeTokenAvailable then 4
  else if configuration.contentHashAvailable then 2 else 1

def configurationBytes (configuration : StoredConfiguration) : Bytes :=
  if configuration.available then
    bytesOf 8 configuration.writeTimeTicks.toUInt64.toNat ++
      (bytesOf 8 configuration.size.toNat ++
      (bytesOf 4 configuration.identityVersion ++
      (bytesOf 4 configuration.projectVersion.toNat ++
      (bytesOf 4 configuration.abiTarget.toNat ++
      (bytesOf 4 configuration.abiPack.toNat ++
      ((if configuration.contentHashAvailable then digestBytes configuration.contentHash
          else List.replicate 32 0) ++
      ((if configuration.changeTokenAvailable then
            bytesOf 8 configuration.changeToken.volumeSerial.toNat ++
              (bytesOf 8 configuration.changeToken.fileReference.toNat ++
              bytesOf 8 configuration.changeToken.fileUsn.toUInt64.toNat)
          else List.replicate 24 0) ++
      bytesOf 8 0)))))))
  else List.replicate 96 0

def manifestBody (fingerprint : BaselineFingerprint) (configuration : StoredConfiguration)
    (transaction : Bytes) (compiledSize sourceManagerSize buildCacheSize : Nat) : Bytes :=
  manifestMagic ++ (bytesOf 4 baselineFormatVersion ++ (bytesOf 4 endianMarker ++
    (bytesOf 4 manifestSize ++ (bytesOf 4 0 ++ (digestBytes fingerprint ++
    (bytesOf 4 transaction.length ++ (bytesOf 4 0 ++ (padded 64 transaction ++
    (bytesOf 8 compiledSize ++ (bytesOf 8 sourceManagerSize ++ (bytesOf 8 buildCacheSize ++
    configurationBytes configuration)))))))))))

def createManifest (fingerprint : BaselineFingerprint) (configuration : StoredConfiguration)
    (transaction : Bytes) (compiledSize sourceManagerSize buildCacheSize : Nat) :
    Except StatusCode Bytes :=
  if !validTransactionName transaction then .error .invalidArgument
  else if configuration.available && configuration.changeTokenAvailable &&
      !configuration.changeToken.valid then .error .invalidArgument
  else
    let body := manifestBody fingerprint configuration transaction compiledSize sourceManagerSize
      buildCacheSize
    .ok (body ++ bytesOf 8 (persistenceCrc64 body).toNat)

/-- The checks of `parse_manifest` up to the checksum. -/
def manifestHeaderValid (input : Bytes) : Bool :=
  input.length == manifestSize && field input 0 8 == manifestMagic &&
    readU32 input 8 == baselineFormatVersion && readU32 input 12 == endianMarker &&
    readU32 input 16 == manifestSize && readU32 input 20 == 0 &&
    readU64 input manifestCrcOffset == (persistenceCrc64 (input.take manifestCrcOffset)).toNat

def parseChangeToken (input : Bytes) : StoredChangeToken :=
  ⟨UInt64.ofNat (readU64 input 216), UInt64.ofNat (readU64 input 224),
    (UInt64.ofNat (readU64 input 232)).toInt64⟩

/-- The configuration's part of `parse_manifest`; version 3 has a checkpoint in the token's place,
which is not read. -/
def parseConfiguration (input : Bytes) : Except StatusCode StoredConfiguration :=
  let version := readU32 input 168
  let token := parseChangeToken input
  if version > 4 then .error .artifactCorrupt
  else if version ≥ 4 ∧ (token.valid = false ∨ readU64 input 240 ≠ 0) then .error .artifactCorrupt
  else if version = 0 then .ok {}
  else .ok {
    writeTimeTicks := (UInt64.ofNat (readU64 input 152)).toInt64
    size := UInt64.ofNat (readU64 input 160)
    contentHash := if version ≥ 2 then fun i => input.getD (184 + i) 0 else fun _ => 0
    changeToken := if version ≥ 4 then token else ⟨0, 0, -1⟩
    projectVersion := UInt32.ofNat (readU32 input 172)
    abiTarget := UInt32.ofNat (readU32 input 176)
    abiPack := UInt32.ofNat (readU32 input 180)
    available := true
    contentHashAvailable := decide (version ≥ 2)
    changeTokenAvailable := decide (version ≥ 4) }

def parseManifest (input : Bytes) : Except StatusCode ParsedManifest := do
  if !manifestHeaderValid input then .error .artifactCorrupt
  else
    let size := readU32 input 56
    if size = 0 ∨ size > 63 then .error .artifactCorrupt
    else
      let transaction := field input 64 size
      if !validTransactionName transaction then .error .artifactCorrupt
      else
        let configuration ← parseConfiguration input
        .ok ⟨fun i => input.getD (24 + i) 0, configuration, transaction, readU64 input 128,
          readU64 input 136, readU64 input 144⟩

def embeddedManifest (transaction embedded : Bytes) : Except StatusCode Bytes :=
  match parseManifest embedded with
  | .ok manifest =>
    if manifest.transaction = transaction then .ok embedded else .error .artifactCorrupt
  | .error _ => .error .artifactCorrupt

def createCurrentSelector (transaction manifest changeState : Bytes) : Except StatusCode Bytes := do
  if !validTransactionName transaction ∨
      transaction.length > currentSelectorTransactionCapacity ∨
      changeState.length > currentSelectorChangeStateLimit then .error .invalidArgument
  else if changeState = [] then
    .ok (currentSelectorMagicV2 ++ (bytesOf 4 2 ++ (bytesOf 4 transaction.length ++
      (padded 64 transaction ++ manifest))))
  else
    let _ ← embeddedManifest transaction manifest
    .ok (currentSelectorMagicV3 ++ (bytesOf 4 3 ++ (bytesOf 4 transaction.length ++
      (bytesOf 8 changeState.length ++ (bytesOf 8 0 ++ (padded 64 transaction ++
      (manifest ++ changeState)))))))

def readTransaction (bytes : Bytes) (offset size : Nat) : Except StatusCode Bytes :=
  if size = 0 ∨ size > currentSelectorTransactionCapacity ∨ offset + size > bytes.length then
    .error .artifactCorrupt
  else if validTransactionName (field bytes offset size) then .ok (field bytes offset size)
  else .error .artifactCorrupt

def readSelectorV3 (bytes : Bytes) : Except StatusCode CurrentSelection := do
  let size := readU64 bytes 16
  if readU32 bytes 8 ≠ 3 ∨ readU64 bytes 24 ≠ 0 ∨ size = 0 ∨
      size > currentSelectorChangeStateLimit ∨
      bytes.length ≠ currentSelectorChangeStateOffsetV3 + size then .error .artifactCorrupt
  else
    let transaction ← readTransaction bytes 32 (readU32 bytes 12)
    let manifest ← embeddedManifest transaction (field bytes 96 manifestSize)
    .ok ⟨transaction, some manifest, some (bytes.drop currentSelectorChangeStateOffsetV3)⟩

def readSelectorV2 (bytes : Bytes) : Except StatusCode CurrentSelection := do
  if readU32 bytes 8 ≠ 2 then .error .artifactCorrupt
  else
    let transaction ← readTransaction bytes 16 (readU32 bytes 12)
    let manifest ← embeddedManifest transaction (field bytes 80 manifestSize)
    .ok ⟨transaction, some manifest, none⟩

def readPlainSelector (bytes : Bytes) : Except StatusCode CurrentSelection :=
  let name := bytes.rdropWhile fun c => c == 10 || c == 13
  if name = [] ∨ name.length > 63 then .error .artifactCorrupt
  else if validTransactionName name then .ok ⟨name, none, none⟩
  else .error .artifactCorrupt

/-- `read_current_selector`, of the bytes of CURRENT. -/
def readCurrentSelector (bytes : Bytes) : Except StatusCode CurrentSelection :=
  if bytes.length ≥ currentSelectorChangeStateOffsetV3 ∧
      field bytes 0 8 = currentSelectorMagicV3 then readSelectorV3 bytes
  else if bytes.length = currentSelectorSizeV2 ∧ field bytes 0 8 = currentSelectorMagicV2 then
    readSelectorV2 bytes
  else readPlainSelector bytes

end ServerEngine
