import ServerEngine.Library.ErrorFold
import ServerEngine.Persistence.Selector

/-! # CURRENT and the manifest are read as they were written

A manifest that was created is parsed again, and CURRENT selects the transaction it was created
for.
-/
namespace ServerEngine
open ByteFields ErrorFold

/-! ## Lengths -/

@[simp] theorem manifestMagic_length : manifestMagic.length = 8 := rfl

@[simp] theorem padded_length {size : Nat} {text : Bytes} (h : text.length ≤ size) :
    (padded size text).length = size := by
  rw [padded, List.length_append, List.length_replicate]
  omega

@[simp] theorem digestBytes_length (digest : Fin 32 → UInt8) : (digestBytes digest).length = 32 :=
  List.length_ofFn

theorem digestBytes_get (digest : Fin 32 → UInt8) (i : Fin 32) :
    (digestBytes digest)[i.val]? = some (digest i) := by
  rw [digestBytes, List.getElem?_ofFn, dif_pos i.isLt]

@[simp] theorem configurationBytes_length (configuration : StoredConfiguration) :
    (configurationBytes configuration).length = 96 := by
  unfold configurationBytes
  split
  · split <;> split <;> simp
  · simp

theorem validTransactionName_length {name : Bytes} (h : validTransactionName name = true) :
    4 ≤ name.length ∧ name.length ≤ 63 := by
  simp only [validTransactionName, Bool.and_eq_true, decide_eq_true_eq] at h
  exact ⟨h.1.1.1, h.1.1.2⟩

section Manifest
variable {fingerprint : BaselineFingerprint} {configuration : StoredConfiguration}
  {transaction : Bytes} {compiledSize sourceManagerSize buildCacheSize : Nat} {manifest : Bytes}

theorem manifestBody_length (h : transaction.length ≤ 64) :
    (manifestBody fingerprint configuration transaction compiledSize sourceManagerSize
      buildCacheSize).length = 248 := by
  simp [manifestBody, padded_length h]

/-- What `create_manifest` has checked and put together. -/
structure Created (fingerprint : BaselineFingerprint) (configuration : StoredConfiguration)
    (transaction : Bytes) (compiledSize sourceManagerSize buildCacheSize : Nat)
    (manifest : Bytes) : Prop where
  name : validTransactionName transaction = true
  token : configuration.available = true → configuration.changeTokenAvailable = true →
    configuration.changeToken.valid = true
  bytes : manifest = manifestBody fingerprint configuration transaction compiledSize
    sourceManagerSize buildCacheSize ++ bytesOf 8 (persistenceCrc64 (manifestBody fingerprint
      configuration transaction compiledSize sourceManagerSize buildCacheSize)).toNat

theorem createManifest_ok (h : createManifest fingerprint configuration transaction compiledSize
    sourceManagerSize buildCacheSize = .ok manifest) :
    Created fingerprint configuration transaction compiledSize sourceManagerSize buildCacheSize
      manifest := by
  unfold createManifest at h
  split at h
  · cases h
  · rename_i hname
    split at h
    · cases h
    · rename_i htoken
      cases h
      refine ⟨by simpa using hname, ?_, rfl⟩
      intro havailable hhas
      simpa [havailable, hhas] using htoken

variable (h : Created fingerprint configuration transaction compiledSize sourceManagerSize
  buildCacheSize manifest)
include h

theorem Created.room : transaction.length ≤ 64 := by
  have := validTransactionName_length h.name
  omega

theorem Created.length : manifest.length = manifestSize := by
  rw [h.bytes, List.length_append, manifestBody_length h.room, bytesOf_length]
  rfl

theorem Created.field_body {offset count : Nat} (hge : 8 ≤ offset) (hle : offset + count ≤ 248) :
    field manifest offset count = field (bytesOf 4 baselineFormatVersion ++
      (bytesOf 4 endianMarker ++ (bytesOf 4 manifestSize ++ (bytesOf 4 0 ++
      (digestBytes fingerprint ++ (bytesOf 4 transaction.length ++ (bytesOf 4 0 ++
      (padded 64 transaction ++ (bytesOf 8 compiledSize ++ (bytesOf 8 sourceManagerSize ++
      (bytesOf 8 buildCacheSize ++ configurationBytes configuration))))))))))) (offset - 8) count := by
  rw [h.bytes, field_within (by rw [manifestBody_length h.room]; exact hle), manifestBody,
    field_skip (by rw [manifestMagic_length]; exact hge), manifestMagic_length]

theorem Created.header : manifestHeaderValid manifest = true := by
  have hname := validTransactionName_length h.name
  have htake : manifest.take manifestCrcOffset = manifestBody fingerprint configuration transaction
      compiledSize sourceManagerSize buildCacheSize := by
    rw [h.bytes]
    exact List.take_left' (manifestBody_length h.room)
  have hcrc : readU64 manifest manifestCrcOffset =
      (persistenceCrc64 (manifest.take manifestCrcOffset)).toNat := by
    rw [htake, readU64, h.bytes, field_skip (by rw [manifestBody_length h.room]; rfl),
      manifestBody_length h.room, show manifestCrcOffset - 248 = 0 from rfl,
      field_whole (bytesOf_length _ _)]
    exact valueOf_bytesOf (persistenceCrc64 _).toNat_lt
  have hmagic : field manifest 0 8 = manifestMagic := by
    rw [h.bytes, manifestBody, List.append_assoc]
    exact field_first rfl
  simp only [manifestHeaderValid, Bool.and_eq_true, beq_iff_eq]
  refine ⟨⟨⟨⟨⟨⟨h.length, hmagic⟩, ?_⟩, ?_⟩, ?_⟩, ?_⟩, hcrc⟩
  all_goals rw [readU32, h.field_body (by omega) (by omega)]
  all_goals simp [field_skip, field_first, valueOf_bytesOf, baselineFormatVersion, endianMarker,
    manifestSize]

theorem Created.transactionSize : readU32 manifest 56 = transaction.length := by
  have hname := validTransactionName_length h.name
  have hlt : transaction.length < 4294967296 := by omega
  rw [readU32, h.field_body (by omega) (by omega)]
  simp [field_skip, field_first, valueOf_bytesOf, hlt]

theorem Created.transactionField : field manifest 64 transaction.length = transaction := by
  have hname := validTransactionName_length h.name
  rw [h.field_body (by omega) (by omega)]
  simp [field_skip, field_within, padded]
  exact field_whole rfl

theorem Created.sizes (hc : compiledSize < 2 ^ 64) (hs : sourceManagerSize < 2 ^ 64)
    (hb : buildCacheSize < 2 ^ 64) : readU64 manifest 128 = compiledSize ∧
      readU64 manifest 136 = sourceManagerSize ∧ readU64 manifest 144 = buildCacheSize := by
  have hroom := h.room
  have hread : ∀ {value : Nat}, value < 2 ^ 64 → valueOf (bytesOf 8 value) = value :=
    fun hvalue => valueOf_bytesOf hvalue
  refine ⟨?_, ?_, ?_⟩
  all_goals rw [readU64, h.field_body (by omega) (by omega)]
  all_goals simp [field_skip, field_first, padded_length hroom, hread hc, hread hs, hread hb]

theorem Created.fingerprintByte (i : Fin 32) : manifest.getD (24 + i) 0 = fingerprint i := by
  have hfield : field manifest 24 32 = digestBytes fingerprint := by
    rw [h.field_body (by omega) (by omega)]
    simp [field_skip, field_first]
  have hget := congrArg (·[i.val]?) hfield
  simp only [ByteFields.field, List.getElem?_take, List.getElem?_drop, i.isLt, if_true,
    digestBytes_get] at hget
  rw [List.getD_eq_getElem?_getD, hget, Option.getD_some]

theorem Created.configurationField {offset count : Nat} (hge : 152 ≤ offset)
    (hle : offset + count ≤ 248) :
    field manifest offset count = field (configurationBytes configuration) (offset - 152) count := by
  have hroom := h.room
  rw [h.field_body (by omega) hle]
  rw [field_skip (by simp; omega), field_skip (by simp; omega), field_skip (by simp; omega),
    field_skip (by simp; omega), field_skip (by simp; omega), field_skip (by simp; omega),
    field_skip (by simp; omega), field_skip (by rw [padded_length hroom]; simp; omega),
    field_skip (by rw [padded_length hroom]; simp; omega),
    field_skip (by rw [padded_length hroom]; simp; omega),
    field_skip (by rw [padded_length hroom]; simp; omega), padded_length hroom]
  simp only [bytesOf_length, digestBytes_length]
  rw [show offset - 8 - 4 - 4 - 4 - 4 - 32 - 4 - 4 - 64 - 8 - 8 - 8 = offset - 152 by omega]

/-! ## The configuration -/

theorem Created.absent (hc : configuration.available = false) {offset count : Nat}
    (hge : 152 ≤ offset) (hle : offset + count ≤ 248) :
    field manifest offset count = List.replicate count 0 := by
  rw [h.configurationField hge hle, configurationBytes, hc]
  simp only [Bool.false_eq_true, if_false, field, List.drop_replicate, List.take_replicate]
  rw [show min count (96 - (offset - 152)) = count by omega]

theorem Created.version (hc : configuration.available = true) :
    readU32 manifest 168 = configuration.identityVersion := by
  have hlt : configuration.identityVersion < 256 ^ 4 := by
    unfold StoredConfiguration.identityVersion
    split
    · omega
    · split <;> omega
  rw [readU32, h.configurationField (by omega) (by omega), configurationBytes, if_pos hc]
  simp only [field_skip, field_first, bytesOf_length, Nat.reduceLeDiff, Nat.reduceSub]
  exact valueOf_bytesOf hlt

theorem Created.observation (hc : configuration.available = true) :
    (UInt64.ofNat (readU64 manifest 152)).toInt64 = configuration.writeTimeTicks ∧
      UInt64.ofNat (readU64 manifest 160) = configuration.size := by
  constructor
  all_goals rw [readU64, h.configurationField (by omega) (by omega), configurationBytes, if_pos hc]
  all_goals simp only [field_skip, field_first, bytesOf_length, Nat.reduceLeDiff, Nat.reduceSub]
  · rw [valueOf_bytesOf configuration.writeTimeTicks.toUInt64.toNat_lt]
    simp
  · rw [valueOf_bytesOf configuration.size.toNat_lt]
    simp

theorem Created.metadata (hc : configuration.available = true) :
    UInt32.ofNat (readU32 manifest 172) = configuration.projectVersion ∧
      UInt32.ofNat (readU32 manifest 176) = configuration.abiTarget ∧
      UInt32.ofNat (readU32 manifest 180) = configuration.abiPack := by
  refine ⟨?_, ?_, ?_⟩
  all_goals rw [readU32, h.configurationField (by omega) (by omega), configurationBytes, if_pos hc]
  all_goals simp only [field_skip, field_first, bytesOf_length, Nat.reduceLeDiff, Nat.reduceSub]
  · rw [valueOf_bytesOf configuration.projectVersion.toNat_lt]
    simp
  · rw [valueOf_bytesOf configuration.abiTarget.toNat_lt]
    simp
  · rw [valueOf_bytesOf configuration.abiPack.toNat_lt]
    simp

theorem Created.contentHashByte (hc : configuration.available = true) (i : Fin 32) :
    manifest[184 + i.val]?.getD 0 =
      if configuration.contentHashAvailable then configuration.contentHash i else 0 := by
  have hfield : field manifest 184 32 = if configuration.contentHashAvailable then
      digestBytes configuration.contentHash else List.replicate 32 0 := by
    have hlength : (if configuration.contentHashAvailable then
        digestBytes configuration.contentHash else List.replicate 32 (0 : UInt8)).length = 32 := by
      split <;> simp
    rw [h.configurationField (by omega) (by omega), configurationBytes, if_pos hc]
    simp only [field_skip, field_first, bytesOf_length, Nat.reduceLeDiff, Nat.reduceSub, hlength]
  have hget := congrArg (·[i.val]?) hfield
  simp only [ByteFields.field, List.getElem?_take, List.getElem?_drop, i.isLt, if_true] at hget
  rw [hget]
  split
  · rw [digestBytes_get, Option.getD_some]
  · rw [List.getElem?_replicate, if_pos i.isLt, Option.getD_some]

theorem Created.tokenField (hc : configuration.available = true)
    (ht : configuration.changeTokenAvailable = true) :
    parseChangeToken manifest = configuration.changeToken ∧ readU64 manifest 240 = 0 := by
  have hlength : (if configuration.contentHashAvailable then
      digestBytes configuration.contentHash else List.replicate 32 (0 : UInt8)).length = 32 := by
    split <;> simp
  have hfields : readU64 manifest 216 = configuration.changeToken.volumeSerial.toNat ∧
      readU64 manifest 224 = configuration.changeToken.fileReference.toNat ∧
      readU64 manifest 232 = configuration.changeToken.fileUsn.toUInt64.toNat ∧
      readU64 manifest 240 = 0 := by
    refine ⟨?_, ?_, ?_, ?_⟩
    all_goals
      rw [readU64, h.configurationField (by omega) (by omega), configurationBytes, if_pos hc]
    all_goals simp only [if_pos ht, List.append_assoc, field_skip, field_first, field_whole,
      bytesOf_length, Nat.reduceLeDiff, Nat.reduceSub, hlength]
    · exact valueOf_bytesOf configuration.changeToken.volumeSerial.toNat_lt
    · exact valueOf_bytesOf configuration.changeToken.fileReference.toNat_lt
    · exact valueOf_bytesOf configuration.changeToken.fileUsn.toUInt64.toNat_lt
    · rfl
  obtain ⟨hvolume, hreference, husn, hzero⟩ := hfields
  refine ⟨?_, hzero⟩
  rw [parseChangeToken, hvolume, hreference, husn]
  simp

omit h in
def StoredConfiguration.kept (configuration : StoredConfiguration) : StoredConfiguration :=
  if configuration.available then
    { configuration with
      contentHash := fun i =>
        if configuration.contentHashAvailable then configuration.contentHash i else 0
      contentHashAvailable :=
        configuration.contentHashAvailable || configuration.changeTokenAvailable
      changeToken := if configuration.changeTokenAvailable then configuration.changeToken
        else ⟨0, 0, -1⟩ }
  else {}

theorem Created.configuration_kept :
    parseConfiguration manifest = .ok configuration.kept := by
  cases hc : configuration.available with
  | false =>
    have hversion : readU32 manifest 168 = 0 := by
      rw [readU32, h.absent hc (by omega) (by omega)]
      rfl
    simp [parseConfiguration, hversion, StoredConfiguration.kept, hc]
  | true =>
    have hversion := h.version hc
    obtain ⟨hticks, hsize⟩ := h.observation hc
    obtain ⟨hproject, htarget, hpack⟩ := h.metadata hc
    have hhash := funext (h.contentHashByte hc)
    unfold StoredConfiguration.identityVersion at hversion
    cases ht : configuration.changeTokenAvailable with
    | true =>
      obtain ⟨htoken, hzero⟩ := h.tokenField hc ht
      have hvalid := h.token hc ht
      simp only [ht, if_true] at hversion
      simp [parseConfiguration, hversion, htoken, hzero, hvalid, hticks, hsize, hproject, htarget,
        hpack, hhash, StoredConfiguration.kept, hc, ht]
    | false =>
      cases hhas : configuration.contentHashAvailable with
      | true =>
        simp only [ht, hhas, if_true, Bool.false_eq_true, if_false] at hversion
        simp [parseConfiguration, hversion, hticks, hsize, hproject, htarget, hpack, hhash,
          StoredConfiguration.kept, hc, ht, hhas]
      | false =>
        simp only [ht, hhas, Bool.false_eq_true, if_false] at hversion
        simp [parseConfiguration, hversion, hticks, hsize, hproject, htarget, hpack,
          StoredConfiguration.kept, hc, ht, hhas]

theorem Created.parse (hc : compiledSize < 2 ^ 64) (hs : sourceManagerSize < 2 ^ 64)
    (hb : buildCacheSize < 2 ^ 64) :
    parseManifest manifest = .ok ⟨fingerprint, configuration.kept, transaction, compiledSize,
      sourceManagerSize, buildCacheSize⟩ := by
  obtain ⟨hge, hle⟩ := validTransactionName_length h.name
  obtain ⟨hcompiled, hsource, hbuild⟩ := h.sizes hc hs hb
  have hbytes : (fun i : Fin 32 => manifest.getD (24 + i) 0) = fingerprint :=
    funext h.fingerprintByte
  unfold parseManifest
  rw [h.header, h.transactionSize]
  simp only [Bool.not_true, Bool.false_eq_true, if_false]
  rw [if_neg (by omega), h.transactionField, h.name]
  simp only [Bool.not_true, Bool.false_eq_true, if_false, h.configuration_kept, bind, Except.bind,
    hcompiled, hsource, hbuild, hbytes]

end Manifest

/-! ## CURRENT -/

section Current
variable {fingerprint : BaselineFingerprint} {configuration : StoredConfiguration}
  {transaction manifest changeState bytes : Bytes}
  {compiledSize sourceManagerSize buildCacheSize : Nat}

theorem embeddedManifest_of (h : Created fingerprint configuration transaction compiledSize
    sourceManagerSize buildCacheSize manifest) (hc : compiledSize < 2 ^ 64)
    (hs : sourceManagerSize < 2 ^ 64) (hb : buildCacheSize < 2 ^ 64) :
    embeddedManifest transaction manifest = .ok manifest := by
  simp [embeddedManifest, h.parse hc hs hb]

theorem readTransaction_of {before after : Bytes} (hname : validTransactionName transaction = true)
    {offset : Nat} (hbefore : before.length = offset)
    (hbytes : bytes = before ++ (padded 64 transaction ++ after)) :
    readTransaction bytes offset transaction.length = .ok transaction := by
  obtain ⟨hge, hle⟩ := validTransactionName_length hname
  have hlength : bytes.length = offset + 64 + after.length := by
    rw [hbytes, List.length_append, List.length_append, padded_length (by omega), hbefore]
    omega
  have hfield : field bytes offset transaction.length = transaction := by
    rw [hbytes, field_skip (by omega), hbefore, Nat.sub_self, field_within
      (by rw [padded_length (by omega)]; omega), padded, field_within (by omega)]
    exact field_whole rfl
  have hcapacity : currentSelectorTransactionCapacity = 64 := rfl
  unfold readTransaction
  rw [if_neg (by omega), hfield, hname, if_pos rfl]

theorem field_magic {magic rest : Bytes} (hmagic : magic.length = 8) {offset count : Nat}
    (hge : 8 ≤ offset) : field (magic ++ rest) offset count = field rest (offset - 8) count := by
  rw [field_skip (by omega), hmagic]

theorem readSelectorV2_of (hname : validTransactionName transaction = true)
    (hlength : manifest.length = 256)
    (hembedded : embeddedManifest transaction manifest = .ok manifest)
    (hbytes : bytes = currentSelectorMagicV2 ++ (bytesOf 4 2 ++ (bytesOf 4 transaction.length ++
      (padded 64 transaction ++ manifest)))) :
    readCurrentSelector bytes = .ok ⟨transaction, some manifest, none⟩ := by
  obtain ⟨hge, hle⟩ := validTransactionName_length hname
  have hpadded : (padded 64 transaction).length = 64 := padded_length (by omega)
  have hlt : transaction.length < 256 ^ 4 := by omega
  have hwhole : bytes.length = currentSelectorSizeV2 := by
    rw [hbytes]
    simp [hpadded, hlength, currentSelectorMagicV2, currentSelectorSizeV2, manifestSize]
  have hmagic : field bytes 0 8 = currentSelectorMagicV2 := by
    rw [hbytes]
    exact field_first rfl
  have hversion : readU32 bytes 8 = 2 := by
    rw [readU32, hbytes, field_magic rfl (by omega), field_first (bytesOf_length _ _)]
    rfl
  have hsize : readU32 bytes 12 = transaction.length := by
    rw [readU32, hbytes, field_magic rfl (by omega), field_skip (by simp)]
    simp only [bytesOf_length, Nat.reduceSub, field_first]
    exact valueOf_bytesOf hlt
  have htransaction : readTransaction bytes 16 transaction.length = .ok transaction := by
    refine @readTransaction_of transaction bytes (currentSelectorMagicV2 ++
      (bytesOf 4 2 ++ bytesOf 4 transaction.length)) manifest hname 16 ?_ ?_
    · simp [currentSelectorMagicV2]
    · rw [hbytes]
      simp only [List.append_assoc]
  have hrest : field bytes 80 manifestSize = manifest := by
    rw [hbytes, field_magic rfl (by omega), field_skip (by simp), field_skip (by simp),
      field_skip (by simp [hpadded])]
    simp only [bytesOf_length, hpadded, Nat.reduceSub]
    exact field_whole hlength
  have hsmall : ¬bytes.length ≥ currentSelectorChangeStateOffsetV3 := by
    rw [hwhole]
    decide
  unfold readCurrentSelector
  rw [if_neg (fun h => hsmall h.1), if_pos ⟨hwhole, hmagic⟩]
  simp only [readSelectorV2, hversion, hsize, htransaction, hrest, hembedded, bind, Except.bind,
    ne_eq, not_true_eq_false, if_false]

theorem readSelectorV3_of (hname : validTransactionName transaction = true)
    (hlength : manifest.length = 256)
    (hembedded : embeddedManifest transaction manifest = .ok manifest)
    (hpositive : changeState.length ≠ 0)
    (hlimit : changeState.length ≤ currentSelectorChangeStateLimit)
    (hbytes : bytes = currentSelectorMagicV3 ++ (bytesOf 4 3 ++ (bytesOf 4 transaction.length ++
      (bytesOf 8 changeState.length ++ (bytesOf 8 0 ++ (padded 64 transaction ++
      (manifest ++ changeState))))))) :
    readCurrentSelector bytes = .ok ⟨transaction, some manifest, some changeState⟩ := by
  obtain ⟨hge, hle⟩ := validTransactionName_length hname
  have hpadded : (padded 64 transaction).length = 64 := padded_length (by omega)
  have hlt : transaction.length < 256 ^ 4 := by omega
  have hlimitValue : currentSelectorChangeStateLimit = 67108864 := rfl
  have hsizeLt : changeState.length < 256 ^ 8 := by omega
  have hoffset : currentSelectorChangeStateOffsetV3 = 352 := rfl
  have hwhole : bytes.length = currentSelectorChangeStateOffsetV3 + changeState.length := by
    rw [hbytes]
    simp [hpadded, hlength, currentSelectorMagicV3, hoffset]
    omega
  have hmagic : field bytes 0 8 = currentSelectorMagicV3 := by
    rw [hbytes]
    exact field_first rfl
  have hversion : readU32 bytes 8 = 3 := by
    rw [readU32, hbytes, field_magic rfl (by omega), field_first (bytesOf_length _ _)]
    rfl
  have hsize : readU32 bytes 12 = transaction.length := by
    rw [readU32, hbytes, field_magic rfl (by omega), field_skip (by simp)]
    simp only [bytesOf_length, Nat.reduceSub, field_first]
    exact valueOf_bytesOf hlt
  have hchangeSize : readU64 bytes 16 = changeState.length := by
    rw [readU64, hbytes, field_magic rfl (by omega), field_skip (by simp), field_skip (by simp)]
    simp only [bytesOf_length, Nat.reduceSub, field_first]
    exact valueOf_bytesOf hsizeLt
  have hreserved : readU64 bytes 24 = 0 := by
    rw [readU64, hbytes, field_magic rfl (by omega), field_skip (by simp), field_skip (by simp),
      field_skip (by simp)]
    simp only [bytesOf_length, Nat.reduceSub, field_first]
    rfl
  have htransaction : readTransaction bytes 32 transaction.length = .ok transaction := by
    refine @readTransaction_of transaction bytes (currentSelectorMagicV3 ++ (bytesOf 4 3 ++
      (bytesOf 4 transaction.length ++ (bytesOf 8 changeState.length ++ bytesOf 8 0))))
      (manifest ++ changeState) hname 32 ?_ ?_
    · simp [currentSelectorMagicV3]
    · rw [hbytes]
      simp only [List.append_assoc]
  have hskip : ∀ {count : Nat}, field bytes 96 count = field (manifest ++ changeState) 0 count := by
    intro count
    rw [hbytes, field_magic rfl (by omega), field_skip (by simp), field_skip (by simp),
      field_skip (by simp), field_skip (by simp), field_skip (by simp [hpadded])]
    simp only [bytesOf_length, hpadded, Nat.reduceSub]
  have hrest : field bytes 96 manifestSize = manifest := by
    rw [hskip]
    exact field_first hlength
  have hdrop : bytes.drop currentSelectorChangeStateOffsetV3 = changeState := by
    have hsplit : bytes = (currentSelectorMagicV3 ++ (bytesOf 4 3 ++
        (bytesOf 4 transaction.length ++ (bytesOf 8 changeState.length ++ (bytesOf 8 0 ++
        (padded 64 transaction ++ manifest)))))) ++ changeState := by
      rw [hbytes]
      simp only [List.append_assoc]
    rw [hsplit]
    apply List.drop_left'
    simp [hpadded, hlength, currentSelectorMagicV3, hoffset]
  have hlarge : bytes.length ≥ currentSelectorChangeStateOffsetV3 := by omega
  unfold readCurrentSelector
  rw [if_pos ⟨hlarge, hmagic⟩]
  unfold readSelectorV3
  rw [hversion, hsize, hchangeSize, hreserved, hdrop, hrest]
  dsimp only
  rw [if_neg (by omega), htransaction]
  simp only [hembedded, bind, Except.bind]

theorem readCurrentSelector_create (h : Created fingerprint configuration transaction compiledSize
    sourceManagerSize buildCacheSize manifest) (hc : compiledSize < 2 ^ 64)
    (hs : sourceManagerSize < 2 ^ 64) (hb : buildCacheSize < 2 ^ 64)
    (hcreate : createCurrentSelector transaction manifest changeState = .ok bytes) :
    readCurrentSelector bytes =
      .ok ⟨transaction, some manifest, if changeState = [] then none else some changeState⟩ := by
  have hembedded := embeddedManifest_of h hc hs hb
  unfold createCurrentSelector at hcreate
  split at hcreate
  · cases hcreate
  · rename_i hlimits
    split at hcreate
    · rename_i hempty
      cases hcreate
      rw [if_pos hempty]
      exact readSelectorV2_of h.name h.length hembedded rfl
    · rename_i hchange
      rw [hembedded] at hcreate
      cases hcreate
      rw [if_neg hchange]
      have hpositive : changeState.length ≠ 0 :=
        fun hzero => hchange (List.length_eq_zero_iff.mp hzero)
      exact readSelectorV3_of h.name h.length hembedded hpositive (by omega) rfl

end Current

end ServerEngine
