import ServerEngine.Source.SourceHash

/-! # The source hash and the standard

The hash of a source's bytes is the standard's digest: the words of the code are the standard's bit
for bit, the buffer is the one of a block stream, and the last blocks are the padding.
-/
namespace ServerEngine
open Sha256 (Words)
open BlockStream (absorb overBlocks)

namespace SourceHash

def wordsOf (v : Words UInt32) : Words Sha256.Word := v.map UInt32.toBitVec

/-! ## Functions -/

variable {amount : UInt32}

theorem rotr_bits (value : UInt32) (hpos : 0 < amount.toNat) (hlt : amount.toNat < 32) :
    (rotr value amount).toBitVec = value.toBitVec.rotateRight amount.toNat := by
  have hsub : (32 - amount).toNat = 32 - amount.toNat := by
    rw [UInt32.toNat_sub_of_le]
    · rfl
    · rw [UInt32.le_iff_toNat_le]
      exact Nat.le_of_lt hlt
  rw [rotr, BitVec.rotateRight_def, UInt32.toBitVec_or, UInt32.toBitVec_shiftRight,
    UInt32.toBitVec_shiftLeft, BitVec.ushiftRight_eq', BitVec.shiftLeft_eq']
  simp only [BitVec.toNat_umod, UInt32.toNat_toBitVec, hsub]
  rw [Nat.mod_eq_of_lt hlt]
  congr 2
  · exact Nat.mod_eq_of_lt hlt
  · exact Nat.mod_eq_of_lt (b := 32) (by omega)

theorem choose_bits (x y z : UInt32) :
    (choose x y z).toBitVec = Sha256.choose x.toBitVec y.toBitVec z.toBitVec := rfl

theorem majority_bits (x y z : UInt32) :
    (majority x y z).toBitVec = Sha256.majority x.toBitVec y.toBitVec z.toBitVec := rfl

theorem bigSigma0_bits (value : UInt32) :
    (bigSigma0 value).toBitVec = Sha256.bigSigma0 value.toBitVec := by
  rfl

theorem bigSigma1_bits (value : UInt32) :
    (bigSigma1 value).toBitVec = Sha256.bigSigma1 value.toBitVec := by
  rfl

theorem smallSigma0_bits (value : UInt32) :
    (smallSigma0 value).toBitVec = Sha256.smallSigma0 value.toBitVec := by
  rfl

theorem smallSigma1_bits (value : UInt32) :
    (smallSigma1 value).toBitVec = Sha256.smallSigma1 value.toBitVec := by
  rfl

theorem byte_shiftLeft (x : UInt8) (h : amount.toNat ≤ 24) :
    (x.toUInt32 <<< amount).toNat = x.toNat <<< amount.toNat := by
  have hx := x.toNat_lt
  have hmod : amount.toNat % 32 = amount.toNat := Nat.mod_eq_of_lt (by omega)
  rw [UInt32.toNat_shiftLeft, hmod, UInt8.toNat_toUInt32]
  apply Nat.mod_eq_of_lt
  rw [Nat.shiftLeft_eq]
  calc
    x.toNat * 2 ^ amount.toNat ≤ x.toNat * 2 ^ 24 :=
      Nat.mul_le_mul_left _ (Nat.pow_le_pow_right (by decide) h)
    _ < 2 ^ 32 := by omega

theorem loadWord_bits (block : List UInt8) (index : Nat) :
    (loadWord block index).toBitVec = Sha256.wordAt block index := by
  rw [loadWord, Sha256.wordAt, Nat.mul_comm index 4]
  apply BitVec.eq_of_toNat_eq
  simp only [BitVec.toNat_append, UInt32.toNat_toBitVec, UInt8.toNat_toBitVec, UInt32.toNat_or,
    Nat.shiftLeft_or_distrib, ← Nat.shiftLeft_add, UInt8.toNat_toUInt32]
  rw [byte_shiftLeft _ (by decide), byte_shiftLeft _ (by decide), byte_shiftLeft _ (by decide)]
  rfl

theorem roundConstants_bits :
    roundConstants.map UInt32.toBitVec = (List.range 64).map Sha256.roundConstant := by
  decide +kernel

variable {count index : Nat}

theorem getD_bits {words : List UInt32} {f : Nat → Sha256.Word}
    (h : words.map UInt32.toBitVec = (List.range count).map f) (hlt : index < count) :
    (words.getD index 0).toBitVec = f index := by
  have hlength : index < words.length := by
    have hlengths := congrArg List.length h
    rw [List.length_map, List.length_map, List.length_range] at hlengths
    omega
  have hat := congrArg (·[index]?) h
  simp only [List.getElem?_map, List.getElem?_eq_getElem hlength, List.getElem?_range hlt,
    Option.map_some] at hat
  rw [List.getD_eq_getElem?_getD, List.getElem?_eq_getElem hlength]
  exact Option.some.inj hat

theorem roundConstant_bits (h : index < 64) :
    (roundConstants.getD index 0).toBitVec = Sha256.roundConstant index :=
  getD_bits roundConstants_bits h

theorem initial_bits : wordsOf ({} : Sha256State).state = Sha256.initialHash := by
  decide +kernel

/-! ## The schedule -/

structure Scheduled (block : List UInt8) (count : Nat) (schedule : List UInt32) : Prop where
  length : schedule.length = 64
  entry : ∀ t < count, (schedule.getD t 0).toBitVec = Sha256.schedule block t

variable {block : List UInt8} {schedule : List UInt32}

theorem Scheduled.set {word : UInt32} (h : Scheduled block count schedule) (hcount : count < 64)
    (hword : word.toBitVec = Sha256.schedule block count) :
    Scheduled block (count + 1) (schedule.set count word) where
  length := by rw [List.length_set, h.length]
  entry t ht := by
    have hlength : count < schedule.length := by
      rw [h.length]
      exact hcount
    rw [List.getD_eq_getElem?_getD]
    by_cases heq : t = count
    · subst heq
      rw [List.getElem?_set_self hlength]
      exact hword
    · rw [List.getElem?_set_ne (Ne.symm heq), ← List.getD_eq_getElem?_getD]
      apply h.entry
      omega

theorem loaded_scheduled (block : List UInt8) (h : count ≤ 16) :
    Scheduled block count ((List.range count).foldl
      (fun schedule index => schedule.set index (loadWord block index)) (List.replicate 64 0)) := by
  induction count with
  | zero => exact ⟨List.length_replicate, fun t ht => by omega⟩
  | succ count ih =>
    rw [List.range_succ, List.foldl_append, List.foldl_cons, List.foldl_nil]
    apply (ih (by omega)).set (by omega)
    rw [loadWord_bits, Sha256.schedule, if_pos (by omega)]

theorem scheduleOf_prefix (block : List UInt8) {start : List UInt32}
    (hstart : Scheduled block 16 start) (h : count ≤ 48) :
    Scheduled block (16 + count) ((List.range' 16 count).foldl
      (fun schedule index => schedule.set index
        (smallSigma1 (schedule.getD (index - 2) 0) + schedule.getD (index - 7) 0 +
          smallSigma0 (schedule.getD (index - 15) 0) + schedule.getD (index - 16) 0)) start) := by
  induction count with
  | zero => exact hstart
  | succ count ih =>
    have hbefore := ih (by omega)
    rw [List.range'_concat, List.foldl_append, List.foldl_cons, List.foldl_nil, Nat.one_mul]
    apply hbefore.set (by omega)
    rw [Sha256.schedule, if_neg (by omega), UInt32.toBitVec_add, UInt32.toBitVec_add,
      UInt32.toBitVec_add, smallSigma1_bits, smallSigma0_bits]
    rw [hbefore.entry _ (by omega), hbefore.entry _ (by omega), hbefore.entry _ (by omega),
      hbefore.entry _ (by omega)]

theorem scheduleOf_scheduled (block : List UInt8) : Scheduled block 64 (scheduleOf block) :=
  scheduleOf_prefix block (loaded_scheduled block (Nat.le_refl 16)) (Nat.le_refl 48)

theorem compressStep_bits (h : Scheduled block 64 schedule) (v : Words UInt32)
    (hindex : index < 64) : wordsOf (compressStep schedule v index) =
      Sha256.round (wordsOf v) (Sha256.roundConstant index) (Sha256.schedule block index) := by
  rw [← h.entry index hindex, ← roundConstant_bits hindex]
  simp only [wordsOf, Words.map, compressStep, Sha256.round, UInt32.toBitVec_add, bigSigma0_bits,
    bigSigma1_bits, choose_bits, majority_bits]

theorem compressSteps_bits (h : Scheduled block 64 schedule) (v : Words UInt32)
    (hcount : count ≤ 64) : wordsOf ((List.range count).foldl (compressStep schedule) v) =
      (List.range count).foldl
        (fun v t => Sha256.round v (Sha256.roundConstant t) (Sha256.schedule block t))
        (wordsOf v) := by
  induction count with
  | zero => rfl
  | succ count ih =>
    rw [List.range_succ, List.foldl_append, List.foldl_append, List.foldl_cons, List.foldl_nil,
      List.foldl_cons, List.foldl_nil, compressStep_bits h _ (by omega), ih (by omega)]

theorem add_comm (v w : Words Sha256.Word) : v.add w = w.add v := by
  simp only [Words.add, BitVec.add_comm]

theorem wordsOf_add (v w : Words UInt32) : wordsOf (v.add w) = (wordsOf v).add (wordsOf w) := rfl

theorem transformWords_bits (state : Words UInt32) (block : List UInt8) :
    wordsOf (transformWords state block) = Sha256.compress (wordsOf state) block := by
  rw [Sha256.compress, ← compressSteps_bits (scheduleOf_scheduled block) state (Nat.le_refl 64),
    add_comm, ← wordsOf_add, transformWords]

/-! ## The buffer -/

namespace Sha256State

structure Holds (s : Sha256State) (words : Words Sha256.Word) (held : List UInt8) : Prop where
  words : wordsOf s.state = words
  length : s.buffer.length = 64
  size : s.bufferSize = held.length
  held : s.buffer.take held.length = held

variable {s : Sha256State} {words : Words Sha256.Word} {held : List UInt8}

theorem Holds.initial : Holds {} Sha256.initialHash [] :=
  ⟨initial_bits, List.length_replicate, rfl, rfl⟩

theorem Holds.put (h : s.Holds words held) (hroom : held.length < 64) (value : UInt8) :
    (s.put value).Holds words (held ++ [value]) where
  words := h.words
  length := by rw [Sha256State.put, List.length_set, h.length]
  size := by rw [Sha256State.put, h.size, List.length_append, List.length_singleton]
  held := by
    have hlength : held.length < s.buffer.length := by
      rw [h.length]
      exact hroom
    rw [Sha256State.put, h.size, List.length_append, List.length_singleton,
      List.take_succ_eq_append_getElem (by rw [List.length_set]; exact hlength),
      List.getElem_set_self, List.take_set_of_le (Nat.le_refl _), h.held]

theorem Holds.putAll (h : s.Holds words held) (values : List UInt8)
    (hroom : (held ++ values).length ≤ 64) :
    (values.foldl Sha256State.put s).Holds words (held ++ values) := by
  induction values generalizing s held with
  | nil =>
    rw [List.append_nil]
    exact h
  | cons value values ih =>
    have hlength : held.length + (values.length + 1) ≤ 64 := by simpa using hroom
    have happend : held ++ value :: values = (held ++ [value]) ++ values := by simp
    rw [List.foldl_cons, happend]
    apply ih (h.put (by omega) value)
    rw [← happend]
    exact hroom

-- By cases: compared as projections, the two sides would be evaluated.
theorem transform_buffer (s : Sha256State) : s.transform.buffer = s.buffer := by
  cases s
  rfl

theorem transform_totalBytes (s : Sha256State) : s.transform.totalBytes = s.totalBytes := by
  cases s
  rfl

theorem Holds.full (h : s.Holds words held) (hfull : held.length = 64) : s.buffer = held := by
  rw [← h.held, hfull, ← h.length, List.take_length]

theorem Holds.transform_words (h : s.Holds words held) (hfull : held.length = 64) :
    wordsOf s.transform.state = Sha256.compress words held := by
  rw [← h.words, ← transformWords_bits, ← h.full hfull]
  cases s
  rfl

theorem Holds.taken (h : s.Holds words held) (hfull : held.length = 64) :
    ({ s.transform with bufferSize := 0 } : Sha256State).Holds (Sha256.compress words held) [] where
  words := h.transform_words hfull
  length := by rw [transform_buffer, h.length]
  size := rfl
  held := rfl

theorem puts_replicate (s : Sha256State) (value : UInt8) (count : Nat) :
    (List.range count).foldl (fun s _ => s.put value) s =
      (List.replicate count value).foldl Sha256State.put s := by
  induction count with
  | zero => rfl
  | succ count ih =>
    rw [List.range_succ, List.replicate_succ', List.foldl_append, List.foldl_append, ih]
    rfl

theorem fillZeros_puts (s : Sha256State) (limit : Nat) :
    s.fillZeros limit = (List.replicate (limit - s.bufferSize) 0).foldl Sha256State.put s := by
  exact puts_replicate s 0 (limit - s.bufferSize)

theorem Holds.fillZeros (h : s.Holds words held) {limit : Nat} (hle : held.length ≤ limit)
    (hlimit : limit ≤ 64) :
    (s.fillZeros limit).Holds words (held ++ List.replicate (limit - held.length) 0) := by
  rw [fillZeros_puts, h.size]
  apply h.putAll
  rw [List.length_append, List.length_replicate]
  omega

theorem Holds.updateByte (h : s.Holds words held) (hroom : held.length < 64) (value : UInt8) :
    (s.updateByte value).Holds (absorb 64 Sha256.compress (words, held) value).1
      (absorb 64 Sha256.compress (words, held) value).2 := by
  have hput : ({ s.put value with totalBytes := s.totalBytes + 1 } : Sha256State).Holds words
      (held ++ [value]) := by
    have h' := h.put hroom value
    exact ⟨h'.words, h'.length, h'.size, h'.held⟩
  have hsize := hput.size
  rw [Sha256State.updateByte, absorb]
  by_cases hfull : (held ++ [value]).length = 64
  · rw [if_pos hfull, if_pos (hsize.trans hfull)]
    exact hput.taken hfull
  · rw [if_neg hfull, if_neg fun heq => hfull (hsize.symm.trans heq)]
    exact hput

theorem Holds.update (h : s.Holds words held) (hroom : held.length < 64) (input : Bytes) :
    (s.update input).Holds (input.foldl (absorb 64 Sha256.compress) (words, held)).1
      (input.foldl (absorb 64 Sha256.compress) (words, held)).2 := by
  induction input generalizing s words held with
  | nil => exact h
  | cons value input ih =>
    apply ih (h.updateByte hroom value)
    exact BlockStream.absorb_room (by decide) hroom value

theorem updateByte_totalBytes (s : Sha256State) (value : UInt8) :
    (s.updateByte value).totalBytes = s.totalBytes + 1 := by
  rw [Sha256State.updateByte]
  by_cases hfull : (s.put value).bufferSize = 64
  · rw [if_pos hfull, transform_totalBytes]
  · rw [if_neg hfull]

theorem update_totalBytes (s : Sha256State) (input : Bytes) :
    (s.update input).totalBytes = s.totalBytes + UInt64.ofNat input.length := by
  induction input generalizing s with
  | nil => simp [Sha256State.update]
  | cons value input ih =>
    have hcount : UInt64.ofNat (input.length + 1) = UInt64.ofNat input.length + 1 :=
      UInt64.ofNat_add _ 1
    rw [Sha256State.update, List.foldl_cons, ← Sha256State.update, ih, updateByte_totalBytes,
      List.length_cons, hcount, UInt64.add_assoc, UInt64.add_comm 1]

/-! ## The end -/

def lengthBytes (bitLength : UInt64) : List UInt8 :=
  (List.range 8).map fun index => (bitLength >>> UInt64.ofNat ((7 - index) * 8)).toUInt8

@[simp] theorem lengthBytes_length (bitLength : UInt64) : (lengthBytes bitLength).length = 8 := by
  rw [lengthBytes, List.length_map, List.length_range]

theorem shifted_byte (x : UInt64) {amount : Nat} (h : amount < 64) :
    (x >>> UInt64.ofNat amount).toUInt8 = UInt8.ofBitVec (x.toBitVec.extractLsb' amount 8) := by
  apply UInt8.toNat_inj.mp
  have hamount : (UInt64.ofNat amount).toNat % 64 = amount := by
    rw [UInt64.toNat_ofNat']
    omega
  rw [UInt64.toNat_toUInt8, UInt64.toNat_shiftRight, hamount, UInt8.toNat_ofBitVec,
    BitVec.extractLsb'_toNat, UInt64.toNat_toBitVec]

theorem lengthBytes_bigEndian (bitLength : UInt64) :
    lengthBytes bitLength = Sha256.bigEndian 8 bitLength.toBitVec := by
  apply List.map_congr_left
  intro index hindex
  rw [shifted_byte _ (by omega), Nat.mul_comm]

theorem puts_lengthBytes (s : Sha256State) (bitLength : UInt64) :
    (List.range 8).foldl
        (fun s index => s.put (bitLength >>> UInt64.ofNat ((7 - index) * 8)).toUInt8) s =
      (lengthBytes bitLength).foldl Sha256State.put s := by
  rw [lengthBytes, List.foldl_map]

open Holds

theorem Holds.closed (h : s.Holds words held) (hroom : held.length ≤ 56) (bitLength : UInt64) :
    wordsOf ((List.range 8).foldl
        (fun s index => s.put (bitLength >>> UInt64.ofNat ((7 - index) * 8)).toUInt8)
        (s.fillZeros 56)).transform.state =
      Sha256.compress words
        (held ++ (List.replicate (56 - held.length) 0 ++ lengthBytes bitLength)) := by
  have hzeros := h.fillZeros hroom (by decide)
  have hlength : (held ++ List.replicate (56 - held.length) 0 ++ lengthBytes bitLength).length =
      64 := by
    rw [List.length_append, List.length_append, List.length_replicate, lengthBytes_length]
    omega
  rw [puts_lengthBytes, ← List.append_assoc]
  apply transform_words _ hlength
  exact hzeros.putAll (lengthBytes bitLength) (Nat.le_of_eq hlength)

/-- The marked buffer is padded to a block, or to a block and one more. -/
theorem Holds.finishState (h : s.Holds words held) (hroom : held.length < 64) :
    wordsOf s.finishState.state =
      ((0x80 :: List.replicate ((119 - held.length) % 64) 0 ++
        lengthBytes (s.totalBytes * 8)).foldl (absorb 64 Sha256.compress) (words, held)).1 := by
  have hmarked := h.put hroom 0x80
  have hsize : (held ++ [0x80]).length = held.length + 1 := by
    rw [List.length_append, List.length_singleton]
  rw [Sha256State.finishState]
  by_cases htwo : held.length + 1 > 56
  · have hopened : (s.put 0x80).bufferSize > 56 := by
      rw [hmarked.size, hsize]
      exact htwo
    have hzeros : (119 - held.length) % 64 = (64 - (held.length + 1)) + 56 := by omega
    have hmarkedFull : (held ++ [(0x80 : UInt8)] ++
        List.replicate (64 - (held ++ [(0x80 : UInt8)]).length) 0).length = 64 := by
      rw [List.length_append, List.length_replicate, hsize]
      omega
    have hfirst : (held ++ (0x80 :: List.replicate (64 - (held.length + 1)) 0)).length = 64 := by
      rw [List.length_append, List.length_cons, List.length_replicate]
      omega
    have hsecond : (([] : List UInt8) ++ (List.replicate 56 0 ++
        lengthBytes (s.totalBytes * 8))).length = 64 := by
      rw [List.nil_append, List.length_append, List.length_replicate, lengthBytes_length]
    have htail : (0x80 : UInt8) :: List.replicate ((119 - held.length) % 64) 0 ++
        lengthBytes (s.totalBytes * 8) =
        (0x80 :: List.replicate (64 - (held.length + 1)) 0) ++
          (List.replicate 56 0 ++ lengthBytes (s.totalBytes * 8)) := by
      rw [hzeros, List.replicate_add]
      simp
    have hopenedHolds := (hmarked.fillZeros (by omega) (Nat.le_refl 64)).taken hmarkedFull
    rw [if_pos hopened, hopenedHolds.closed (Nat.zero_le 56), htail, List.foldl_append,
      BlockStream.foldl_absorb_fill _ hroom hfirst,
      BlockStream.foldl_absorb_fill _ (by decide) hsecond, hsize, List.append_assoc]
    rfl
  · have hopened : ¬ (s.put 0x80).bufferSize > 56 := by
      rw [hmarked.size, hsize]
      exact htwo
    have hzeros : (119 - held.length) % 64 = 56 - (held.length + 1) := by omega
    have hlength : (held ++ (0x80 :: List.replicate (56 - (held.length + 1)) 0 ++
        lengthBytes (s.totalBytes * 8))).length = 64 := by
      rw [List.length_append, List.length_append, List.length_cons, List.length_replicate,
        lengthBytes_length]
      omega
    rw [if_neg hopened, hmarked.closed (by omega), hzeros,
      BlockStream.foldl_absorb_fill _ hroom hlength, hsize, List.append_assoc]
    rfl

end Sha256State

theorem word_bytes (word : UInt32) :
    ((List.range 4).map fun byte => ((word >>> UInt32.ofNat ((3 - byte) * 8)) &&& 0xff).toUInt8) =
      Sha256.bigEndian 4 word.toBitVec := by
  apply List.map_congr_left
  intro byte hbyte
  have hamount : (UInt32.ofNat ((3 - byte) * 8)).toNat % 32 = (3 - byte) * 8 := by
    rw [UInt32.toNat_ofNat']
    omega
  apply UInt8.toNat_inj.mp
  have hmask : (0xff : UInt32).toNat = 2 ^ 8 - 1 := rfl
  rw [UInt32.toNat_toUInt8, UInt32.toNat_and, UInt32.toNat_shiftRight, hamount, hmask,
    Nat.and_two_pow_sub_one_eq_mod, UInt8.toNat_ofBitVec, BitVec.extractLsb'_toNat,
    UInt32.toNat_toBitVec, Nat.mul_comm, Nat.mod_mod]

theorem bitLength_bits (count : Nat) :
    ((0 + UInt64.ofNat count) * 8).toBitVec = BitVec.ofNat 64 (8 * count) := by
  apply BitVec.eq_of_toNat_eq
  rw [UInt64.toNat_toBitVec, UInt64.zero_add, UInt64.toNat_mul, UInt64.toNat_ofNat',
    BitVec.toNat_ofNat, Nat.mul_comm]
  exact Nat.mul_mod_mod 8 count (2 ^ 64)

/-- A source's hash is the standard's digest of its bytes, and a transformation is the standard's
compression. -/
theorem source_hash_standard (bytes : Bytes) (state : Words UInt32) (block : List UInt8) :
    hashSourceContent bytes = Sha256.digest bytes ∧
      wordsOf (transformWords state block) = Sha256.compress (wordsOf state) block := by
  refine ⟨?_, transformWords_bits state block⟩
  have hstream : bytes.foldl (absorb 64 Sha256.compress) (Sha256.initialHash, []) = _ :=
    BlockStream.foldl_absorb (by decide) _ _
  have hwhole : (Sha256.pad bytes).foldl (absorb 64 Sha256.compress) (Sha256.initialHash, []) = _ :=
    BlockStream.foldl_absorb_whole (by decide) _ (Sha256.pad_length_mod bytes)
  have hholds := Sha256State.Holds.initial.update (by decide) bytes
  have hheld : (bytes.drop (64 * (bytes.length / 64))).length = bytes.length % 64 := by
    rw [List.length_drop]
    have hdiv := Nat.div_add_mod bytes.length 64
    omega
  rw [hstream] at hholds
  have hfinish := hholds.finishState (by dsimp only; omega)
  dsimp only at hfinish
  rw [hheld, ← hstream, ← List.foldl_append, Sha256State.update_totalBytes,
    Sha256State.lengthBytes_bigEndian, bitLength_bits] at hfinish
  have hwords : wordsOf (Sha256State.update {} bytes).finishState.state =
      overBlocks 64 Sha256.compress Sha256.initialHash (Sha256.pad bytes) := by
    rw [hfinish]
    exact congrArg Prod.fst hwhole
  rw [hashSourceContent, Sha256State.finish, Sha256.digest, ← hwords, wordsOf, Words.toList_map,
    List.flatMap_map]
  exact congrArg (fun f => List.flatMap f _) (funext word_bytes)

end SourceHash
end ServerEngine
