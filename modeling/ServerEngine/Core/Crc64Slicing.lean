import ServerEngine.Core.Crc64
import ServerEngine.Library.ShiftRegister

/-! # The sliced checksum is the bitwise one

The checksum by its definition divides by the polynomial one message bit at a time. The table is eight
shifts of a byte, a slicing table more of them, and a step over eight bytes is eight steps over one.
-/
namespace ServerEngine
open ShiftRegister

/-! ## The definition -/

def crc64Bit (crc : UInt64) (bit : Bool) : UInt64 :=
  crc64Shift (crc ^^^ if bit then (1 : UInt64) <<< 63 else 0)

def messageBits (byte : UInt8) : List Bool := (List.range 8).map fun i => byte.toNat.testBit (7 - i)

def crc64Bitwise (crc : UInt64) (bytes : Bytes) : UInt64 :=
  (bytes.flatMap messageBits).foldl crc64Bit crc

def ecmaPolynomial : BitVec 64 := persistenceCrc64Polynomial.toBitVec

def topByte (byte : UInt8) : BitVec 64 := (byte.toBitVec.setWidth 64) <<< 56

def topBit (bit : Bool) : BitVec 64 := (BitVec.ofBool bit).setWidth 64 <<< 63

theorem crc64Shift_toBitVec (crc : UInt64) :
    (crc64Shift crc).toBitVec = shift ecmaPolynomial crc.toBitVec := by
  have hbit : (crc &&& ((1 : UInt64) <<< 63) ≠ 0) ↔ crc.toBitVec.msb = true := by
    rw [ne_eq, ← UInt64.toBitVec_inj, UInt64.toBitVec_and]
    change ¬crc.toBitVec &&& BitVec.twoPow 64 63 = 0 ↔ _
    rw [BitVec.and_twoPow, BitVec.msb_eq_getLsbD_last]
    cases crc.toBitVec.getLsbD 63 <;> simp
  unfold crc64Shift shift
  by_cases h : crc.toBitVec.msb = true
  · rw [if_pos (hbit.mpr h), if_pos h]
    rfl
  · rw [if_neg (fun hne => h (hbit.mp hne)), if_neg h]
    rfl

theorem repeat_crc64Shift (n : Nat) (crc : UInt64) :
    (Nat.repeat crc64Shift n crc).toBitVec = (shift ecmaPolynomial)^[n] crc.toBitVec := by
  induction n with
  | zero => rfl
  | succ n ih => rw [Nat.repeat, crc64Shift_toBitVec, ih, Function.iterate_succ_apply']

theorem persistenceCrc64Table_toBitVec (byte : UInt8) :
    (persistenceCrc64Table byte).toBitVec = (shift ecmaPolynomial)^[8] (topByte byte) := by
  rw [persistenceCrc64Table, repeat_crc64Shift]
  rfl

theorem topByte_clear (byte : UInt8) (i : Nat) (h : i < 64 - 8) :
    (topByte byte).getLsbD i = false := by
  rw [topByte, BitVec.getLsbD_shiftLeft]
  simp [h]

theorem topBit_clear (bit : Bool) (i : Nat) (h : i < 64 - 1) : (topBit bit).getLsbD i = false := by
  rw [topBit, BitVec.getLsbD_shiftLeft]
  simp [h]

theorem topByte_xor (a b : UInt8) : topByte (a ^^^ b) = topByte a ^^^ topByte b := by
  rw [topByte, UInt8.toBitVec_xor, BitVec.setWidth_xor, BitVec.shiftLeft_xor_distrib]
  rfl

def registerTop (x : BitVec 64) : UInt8 := ⟨(x >>> 56).setWidth 8⟩

theorem split_top (x : BitVec 64) : topByte (registerTop x) ^^^ x <<< 8 >>> 8 = x := by
  apply BitVec.eq_of_getLsbD_eq
  intro i hi
  simp only [topByte, registerTop, BitVec.getLsbD_xor, BitVec.getLsbD_ushiftRight,
    BitVec.getLsbD_shiftLeft, BitVec.getLsbD_setWidth]
  by_cases hlow : i < 56
  · simp [hlow, hi, show 8 + i < 64 by omega]
  · simp [hlow, hi, show ¬8 + i < 64 by omega, show i - 56 < 8 by omega, show i - 56 < 64 by omega,
      Nat.add_sub_cancel' (Nat.le_of_not_lt hlow)]

theorem shift_eight (x : BitVec 64) :
    (shift ecmaPolynomial)^[8] x =
      (persistenceCrc64Table (registerTop x)).toBitVec ^^^ x <<< 8 := by
  have hclear : (shift ecmaPolynomial)^[8] (x <<< 8 >>> 8) = x <<< 8 := by
    rw [iterate_of_clear]
    · apply BitVec.eq_of_getLsbD_eq
      intro i hi
      by_cases hlow : i < 8
      · simp [hlow]
      · simp [hlow, hi, show 8 + (i - 8) = i by omega]
    · intro i hi
      rw [BitVec.getLsbD_ushiftRight]
      exact BitVec.getLsbD_of_ge _ _ (by omega)
  calc (shift ecmaPolynomial)^[8] x
      = (shift ecmaPolynomial)^[8] (topByte (registerTop x) ^^^ x <<< 8 >>> 8) := by rw [split_top]
    _ = (persistenceCrc64Table (registerTop x)).toBitVec ^^^ x <<< 8 := by
      rw [iterate_xor, hclear, persistenceCrc64Table_toBitVec]

theorem crc64Byte_toBitVec (crc : UInt64) (b : UInt8) :
    (crc64Byte crc b).toBitVec = (shift ecmaPolynomial)^[8] (crc.toBitVec ^^^ topByte b) := by
  have hindex : (persistenceCrc64Table ((crc >>> 56).toUInt8 ^^^ b)).toBitVec =
      (persistenceCrc64Table (registerTop crc.toBitVec)).toBitVec ^^^
        (shift ecmaPolynomial)^[8] (topByte b) := by
    rw [persistenceCrc64Table_toBitVec, persistenceCrc64Table_toBitVec, topByte_xor, iterate_xor]
    rfl
  rw [crc64Byte, UInt64.toBitVec_xor, hindex, iterate_xor, shift_eight crc.toBitVec, ← BitVec.xor_assoc,
    BitVec.xor_comm (crc <<< 8).toBitVec]
  rfl

theorem persistenceCrc64AdvanceZero_toBitVec (crc : UInt64) :
    (persistenceCrc64AdvanceZero crc).toBitVec = (shift ecmaPolynomial)^[8] crc.toBitVec := by
  rw [persistenceCrc64AdvanceZero, shift_eight, UInt64.toBitVec_xor, BitVec.xor_comm]
  rfl

theorem foldl_crc64Byte (crc : UInt64) (bytes : Bytes) :
    (bytes.foldl crc64Byte crc).toBitVec = feed ecmaPolynomial 8 topByte crc.toBitVec bytes := by
  exact (List.foldl_hom UInt64.toBitVec fun crc b => (crc64Byte_toBitVec crc b).symm).symm

theorem crc64Bit_toBitVec (crc : UInt64) (bit : Bool) :
    (crc64Bit crc bit).toBitVec = (shift ecmaPolynomial)^[1] (crc.toBitVec ^^^ topBit bit) := by
  rw [crc64Bit, crc64Shift_toBitVec]
  cases bit <;> rfl

theorem messageBits_length (b : UInt8) : (messageBits b).length = 8 := rfl

theorem messageBits_packed (b : UInt8) : pack 1 topBit (messageBits b) = topByte b := by
  have hbytes : ∀ n : Fin 256, pack 1 topBit (messageBits ⟨⟨n⟩⟩) = topByte ⟨⟨n⟩⟩ := by
    decide +kernel
  exact hbytes b.toFin

theorem crc64Byte_bits (crc : UInt64) (b : UInt8) :
    crc64Byte crc b = (messageBits b).foldl crc64Bit crc := by
  have hfeed : ((messageBits b).foldl crc64Bit crc).toBitVec =
      feed ecmaPolynomial 1 topBit crc.toBitVec (messageBits b) := by
    exact (List.foldl_hom UInt64.toBitVec fun crc bit => (crc64Bit_toBitVec crc bit).symm).symm
  rw [← UInt64.toBitVec_inj, crc64Byte_toBitVec, hfeed,
    feed_eq topBit_clear (by rw [messageBits_length]; decide), messageBits_packed]
  rfl

theorem foldl_crc64Byte_bits (crc : UInt64) (bytes : Bytes) :
    bytes.foldl crc64Byte crc = crc64Bitwise crc bytes := by
  induction bytes generalizing crc with
  | nil => rfl
  | cons b bytes ih =>
    rw [List.foldl_cons, ih, crc64Byte_bits, crc64Bitwise, crc64Bitwise, List.flatMap_cons,
      List.foldl_append]

/-! ## Words -/

def registerBytes : Nat → BitVec 64 → Bytes
  | 0, _ => []
  | count + 1, x => registerTop x :: registerBytes count (x <<< 8)

theorem registerBytes_packed {count : Nat} {x : BitVec 64} (h : x <<< (8 * count) = 0) :
    pack 8 topByte (registerBytes count x) = x := by
  induction count generalizing x with
  | zero =>
    rw [Nat.mul_zero, BitVec.shiftLeft_zero] at h
    rw [h]
    rfl
  | succ count ih =>
    have hrest : x <<< 8 <<< (8 * count) = 0 := by
      rw [← BitVec.shiftLeft_add, Nat.add_comm, ← Nat.mul_succ]
      exact h
    rw [registerBytes, pack, ih hrest, split_top]

theorem registerTop_shift (x : BitVec 64) {s t : Nat} (h : s + t = 56) :
    (registerTop (x <<< s)).toBitVec = (x >>> t).setWidth 8 := by
  apply BitVec.eq_of_getLsbD_eq
  intro i hi
  simp only [registerTop, BitVec.getLsbD_setWidth, BitVec.getLsbD_ushiftRight,
    BitVec.getLsbD_shiftLeft]
  simp [hi, show 56 + i < 64 by omega, show ¬56 + i < s by omega, show 56 + i - s = t + i by omega]

theorem registerBytes_eight (x : UInt64) :
    registerBytes 8 x.toBitVec = [(x >>> 56).toUInt8, (x >>> 48).toUInt8, (x >>> 40).toUInt8,
      (x >>> 32).toUInt8, (x >>> 24).toUInt8, (x >>> 16).toUInt8, (x >>> 8).toUInt8, x.toUInt8] := by
  have hbyte : ∀ (s : Nat) (t : UInt64), s + (t.toBitVec % 64).toNat = 56 →
      registerTop (x.toBitVec <<< s) = (x >>> t).toUInt8 := by
    intro s t h
    rw [← UInt8.toBitVec_inj, registerTop_shift x.toBitVec h]
    rfl
  simp only [registerBytes, ← BitVec.shiftLeft_add]
  rw [hbyte 8 48 rfl, hbyte (8 + 8) 40 rfl, hbyte (8 + 8 + 8) 32 rfl, hbyte (8 + 8 + 8 + 8) 24 rfl,
    hbyte (8 + 8 + 8 + 8 + 8) 16 rfl, hbyte (8 + 8 + 8 + 8 + 8 + 8) 8 rfl,
    hbyte (8 + 8 + 8 + 8 + 8 + 8 + 8) 0 rfl]
  rfl

theorem persistenceCrc64SlicingTable_toBitVec (slice : Nat) (b : UInt8) :
    (persistenceCrc64SlicingTable slice b).toBitVec =
      (shift ecmaPolynomial)^[8 * (7 - slice) + 8] (topByte b) := by
  rw [persistenceCrc64SlicingTable]
  generalize 7 - slice = rounds
  induction rounds with
  | zero => rw [Nat.repeat, persistenceCrc64Table_toBitVec]
  | succ rounds ih =>
    rw [Nat.repeat, persistenceCrc64AdvanceZero_toBitVec, ih, ← Function.iterate_add_apply]
    congr 1
    omega

theorem crc64Word_toBitVec (crc word : UInt64) :
    (crc64Word crc word).toBitVec = (shift ecmaPolynomial)^[64] (crc ^^^ word).toBitVec := by
  have hpacked : pack 8 topByte (registerBytes 8 (crc ^^^ word).toBitVec) =
      (crc ^^^ word).toBitVec := registerBytes_packed (by simp)
  have hfeed : feed ecmaPolynomial 8 topByte 0#64 (registerBytes 8 (crc ^^^ word).toBitVec) =
      (shift ecmaPolynomial)^[64] (0#64 ^^^ pack 8 topByte (registerBytes 8 (crc ^^^ word).toBitVec)) :=
    feed_eq topByte_clear (by exact Nat.le_refl 64) 0#64
  rw [hpacked, BitVec.zero_xor, registerBytes_eight] at hfeed
  rw [← hfeed, crc64Word]
  simp only [feed, List.foldl_cons, List.foldl_nil, iterate_xor, ← Function.iterate_add_apply,
    iterate_zero, BitVec.zero_xor, UInt64.toBitVec_xor, persistenceCrc64SlicingTable_toBitVec]

theorem persistenceCrc64LoadBe64_packed (b0 b1 b2 b3 b4 b5 b6 b7 : UInt8) :
    (persistenceCrc64LoadBe64 b0 b1 b2 b3 b4 b5 b6 b7).toBitVec =
      pack 8 topByte [b0, b1, b2, b3, b4, b5, b6, b7] := by
  have hshift : ∀ (b : UInt8) (s t : Nat), s + t = 56 →
      topByte b >>> s = b.toBitVec.setWidth 64 <<< t := by
    intro b s t h
    apply BitVec.eq_of_getLsbD_eq
    intro i hi
    simp only [topByte, BitVec.getLsbD_ushiftRight, BitVec.getLsbD_shiftLeft,
      BitVec.getLsbD_setWidth]
    by_cases hlow : i < t
    · simp [hlow, show s + i < 56 by omega]
    · rw [show s + i - 56 = i - t by omega]
      by_cases hbyte : i - t < 8
      · simp [hlow, hi, show ¬s + i < 56 by omega, show s + i < 64 by omega]
      · rw [BitVec.getLsbD_of_ge _ _ (Nat.le_of_not_lt hbyte)]
        simp
  simp only [pack_cons_or topByte_clear, BitVec.ushiftRight_or_distrib, ← BitVec.shiftRight_add]
  rw [hshift b1 _ 48 rfl, hshift b2 _ 40 rfl, hshift b3 _ 32 rfl, hshift b4 _ 24 rfl,
    hshift b5 _ 16 rfl, hshift b6 _ 8 rfl, hshift b7 _ 0 rfl]
  have hterm : ∀ (b : UInt8) (t : UInt64),
      (b.toUInt64 <<< t).toBitVec = b.toBitVec.setWidth 64 <<< (t.toBitVec % 64) := fun _ _ => rfl
  have hlast : b7.toUInt64.toBitVec = b7.toBitVec.setWidth 64 <<< 0 := (BitVec.shiftLeft_zero _).symm
  have hnothing : pack 8 topByte [] >>> (8 + 8 + 8 + 8 + 8 + 8 + 8 + 8) = 0#64 := rfl
  simp only [persistenceCrc64LoadBe64, UInt64.toBitVec_or, BitVec.or_assoc, hterm, hlast]
  rw [hnothing, BitVec.or_zero]
  rfl

theorem crc64Word_eq (crc : UInt64) (b0 b1 b2 b3 b4 b5 b6 b7 : UInt8) :
    crc64Word crc (persistenceCrc64LoadBe64 b0 b1 b2 b3 b4 b5 b6 b7) =
      [b0, b1, b2, b3, b4, b5, b6, b7].foldl crc64Byte crc := by
  rw [← UInt64.toBitVec_inj, crc64Word_toBitVec, foldl_crc64Byte,
    feed_eq topByte_clear (by exact Nat.le_refl 64), UInt64.toBitVec_xor,
    persistenceCrc64LoadBe64_packed]
  rfl

theorem persistenceCrc64Update_eq (crc : UInt64) (bytes : Bytes) :
    persistenceCrc64Update crc bytes = bytes.foldl crc64Byte crc := by
  fun_induction persistenceCrc64Update crc bytes with
  | case1 crc b0 b1 b2 b3 b4 b5 b6 b7 rest ih =>
    rw [ih, crc64Word_eq, ← List.foldl_append]
    simp only [List.cons_append, List.nil_append]
  | case2 crc bytes => rfl

/-- The sliced checksum is the bitwise one from every state, and the extents of a text may be folded one
after the other. -/
theorem crc64_sliced_eq_bitwise :
    (∀ crc bytes, persistenceCrc64Update crc bytes = crc64Bitwise crc bytes) ∧
      (∀ bytes, persistenceCrc64 bytes = crc64Bitwise 0 bytes) ∧
      (∀ bytes, persistenceCrc64Reference bytes = crc64Bitwise 0 bytes) ∧
      ∀ extents : List Bytes,
        extents.foldl persistenceCrc64Update 0 = persistenceCrc64 extents.flatten := by
  have hupdate : ∀ crc bytes, persistenceCrc64Update crc bytes = crc64Bitwise crc bytes := by
    intro crc bytes
    rw [persistenceCrc64Update_eq, foldl_crc64Byte_bits]
  have hextents : ∀ (extents : List Bytes) (crc : UInt64),
      extents.foldl persistenceCrc64Update crc =
        persistenceCrc64Update crc extents.flatten := by
    intro extents
    induction extents with
    | nil => intro crc; rfl
    | cons bytes extents ih =>
      intro crc
      rw [List.foldl_cons, ih, List.flatten_cons]
      simp only [persistenceCrc64Update_eq, List.foldl_append]
  refine ⟨hupdate, hupdate 0, ?_, fun extents => hextents extents 0⟩
  intro bytes
  exact foldl_crc64Byte_bits 0 bytes

end ServerEngine
