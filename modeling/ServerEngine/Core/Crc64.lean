import ServerEngine.Core.Status

/-! # The checksum of the persisted formats

CRC-64/ECMA-182, from tables, eight bytes at a time and the rest one by one.
-/
namespace ServerEngine

def persistenceCrc64Polynomial : UInt64 := 0x42f0e1eba9ea3693

def crc64Shift (crc : UInt64) : UInt64 :=
  if crc &&& ((1 : UInt64) <<< 63) ≠ 0 then (crc <<< 1) ^^^ persistenceCrc64Polynomial
  else crc <<< 1

def persistenceCrc64Table (index : UInt8) : UInt64 :=
  Nat.repeat crc64Shift 8 (index.toUInt64 <<< 56)

def persistenceCrc64AdvanceZero (crc : UInt64) : UInt64 :=
  (crc <<< 8) ^^^ persistenceCrc64Table (crc >>> 56).toUInt8

/-- `persistence_crc64_slicing_table`: the last slice is the table, every other one is advanced
from the next. -/
def persistenceCrc64SlicingTable (slice : Nat) (index : UInt8) : UInt64 :=
  Nat.repeat persistenceCrc64AdvanceZero (7 - slice) (persistenceCrc64Table index)

def persistenceCrc64LoadBe64 (b0 b1 b2 b3 b4 b5 b6 b7 : UInt8) : UInt64 :=
  (b0.toUInt64 <<< 56) ||| (b1.toUInt64 <<< 48) ||| (b2.toUInt64 <<< 40) |||
    (b3.toUInt64 <<< 32) ||| (b4.toUInt64 <<< 24) ||| (b5.toUInt64 <<< 16) |||
    (b6.toUInt64 <<< 8) ||| b7.toUInt64

def crc64Word (crc word : UInt64) : UInt64 :=
  let value := crc ^^^ word
  persistenceCrc64SlicingTable 0 (value >>> 56).toUInt8 ^^^
    persistenceCrc64SlicingTable 1 (value >>> 48).toUInt8 ^^^
    persistenceCrc64SlicingTable 2 (value >>> 40).toUInt8 ^^^
    persistenceCrc64SlicingTable 3 (value >>> 32).toUInt8 ^^^
    persistenceCrc64SlicingTable 4 (value >>> 24).toUInt8 ^^^
    persistenceCrc64SlicingTable 5 (value >>> 16).toUInt8 ^^^
    persistenceCrc64SlicingTable 6 (value >>> 8).toUInt8 ^^^
    persistenceCrc64SlicingTable 7 value.toUInt8

def crc64Byte (crc : UInt64) (byte : UInt8) : UInt64 :=
  (crc <<< 8) ^^^ persistenceCrc64Table ((crc >>> 56).toUInt8 ^^^ byte)

def persistenceCrc64Update (crc : UInt64) : Bytes → UInt64
  | b0 :: b1 :: b2 :: b3 :: b4 :: b5 :: b6 :: b7 :: rest =>
    persistenceCrc64Update (crc64Word crc (persistenceCrc64LoadBe64 b0 b1 b2 b3 b4 b5 b6 b7)) rest
  | bytes => bytes.foldl crc64Byte crc

def persistenceCrc64 (bytes : Bytes) : UInt64 := persistenceCrc64Update 0 bytes

def persistenceCrc64Reference (bytes : Bytes) : UInt64 := bytes.foldl crc64Byte 0

/-- The check value of the source's own assertion. -/
example : persistenceCrc64 [0x31, 0x32, 0x33, 0x34, 0x35, 0x36, 0x37, 0x38, 0x39] =
    0x6c40df5f0b497347 := by
  decide +kernel

end ServerEngine
