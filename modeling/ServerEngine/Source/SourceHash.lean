import ServerEngine.Core.Text
import ServerEngine.Library.Sha256

/-! # Source hashing

The hash of a source's bytes: a buffer of 64 bytes that is transformed whenever it is full, and the
padding at the end.
-/
namespace ServerEngine
open Sha256 (Words)

namespace SourceHash

/-! ## Functions -/

def rotr (value amount : UInt32) : UInt32 := (value >>> amount) ||| (value <<< (32 - amount))

def choose (x y z : UInt32) : UInt32 := (x &&& y) ^^^ (~~~x &&& z)

def majority (x y z : UInt32) : UInt32 := (x &&& y) ^^^ (x &&& z) ^^^ (y &&& z)

def bigSigma0 (value : UInt32) : UInt32 := rotr value 2 ^^^ rotr value 13 ^^^ rotr value 22

def bigSigma1 (value : UInt32) : UInt32 := rotr value 6 ^^^ rotr value 11 ^^^ rotr value 25

def smallSigma0 (value : UInt32) : UInt32 := rotr value 7 ^^^ rotr value 18 ^^^ (value >>> 3)

def smallSigma1 (value : UInt32) : UInt32 := rotr value 17 ^^^ rotr value 19 ^^^ (value >>> 10)

def roundConstants : List UInt32 := [
  0x428a2f98, 0x71374491, 0xb5c0fbcf, 0xe9b5dba5,
  0x3956c25b, 0x59f111f1, 0x923f82a4, 0xab1c5ed5,
  0xd807aa98, 0x12835b01, 0x243185be, 0x550c7dc3,
  0x72be5d74, 0x80deb1fe, 0x9bdc06a7, 0xc19bf174,
  0xe49b69c1, 0xefbe4786, 0x0fc19dc6, 0x240ca1cc,
  0x2de92c6f, 0x4a7484aa, 0x5cb0a9dc, 0x76f988da,
  0x983e5152, 0xa831c66d, 0xb00327c8, 0xbf597fc7,
  0xc6e00bf3, 0xd5a79147, 0x06ca6351, 0x14292967,
  0x27b70a85, 0x2e1b2138, 0x4d2c6dfc, 0x53380d13,
  0x650a7354, 0x766a0abb, 0x81c2c92e, 0x92722c85,
  0xa2bfe8a1, 0xa81a664b, 0xc24b8b70, 0xc76c51a3,
  0xd192e819, 0xd6990624, 0xf40e3585, 0x106aa070,
  0x19a4c116, 0x1e376c08, 0x2748774c, 0x34b0bcb5,
  0x391c0cb3, 0x4ed8aa4a, 0x5b9cca4f, 0x682e6ff3,
  0x748f82ee, 0x78a5636f, 0x84c87814, 0x8cc70208,
  0x90befffa, 0xa4506ceb, 0xbef9a3f7, 0xc67178f2]

structure Sha256State where
  state : Words UInt32 := ⟨0x6a09e667, 0xbb67ae85, 0x3c6ef372, 0xa54ff53a, 0x510e527f, 0x9b05688c,
    0x1f83d9ab, 0x5be0cd19⟩
  buffer : List UInt8 := List.replicate 64 0
  bufferSize : Nat := 0
  totalBytes : UInt64 := 0

def loadWord (block : List UInt8) (index : Nat) : UInt32 :=
  let offset := index * 4
  ((block.getD offset 0).toUInt32 <<< 24) ||| ((block.getD (offset + 1) 0).toUInt32 <<< 16) |||
    ((block.getD (offset + 2) 0).toUInt32 <<< 8) ||| (block.getD (offset + 3) 0).toUInt32

def scheduleOf (block : List UInt8) : List UInt32 :=
  let loaded := (List.range 16).foldl
    (fun schedule index => schedule.set index (loadWord block index)) (List.replicate 64 0)
  (List.range' 16 48).foldl
    (fun schedule index => schedule.set index
      (smallSigma1 (schedule.getD (index - 2) 0) + schedule.getD (index - 7) 0 +
        smallSigma0 (schedule.getD (index - 15) 0) + schedule.getD (index - 16) 0)) loaded

def compressStep (schedule : List UInt32) (v : Words UInt32) (index : Nat) : Words UInt32 :=
  let temporary1 := v.h + bigSigma1 v.e + choose v.e v.f v.g + roundConstants.getD index 0 +
    schedule.getD index 0
  let temporary2 := bigSigma0 v.a + majority v.a v.b v.c
  { h := v.g, g := v.f, f := v.e, e := v.d + temporary1, d := v.c, c := v.b, b := v.a
    a := temporary1 + temporary2 }

/-- `transform`, of the eight words and a block. -/
def transformWords (state : Words UInt32) (block : List UInt8) : Words UInt32 :=
  state.add ((List.range 64).foldl (compressStep (scheduleOf block)) state)

namespace Sha256State

/-- `transform(buffer.data())`. -/
def transform (s : Sha256State) : Sha256State :=
  { s with state := transformWords s.state s.buffer }

/-- `buffer[buffer_size++] = value`. -/
def put (s : Sha256State) (value : UInt8) : Sha256State :=
  { s with buffer := s.buffer.set s.bufferSize value, bufferSize := s.bufferSize + 1 }

/-- One character of `update`. -/
def updateByte (s : Sha256State) (value : UInt8) : Sha256State :=
  let written := { s.put value with totalBytes := s.totalBytes + 1 }
  if written.bufferSize = 64 then { written.transform with bufferSize := 0 } else written

def update (s : Sha256State) (input : Bytes) : Sha256State := input.foldl updateByte s

def fillZeros (s : Sha256State) (limit : Nat) : Sha256State :=
  (List.range (limit - s.bufferSize)).foldl (fun s _ => s.put 0) s

/-- The state after the last block of `finish`. -/
def finishState (s : Sha256State) : Sha256State :=
  let bitLength := s.totalBytes * 8
  let marked := s.put 0x80
  let opened :=
    if marked.bufferSize > 56 then { (marked.fillZeros 64).transform with bufferSize := 0 }
    else marked
  ((List.range 8).foldl (fun s index =>
    s.put (bitLength >>> UInt64.ofNat ((7 - index) * 8)).toUInt8) (opened.fillZeros 56)).transform

def finish (s : Sha256State) : Bytes :=
  s.finishState.state.toList.flatMap fun word =>
    (List.range 4).map fun byte => ((word >>> UInt32.ofNat ((3 - byte) * 8)) &&& 0xff).toUInt8

end Sha256State

def hashSourceContent (bytes : Bytes) : Bytes := (Sha256State.update {} bytes).finish

/-- `"abc"`. -/
example : (hashSourceContent [97, 98, 99]).take 4 = [0xba, 0x78, 0x16, 0xbf] := by decide +kernel

end SourceHash
end ServerEngine
