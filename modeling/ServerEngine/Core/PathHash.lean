import ServerEngine.Core.Hash

/-! # Path hashes

The 64-bit hash of a path, in stripes of four lanes and a tail, and the fingerprint kept beside an
index entry.
-/
namespace ServerEngine

namespace PathHash

def prime1 : Nat := 11400714785074694791

def prime2 : Nat := 14029467366897019727

def prime3 : Nat := 1609587929392839161

def prime4 : Nat := 9650029242287828579

def prime5 : Nat := 2870177450012600261

def add64 (a b : Nat) : Nat := (a + b) % 2 ^ 64

def rotl (value count : Nat) : Nat := ((value <<< count) ||| (value >>> (64 - count))) % 2 ^ 64

def round (accumulator input : Nat) : Nat :=
  mul64 (rotl (add64 accumulator (mul64 input prime2)) 31) prime1

/-- `read64` and `read32` at the start of the bytes, in the order of a little-endian machine. -/
def read (count : Nat) (bytes : List UInt8) : Nat :=
  (bytes.take count).foldr (fun byte rest => byte.toNat + 256 * rest) 0

def stripes : Nat → List UInt8 → List Nat → List Nat
  | 0, _, lanes => lanes
  | count + 1, bytes, lanes =>
    stripes count (bytes.drop 32)
      (lanes.mapIdx fun i lane => round lane (read 8 (bytes.drop (8 * i))))

def striped (value : List UInt8) : Nat :=
  let lanes := stripes (value.length / 32) value
    [add64 prime1 prime2, prime2, 0, 2 ^ 64 - prime1]
  let hash := (lanes.zip [1, 7, 12, 18]).foldl (fun hash lane => add64 hash (rotl lane.1 lane.2)) 0
  lanes.foldl (fun hash lane => add64 (mul64 (hash ^^^ round 0 lane) prime1) prime4) hash

def words : Nat → List UInt8 → Nat → Nat
  | 0, _, hash => hash
  | count + 1, bytes, hash =>
    words count (bytes.drop 8)
      (add64 (mul64 (rotl (hash ^^^ round 0 (read 8 bytes)) 27) prime1) prime4)

def tail (bytes : List UInt8) (hash : Nat) : Nat :=
  let half := 4 ≤ bytes.length
  let hash := if half then
      add64 (mul64 (rotl (hash ^^^ mul64 (read 4 bytes) prime1) 23) prime2) prime3
    else hash
  (if half then bytes.drop 4 else bytes).foldl
    (fun hash byte => mul64 (rotl (hash ^^^ mul64 byte.toNat prime5) 11) prime1) hash

def finish (hash : Nat) : Nat :=
  let hash := hash ^^^ (hash >>> 33)
  let hash := mul64 hash prime2
  let hash := hash ^^^ (hash >>> 29)
  let hash := mul64 hash prime3
  hash ^^^ (hash >>> 32)

end PathHash

open PathHash

def hashPath (value : List UInt8) : Nat :=
  let hash := if 32 ≤ value.length then striped value else prime5
  let rest := if 32 ≤ value.length then value.drop (32 * (value.length / 32)) else value
  let hash := add64 hash value.length
  let hash := words (rest.length / 8) rest hash
  finish (tail (rest.drop (8 * (rest.length / 8))) hash)

def pathFingerprint (hash : Nat) : Nat := fold32 hash

end ServerEngine
