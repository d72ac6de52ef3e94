import Mathlib.Algebra.GroupWithZero.Nat
import ServerEngine.Library.BlockStream

/-! # The standard SHA-256

The hash function as its standard states it: constants from roots of primes, padding to whole blocks,
the recurrence of the schedule, sixty-four rounds for a block.
-/
namespace Sha256

abbrev Word := BitVec 32

/-! ## Constants -/

def isPrime (p : Nat) : Bool := 2 ≤ p && (List.range p).all fun d => d < 2 || p % d != 0

def primes : List Nat := (List.range 312).filter isPrime

/-- The `k`-th root of a number below `2 ^ (36 * k)`, bit by bit. -/
def root (k value : Nat) : Nat :=
  (List.range 36).reverse.foldl (fun r bit => if (r + 2 ^ bit) ^ k ≤ value then r + 2 ^ bit else r) 0

/-- The first thirty-two bits of the fraction of a `k`-th root. -/
def rootFraction (k value : Nat) : Word := BitVec.ofNat 32 (root k (value * 2 ^ (32 * k)))

def roundConstant (t : Nat) : Word := rootFraction 3 (primes.getD t 0)

/-- The eight words of a hash, or the eight working variables. -/
structure Words (W : Type) where
  a : W
  b : W
  c : W
  d : W
  e : W
  f : W
  g : W
  h : W
  deriving DecidableEq

namespace Words
variable {V W : Type}

def map (f : V → W) (v : Words V) : Words W :=
  ⟨f v.a, f v.b, f v.c, f v.d, f v.e, f v.f, f v.g, f v.h⟩

def toList (v : Words W) : List W := [v.a, v.b, v.c, v.d, v.e, v.f, v.g, v.h]

def add [Add W] (v w : Words W) : Words W :=
  ⟨v.a + w.a, v.b + w.b, v.c + w.c, v.d + w.d, v.e + w.e, v.f + w.f, v.g + w.g, v.h + w.h⟩

theorem toList_map (f : V → W) (v : Words V) : (v.map f).toList = v.toList.map f := rfl

end Words

def initialHash : Words Word :=
  ⟨rootFraction 2 2, rootFraction 2 3, rootFraction 2 5, rootFraction 2 7, rootFraction 2 11,
    rootFraction 2 13, rootFraction 2 17, rootFraction 2 19⟩

def choose (x y z : Word) : Word := (x &&& y) ^^^ (~~~x &&& z)
def majority (x y z : Word) : Word := (x &&& y) ^^^ (x &&& z) ^^^ (y &&& z)
def bigSigma0 (x : Word) : Word := x.rotateRight 2 ^^^ x.rotateRight 13 ^^^ x.rotateRight 22
def bigSigma1 (x : Word) : Word := x.rotateRight 6 ^^^ x.rotateRight 11 ^^^ x.rotateRight 25
def smallSigma0 (x : Word) : Word := x.rotateRight 7 ^^^ x.rotateRight 18 ^^^ x >>> 3
def smallSigma1 (x : Word) : Word := x.rotateRight 17 ^^^ x.rotateRight 19 ^^^ x >>> 10

def bigEndian {w : Nat} (count : Nat) (x : BitVec w) : List UInt8 :=
  (List.range count).map fun i => UInt8.ofBitVec (x.extractLsb' (8 * (count - 1 - i)) 8)

def pad (message : List UInt8) : List UInt8 :=
  message ++ (0x80 :: List.replicate ((119 - message.length % 64) % 64) 0 ++
    bigEndian 8 (BitVec.ofNat 64 (8 * message.length)))

def wordAt (block : List UInt8) (i : Nat) : Word :=
  (block.getD (4 * i) 0).toBitVec ++ (block.getD (4 * i + 1) 0).toBitVec ++
    (block.getD (4 * i + 2) 0).toBitVec ++ (block.getD (4 * i + 3) 0).toBitVec

def schedule (block : List UInt8) (t : Nat) : Word :=
  if t < 16 then wordAt block t
  else smallSigma1 (schedule block (t - 2)) + schedule block (t - 7) +
    smallSigma0 (schedule block (t - 15)) + schedule block (t - 16)

def round (v : Words Word) (k w : Word) : Words Word :=
  let t1 := v.h + bigSigma1 v.e + choose v.e v.f v.g + k + w
  let t2 := bigSigma0 v.a + majority v.a v.b v.c
  ⟨t1 + t2, v.a, v.b, v.c, v.d + t1, v.e, v.f, v.g⟩

def compress (hash : Words Word) (block : List UInt8) : Words Word :=
  ((List.range 64).foldl (fun v t => round v (roundConstant t) (schedule block t)) hash).add hash

def digest (message : List UInt8) : List UInt8 :=
  (BlockStream.overBlocks 64 compress initialHash (pad message)).toList.flatMap (bigEndian 4)

@[simp] theorem bigEndian_length {w : Nat} (count : Nat) (x : BitVec w) :
    (bigEndian count x).length = count := by
  simp [bigEndian]

theorem pad_length_mod (message : List UInt8) : (pad message).length % 64 = 0 := by
  simp only [pad, List.length_append, List.length_cons, List.length_replicate, bigEndian_length]
  omega

end Sha256
