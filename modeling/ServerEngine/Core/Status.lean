import Mathlib.Algebra.Order.Ring.Int

/-! # Status codes and machine bounds

`status` of the source is `Except StatusCode`: the code `ok` is `Except.ok`, every other code is an
error. The bounds are the ones `std::numeric_limits` gives for the widths the source uses, and text
is a list of bytes.
-/
namespace ServerEngine

/-- The failing codes of `status_code`, in the order of the source. -/
inductive StatusCode
  | initializationFailed
  | configurationFailed
  | ioFailed
  | invalidArgument
  | semanticConflict
  | notFound
  | persistenceFailed
  | artifactCorrupt
  | rebuildRequired
  | notAvailable
  | invalidState
  deriving DecidableEq

/-- `std::numeric_limits<std::uint32_t>::max()`. -/
def u32Max : Nat := 4294967295

/-- `std::numeric_limits<std::size_t>::max()` on the 64-bit targets. -/
def sizeMax : Nat := 18446744073709551615

/-- A `std::string_view` of the source is its bytes. -/
abbrev Bytes := List UInt8

end ServerEngine
