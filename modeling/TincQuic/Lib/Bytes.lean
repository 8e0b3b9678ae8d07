import Mathlib.Data.Nat.Bitwise
import Mathlib.Tactic.Common

/-!
# Bytes

Text and numbers as C programs put them on the wire.  `ascii` is a string literal as the bytes
it is stored as, and `shiftLeft_or_eq` is the shift-and-or by which C code assembles a number
from its parts.
-/

namespace Bytes

/-- The bytes of a string literal. -/
def ascii (s : String) : List UInt8 := s.toList.map (fun c => UInt8.ofNat c.toNat)

/-- `(x << k) | y` puts `y` below `x` when it fits. -/
lemma shiftLeft_or_eq {k y : ℕ} (x : ℕ) (hy : y < 2 ^ k) : x <<< k ||| y = x * 2 ^ k + y := by
  rw [← Nat.shiftLeft_add_eq_or_of_lt hy, Nat.shiftLeft_eq]

end Bytes
