/-!
# Little-endian words

A word is laid out in memory and in code with its least significant byte first.

* `encodeLE` lists the lowest bytes of a word in that order.
* `decodeLE` reads such a list back.
-/

namespace ManagedCode

/-- The lowest `n` bytes of a word, least significant first. -/
def encodeLE : Nat → UInt64 → List UInt8
  | 0, _ => []
  | n + 1, w => w.toUInt8 :: encodeLE n (w >>> 8)

/-- The word whose bytes, least significant first, are given. -/
def decodeLE : List UInt8 → UInt64
  | [] => 0
  | b :: rest => b.toUInt64 + decodeLE rest * 256

@[simp] theorem length_encodeLE (n : Nat) (w : UInt64) : (encodeLE n w).length = n := by
  induction n generalizing w with
  | zero => rfl
  | succ n ih => simp [encodeLE, ih]

end ManagedCode
