import ManagedCode.Text.Hex

/-!
# Written values

A value in an assembly text or a document is written as an integer or as a word of text. The
readers here accept an integer only in the range of what it is read as.
-/

namespace ManagedCode.Text

/-- An integer or a word of text. -/
inductive Written where
  | int (i : Int)
  | text (s : String)
  deriving DecidableEq, Repr

namespace Written

/-- An integer from `low` to `high`. -/
def between? (low high : Int) : Written → Option Int
  | int i => if low ≤ i ∧ i ≤ high then some i else none
  | text _ => none

/-- An integer of so many bits without a sign. -/
def nat? (bits : Nat) (w : Written) : Option Nat :=
  match w with
  | int i => if 0 ≤ i ∧ i.toNat < Nat.pow 2 bits then some i.toNat else none
  | text _ => none

def byte? (w : Written) : Option UInt8 := (w.nat? 8).map UInt8.ofNat

def word16? (w : Written) : Option UInt16 := (w.nat? 16).map UInt16.ofNat

def word32? (w : Written) : Option UInt32 := (w.nat? 32).map UInt32.ofNat

def signed32? (w : Written) : Option Int32 :=
  (w.between? (-0x80000000) 0x7FFFFFFF).map Int32.ofInt

def signed64? (w : Written) : Option Int := 
  w.between? (-0x8000000000000000) 0x7FFFFFFFFFFFFFFF

/-- A word of 64 bits: an integer, which wraps when it is negative, or hexadecimal digits after
`0x`. -/
def word64? : Written → Option UInt64
  | text s =>
      match s.toList with
      | '0' :: 'x' :: digits =>
          ((ofHexDigits? digits).filter (· ≤ 0xFFFFFFFFFFFFFFFF)).map UInt64.ofNat
      | _ => none
  | w =>
      (w.between? (-0x8000000000000000) 0xFFFFFFFFFFFFFFFF).map fun i =>
        (Int64.ofInt i).toUInt64

/-- A pattern of 32 bits: exactly eight hexadecimal digits. -/
def pattern32? : Written → Option UInt32
  | text s => if s.length = 8 then (ofHexDigits? s.toList).map UInt32.ofNat else none
  | int _ => none

end Written

end ManagedCode.Text
