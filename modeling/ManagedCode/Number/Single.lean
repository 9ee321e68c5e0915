import ManagedCode.Number.Shortest

/-!
# Single-precision numbers

A `Single` is the 32-bit pattern of a single-precision number. Keeping the pattern, and not
the number, keeps the two zeros and all the not-a-number patterns apart; the arithmetic goes
through the numbers.
-/

namespace ManagedCode.Number

/-- The bit pattern of a single-precision number. -/
structure Single where
  bits : UInt32
  deriving DecidableEq, Hashable, Repr, Inhabited

namespace Single

def toFloat (s : Single) : Float32 :=
  Float32.ofBits s.bits

def ofFloat (x : Float32) : Single :=
  ⟨x.toBits⟩

def add (a b : Single) : Single := ofFloat (a.toFloat + b.toFloat)
def sub (a b : Single) : Single := ofFloat (a.toFloat - b.toFloat)
def mul (a b : Single) : Single := ofFloat (a.toFloat * b.toFloat)
def div (a b : Single) : Single := ofFloat (a.toFloat / b.toFloat)

/-- Numeric equality: the two zeros are equal and not-a-number equals nothing. -/
def eq (a b : Single) : Bool := a.toFloat == b.toFloat

/-- Numeric order; false when either side is not a number. -/
def lt (a b : Single) : Bool := a.toFloat < b.toFloat

/-- Numeric order or equality; false when either side is not a number. -/
def le (a b : Single) : Bool := a.toFloat ≤ b.toFloat

/-- The nearest number to an integer. -/
def ofInt (i : Int32) : Single := ofFloat i.toFloat32

/-- The whole part of a number, held to the range of the result; not-a-number gives zero. -/
def toInt (s : Single) : Int32 := s.toFloat.toInt32

def negative (s : Single) : Bool := s.bits >>> 31 == 1

def exponentField (s : Single) : Nat := (s.bits >>> 23 &&& 0xff).toNat

def fractionField (s : Single) : Nat := (s.bits &&& 0x7fffff).toNat

/-- The absolute value of a finite pattern with the interval that rounds to it. The value is
`m · 2 ^ q`; the interval reaches half a step up and half a step down, but only a quarter
down where the steps below are half as wide. Its ends belong to it when `m` is even. -/
def rounding (s : Single) : Rounding :=
  let e := s.exponentField
  let f := s.fractionField
  let m := if e = 0 then f else f + 0x800000
  let q : Int := (if e = 0 then 1 else (e : Int)) - 150 - 2
  let up := Nat.pow 2 q.toNat
  { value := 4 * m * up
    low := (if f = 0 ∧ 1 < e then 4 * m - 1 else 4 * m - 2) * up
    high := (4 * m + 2) * up
    scale := Nat.pow 2 (-q).toNat
    closed := m % 2 = 0 }

/-- The text of a number: the shortest decimal, written out in full, with the sign of zero
kept. Nine digits always suffice. -/
def text (s : Single) : String :=
  if s.exponentField = 255 ∧ s.fractionField ≠ 0 then "NaN"
  else
    let sign := if s.negative then "-" else ""
    let magnitude :=
      if s.exponentField = 255 then "inf"
      else if s.exponentField = 0 ∧ s.fractionField = 0 then "0"
      else ((s.rounding.shortest? 9).map Decimal.positional).getD "0"
    sign ++ magnitude

end Single

/-- The bit pattern of the quotient of two counts as a double-precision number; zero when
there is nothing to divide by. -/
def ratioBits (part whole : Nat) : UInt64 :=
  if whole = 0 then (0.0 : Float).toBits
  else (Float.ofNat part / Float.ofNat whole).toBits

end ManagedCode.Number
