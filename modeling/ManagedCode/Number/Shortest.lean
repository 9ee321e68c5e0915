/-!
# Shortest decimals

The decimal numeral of a binary floating-point number is the one with the fewest digits
that reads back as the same number, and of those the nearest to it.

* `Rounding` is a positive number together with the interval of reals that round to it,
  all three over one denominator.
* `Decimal` is a numeral as digits and the place of its point.
* `Rounding.shortest` finds the numeral: for one digit, two digits and so on it tries the
  two neighbours of the number on that decimal grid, and the first grid with a neighbour
  in the interval wins.
-/

namespace ManagedCode.Number

/-- A positive number `value / scale` and the reals that round to it, which lie between
`low / scale` and `high / scale`; `closed` tells whether the two ends belong to them. -/
structure Rounding where
  value : Nat
  low : Nat
  high : Nat
  scale : Nat
  closed : Bool

/-- The numeral `0.d₁d₂…dₙ · 10 ^ point`, where `digits` is the number `d₁d₂…dₙ`. -/
structure Decimal where
  digits : Nat
  point : Int
  deriving DecidableEq, Repr

/-- How many decimal digits a number has; zero has one. -/
def digitCount (n : Nat) : Nat :=
  (Nat.toDigits 10 n).length

namespace Rounding

/-- Where the decimal point stands: `10 ^ (point - 1) ≤ value / scale < 10 ^ point`.
Multiplying by a power of ten above `scale` first makes the whole part positive. -/
def point (r : Rounding) : Int :=
  let shift := digitCount r.scale
  (digitCount (r.value * Nat.pow 10 shift / r.scale) : Int) - shift

/-- The better of the two neighbours of the number on the grid of multiples of `10 ^ unit`,
counted in grid steps, if one of them lies in the interval. Of two at the same distance the
upper one is taken. -/
def neighbour? (r : Rounding) (unit : Int) : Option Nat :=
  let up := Nat.pow 10 (-unit).toNat
  let step := r.scale * Nat.pow 10 unit.toNat
  let below := r.value * up / step
  let rest := r.value * up % step
  let lowOk := if r.closed then r.low * up ≤ below * step else r.low * up < below * step
  let highOk :=
    if r.closed then (below + 1) * step ≤ r.high * up else (below + 1) * step < r.high * up
  if lowOk then
    if highOk then
      some (if step ≤ 2 * rest then below + 1 else below)
    else some below
  else if highOk then some (below + 1)
  else none

/-- Tries `n`, `n + 1`, … digits, at most `fuel` more counts. -/
def shortestFrom (r : Rounding) (point : Int) : Nat → Nat → Option Decimal
  | 0, _ => none
  | fuel + 1, n =>
      match r.neighbour? (point - n) with
      | some steps => some ⟨steps, point - n + digitCount steps⟩
      | none => shortestFrom r point fuel (n + 1)

/-- The shortest numeral in the interval, with at most `limit` digits. -/
def shortest? (r : Rounding) (limit : Nat) : Option Decimal :=
  r.shortestFrom r.point limit 1

end Rounding

/-- Drops the zeros that end a digit string. -/
def dropTrailingZeros (digits : List Char) : List Char :=
  (digits.reverse.dropWhile (· == '0')).reverse

/-- A numeral written out in full: no exponent, no zeros after the last digit of a
fraction, a zero before the point of a number below one. -/
def Decimal.positional (d : Decimal) : String :=
  let digits := dropTrailingZeros (Nat.toDigits 10 d.digits)
  let zeros (n : Nat) : List Char := List.replicate n '0'
  if d.point ≤ 0 then
    String.ofList ('0' :: '.' :: zeros (-d.point).toNat ++ digits)
  else
    let whole := d.point.toNat
    if digits.length ≤ whole then
      String.ofList (digits ++ zeros (whole - digits.length))
    else
      String.ofList (digits.take whole ++ '.' :: digits.drop whole)

end ManagedCode.Number
