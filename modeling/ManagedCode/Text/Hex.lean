/-!
# Numerals of fixed width and base

The spellings of numbers that diagnostics and listings use: hexadecimal addresses,
zero-padded byte values and zero-padded positions; and the readers of hexadecimal numbers and
byte strings.
-/

namespace ManagedCode.Text

/-- Puts zeros before a numeral until it has the given width. -/
def padZeros (width : Nat) (digits : String) : String :=
  "".pushn '0' (width - digits.length) ++ digits

/-- The lower-case hexadecimal digits of a number; zero is one digit. -/
def hexDigits (n : Nat) : String :=
  String.ofList (Nat.toDigits 16 n)

/-- A number after `0x`, without leading zeros. -/
def hex (n : Nat) : String :=
  "0x" ++ hexDigits n

/-- A 64-bit word after `0x`. -/
def hexWord (w : UInt64) : String :=
  hex w.toNat

/-- A byte after `0x`, always with two digits. -/
def hexByte (b : UInt8) : String :=
  "0x" ++ padZeros 2 (hexDigits b.toNat)

/-- A position in a listing, in decimal with at least four digits. -/
def position (n : Nat) : String :=
  padZeros 4 (toString n)

/-- An offset in a listing, in hexadecimal with at least four digits. -/
def offset (n : Nat) : String :=
  padZeros 4 (hexDigits n)

/-- A signed number that always carries its sign. -/
def signed (i : Int) : String :=
  if i < 0 then toString i else "+" ++ toString i

/-- The value of a digit in a base of at most sixteen; letters count in either case. -/
def digitValue? (base : Nat) (c : Char) : Option Nat :=
  let value? :=
    if c.isDigit then some (c.toNat - '0'.toNat)
    else if 'a' ≤ c ∧ c ≤ 'f' then some (c.toNat - 'a'.toNat + 10)
    else if 'A' ≤ c ∧ c ≤ 'F' then some (c.toNat - 'A'.toNat + 10)
    else none
  value?.filter (· < base)

/-- The number that hexadecimal digits stand for; there must be one at least. -/
def ofHexDigits? (digits : List Char) : Option Nat :=
  if digits.isEmpty then none
  else digits.foldlM (fun n c => return n * 16 + (← digitValue? 16 c)) 0

/-- A byte string with two digits per byte. -/
def hexBytes (bytes : List UInt8) : String :=
  bytes.foldl
    (fun s b => (s.push (Nat.digitChar (b.toNat / 16))).push (Nat.digitChar (b.toNat % 16))) ""

/-- The bytes that pairs of digits stand for, after those read before. -/
def readHexBytes? (bytes : Array UInt8) : List Char → Option (Array UInt8)
  | [] => some bytes
  | [_] => none
  | high :: low :: rest => do
      let byte := (← digitValue? 16 high) * 16 + (← digitValue? 16 low)
      readHexBytes? (bytes.push (UInt8.ofNat byte)) rest

/-- Reads a byte string with two digits per byte. -/
def ofHexBytes? (text : String) : Option (Array UInt8) :=
  readHexBytes? #[] text.toList

end ManagedCode.Text
