import ManagedCode.Settings.Basic
import ManagedCode.Text.Hex
import ManagedCode.Text.Lines

/-!
# Settings documents

Settings are written one to a line as `key = value`. A key stands bare or in quotes, a value is
an integer or one of `true` and `false`, and `#` starts a comment. This is the part of TOML that
a flat list of sizes and switches needs; a document that uses any other form has no meaning
here and is refused.
-/

namespace ManagedCode.Settings

open Text (digitValue?)

inductive Value where
  | int (n : Int)
  | bool (b : Bool)
  deriving DecidableEq, Repr

/-! ## Characters -/

def isBlank (c : Char) : Bool := c == ' ' || c == '\t'

/-- Comments hold no control characters but the tab. -/
def isCommentChar (c : Char) : Bool :=
  c == '\t' || (0x20 ≤ c.toNat && c.toNat != 0x7F)

def isBareKeyChar (c : Char) : Bool :=
  c.isAlphanum || c == '_' || c == '-'

/-! ## Integers -/

/-- Reads digits up to the end after those read before, with single underscores between
them. -/
def readDigits? (base : Nat) (value : Nat) : List Char → Option Nat
  | [] => some value
  | '_' :: c :: rest => do readDigits? base (value * base + (← digitValue? base c)) rest
  | c :: rest => do readDigits? base (value * base + (← digitValue? base c)) rest

/-- Reads a numeral, which starts with a digit. -/
def readNumeral? (base : Nat) : List Char → Option Nat
  | [] => none
  | c :: rest => do readDigits? base (← digitValue? base c) rest

/-- Reads a decimal numeral, which has no leading zero. -/
def readDecimal? (text : List Char) : Option Nat :=
  match text with
  | '0' :: _ :: _ => none
  | _ => readNumeral? 10 text

/-- Reads an integer: decimal with an optional sign, or in another base after its mark. -/
def readInt? : List Char → Option Int
  | '0' :: 'x' :: rest => (readNumeral? 16 rest).map Int.ofNat
  | '0' :: 'o' :: rest => (readNumeral? 8 rest).map Int.ofNat
  | '0' :: 'b' :: rest => (readNumeral? 2 rest).map Int.ofNat
  | '-' :: rest => (readDecimal? rest).map fun n => -(n : Int)
  | '+' :: rest => (readDecimal? rest).map Int.ofNat
  | text => (readDecimal? text).map Int.ofNat

/-- The largest integer in a document. -/
def maxInt : Int := 0x7FFFFFFFFFFFFFFF

def readValue? (text : List Char) : Option Value :=
  if text = "true".toList then some (.bool true)
  else if text = "false".toList then some (.bool false)
  else ((readInt? text).filter (· ≤ maxInt)).map .int

/-! ## Keys -/

/-- The character with a hexadecimal code. -/
def readCode? (digits : List Char) : Option Char := do
  let code ← Text.ofHexDigits? digits
  if code.isValidChar then some (Char.ofNat code) else none

/-- Reads a key in double quotes after its opening quote, and what follows it. -/
def readQuoted? (key : List Char) : List Char → Option (String × List Char)
  | '"' :: rest => some (String.ofList key.reverse, rest)
  | '\\' :: 'b' :: rest => readQuoted? ('\x08' :: key) rest
  | '\\' :: 't' :: rest => readQuoted? ('\t' :: key) rest
  | '\\' :: 'n' :: rest => readQuoted? ('\n' :: key) rest
  | '\\' :: 'f' :: rest => readQuoted? ('\x0c' :: key) rest
  | '\\' :: 'r' :: rest => readQuoted? ('\r' :: key) rest
  | '\\' :: '"' :: rest => readQuoted? ('"' :: key) rest
  | '\\' :: '\\' :: rest => readQuoted? ('\\' :: key) rest
  | '\\' :: 'u' :: a :: b :: c :: d :: rest => do
      readQuoted? ((← readCode? [a, b, c, d]) :: key) rest
  | '\\' :: 'U' :: a :: b :: c :: d :: e :: f :: g :: h :: rest => do
      readQuoted? ((← readCode? [a, b, c, d, e, f, g, h]) :: key) rest
  | '\\' :: _ => none
  | c :: rest => if isCommentChar c then readQuoted? (c :: key) rest else none
  | [] => none

def readKey? (text : List Char) : Option (String × List Char) :=
  match text with
  | '"' :: rest => readQuoted? [] rest
  | '\'' :: rest =>
      match rest.dropWhile (· != '\'') with
      | _ :: after => some (String.ofList (rest.takeWhile (· != '\'')), after)
      | [] => none
  | _ =>
      let key := text.takeWhile isBareKeyChar
      if key.isEmpty then none
      else some (String.ofList key, text.dropWhile isBareKeyChar)

/-! ## Lines -/

/-- Whether nothing but blanks and a comment is left of a line. -/
def isLineEnd (text : List Char) : Bool :=
  match text.dropWhile isBlank with
  | [] => true
  | '#' :: comment => comment.all isCommentChar
  | _ => false

def readSetting? (text : List Char) : Option (String × Value) := do
  let (key, rest) ← readKey? text
  match rest.dropWhile isBlank with
  | '=' :: rest =>
      let rest := rest.dropWhile isBlank
      let inValue := fun c => !isBlank c && c != '#'
      let value ← readValue? (rest.takeWhile inValue)
      if isLineEnd (rest.dropWhile inValue) then some (key, value) else none
  | _ => none

/-- What a line sets, if anything; fails on a line of another form. -/
def readLine? (line : List Char) : Option (Option (String × Value)) :=
  if isLineEnd line then some none
  else (readSetting? (line.dropWhile isBlank)).map some

/-! ## Documents -/

/-- A size: an integer of 64 bits without a sign. -/
def size? : Value → Option Nat
  | .int n => if 0 ≤ n ∧ n ≤ 0xFFFFFFFFFFFFFFFF then some n.toNat else none
  | .bool _ => none

def switch? : Value → Option Bool
  | .bool b => some b
  | .int _ => none

/-- The settings by their keys. -/
def entries (s : Settings) : List (String × Value) :=
  [("heap_size", .int s.heapSize), ("stack_size", .int s.stackSize),
    ("call_stack_capacity", .int s.callCapacity), ("log_allocation", .bool s.logAllocation),
    ("log_deallocation", .bool s.logDeallocation), ("print_allocation", .bool s.printAllocation),
    ("print_deallocation", .bool s.printDeallocation),
    ("print_stack_frame", .bool s.printStackFrame)]

def assign? (s : Settings) (key : String) (value : Value) : Option Settings :=
  match key with
  | "heap_size" => (size? value).map ({ s with heapSize := · })
  | "stack_size" => (size? value).map ({ s with stackSize := · })
  | "call_stack_capacity" => (size? value).map ({ s with callCapacity := · })
  | "log_allocation" => (switch? value).map ({ s with logAllocation := · })
  | "log_deallocation" => (switch? value).map ({ s with logDeallocation := · })
  | "print_allocation" => (switch? value).map ({ s with printAllocation := · })
  | "print_deallocation" => (switch? value).map ({ s with printDeallocation := · })
  | "print_stack_frame" => (switch? value).map ({ s with printStackFrame := · })
  | _ => none

/-- Changes settings in order; no key may stand twice. -/
def assignAll? (s : Settings) (taken : List String) :
    List (String × Value) → Option Settings
  | [] => some s
  | (key, value) :: rest =>
      if taken.contains key then none
      else do assignAll? (← s.assign? key value) (key :: taken) rest

/-- The settings that a text gives; those it does not name keep their defaults. A byte order
mark before the text is skipped. -/
def parse? (text : String) : Option Settings := do
  let chars :=
    match text.toList with
    | '\ufeff' :: rest => rest
    | chars => chars
  let assignments ← (Text.linesAfter [] chars).mapM readLine?
  assignAll? {} [] (assignments.filterMap id)

def ofText (text : String) : Except SettingsError Settings := do
  match parse? text with
  | none => throw .malformed
  | some s =>
      s.check
      return s

/-- Reads settings from the bytes of a file; a file that is missing has none. -/
def ofFile (contents : Option ByteArray) : Except SettingsError Settings :=
  match contents.bind String.fromUTF8? with
  | none => .error .unreadable
  | some text => ofText text

end ManagedCode.Settings
