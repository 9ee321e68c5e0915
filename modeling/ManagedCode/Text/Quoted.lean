import ManagedCode.Text.Glyph
import ManagedCode.Text.Hex

/-!
# Quoted names

Lists of names in diagnostics are written with every name between double quotes, so that a
name with a comma or a quote in it cannot be mistaken for two names.
-/

namespace ManagedCode.Text

def quoteChar (c : Char) : String :=
  match c with
  | '\x00' => "\\0"
  | '\t' => "\\t"
  | '\n' => "\\n"
  | '\r' => "\\r"
  | '"' => "\\\""
  | '\\' => "\\\\"
  | _ => if standsAlone c then c.toString else "\\u\x7b" ++ hexDigits c.toNat ++ "\x7d"

def quote (s : String) : String :=
  "\"" ++ String.join (s.toList.map quoteChar) ++ "\""

/-- A bracketed list of quoted names. -/
def quoteList (names : List String) : String :=
  "[" ++ ", ".intercalate (names.map quote) ++ "]"

end ManagedCode.Text
