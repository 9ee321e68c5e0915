/-!
# Lines of a text

A line ends with a line feed, before which a carriage return may stand. The end of the text also
ends a line, but does not take a carriage return with it.
-/

namespace ManagedCode.Text

/-- The lines of a text after the characters that were read of the first one, last one first. -/
def linesAfter (line : List Char) : List Char → List (List Char)
  | [] => [line.reverse]
  | '\r' :: '\n' :: rest => line.reverse :: linesAfter [] rest
  | '\n' :: rest => line.reverse :: linesAfter [] rest
  | c :: rest => linesAfter (c :: line) rest

def lines (text : String) : List String :=
  (linesAfter [] text.toList).map String.ofList

end ManagedCode.Text
