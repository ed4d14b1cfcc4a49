/-!
# Lines of a text

A line ends at a line feed, or at a carriage return directly before one.  A text that ends in a line
end has no further line after it, and a carriage return elsewhere is an ordinary character.
-/

namespace Lsl.Text

/-- Puts a character in front of the first line. -/
def addToFirst (c : Char) : List (List Char) → List (List Char)
  | [] => [[c]]
  | line :: rest => (c :: line) :: rest

/-- The lines of a text, without their line ends. -/
def splitLines : List Char → List (List Char)
  | [] => []
  | '\r' :: '\n' :: rest => [] :: splitLines rest
  | '\n' :: rest => [] :: splitLines rest
  | c :: rest => addToFirst c (splitLines rest)

/-- The lines of a text, without their line ends. -/
def lines (text : String) : List String :=
  (splitLines text.toList).map String.ofList

/-- Puts `width` blanks in front of every line that is not empty. -/
def indent (width : Nat) (text : String) : String :=
  let pad := String.ofList (List.replicate width ' ')
  String.intercalate "\n" <| (lines text).map fun line => if line.isEmpty then "" else pad ++ line

end Lsl.Text
