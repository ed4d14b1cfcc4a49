/-!
# Control characters made visible

A text that goes to a terminal shows the characters that could steer the terminal by their codes:
bell, backspace, form feed, escape and delete with two digits, and the controls above ASCII between
braces.  Line ends and other characters stay as they are.
-/

namespace Lsl.Text

/-- A digit in base 16. -/
def hexDigit (n : Nat) : Char :=
  "0123456789abcdef".toList.getD n '0'

/-- The two digits of a number below 256 in base 16. -/
def hexOctet (n : Nat) : List Char :=
  [hexDigit (n / 16), hexDigit (n % 16)]

/-- Characters that are shown by a code of two digits. -/
def steersTerminal (c : Char) : Bool :=
  ['\u0007', '\u0008', '\u000c', '\u001b', '\u007f'].contains c

/-- What is shown for a character. -/
def visibleChar (c : Char) : List Char :=
  if steersTerminal c then ['\\', 'x'] ++ hexOctet c.toNat
  else if 0x80 ≤ c.toNat ∧ c.toNat ≤ 0x9F then ['\\', 'u', '\x7b'] ++ hexOctet c.toNat ++ ['\x7d']
  else [c]

/-- The text with its control characters made visible. -/
def visible (text : String) : String :=
  String.ofList (text.toList.flatMap visibleChar)

end Lsl.Text
