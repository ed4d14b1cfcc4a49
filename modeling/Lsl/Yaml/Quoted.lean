import Lsl.Yaml.Gap
/-!
# Quoted scalars

Between single quotes a doubled quote stands for one.  Between double quotes a backslash starts an
escape: a letter for one character, a number in base 16 for any character, or a line end, which is
then left out together with the blanks after it.
-/

namespace Lsl.Yaml

/-- The value of a digit in a base up to 16. -/
def digit? (base : Nat) (c : Char) : Option Nat :=
  let value :=
    if c.isDigit then c.toNat - '0'.toNat
    else if 'a' ≤ c ∧ c ≤ 'f' then c.toNat - 'a'.toNat + 10
    else if 'A' ≤ c ∧ c ≤ 'F' then c.toNat - 'A'.toNat + 10
    else base
  if value < base then some value else none

/-- The character that a letter after a backslash stands for. -/
def unescape? : Char → Option Char
  | '0' => some '\u0000'
  | 'a' => some '\u0007'
  | 'b' => some '\u0008'
  | 't' | '\t' => some '\t'
  | 'n' => some '\n'
  | 'v' => some '\u000b'
  | 'f' => some '\u000c'
  | 'r' => some '\r'
  | 'e' => some '\u001b'
  | ' ' => some ' '
  | '\x22' => some '\x22'
  | '/' => some '/'
  | '\\' => some '\\'
  | 'N' => some '\u0085'
  | '_' => some '\u00a0'
  | 'L' => some '\u2028'
  | 'P' => some '\u2029'
  | _ => none

/-- How many digits of a character's code follow a letter after a backslash. -/
def codeDigits? : Char → Option Nat
  | 'x' => some 2
  | 'u' => some 4
  | 'U' => some 8
  | _ => none

/-- The character with a code, which surrogates are not. -/
def charOfCode? (code : Nat) : Option Char :=
  if code.isValidChar then some (Char.ofNat code) else none

/-- Reads up to the closing single quote: the text, and what follows it. -/
def readSingleQuoted (text : List Char) (gap : Gap) : List Glyph → Option (String × List Glyph)
  | [] => none
  | g :: rest =>
    if isBreak g.char then readSingleQuoted text (gap.addBreak g.char) rest
    else if isBlank g.char then readSingleQuoted text (gap.addBlank g.char) rest
    else if startsMark (g :: rest) then none
    else if g.char == '\x27' then
      match rest with
      | ⟨'\x27', _⟩ :: rest => readSingleQuoted ('\x27' :: (gap.folded ++ text)) .empty rest
      | _ => some (String.ofList (gap.folded ++ text).reverse, rest)
    else readSingleQuoted (g.char :: (gap.folded ++ text)) .empty rest

mutual

/-- Reads up to the closing double quote: the text, and what follows it. -/
def readDoubleQuoted (text : List Char) (gap : Gap) : List Glyph → Option (String × List Glyph)
  | [] => none
  | g :: rest =>
    if isBreak g.char then readDoubleQuoted text (gap.addBreak g.char) rest
    else if isBlank g.char then readDoubleQuoted text (gap.addBlank g.char) rest
    else if startsMark (g :: rest) then none
    else if g.char == '\x22' then some (String.ofList (gap.folded ++ text).reverse, rest)
    else if g.char == '\\' then
      match rest with
      | [] => none
      | e :: rest =>
        if isBreak e.char then readDoubleQuoted (gap.folded ++ text) (.breaks none []) rest
        else
          match unescape? e.char, codeDigits? e.char with
          | some c, _ => readDoubleQuoted (c :: (gap.folded ++ text)) .empty rest
          | none, some digits => readCode (gap.folded ++ text) digits 0 rest
          | none, none => none
    else readDoubleQuoted (g.char :: (gap.folded ++ text)) .empty rest

/-- Reads the digits that are left of a character's code, and then up to the closing quote. -/
def readCode (text : List Char) (digits code : Nat) : List Glyph → Option (String × List Glyph)
  | [] => none
  | g :: rest => do
    let code := 16 * code + (← digit? 16 g.char)
    if digits ≤ 1 then readDoubleQuoted ((← charOfCode? code) :: text) .empty rest
    else readCode text (digits - 1) code rest

end

end Lsl.Yaml
