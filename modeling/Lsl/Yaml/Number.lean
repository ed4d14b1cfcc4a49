import Lsl.Yaml.Quoted
/-!
# Numbers in plain text

A plain scalar is an integer or a decimal fraction if its text has the form of one.  Integers are
written in base 10, or in another base after a mark, and have to fit into 128 bits; fractions have
to round to a finite number of double precision.  Several decimal digits that start with a zero are
no number.
-/

namespace Lsl.Yaml

/-- The value of digits in a base, at least one. -/
def readDigits? (base : Nat) : List Char → Option Nat
  | [] => none
  | cs => cs.foldlM (fun n c => (digit? base c).map (base * n + ·)) 0

/-- The value of digits after an optional mark of their base. -/
def readNatural? : List Char → Option Nat
  | '0' :: 'x' :: digits => readDigits? 16 digits
  | '0' :: 'o' :: digits => readDigits? 8 digits
  | '0' :: 'b' :: digits => readDigits? 2 digits
  | '0' :: _ :: _ => none
  | digits => readDigits? 10 digits

/-- The value of a text that has the form of an integer. -/
def readInt? (text : String) : Option Int :=
  match text.toList with
  | '-' :: rest => do
    let value ← readNatural? rest
    if value ≤ Nat.pow 2 127 then some (-value) else none
  | '+' :: rest | rest => do
    let value ← readNatural? rest
    if value < Nat.pow 2 128 then some value else none

/-- The exponent of a decimal fraction, with its mark. -/
def readExponent? : List Char → Option Int
  | [] => some 0
  | c :: rest =>
    if c = 'e' ∨ c = 'E' then
      match rest with
      | '-' :: digits => (readDigits? 10 digits).map fun n => -(n : Int)
      | '+' :: digits | digits => (readDigits? 10 digits).map Int.ofNat
    else none

/-- The digits of a decimal fraction, and the power of ten that belongs to the last of them. -/
def readDecimal? (cs : List Char) : Option (List Char × Int) :=
  let whole := cs.takeWhile Char.isDigit
  let (fraction, rest) :=
    match cs.dropWhile Char.isDigit with
    | '.' :: rest => (rest.takeWhile Char.isDigit, rest.dropWhile Char.isDigit)
    | rest => ([], rest)
  if whole.isEmpty && fraction.isEmpty then none
  else (readExponent? rest).map fun exponent => (whole ++ fraction, exponent - fraction.length)

/-- Whether a decimal fraction rounds to a finite number of double precision, which it does below
2 ^ 1024 - 2 ^ 970. -/
def isFiniteDecimal (digits : List Char) (exponent : Int) : Bool :=
  let significant := digits.dropWhile (· = '0')
  let magnitude := exponent + significant.length
  if significant.isEmpty || magnitude < 300 then true
  else if magnitude > 400 then false
  else
    let value := (readDigits? 10 significant).getD 0
    let limit := Nat.pow 2 1024 - Nat.pow 2 970
    if 0 ≤ exponent then value * Nat.pow 10 exponent.toNat < limit
    else value < limit * Nat.pow 10 (-exponent).toNat

/-- A text without its sign. -/
def unsigned (text : String) : List Char :=
  match text.toList with
  | '+' :: rest | '-' :: rest => rest
  | rest => rest

/-- Whether a text is several decimal digits that start with a zero. -/
def isPadded (text : String) : Bool :=
  let digits := unsigned text
  digits.length > 1 && digits.head? == some '0' && digits.all Char.isDigit

/-- Whether a text has the form of a decimal fraction, or is a name of infinity or of no number. -/
def isFraction (text : String) : Bool :=
  [".inf", ".Inf", ".INF", "+.inf", "+.Inf", "+.INF", "-.inf", "-.Inf", "-.INF", ".nan", ".NaN",
    ".NAN"].contains text ||
  (readDecimal? (unsigned text)).any fun (digits, exponent) => isFiniteDecimal digits exponent

end Lsl.Yaml
