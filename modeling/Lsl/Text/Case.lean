import Lsl.Text.CaseData
/-!
# Letter case

Upper and lower case of single characters, and lower case of whole texts.  A character may become
several.  The lower case of a text differs from that of its characters in one place only: a capital
sigma at the end of a word is written `ς`.
-/

namespace Lsl.Text

/-- The image of `c` under the mapping given by `runs` and `expansions`. -/
def mapCase (runs : List CaseRun) (expansions : List (Nat × List Nat)) (c : Char) : List Char :=
  match runs.find? (·.contains c.toNat) with
  | some run => [Char.ofNat (Int.toNat (c.toNat + run.shift))]
  | none =>
    match expansions.lookup c.toNat with
    | some points => points.map Char.ofNat
    | none => [c]

/-- The lower case form of a character standing alone. -/
def lowerChar (c : Char) : List Char :=
  mapCase lowerRuns lowerExpansions c

/-- The upper case form of a character. -/
def upperChar (c : Char) : List Char :=
  mapCase upperRuns upperExpansions c

/-- Whether `c` lies in one of the intervals. -/
def inIntervals (intervals : List (Nat × Nat)) (c : Char) : Bool :=
  intervals.any fun (first, last) => first ≤ c.toNat && c.toNat ≤ last

def isCased : Char → Bool :=
  inIntervals casedIntervals

def isCaseIgnorable : Char → Bool :=
  inIntervals caseIgnorableIntervals

/-- Whether the first character that is not case-ignorable is a cased one. -/
def meetsCased (chars : List Char) : Bool :=
  match chars.dropWhile isCaseIgnorable with
  | c :: _ => isCased c
  | [] => false

/-- A capital sigma is final when a cased letter stands before it and none after it. `before` lists
the preceding characters, nearest first. -/
def isFinalSigma (before after : List Char) : Bool :=
  meetsCased before && !meetsCased after

/-- Lower case of a text that follows the characters `before`, nearest first. -/
def lowerAfter (before : List Char) : List Char → List Char
  | [] => []
  | c :: rest =>
    let image := if c = 'Σ' then [if isFinalSigma before rest then 'ς' else 'σ'] else lowerChar c
    image ++ lowerAfter (c :: before) rest

/-- The lower case form of a text. -/
def lower (text : String) : String :=
  String.ofList (lowerAfter [] text.toList)

end Lsl.Text
