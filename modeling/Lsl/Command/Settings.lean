/-!
# Settings of a run

What a run of the command is told to do, and how arguments are read into it.  Arguments are read
from left to right, and the first one that ends the reading decides.
-/

namespace Lsl.Command

/-- The settings of a run. -/
structure Settings where
  /-- The scripts to process, in order. -/
  files : List String := []
  /-- Whether every function is made to announce itself. -/
  traceEntry : Bool := false
  /-- The function that announcements call. -/
  diagnosticFunction : String := "llOwnerSay"
  /-- Blanks per level of nesting. -/
  indentWidth : Nat := 2
  debug : Bool := false
  /-- A file whose entries take the place of what the arguments say. -/
  configFile : Option String := none
  deriving DecidableEq, Repr

/-- The options of the command. -/
inductive Opt where
  | traceEntry
  | diagnosticFunction
  | indentWidth
  | debug
  | configFile
  | version
  deriving DecidableEq, Repr

namespace Opt

/-- The option with this name after its two dashes. -/
def ofName? : String → Option Opt
  | "trace-entry" => some traceEntry
  | "diagnostic-function" => some diagnosticFunction
  | "indent-width" => some indentWidth
  | "debug" => some debug
  | "config-file" => some configFile
  | "version" => some version
  | _ => none

def takesValue : Opt → Bool
  | diagnosticFunction | indentWidth | configFile => true
  | traceEntry | debug | version => false

end Opt

/-- What the arguments ask for. -/
inductive Request where
  | run (settings : Settings)
  | version
  /-- The arguments are not understood. -/
  | invalid
  deriving DecidableEq, Repr

/-- Numbers that are given as settings are below 2 ^ 64. -/
def wordLimit : Nat := 18446744073709551616

/-- The value of decimal digits, at least one, and below the limit. -/
def readWord? (digits : List Char) : Option Nat :=
  if digits.isEmpty || !digits.all Char.isDigit then none
  else
    let value := digits.foldl (fun n c => 10 * n + (c.toNat - '0'.toNat)) 0
    if value < wordLimit then some value else none

/-- A width: decimal digits, possibly after a plus sign. -/
def readWidth? (text : String) : Option Nat :=
  match text.toList with
  | '+' :: digits => readWord? digits
  | digits => readWord? digits

/-- Settings that are being read, with the options given so far. -/
structure Reading where
  settings : Settings := {}
  given : List Opt := []

namespace Reading

/-- Adds a file; its name must not be empty. -/
def addFile? (reading : Reading) (name : String) : Option Reading :=
  if name.isEmpty then none
  else some { reading with
    settings := { reading.settings with files := reading.settings.files ++ [name] } }

/-- Notes that an option was given; none may be given twice. -/
def give? (reading : Reading) (opt : Opt) : Option Reading :=
  if reading.given.contains opt then none else some { reading with given := opt :: reading.given }

/-- Switches a flag on. -/
def setFlag (reading : Reading) (opt : Opt) : Reading :=
  match opt with
  | .traceEntry => { reading with settings := { reading.settings with traceEntry := true } }
  | .debug => { reading with settings := { reading.settings with debug := true } }
  | _ => reading

/-- Sets an option to a value. -/
def setValue? (reading : Reading) (opt : Opt) (value : String) : Option Reading := do
  let reading ← reading.give? opt
  match opt with
  | .diagnosticFunction =>
    return { reading with settings := { reading.settings with diagnosticFunction := value } }
  | .indentWidth =>
    return { reading with settings := { reading.settings with indentWidth := ← readWidth? value } }
  | .configFile =>
    return { reading with settings := { reading.settings with configFile := some value } }
  | _ => none

end Reading

/-- How an argument is taken before `--` has been met. -/
inductive Argument where
  /-- Two dashes: all that follows are files. -/
  | escape
  /-- An option with the value attached to it by an equals sign, if there is one. -/
  | long (name : String) (value? : Option String)
  /-- A single dash with letters. -/
  | short (letters : List Char)
  | plain (text : String)
  deriving DecidableEq, Repr

/-- How an argument is taken. A lone dash is a plain argument. -/
def Argument.of (text : String) : Argument :=
  match text.toList with
  | ['-', '-'] => escape
  | '-' :: '-' :: rest =>
    let name := String.ofList (rest.takeWhile (· ≠ '='))
    match rest.dropWhile (· ≠ '=') with
    | _ :: value => long name (some (String.ofList value))
    | [] => long name none
  | '-' :: c :: rest => short (c :: rest)
  | _ => plain text

/-- Files up to the end of the arguments. -/
def readFiles (reading : Reading) : List String → Request
  | [] => .run reading.settings
  | name :: rest =>
    match reading.addFile? name with
    | some reading => readFiles reading rest
    | none => .invalid

/-- Reads arguments one by one. -/
def readArguments (reading : Reading) : List String → Request
  | [] => .run reading.settings
  | text :: rest =>
    match Argument.of text with
    | .escape => readFiles reading rest
    | .plain name =>
      match reading.addFile? name with
      | some reading => readArguments reading rest
      | none => .invalid
    | .short letters => if letters.head? = some 'V' then .version else .invalid
    | .long name value? =>
      match Opt.ofName? name, value?, rest with
      | none, _, _ => .invalid
      | some .version, none, _ => .version
      | some opt, some value, rest =>
        match reading.setValue? opt value with
        | some reading => readArguments reading rest
        | none => .invalid
      | some opt, none, rest =>
        if opt.takesValue then
          match rest with
          | [] => .invalid
          | value :: rest =>
            match Argument.of value with
            | .plain value =>
              match reading.setValue? opt value with
              | some reading => readArguments reading rest
              | none => .invalid
            | _ => .invalid
        else
          match reading.give? opt with
          | some reading => readArguments (reading.setFlag opt) rest
          | none => .invalid

/-- What the arguments ask for. -/
def Request.ofArguments (arguments : List String) : Request :=
  readArguments {} arguments

end Lsl.Command
