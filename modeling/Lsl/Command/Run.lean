import Lsl.Command.Config
import Lsl.Program
import Lsl.Text.Visible
import Lsl.Trace
/-!
# Running the command

Each script is read, processed and printed by itself.  A script that fails is logged and counted,
and does not keep the others from being processed.
-/

namespace Lsl.Command

/-- Why a file cannot be read. -/
inductive ReadError where
  /-- The system does not give it, for this reason, which has this number. -/
  | system (reason : String) (number : Nat)
  | notText
  deriving DecidableEq, Repr

namespace ReadError

/-- There is no file of this name. -/
def missing : ReadError :=
  system "No such file or directory" 2

/-- Whether there is no file at all: nothing of this name, nothing that could hold it, or a
directory in its place. -/
def isAbsence : ReadError → Bool
  | system _ number => [2, 20, 21].contains number
  | notText => false

/-- The wording of a failure to read. -/
def message : ReadError → String
  | system reason number => s!"{reason} (os error {number})"
  | notText => "stream did not contain valid UTF-8"

end ReadError

/-- What reading a file gives. -/
abbrev Content : Type :=
  Except ReadError String

/-- A line of the log. -/
inductive LogEntry where
  | rendered (file : String)
  | compileFailed (file : String) (error : Error)
  | unreadable (file : String) (error : ReadError)
  deriving DecidableEq, Repr

namespace LogEntry

/-- Whether the entry tells of a failure. -/
def isFailure : LogEntry → Bool
  | rendered _ => false
  | compileFailed _ _ | unreadable _ _ => true

def level (entry : LogEntry) : String :=
  if entry.isFailure then "ERROR" else "INFO"

/-- The wording of an entry. -/
def wording : LogEntry → String
  | rendered file => s!"Rendered {file}"
  | compileFailed file error => s!"Failed to compile {file}: {error.message}"
  | unreadable file error => s!"Unable to read {file}: {error.message}"

/-- The text of an entry, fit to be shown. -/
def message (entry : LogEntry) : String :=
  Text.visible entry.wording

end LogEntry

/-- What a run ends with when it does not succeed. -/
inductive Complaint where
  | configuration
  | noFiles
  | failures (failed total : Nat)
  deriving DecidableEq, Repr

/-- The wording of a complaint. -/
def Complaint.message : Complaint → String
  | configuration => "configuration error"
  | noFiles => "No input files given"
  | failures failed total => s!"{failed} of {total} files failed"

/-- All that a run shows. -/
structure Report where
  output : String := ""
  log : List LogEntry := []
  complaint? : Option Complaint := none
  /-- The exit code. -/
  exit : Nat := 0

/-- The canonical form of a script under the settings. -/
def compile (settings : Settings) (source : String) : Except Error String := do
  let script ← parseScript source
  let script ←
    if settings.traceEntry then Prod.fst <$> script.traceEntry settings.diagnosticFunction
    else pure script
  return (Node.script script).render settings.indentWidth

/-- What a run has shown so far, and how many files have failed. -/
@[ext] structure Progress where
  output : String := ""
  log : List LogEntry := []
  failed : Nat := 0

namespace Progress

/-- Logs and counts a file that failed. -/
def fail (progress : Progress) (entry : LogEntry) : Progress :=
  { progress with log := progress.log ++ [entry], failed := progress.failed + 1 }

/-- Logs a file and prints its canonical form. -/
def render (progress : Progress) (file text : String) : Progress :=
  { progress with
    output := progress.output ++ text ++ "\n", log := progress.log ++ [.rendered file] }

/-- Processes the next file. -/
def next (settings : Settings) (read : String → Content) (progress : Progress) (file : String) :
    Progress :=
  match read file with
  | .error error => progress.fail (.unreadable file error)
  | .ok source =>
    match compile settings source with
    | .ok text => progress.render file text
    | .error error => progress.fail (.compileFailed file error)

end Progress

/-- Processes the files of the settings in order. -/
def processFiles (settings : Settings) (read : String → Content) : Report :=
  if settings.files.isEmpty then { complaint? := some .noFiles, exit := 1 }
  else
    let ⟨output, log, failed⟩ := settings.files.foldl (Progress.next settings read) {}
    if failed = 0 then { output, log }
    else { output, log, complaint? := some (.failures failed settings.files.length), exit := 1 }

/-- The settings after the configuration file was taken into account; an absent file counts for
nothing. -/
def Settings.configured? (settings : Settings) (read : String → Content) : Option Settings :=
  match settings.configFile with
  | none => some settings
  | some file =>
    match read file with
    | .ok text => settings.configure? text
    | .error error => if error.isAbsence then some settings else none

/-- Runs the command on its arguments. -/
def run (arguments : List String) (read : String → Content) : Report :=
  match Request.ofArguments arguments with
  | .invalid => { exit := 2 }
  | .version => { output := "lslcc 0.1.0\n" }
  | .run settings =>
    match settings.configured? read with
    | none => { complaint? := some .configuration, exit := 1 }
    | some settings => processFiles settings read

end Lsl.Command
