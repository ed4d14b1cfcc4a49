import Lsl.Command.Run
/-!
# The command line program

Reads the files that a run asks for, and shows what the run reports: printed scripts on standard
output, log and complaint on standard error.
-/

namespace Lsl.Command

/-- What the system says about a failure to read. -/
def readErrorOf : IO.Error → ReadError
  | .alreadyExists _ number reason | .interrupted _ number reason
  | .noFileOrDirectory _ number reason | .invalidArgument _ number reason
  | .permissionDenied _ number reason | .resourceExhausted _ number reason
  | .inappropriateType _ number reason | .noSuchThing _ number reason
  | .otherError number reason | .resourceBusy number reason | .resourceVanished number reason
  | .unsupportedOperation number reason | .hardwareFault number reason
  | .unsatisfiedConstraints number reason | .illegalOperation number reason
  | .protocolError number reason | .timeExpired number reason => .system reason number.toNat
  | error => .system error.toString 0

/-- Reads a file as text. -/
def readContent (file : String) : IO Content := do
  try
    let bytes ← (← IO.FS.Handle.mk file .read).readBinToEnd
    return match String.fromUTF8? bytes with
      | some text => .ok text
      | none => .error .notText
  catch error => return .error (readErrorOf error)

/-- Reads files, each with its name. -/
def readContents (files : List String) : IO (List (String × Content)) :=
  files.mapM fun file => return (file, ← readContent file)

/-- The content that was read for a file. -/
def contentOf (contents : List (String × Content)) (file : String) : Content :=
  (contents.lookup file).getD (.error .missing)

end Lsl.Command

open Lsl.Command

/-- Runs the command and ends with its exit code. -/
def main (arguments : List String) : IO UInt32 := do
  let contents ← match Request.ofArguments arguments with
    | .run settings => do
      let config ← readContents settings.configFile.toList
      match settings.configured? (contentOf config) with
      | some settings => pure (config ++ (← readContents settings.files))
      | none => pure config
    | _ => pure []
  let report := run arguments (contentOf contents)
  IO.print report.output
  for entry in report.log do
    IO.eprintln (entry.level ++ " " ++ entry.message)
  if let some complaint := report.complaint? then
    IO.eprintln ("Error: " ++ complaint.message)
  return UInt32.ofNat report.exit
