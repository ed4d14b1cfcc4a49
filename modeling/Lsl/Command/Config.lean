import Lsl.Command.Settings
import Lsl.Yaml.Value
/-!
# Configuration files

The entries of a configuration file take the place of what the arguments say.  Keys that name no
setting are ignored, and of several entries for one key the last counts.  A value that does not fit
its setting makes the whole file unusable.
-/

namespace Lsl.Yaml.Value

def toText? : Value → Option String
  | text value => some value
  | _ => none

def toBool? : Value → Option Bool
  | bool value => some value
  | _ => none

/-- A whole number from 0 and below the limit. -/
def toWidth? : Value → Option Nat
  | int (.ofNat value) => if value < Command.wordLimit then some value else none
  | _ => none

def toTexts? : Value → Option (List String)
  | list items => items.mapM toText?
  | _ => none

/-- A text, or nothing where the value is null. -/
def toOptionalText? : Value → Option (Option String)
  | null => some none
  | value => value.toText?.map some

end Lsl.Yaml.Value

namespace Lsl.Command

open Lsl.Yaml (Value)

/-- The value of a setting: from the entry of its key if there is one, else as it was. -/
def overriding {α : Type} (entries : List (String × Value)) (key : String) (read : Value → Option α)
    (value : α) : Option α :=
  match entries.lookup key with
  | some entry => read entry
  | none => some value

/-- The settings with the entries, latest first, in place of what they say. -/
def Settings.override? (settings : Settings) (entries : List (String × Value)) :
    Option Settings := do
  return {
    files := ← overriding entries "files" Value.toTexts? settings.files
    traceEntry := ← overriding entries "trace_entry" Value.toBool? settings.traceEntry
    diagnosticFunction :=
      ← overriding entries "diagnostic_function" Value.toText? settings.diagnosticFunction
    indentWidth := ← overriding entries "indent_width" Value.toWidth? settings.indentWidth
    debug := ← overriding entries "debug" Value.toBool? settings.debug
    configFile := ← overriding entries "config_file" Value.toOptionalText? settings.configFile }

/-- The settings with a configuration text in place of what they say. -/
def Settings.configure? (settings : Settings) (text : String) : Option Settings := do
  settings.override? (← Yaml.entries? text).reverse

end Lsl.Command
