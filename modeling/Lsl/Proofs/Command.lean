import Lsl.Command.Run
import Lsl.Proofs.Trace
import Mathlib.Data.List.Forall2
/-!
# Files are processed independently

What a file adds to the output, to the log and to the count of failures depends on that file and the
settings only, not on the files before it.  So a run shows the files one after the other, a run of
two lists of files shows what runs of each would show, and a file that fails leaves no trace in the
output.
-/

namespace Lsl.Command

/-- The canonical form of a script under the settings: its functions announce themselves if the
settings ask for that, and it is laid out at their width. -/
def Settings.canonicalForm (settings : Settings) (script : Script) : String :=
  let shown :=
    if settings.traceEntry then script.mapFunctions (·.announced settings.diagnosticFunction)
    else script
  (Node.script shown).render settings.indentWidth

/-- A script compiles exactly if it can be read, and then to its canonical form; tracing never
fails. -/
theorem compile_eq (settings : Settings) (source : String) :
    compile settings source = settings.canonicalForm <$> parseScript source := by
  unfold compile Settings.canonicalForm
  cases parseScript source with
  | error error => rfl
  | ok script =>
    cases settings.traceEntry with
    | false => rfl
    | true =>
      dsimp only [bind, Except.bind]
      rw [if_pos rfl, script.traceEntry_eq]
      rfl

/-- The canonical form of a file, if the file can be read and compiled. -/
def rendering? (settings : Settings) : Content → Option String
  | .ok source => (parseScript source).toOption.map settings.canonicalForm
  | .error _ => none

/-- The entry tells what became of the file. -/
def LogEntry.Tells (read : String → Content) (file : String) : LogEntry → Prop
  | rendered name =>
    name = file ∧ ∃ source script, read file = .ok source ∧ parseScript source = .ok script
  | compileFailed name error =>
    name = file ∧ ∃ source, read file = .ok source ∧ parseScript source = .error error
  | unreadable name error => name = file ∧ read file = .error error

/-! ## One file after the other -/

namespace Progress

/-- What two parts of a run show together. -/
instance : Append Progress where
  append p q := ⟨p.output ++ q.output, p.log ++ q.log, p.failed + q.failed⟩

@[simp] theorem output_append (p q : Progress) : (p ++ q).output = p.output ++ q.output := rfl

@[simp] theorem log_append (p q : Progress) : (p ++ q).log = p.log ++ q.log := rfl

@[simp] theorem failed_append (p q : Progress) : (p ++ q).failed = p.failed + q.failed := rfl

theorem append_assoc (p q r : Progress) : p ++ q ++ r = p ++ (q ++ r) := by
  ext1
  · exact String.append_assoc
  · exact List.append_assoc _ _ _
  · exact Nat.add_assoc _ _ _

theorem append_empty (p : Progress) : p ++ ({} : Progress) = p := by
  ext1
  · exact String.append_empty
  · exact List.append_nil _
  · rfl

theorem fail_eq_append (progress : Progress) (entry : LogEntry) :
    progress.fail entry = progress ++ ({} : Progress).fail entry := by
  ext1
  · exact String.append_empty.symm
  · rfl
  · rfl

theorem render_eq_append (progress : Progress) (file text : String) :
    progress.render file text = progress ++ ({} : Progress).render file text := by
  ext1
  · simp [Progress.render, String.append_assoc]
  · rfl
  · rfl

variable (settings : Settings) (read : String → Content)

/-- A file adds the same whatever was shown before it. -/
theorem next_eq_append (progress : Progress) (file : String) :
    progress.next settings read file = progress ++ Progress.next settings read {} file := by
  unfold next
  split
  · exact fail_eq_append progress _
  · split
    · exact render_eq_append progress file _
    · exact fail_eq_append progress _

/-- So do several files. -/
theorem foldl_next_eq_append (files : List String) (progress : Progress) :
    files.foldl (next settings read) progress =
      progress ++ files.foldl (next settings read) {} := by
  induction files generalizing progress with
  | nil => exact (append_empty progress).symm
  | cons file files ih =>
    rw [List.foldl_cons, List.foldl_cons, ih, ih (next settings read {} file), ← append_assoc,
      ← next_eq_append]

/-- What is shown after the files, all of which are accounted for. -/
structure Accounts (files : List String) (progress : Progress) : Prop where
  output : progress.output = String.join
    (files.filterMap fun file => (rendering? settings (read file)).map (· ++ "\n"))
  log : List.Forall₂ (LogEntry.Tells read) files progress.log
  failed : progress.failed = files.countP fun file => (rendering? settings (read file)).isNone

variable {settings read}

theorem Accounts.empty : Accounts settings read [] {} :=
  ⟨rfl, .nil, rfl⟩

theorem Accounts.append {fs gs : List String} {p q : Progress} (hp : Accounts settings read fs p)
    (hq : Accounts settings read gs q) : Accounts settings read (fs ++ gs) (p ++ q) where
  output := by
    rw [output_append, hp.output, hq.output, List.filterMap_append, String.join_append]
  log := List.rel_append hp.log hq.log
  failed := by
    rw [failed_append, hp.failed, hq.failed, List.countP_append]

theorem accounts_fail {file : String} {entry : LogEntry} (htells : entry.Tells read file)
    (hnone : rendering? settings (read file) = none) :
    Accounts settings read [file] (fail {} entry) where
  output := by simp [hnone, fail]
  log := .cons htells .nil
  failed := by simp [hnone, fail]

theorem accounts_render {file text : String}
    (htells : (LogEntry.rendered file).Tells read file)
    (hsome : rendering? settings (read file) = some text) :
    Accounts settings read [file] (Progress.render {} file text) where
  output := by simp [hsome, Progress.render]
  log := .cons htells .nil
  failed := by simp [hsome, Progress.render]

/-- One file is accounted for, whether it is printed, cannot be compiled or cannot be read. -/
theorem accounts_next (file : String) :
    Accounts settings read [file] (next settings read {} file) := by
  unfold next
  split
  · next error hread =>
    apply accounts_fail
    · exact ⟨rfl, hread⟩
    · rw [hread, rendering?]
  · next source hread =>
    rw [compile_eq]
    cases hparse : parseScript source with
    | ok script =>
      apply accounts_render
      · exact ⟨rfl, source, script, hread, hparse⟩
      · rw [hread, rendering?, hparse]
        rfl
    | error error =>
      apply accounts_fail
      · exact ⟨rfl, source, hread, hparse⟩
      · rw [hread, rendering?, hparse]
        rfl

theorem accounts_foldl (files : List String) :
    Accounts settings read files (files.foldl (next settings read) {}) := by
  induction files with
  | nil => exact .empty
  | cons file files ih =>
    rw [List.foldl_cons, foldl_next_eq_append]
    exact (accounts_next file).append ih

end Progress

/-- What becomes of a file does not depend on which files there are. -/
theorem next_files (settings : Settings) (read : String → Content) (files : List String) :
    Progress.next { settings with files := files } read = Progress.next settings read := by
  funext progress file
  unfold Progress.next compile
  dsimp only

/-! ## Whole runs -/

section

variable (settings : Settings) (read : String → Content)

/-- A run shows what its files add up to; without files it shows nothing. -/
theorem shown_processFiles :
    (processFiles settings read).output =
      (settings.files.foldl (Progress.next settings read) {}).output ∧
    (processFiles settings read).log =
      (settings.files.foldl (Progress.next settings read) {}).log := by
  unfold processFiles
  cases settings.files with
  | nil => exact ⟨rfl, rfl⟩
  | cons file files =>
    rw [List.isEmpty_cons, if_neg Bool.false_ne_true]
    dsimp only
    split <;> exact ⟨rfl, rfl⟩

/-- How a run over some files ends: without a word if none has failed. -/
theorem ending_processFiles (hne : settings.files ≠ []) :
    ((settings.files.foldl (Progress.next settings read) {}).failed = 0 ∧
      (processFiles settings read).exit = 0 ∧ (processFiles settings read).complaint? = none) ∨
    ((settings.files.foldl (Progress.next settings read) {}).failed ≠ 0 ∧
      (processFiles settings read).exit = 1 ∧
      (processFiles settings read).complaint? = some (.failures
        (settings.files.foldl (Progress.next settings read) {}).failed settings.files.length)) := by
  have hfiles : settings.files.isEmpty = false := by simpa using hne
  unfold processFiles
  rw [hfiles, if_neg Bool.false_ne_true]
  dsimp only
  split
  · next hzero => exact .inl ⟨hzero, rfl, rfl⟩
  · next hfailed => exact .inr ⟨hfailed, rfl, rfl⟩

/-- The report tells of all files of a run, each by itself. -/
structure Report.Covers (report : Report) : Prop where
  /-- The canonical forms of the files that were read and compiled, in order, each on lines of its
  own. -/
  output : report.output = String.join
    (settings.files.filterMap fun file => (rendering? settings (read file)).map (· ++ "\n"))
  /-- One entry for every file, in order. -/
  log : List.Forall₂ (LogEntry.Tells read) settings.files report.log
  /-- The run succeeds exactly if every file does. -/
  success : report.exit = 0 ↔
    ∀ file ∈ settings.files, (rendering? settings (read file)).isSome = true
  complaint_of_success : report.exit = 0 → report.complaint? = none
  /-- A run that does not succeed ends with the numbers of failed files and of all files. -/
  complaint_of_failure : report.exit ≠ 0 → report.exit = 1 ∧
    report.complaint?.map Complaint.message =
      some (toString (settings.files.countP fun file => (rendering? settings (read file)).isNone) ++
        " of " ++ toString settings.files.length ++ " files failed")

theorem covers_processFiles (hne : settings.files ≠ []) :
    Report.Covers settings read (processFiles settings read) := by
  obtain ⟨houtput, hlog, hcount⟩ := @Progress.accounts_foldl settings read settings.files
  have hall : (settings.files.countP fun file => (rendering? settings (read file)).isNone) = 0 ↔
      ∀ file ∈ settings.files, (rendering? settings (read file)).isSome = true := by
    rw [List.countP_eq_zero]
    simp [Option.isSome_iff_ne_none]
  rw [← (shown_processFiles settings read).1] at houtput
  rw [← (shown_processFiles settings read).2] at hlog
  rcases ending_processFiles settings read hne with ⟨hfailed, hexit, hcomplaint⟩ |
    ⟨hfailed, hexit, hcomplaint⟩
  · rw [hcount, hall] at hfailed
    exact ⟨houtput, hlog, iff_of_true hexit hfailed, fun _ => hcomplaint,
      fun hne => absurd hexit hne⟩
  · rw [hcount] at hcomplaint
    rw [hcount, Ne, hall] at hfailed
    refine ⟨houtput, hlog, iff_of_false (by simp [hexit]) hfailed, fun hzero => ?_, fun _ => ?_⟩
    · rw [hexit] at hzero
      cases hzero
    · refine ⟨hexit, ?_⟩
      rw [hcomplaint]
      rfl

/-- What a run over two lists of files shows is what is shown for the one and then for the other. -/
theorem processFiles_append (fs gs : List String) :
    (processFiles { settings with files := fs ++ gs } read).output =
      (processFiles { settings with files := fs } read).output ++
        (processFiles { settings with files := gs } read).output ∧
    (processFiles { settings with files := fs ++ gs } read).log =
      (processFiles { settings with files := fs } read).log ++
        (processFiles { settings with files := gs } read).log := by
  have happend : (fs ++ gs).foldl (Progress.next settings read) {} =
      fs.foldl (Progress.next settings read) {} ++ gs.foldl (Progress.next settings read) {} := by
    rw [List.foldl_append, Progress.foldl_next_eq_append]
  simp only [shown_processFiles, next_files]
  rw [happend]
  exact ⟨rfl, rfl⟩

end

/-- The files of a run are processed independently.  The output holds the canonical forms of exactly
the files that were read and compiled, and the log has one entry for every file; the run succeeds
exactly if all files do, and otherwise ends with how many have failed.  Two lists of files show what
each of them shows, and a file that fails changes nothing in the output for the others. -/
theorem processFiles_independent (settings : Settings) (read : String → Content)
    (hne : settings.files ≠ []) :
    Report.Covers settings read (processFiles settings read) ∧
    (∀ fs gs : List String,
      (processFiles { settings with files := fs ++ gs } read).output =
        (processFiles { settings with files := fs } read).output ++
          (processFiles { settings with files := gs } read).output ∧
      (processFiles { settings with files := fs ++ gs } read).log =
        (processFiles { settings with files := fs } read).log ++
          (processFiles { settings with files := gs } read).log) ∧
    ∀ (fs gs : List String) (file : String), rendering? settings (read file) = none →
      (processFiles { settings with files := fs ++ file :: gs } read).output =
        (processFiles { settings with files := fs ++ gs } read).output := by
  refine ⟨covers_processFiles settings read hne, processFiles_append settings read, ?_⟩
  intro fs gs file hfile
  have hempty : (processFiles { settings with files := [file] } read).output = "" := by
    have hcovers := covers_processFiles { settings with files := [file] } read (by simp)
    have hnone : rendering? { settings with files := [file] } (read file) = none := hfile
    rw [hcovers.output]
    simp [hnone]
  calc (processFiles { settings with files := fs ++ file :: gs } read).output
      = (processFiles { settings with files := fs } read).output ++
          ((processFiles { settings with files := [file] } read).output ++
            (processFiles { settings with files := gs } read).output) := by
        rw [(processFiles_append settings read fs (file :: gs)).1,
          ← (processFiles_append settings read [file] gs).1]
        rfl
    _ = (processFiles { settings with files := fs ++ gs } read).output := by
        rw [hempty, String.empty_append, (processFiles_append settings read fs gs).1]

/-- A script with one function, which calls another. -/
def sampleCaller : Script :=
  ⟨[.function ⟨none, some "f", [], some ⟨[.expression (.leaf (.node (.call (some "g") [])))]⟩⟩], []⟩

/-- The content of some files: that script, one that breaks off, and a file that is no text. There
are no others. -/
def sampleContent : String → Content
  | "a.lsl" => .ok "f()\n\x7b\ng();\n\x7d"
  | "b.lsl" => .ok "f("
  | "c.lsl" => .error .notText
  | _ => .error .missing

/-- A traced run over these files, one of which occurs twice, and over one that is missing. -/
def sampleSettings : Settings :=
  { files := ["a.lsl", "b.lsl", "c.lsl", "d.lsl", "a.lsl"], traceEntry := true }

theorem processFiles_independent_sample :
    sampleSettings.files ≠ [] ∧
    Report.Covers sampleSettings sampleContent (processFiles sampleSettings sampleContent) ∧
    (processFiles sampleSettings sampleContent).output =
      "f()\n\x7b\n  llOwnerSay(\"f\");\n  g();\n\x7d\n" ++
        "f()\n\x7b\n  llOwnerSay(\"f\");\n  g();\n\x7d\n" ∧
    (processFiles sampleSettings sampleContent).complaint?.map Complaint.message =
      some "3 of 5 files failed" := by
  have hne : sampleSettings.files ≠ [] := List.cons_ne_nil _ _
  have hcovers := (processFiles_independent sampleSettings sampleContent hne).1
  have hparse : parseScript "f()\n\x7b\ng();\n\x7d" = .ok sampleCaller := by
    have htext : (Node.script sampleCaller).render 0 = "f()\n\x7b\ng();\n\x7d" := by decide +kernel
    rw [← htext]
    exact parseScript_render_of_canonical (by decide +kernel) 0
  have hfirst : rendering? sampleSettings (sampleContent "a.lsl") =
      some "f()\n\x7b\n  llOwnerSay(\"f\");\n  g();\n\x7d" := by
    rw [sampleContent, rendering?, hparse]
    decide +kernel
  have hsecond : rendering? sampleSettings (sampleContent "b.lsl") = none := by decide +kernel
  have hthird : rendering? sampleSettings (sampleContent "c.lsl") = none := rfl
  have hfourth : rendering? sampleSettings (sampleContent "d.lsl") = none := rfl
  refine ⟨hne, hcovers, ?_, ?_⟩
  · rw [hcovers.output]
    simp only [sampleSettings, List.filterMap_cons, List.filterMap_nil]
    rw [← sampleSettings, hfirst, hsecond, hthird, hfourth]
    rfl
  · have hexit : (processFiles sampleSettings sampleContent).exit ≠ 0 := by
      intro hzero
      have hb := hcovers.success.1 hzero "b.lsl" (by simp [sampleSettings])
      rw [hsecond] at hb
      cases hb
    rw [(hcovers.complaint_of_failure hexit).2]
    simp only [sampleSettings, List.countP_cons, List.countP_nil]
    rw [← sampleSettings, hfirst, hsecond, hthird, hfourth]
    rfl

end Lsl.Command
