import Scriptlet.Program.Dump
import Scriptlet.Program.Printer
import Scriptlet.Shell.Module

/-! What a command writes, and how it ends. -/
namespace Scriptlet

/-- The text for the two output streams and the exit code. `timed` is the word of a last status line,
to which the elapsed time is added. -/
structure Report where
  stdout : String := ""
  stderr : String := ""
  code : Nat := 0
  timed : Option String := none

namespace Report

def status (word text : String) : String :=
  String.ofList (List.replicate (11 - word.length) ' ') ++ word ++ " " ++ text ++ "\n"

/-- The report with its last line, given how long the command took. -/
def withTime (r : Report) (time : String) : Report :=
  match r.timed with
  | none => r
  | some word => { r with stderr := r.stderr ++ status word ("in " ++ time), timed := none }

def failed (r : Report) (render : List Diagnostic → String) (f : Failure) : Report :=
  { r with stderr := r.stderr ++ render f.diagnostics, code := 1 }

end Report

def Program.shown (dump : Bool) (p : Program) : String :=
  (if dump then p.outline.page 0 else p.text) ++ "\n"

def Notice.texts (notices : List Notice) : String := String.join (notices.map Notice.text)

def checkReport (files : Files) (path : String) (optimize quiet dump : Bool) : Report :=
  let start : Report := { stderr := Report.status "Checking" path }
  match loadStream optimize path (files path) with
  | .error f => start.failed Diagnostic.renderAll f
  | .ok loaded =>
    { stdout := if quiet then "" else loaded.program.shown dump
      stderr := start.stderr ++ Notice.texts (loaded.notices path)
      timed := some "Checked" }

def runReport (files : Files) (path : String) (options : Options) (dump : Bool)
    (input : Stdin) (clock : Clock) : Report :=
  let start : Report := { stderr := Report.status "Running" path }
  match loadFile options.optimize path (files path) with
  | .error f => start.failed Diagnostic.renderAll f
  | .ok loaded =>
    let session := Session.start (Module.context options files) input clock
    let (result, session) := session.perform fun ev c env => do
      Action.notify (loaded.notices path)
      ev.run c env loaded.program
    let report : Report :=
      { stdout := (if dump then loaded.program.shown true else "") ++ session.machine.output
        stderr := start.stderr ++ Notice.texts session.machine.notices.toList }
    match result with
    | .ok (.ok _) => { report with timed := some "Finished" }
    | .ok (.error e) => report.failed Diagnostic.renderAll (.runtime path loaded.source e)
    | .error _ => { report with code := 1 }

end Scriptlet
