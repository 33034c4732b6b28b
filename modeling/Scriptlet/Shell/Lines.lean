import Scriptlet.Shell.Command
import Scriptlet.Shell.Report

/-! Loops that read a line, answer it, and ask for the next one. -/
namespace Scriptlet

structure Answer where
  stdout : String := ""
  stderr : String := ""

/-- A loop between two lines: the text that asks for a line, the input that the line is read from, what the
line does, and how a failure is shown. The loop ends where there is no next state. -/
structure Dialogue (σ : Type) where
  prompt : σ → String
  stdin : σ → Stdin
  setStdin : σ → Stdin → σ
  respond : σ → String → Answer × Option σ
  render : List Diagnostic → String

def exitWord : String := ".exit"

namespace Dialogue

variable {σ : Type}

def stateless (answer : String → String) : Dialogue Stdin where
  prompt _ := ">> "
  stdin := id
  setStdin _ input := input
  respond input line :=
    if line = "" then ({}, some input)
    else if line = exitWord then ({}, none)
    else ({ stdout := answer line }, some input)
  render := Diagnostic.renderAll

/-- A line of input without its line break, or nothing if it is no text. -/
def readLine? (bytes : List UInt8) : Option String := (Text.decode? bytes).map fun line =>
  let cs := line.toList.reverse
  let cs := match cs with
    | '\n' :: rest => rest
    | cs => cs
  let cs := match cs with
    | '\r' :: rest => rest
    | cs => cs
  String.ofList cs.reverse

def takeLine (d : Dialogue σ) (state : σ) : List UInt8 × σ :=
  let (line, input) := (d.stdin state).shellLine
  (line, d.setStdin state input)

/-- Answers lines until the loop ends or the input does, but no more lines than the limit says: the report,
and the state that is left. A line that is no text ends the loop with a failure. -/
def run (d : Dialogue σ) : Nat → σ → Report → Report × σ
  | 0, state, report => (report, state)
  | limit + 1, state, report =>
    let report := { report with stdout := report.stdout ++ d.prompt state }
    let (bytes, state) := d.takeLine state
    if bytes = [] then (report, state)
    else
      match readLine? bytes with
      | none => (report.failed d.render (.file .invalidText), state)
      | some line =>
        let (answer, next) := d.respond state line
        let report :=
          { report with stdout := report.stdout ++ answer.stdout, stderr := report.stderr ++ answer.stderr }
        match next with
        | some state => d.run limit state report
        | none => (report, state)

end Dialogue

structure Evaluation where
  session : Session
  pending : String := ""

namespace Evaluation

def start (options : Options) (files : Files) (input : Stdin) (clock : Clock) : Evaluation :=
  { session := Session.start (Module.context options files) input clock }

def result (render : List Diagnostic → String) (store : Store) : Outcome → Answer
  | .value .undefined | .unfinished => {}
  | .value v => { stdout := store.inspect v ++ "\n" }
  | .failure f => { stderr := render f.diagnostics }

def isUnfinished : Outcome → Bool
  | .failure f => f.isUnfinished
  | _ => false

/-- Runs the pending lines with a new one. If they stop in the middle of a construct they stay
pending, and an empty line gives up on them. Nothing follows a run that does not end. -/
def respond (render : List Diagnostic → String) (e : Evaluation) (line : String) :
    Answer × Option Evaluation :=
  if line = "" ∧ e.pending = "" then ({}, some e)
  else if line = exitWord then ({}, none)
  else
    let source := e.pending ++ line ++ "\n"
    let (outcome, session) := e.session.run "<repl>" source
    let ((output, notices), session) := session.drain
    if isUnfinished outcome ∧ line ≠ "" then ({}, some { session, pending := source })
    else
      let shown := result render session.store outcome
      let answer : Answer :=
        { stdout := output ++ shown.stdout, stderr := Notice.texts notices ++ shown.stderr }
      (answer, if outcome.ended then some { session } else none)

def dialogue (render : List Diagnostic → String) : Dialogue Evaluation where
  prompt e := if e.pending = "" then ">> " else ".. "
  stdin e := e.session.machine.input
  setStdin e input := { e with session := e.session.setStdin input }
  respond := respond render
  render := render

end Evaluation

def lexAnswer (line : String) : String :=
  let items := (lex line).takeWhile fun i => !(i.content.toOption.any Token.isEnd)
  String.join <| items.map fun i =>
    match i.content with
    | .ok token => s!"{token.dump} at {i.position.text}\n"
    | .error cause =>
      let notes := if cause.notes.isEmpty then "" else "\n".intercalate cause.notes ++ "\n"
      s!"[at {i.position.text}] Lexical error: {cause.title}\n" ++ notes

def parseAnswer (dump : Bool) (line : String) : String :=
  match parse line with
  | .ok program => program.shown dump
  | .error errors => String.join <| errors.map fun e =>
    let notes :=
      if e.content.notes.isEmpty then "" else "\t" ++ ";\n\t".intercalate e.content.notes ++ "\n"
    s!"[at {e.position.text}] Parse error: {e.content.title}.\n" ++ notes

/-- Carries out a command, given the files, the input and the time of day. Every line that a loop answers
takes some of the input, so there are no more lines than bytes. -/
def Command.report (files : Files) (input : Stdin) (clock : Clock) : Command → Report
  | .run path options dump => runReport files path options dump input clock
  | .check path optimize quiet dump => checkReport files path optimize quiet dump
  | .evaluateLines options =>
    let start := Evaluation.start options files input clock
    ((Evaluation.dialogue Diagnostic.renderAll).run (input.stream.length + 1) start {}).1
  | .lexLines => ((Dialogue.stateless lexAnswer).run (input.stream.length + 1) input {}).1
  | .parseLines dump =>
    ((Dialogue.stateless (parseAnswer dump)).run (input.stream.length + 1) input {}).1

end Scriptlet
