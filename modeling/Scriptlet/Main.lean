import Scriptlet.Shell.Lines

/-! The command line. Files and lines are read here; what is done with them is decided elsewhere. -/
namespace Scriptlet.Main

abbrev Table := List (String × Except FileError (List UInt8))

def Table.files (t : Table) : Files := fun path => (t.lookup path).getD (.error .notFound)

def fileError : IO.Error → FileError
  | .inappropriateType _ code _ => if code = 21 then .isDirectory else .notDirectory
  | .invalidArgument _ code _ => if code = 22 then .invalidName else .nameTooLong
  | _ => .notFound

def read (path : String) : IO (Except FileError (List UInt8)) := do
  try return .ok (← IO.FS.readBinFile path).toList
  catch e => return .error (fileError e)

def sourceOf (content : Except FileError (List UInt8)) : String :=
  (content.toOption.bind Text.decode?).getD ""

/-- Reads files, and the modules that they ask for. -/
partial def gather (t : Table) : List String → IO Table
  | [] => return t
  | path :: rest => do
    if (t.lookup path).isSome then gather t rest
    else
      let content ← read path
      gather ((path, content) :: t) (Module.paths (sourceOf content) ++ rest)

/-- The time of day in seconds, from a moment that does not change while the program runs. -/
def clock : IO Float := return (← IO.monoMsNow).toFloat / 1000.0

partial def readAll (stream : IO.FS.Stream) (bytes : ByteArray) : IO ByteArray := do
  let more ← stream.read 65536
  if more.isEmpty then return bytes else readAll stream (bytes ++ more)

def seconds (ms : Nat) : String :=
  let hundredths := (ms + 5) / 10
  let places := hundredths % 100
  let pad := if places < 10 then "0" else ""
  s!"{hundredths / 100}.{pad}{places}s"

def show_ (stdout stderr : String) : IO Unit := do
  (← IO.getStdout).putStr stdout
  (← IO.getStdout).flush
  (← IO.getStderr).putStr stderr
  (← IO.getStderr).flush

partial def fill (input : Stdin) : IO Stdin := do
  if 10 ∈ input.stream then return input
  else
    let more ← (← IO.getStdin).read 8192
    if more.isEmpty then return input else fill { input with reads := input.reads ++ [more.toList] }

partial def converse {σ : Type} (d : Dialogue σ) (prepare : σ → String → IO σ) (state : σ) :
    IO UInt32 := do
  show_ (d.prompt state) ""
  let (bytes, state) := d.takeLine (d.setStdin state (← fill (d.stdin state)))
  if bytes.isEmpty then return 0
  match Dialogue.readLine? bytes with
  | none =>
    show_ "" (d.render (Failure.file .invalidText).diagnostics)
    return 1
  | some line =>
    let state ← prepare state line
    let (answer, next) := d.respond state line
    show_ answer.stdout answer.stderr
    match next with
    | some state => converse d prepare state
    | none => return 0

/-- Makes the modules that a line asks for ready to import, and the input for a program that asks for it. -/
def prepareLine (e : Evaluation) (line : String) : IO Evaluation := do
  let source := e.pending ++ line
  let table ← gather [] (Module.paths source)
  let context := { e.session.context with host := Module.host table.files }
  let session := { e.session with context }
  let input := session.machine.input
  if Module.mentionsInput source || table.any fun f => Module.mentionsInput (sourceOf f.2) then
    let more ← readAll (← IO.getStdin) .empty
    return { e with session := session.setStdin { input with reads := input.reads ++ [more.toList] } }
  else return { e with session }

def execute (command : Command) : IO UInt32 := do
  let started ← IO.monoMsNow
  let report (table : Table) (input : List UInt8) : IO UInt32 := do
    let r := command.report table.files input (← clock)
    let r := r.withTime (seconds ((← IO.monoMsNow) - started))
    show_ r.stdout r.stderr
    return UInt32.ofNat r.code
  match command with
  | .run path _ _ =>
    let table ← gather [] [path]
    let input ← if table.any fun f => Module.mentionsInput (sourceOf f.2) then
        readAll (← IO.getStdin) .empty
      else pure .empty
    report table input.toList
  | .check path _ _ _ => report [(path, ← read path)] []
  | .evaluateLines options =>
    let start := Evaluation.start options (Table.files []) {} (← clock)
    converse (Evaluation.dialogue Diagnostic.renderAll) prepareLine start
  | .lexLines => converse (.stateless lexAnswer) (fun s _ => pure s) {}
  | .parseLines dump => converse (.stateless (parseAnswer dump)) (fun s _ => pure s) {}

def usage : String :=
  "usage: run PATH [--no-optimize] [--implicit-declarations] [--max-call-depth N] [--print-ast]\n" ++
  "       check PATH [-n] [--print-ast] [--no-optimize]\n" ++
  "       repl [--no-optimize] [--implicit-declarations] [--max-call-depth N]\n" ++
  "       rlpl\n" ++
  "       rppl [--print-ast]\n"

end Scriptlet.Main

def main (words : List String) : IO UInt32 := do
  match Scriptlet.Command.ofWords? words with
  | some command => Scriptlet.Main.execute command
  | none =>
    Scriptlet.Main.show_ "" Scriptlet.Main.usage
    return 2
