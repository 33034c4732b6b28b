import Scriptlet.Decimal.Reading
import Scriptlet.Eval.Machine

/-! The commands of the command line. -/
namespace Scriptlet

inductive Command where
  /-- Runs a file. -/
  | run (path : String) (options : Options) (dump : Bool)
  /-- Reads a file and prints the program in it. -/
  | check (path : String) (optimize quiet dump : Bool)
  /-- Evaluates lines. -/
  | evaluateLines (options : Options)
  /-- Shows the tokens of lines. -/
  | lexLines
  /-- Shows the programs in lines. -/
  | parseLines (dump : Bool)
  deriving DecidableEq

namespace Command

inductive Switch where
  | noOptimize | implicitDeclarations | maxCallDepth | printAst | noOutput
  deriving DecidableEq

def Switch.ofText? : String → Option Switch
  | "--no-optimize" => some noOptimize
  | "--implicit-declarations" => some implicitDeclarations
  | "--max-call-depth" => some maxCallDepth
  | "--print-ast" => some printAst
  | "--no-output" | "-n" => some noOutput
  | _ => none

structure Arguments where
  options : Options := {}
  printAst : Bool := false
  noOutput : Bool := false
  paths : List String := []

namespace Arguments

/-- Applies an option; the one for the call depth takes a number. -/
def set (a : Arguments) (value : Option Nat) : Switch → Option Arguments
  | .noOptimize => some { a with options := { a.options with optimize := false } }
  | .implicitDeclarations => some { a with options := { a.options with implicitDeclarations := true } }
  | .printAst => some { a with printAst := true }
  | .noOutput => some { a with noOutput := true }
  | .maxCallDepth => value.map fun n => { a with options := { a.options with maxCallDepth := n } }

def depth? (word : String) : Option Nat :=
  let digits := match word.toList with
    | '+' :: cs => cs
    | cs => cs
  if digits.isEmpty || !digits.all Decimal.isDigit then none
  else
    let n := Decimal.natOfDigits 10 digits
    if n < 0x10000000000000000 then some n else none

/-- An option and the value that is written with it behind an equals sign. -/
def splitValue (word : String) : String × Option String :=
  let cs := word.toList
  let name := String.ofList (cs.takeWhile (· ≠ '='))
  match cs.dropWhile (· ≠ '=') with
  | _ :: value => (name, some (String.ofList value))
  | [] => (name, none)

def parse (allowed : List Switch) (a : Arguments) : List String → Option Arguments
  | [] => some a
  | word :: rest =>
    if word.startsWith "-" then
      let (name, value) := splitValue word
      match Switch.ofText? name with
      | none => none
      | some switch =>
        if switch ∉ allowed then none
        else if switch = .maxCallDepth then
          match value, rest with
          | some value, rest => do parse allowed (← a.set (depth? value) switch) rest
          | none, value :: rest => do parse allowed (← a.set (depth? value) switch) rest
          | none, [] => none
        else if value.isSome then none
        else do parse allowed (← a.set none switch) rest
    else parse allowed { a with paths := a.paths ++ [word] } rest

end Arguments

def ofWords? : List String → Option Command
  | "run" :: words => do
    let a ← Arguments.parse [.noOptimize, .implicitDeclarations, .maxCallDepth, .printAst] {} words
    match a.paths with
    | [path] => return .run path a.options a.printAst
    | _ => none
  | "check" :: words => do
    let a ← Arguments.parse [.noOptimize, .printAst, .noOutput] {} words
    match a.paths with
    | [path] => return .check path a.options.optimize a.noOutput a.printAst
    | _ => none
  | "repl" :: words => do
    let a ← Arguments.parse [.noOptimize, .implicitDeclarations, .maxCallDepth] {} words
    if a.paths.isEmpty then return .evaluateLines a.options else none
  | "rlpl" :: words => do
    let a ← Arguments.parse [] {} words
    if a.paths.isEmpty then return .lexLines else none
  | "rppl" :: words => do
    let a ← Arguments.parse [.printAst] {} words
    if a.paths.isEmpty then return .parseLines a.printAst else none
  | _ => none

end Command

end Scriptlet
