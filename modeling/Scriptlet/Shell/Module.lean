import Scriptlet.Eval.Session
import Scriptlet.Shell.Directory
import Scriptlet.Shell.Path

/-! Modules: the native that imports a file into the frame that asks for it. -/
namespace Scriptlet

namespace Module

def natives : Dictionary Native := Native.standard.insert "import" (.host 0 "import" (some 1))

/-- Runs the file of a module. While it runs, the module counts as being imported, and importing it
again fails. A failure of the module is told to the user at once. -/
def import_ (files : Files) (run : Runner) (target : String) (env : Env) :
    Action (Except String Value) := do
  let path := Path.ofModule target
  let importing := (← get).importing
  if Path.parts path ∈ importing then return .error s!"circular import of `{target}`"
  match files path with
  | .error e => return .error s!"cannot read {path}: {e.message}"
  | .ok bytes =>
    match Text.decode? bytes with
    | none => return .error s!"cannot read {path}: {FileError.invalidText.message}"
    | some source =>
      modify fun m => { m with importing := importing ++ [Path.parts path] }
      let result ← run natives env path source
      modify fun m => { m with importing := m.importing.dropLast }
      match result with
      | .ok _ => return .ok .undefined
      | .error f =>
        Action.notify [.failure f]
        return .error s!"failed to import `{target}`"

def host (files : Files) : Host where
  respond _ run arguments env := do
    let target ← Action.look fun s => (arguments.head?.map s.display).getD ""
    import_ files run target env

def context (options : Options) (files : Files) : Context :=
  { options, natives, host := host files }

/-- The modules that tokens ask for, whether the statements run or not. -/
def targets : List Token → List String
  | .keyword .import_ :: .identifier name :: rest => name :: targets rest
  | .keyword .import_ :: .string name :: rest => name :: targets rest
  | _ :: rest => targets rest
  | [] => []

def tokens (source : String) : List Token := (lex source).filterMap fun i => i.content.toOption

def paths (source : String) : List String := (targets (tokens source)).map Path.ofModule

def mentionsInput (source : String) : Bool := (tokens source).any (Token.isKeyword .input)

end Module

end Scriptlet
