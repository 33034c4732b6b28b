import Scriptlet.Diagnostic.Snippet

/-! Messages to the user: a title, perhaps the place in a source it is about, a text and a hint. -/
namespace Scriptlet

inductive Level where
  | error | warning
  deriving DecidableEq

def Level.text : Level → String
  | error => "error"
  | warning => "warning"

structure Place where
  path : String
  source : String
  span : Span
  label : Option String

structure Diagnostic where
  title : String
  text : String := ""
  hint : Option String := none
  level : Level
  place : Option Place

namespace Diagnostic

/-- The message as it is shown, with a line break at the end of each line. -/
def render (d : Diagnostic) : String :=
  let snippet := match d.place with
    | some p => Snippet.render p.path p.source p.span p.label
    | none => []
  let body := if d.text.isEmpty then [] else [d.text]
  let hint := d.hint.toList.map ("hint: " ++ ·)
  String.join (([d.level.text ++ ": " ++ d.title] ++ snippet ++ [""] ++ body ++ hint).map (· ++ "\n"))

def renderAll (ds : List Diagnostic) : String := String.join (ds.map fun d => d.render ++ "\n")

end Diagnostic

end Scriptlet
