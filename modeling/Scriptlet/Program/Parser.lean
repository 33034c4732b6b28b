import Scriptlet.Program.Grammar
import Scriptlet.Token.Window

/-! Programs read from source text. A source with errors still yields the statements that could be
read. -/
namespace Scriptlet

/-- What was read: the program, the comments, the errors by where they start, and the items that were not
looked at. -/
structure Parsed where
  program : Program
  comments : List Span
  errors : List ParseError
  unread : List Item

namespace Parsed

def ofItems (items : List Item) : Parsed :=
  let r := Reader.start items
  let g := Grammar.for_ r
  match g.statements Token.isEnd g.limit r with
  | .ok statements after =>
    { program := ⟨statements, ⟨r.current.span.start, after.current.span.stop⟩⟩
      comments := after.comments
      errors := after.errors.mergeSort fun a b => a.span.start ≤ b.span.start
      unread := after.items }
  | .error e after =>
    ⟨⟨[], ⟨r.current.span.start, after.current.span.stop⟩⟩, after.comments, [e], after.items⟩

def ofSource (source : String) : Parsed := ofItems (scan source)

/-- The program that was read without errors, or else the errors. -/
def result (parsed : Parsed) : Except (List ParseError) Program :=
  if parsed.errors.isEmpty then .ok parsed.program else .error parsed.errors

end Parsed

def parse (source : String) : Except (List ParseError) Program := (Parsed.ofSource source).result

end Scriptlet
