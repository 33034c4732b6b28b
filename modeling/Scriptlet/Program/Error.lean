import Scriptlet.Token.Lexer

/-! Why a source is no program. -/
namespace Scriptlet

inductive ParseCause where
  | lexical (cause : LexCause)
  | expectedIdentifier
  | expectedExpression (found : Token)
  | expectedMember
  | invalidAssignmentTarget
  | invalidIncrementTarget
  | invalidMapKey
  | missingInitializer (name : String)
  | duplicateParameter (name : String)
  | missingCatchOrFinally
  | missingSemicolon
  | unexpectedEnd
  | unexpectedToken (found : Token) (expected : List String)

abbrev ParseError := Located ParseCause

namespace ParseCause

def title : ParseCause → String
  | lexical cause => cause.title
  | expectedIdentifier => "Expected identifier"
  | expectedExpression _ => "Expected expression"
  | expectedMember => "Expected member name after `.`"
  | invalidAssignmentTarget => "Invalid assignment target"
  | invalidIncrementTarget => "Invalid increment target"
  | invalidMapKey => "Invalid map key"
  | missingInitializer _ => "Missing initializer"
  | duplicateParameter _ => "Duplicate parameter"
  | missingCatchOrFinally => "Expected `catch` or `finally` after `try` block"
  | missingSemicolon => "Missing semicolon"
  | unexpectedEnd => "Unexpected end of file"
  | unexpectedToken .. => "Not expected this"

def notes : ParseCause → List String
  | lexical cause => cause.notes
  | expectedExpression found => [s!"Found {found.describe}"]
  | invalidAssignmentTarget => ["Only variables can be assigned to"]
  | invalidIncrementTarget => ["`++` and `--` only apply to variables"]
  | invalidMapKey => ["Map keys are identifiers or strings"]
  | missingInitializer name => [s!"Constant `{name}` must be given a value"]
  | duplicateParameter name => [s!"Parameter `{name}` is declared more than once"]
  | unexpectedToken found expected =>
    s!"Found {found.describe}, expected one of: " :: expected.map ("- " ++ ·)
  | _ => []

def isLexical : ParseCause → Bool
  | lexical _ => true
  | _ => false

end ParseCause

/-- The one-line message of an error: its title, then its notes in parentheses. -/
def withNotes (title : String) (notes : List String) : String :=
  if notes.isEmpty then title else title ++ " (" ++ " ".intercalate notes ++ ")"

def ParseError.message (e : ParseError) : String :=
  let kind := if e.content.isLexical then "lexical error" else "syntax error"
  s!"[line {e.position.text}] {kind}: " ++ withNotes e.content.title e.content.notes

end Scriptlet
