import Scriptlet.Diagnostic.Basic
import Scriptlet.Eval.Error
import Scriptlet.Program.Warning

/-! What the user is told about a source: the failure that ended its loading or its run, and the
warnings about it. -/
namespace Scriptlet

inductive FileError where
  | notFound
  | isDirectory
  | notDirectory
  | invalidName
  | nameTooLong
  | invalidText
  | truncatedText
  deriving DecidableEq

def FileError.text : FileError → String
  | notFound => "entity not found"
  | isDirectory => "is a directory"
  | notDirectory => "not a directory"
  | invalidName => "invalid input parameter"
  | nameTooLong => "invalid filename"
  | invalidText => "invalid data"
  | truncatedText => "unexpected end of file"

def FileError.message : FileError → String
  | notFound => "No such file or directory (os error 2)"
  | isDirectory => "Is a directory (os error 21)"
  | notDirectory => "Not a directory (os error 20)"
  | invalidName => "file name contained an unexpected NUL byte"
  | nameTooLong => "File name too long (os error 36)"
  | invalidText | truncatedText => "stream did not contain valid UTF-8"

inductive Failure where
  | parse (path source : String) (errors : List ParseError)
  | runtime (path source : String) (error : RuntimeError)
  | file (error : FileError)

def ParseCause.hint? : ParseCause → Option String
  | .missingSemicolon => some "Statements end with `;`"
  | _ => none

def ParseCause.isUnexpectedEnd : ParseCause → Bool
  | .unexpectedEnd => true
  | _ => false

namespace Failure

def message : Failure → String
  | parse .. => "failed to parse source code"
  | runtime _ _ e => e.message
  | file _ => "IO operation failed"

/-- A missing end is shown behind the last character. -/
def ofParseError (path source : String) (e : ParseError) : Diagnostic :=
  let kind := if e.content.isLexical then "Lexical error" else "Syntax error"
  let stop := byteLength source.toList
  { title := s!"{kind} at {e.position.text}"
    text := "\n".intercalate e.content.notes
    hint := e.content.hint?
    level := .error
    place := some
      { path, source
        span := if e.content.isUnexpectedEnd then .point stop else e.span
        label := some e.content.title } }

def diagnostics : Failure → List Diagnostic
  | parse path source errors => errors.map (ofParseError path source)
  | runtime path source e =>
    [{ title := "Runtime error"
       text := "\n".intercalate e.cause.notes
       hint := e.cause.hint?
       level := .error
       place := some { path, source, span := e.span, label := some e.cause.title } }]
  | file e => [{ title := "Standard IO error", text := e.text, level := .error, place := none }]

/-- Whether more text could make a program of a source that cannot be parsed. -/
def isUnfinished : Failure → Bool
  | parse _ _ errors => errors.any fun e => e.content.isUnexpectedEnd
  | _ => false

end Failure

inductive Notice where
  | warning (path source : String) (content : Warning)
  | failure (content : Failure)

namespace Notice

def diagnostics : Notice → List Diagnostic
  | warning path source w =>
    [{ title := w.kind.title
       level := .warning
       place := some { path, source, span := w.span, label := w.kind.label? } }]
  | failure f => f.diagnostics

def text (n : Notice) : String := Diagnostic.renderAll n.diagnostics

def warning? : Notice → Option Warning
  | warning _ _ w => some w
  | failure _ => none

end Notice

end Scriptlet
