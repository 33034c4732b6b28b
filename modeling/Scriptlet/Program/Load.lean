import Scriptlet.Diagnostic.Failure
import Scriptlet.Program.Optimizer
import Scriptlet.Program.Parser
import Scriptlet.Text.Utf8

/-! Programs loaded from sources and files. -/
namespace Scriptlet

/-- A program that is ready to run, the source that it was read from, and what there is to warn about. -/
structure Loaded where
  program : Program
  source : String
  warnings : List Warning

/-- Takes what was read from the source of `path`, and folds it if asked to. Only folding looks for
warnings. -/
def loadParsed (optimize : Bool) (path source : String) (parsed : Except (List ParseError) Program) :
    Except Failure Loaded :=
  match parsed with
  | .error errors => .error (.parse path source errors)
  | .ok program =>
    if optimize then
      let optimized := program.optimize
      .ok ⟨optimized.program, source, optimized.warnings⟩
    else .ok ⟨program, source, []⟩

def loadSource (optimize : Bool) (path source : String) : Except Failure Loaded :=
  loadParsed optimize path source (parse source)

def loadFile (optimize : Bool) (path : String) (content : Except FileError (List UInt8)) :
    Except Failure Loaded :=
  match content with
  | .error e => .error (.file e)
  | .ok bytes =>
    match Text.decode? bytes with
    | some source => loadSource optimize path source
    | none => .error (.file .invalidText)

/-- What a reader of characters answers when it is asked again and again. -/
abbrev Stream := List (Except FileError Char)

namespace Stream

def chars : Stream → List Char
  | .ok c :: rest => c :: chars rest
  | _ => []

def failure? : Stream → Option FileError
  | .ok _ :: rest => failure? rest
  | .error e :: _ => some e
  | [] => none

end Stream

def FileError.ofDefect : Text.Defect → FileError
  | .invalid => .invalidText
  | .truncated => .truncatedText

/-- The characters of bytes in UTF-8, with an error behind them if there is a defect. -/
def Text.characters (bytes : List UInt8) : Stream :=
  (decode bytes).1.map .ok ++ ((decode bytes).2.map fun defect => .error (.ofDefect defect)).toList

/-- Parses a stream while it comes, and counts its offsets on the way. Also the characters that have come when
the parser has looked at as many items as it does, and the error if the stream was asked beyond them. -/
def Parsed.ofStream (stream : Stream) : Parsed × String × Option FileError :=
  let first := Window.start (Text.counted 0 stream.chars)
  let items := first.trace.map (·.1)
  let parsed := ofItems items
  let last := first.after (items.length - parsed.unread.length)
  (parsed, String.ofList (stream.chars.take (stream.chars.length - last.offsets.length)),
    if last.ended then stream.failure? else none)

/-- Parses the characters of a file as they are read. The source is what has come of them, and an error that
has come outweighs errors in the text before it. -/
def loadCharacters (characters : List UInt8 → Stream) (optimize : Bool) (path : String)
    (content : Except FileError (List UInt8)) : Except Failure Loaded :=
  match content with
  | .error e => .error (.file e)
  | .ok bytes =>
    match Parsed.ofStream (characters bytes) with
    | (parsed, source, none) => loadParsed optimize path source parsed.result
    | (_, _, some e) => .error (.file e)

def loadStream : Bool → String → Except FileError (List UInt8) → Except Failure Loaded :=
  loadCharacters Text.characters

def Loaded.notices (l : Loaded) (path : String) : List Notice :=
  l.warnings.map (Notice.warning path l.source)

end Scriptlet
