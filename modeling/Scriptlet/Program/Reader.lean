import Scriptlet.Program.Basic
import Scriptlet.Program.Error
import Scriptlet.Token.Precedence

/-! The reader of a program: two tokens of a list of items in view, what was noted on the way, and the
rules that look at the first token or take it. Comments and lexical errors are noted as soon as they
come into view, so no rule ever meets them. -/
namespace Scriptlet

structure Reader where
  items : List Item
  current : Located Token := ⟨.endOfFile, .point 0, {}⟩
  next : Located Token := ⟨.endOfFile, .point 0, {}⟩
  previous : Option (Located Token) := none
  /-- The comments that came into view, the latest first. -/
  latestComments : List Span := []
  /-- The errors that were noted, the latest first. -/
  latestErrors : List ParseError := []
  /-- Set after an error until the next statement starts; further syntax errors are not noted. -/
  recovering : Bool := false

/-- A rule of the grammar takes tokens and yields a phrase, or fails and leaves the reader where it
stopped. -/
abbrev Rule (α : Type) := EStateM ParseError Reader α

namespace Reader

def comments (r : Reader) : List Span := r.latestComments.reverse

def errors (r : Reader) : List ParseError := r.latestErrors.reverse

/-- Looks for the next token among the items, and notes the comments and errors before it. After the
last token the end of the file comes again and again. -/
def fetch (r : Reader) : List Item → Reader
  | [] => { r with items := [], next := ⟨.endOfFile, .point r.next.span.stop, r.next.position⟩ }
  | ⟨.ok .comment, span, _⟩ :: rest =>
    fetch { r with latestComments := span :: r.latestComments } rest
  | ⟨.error cause, span, position⟩ :: rest =>
    fetch { r with latestErrors := ⟨.lexical cause, span, position⟩ :: r.latestErrors } rest
  | ⟨.ok token, span, position⟩ :: rest => { r with items := rest, next := ⟨token, span, position⟩ }

def shift (r : Reader) : Reader :=
  fetch { r with previous := some r.current, current := r.next } r.items

def start (items : List Item) : Reader :=
  { shift (shift { items }) with previous := none }

/-- More than the number of tokens that can still be taken. -/
def remaining (r : Reader) : Nat := r.items.length + 3

end Reader

namespace Rule

def current : Rule (Located Token) := return (← get).current

def take : Rule (Located Token) := do
  let r ← get
  set r.shift
  return r.current

/-- Whether the current token is a given sign, word or the end of the file. -/
def check (test : Token → Bool) : Rule Bool := return test (← get).current.content

def isSign (sign : Symbol) : Rule Bool := check (Token.isSymbol sign)

def atEnd : Rule Bool := check Token.isEnd

def takeSign (sign : Symbol) : Rule Bool := do
  if ← isSign sign then
    let _ ← take
    return true
  else return false

def takeWord (word : Keyword) : Rule Bool := do
  if ← check (Token.isKeyword word) then
    let _ ← take
    return true
  else return false

def failHere {α : Type} (cause : ParseCause) : Rule α := do
  let here ← current
  throw ⟨cause, here.span, here.position⟩

/-- Fails because of the current token, or because there is none. -/
def failExpecting {α : Type} (expected : List String) : Rule α := do
  let here ← current
  if here.content.isEnd then failHere .unexpectedEnd
  else failHere (.unexpectedToken here.content expected)

def expectSign (sign : Symbol) : Rule Span := do
  if ← isSign sign then return (← take).span
  else failExpecting [sign.text]

def expectWord (word : Keyword) : Rule Span := do
  if ← check (Token.isKeyword word) then return (← take).span
  else failExpecting [word.text]

def identifier : Rule Identifier := do
  let here ← current
  match here.content with
  | .identifier name =>
    let _ ← take
    return ⟨name, here.span⟩
  | .endOfFile => failHere .unexpectedEnd
  | _ => failHere .expectedIdentifier

/-- Takes the semicolon at the end of a statement. A missing one is reported right behind the token
before it. -/
def semicolon : Rule Span := do
  if ← isSign .semicolon then return (← take).span
  else
    let r ← get
    match r.previous with
    | some token => throw ⟨.missingSemicolon, .point token.span.stop, token.position⟩
    | none => throw ⟨.missingSemicolon, r.current.span, r.current.position⟩

def attempt {α : Type} (rule : Rule α) : Rule (Except ParseError α) := fun r =>
  match rule r with
  | .ok a r => .ok (.ok a) r
  | .error e r => .ok (.error e) r

/-- Phrases with commas between them, and perhaps one behind the last, up to a sign that is left. At
most `limit` are read. -/
def separated {α : Type} (item : Rule α) (stop : Symbol) : (limit : Nat) → Rule (List α)
  | 0 => return []
  | n + 1 => do
    if ← isSign stop then return []
    let x ← item
    if ← takeSign .comma then return x :: (← separated item stop n)
    else return [x]

def repeated {α : Type} (item : Rule α) (stop : Symbol) : (limit : Nat) → Rule (List α)
  | 0 => return []
  | n + 1 => do
    if ← isSign stop then return []
    let x ← item
    return x :: (← repeated item stop n)

def sequence {α : Type} (item : Rule α) : (limit : Nat) → Rule (List α)
  | 0 => return []
  | n + 1 => do
    let x ← item
    if ← takeSign .comma then return x :: (← sequence item n)
    else return [x]

end Rule

end Scriptlet
