import Scriptlet.Decimal.Reading
import Scriptlet.Text.Blank
import Scriptlet.Token.Basic

/-! One token, or one reason why there is none, read at the front of a text. Nothing here depends on
where in a source the text stands. -/
namespace Scriptlet

inductive LexCause where
  | unrecognized (c : Char)
  | unterminatedString
  | unterminatedTemplate
  | missingCommentEnd
  | missingExponentDigits
  | missingRadixDigits
  | digitOutOfRadix
  | numberOutOfRange
  deriving DecidableEq

/-- The outcome at the front of a text, which takes its first character and `more` further ones. -/
structure Lexeme where
  outcome : Except LexCause Token
  more : Nat

namespace Lexeme

def found (token : Token) (more : Nat) : Lexeme := ⟨.ok token, more⟩

def fault (cause : LexCause) (more : Nat) : Lexeme := ⟨.error cause, more⟩

def isLetter (c : Char) : Bool := ('a' ≤ c && c ≤ 'z') || ('A' ≤ c && c ≤ 'Z')

def startsWord (c : Char) : Bool := isLetter c || c = '_' || c = '$'

def inWord (c : Char) : Bool := startsWord c || Decimal.isDigit c

/-- The longest run of word characters, read as a keyword when all of it is one. -/
def word (c : Char) (cs : List Char) : Lexeme :=
  let tail := cs.takeWhile inWord
  let name := String.ofList (c :: tail)
  match Keyword.ofText? name with
  | some k => found (.keyword k) tail.length
  | none => found (.identifier name) tail.length

/-- What an escaped character stands for. -/
def unescape : Char → Char
  | 'n' => '\n'
  | 't' => '\t'
  | 'r' => '\r'
  | '0' => '\x00'
  | c => c

/-- The text up to the closing mark, with its escapes decoded, and the number of characters read. -/
def quotedBody (quote : Char) : List Char → Option (List Char × Nat)
  | [] => none
  | '\\' :: c :: cs => (quotedBody quote cs).map fun (text, n) => (unescape c :: text, n + 2)
  | c :: cs =>
    if c = quote then some ([], 1)
    else (quotedBody quote cs).map fun (text, n) => (c :: text, n + 1)

def string (quote : Char) (cs : List Char) : Lexeme :=
  match quotedBody quote cs with
  | some (text, n) => found (.string (String.ofList text)) n
  | none => fault .unterminatedString cs.length

def backtick : Char := '\x60'

def template (cs : List Char) : Lexeme :=
  let text := cs.takeWhile (· ≠ backtick)
  if (cs.drop text.length).isEmpty then fault .unterminatedTemplate text.length
  else found (.string (String.ofList text)) (text.length + 1)

def lineComment (cs : List Char) : Lexeme := found .comment (cs.takeWhile (· ≠ '\n')).length

/-- The number of characters up to the end of the closing mark of a block comment. -/
def commentEnd? : List Char → Option Nat
  | [] => none
  | '*' :: '/' :: _ => some 2
  | _ :: cs => (commentEnd? cs).map (· + 1)

/-- A block comment, `cs` being what follows its opening mark. -/
def blockComment (cs : List Char) : Lexeme :=
  match commentEnd? cs with
  | some n => found .comment (n + 1)
  | none => fault .missingCommentEnd (cs.length + 1)

/-- The radix that a letter after a leading zero asks for. -/
def radix? : Char → Option Nat
  | 'x' | 'X' => some 16
  | 'o' | 'O' => some 8
  | 'b' | 'B' => some 2
  | _ => none

/-- An integer that is not negative, if it fits. -/
def intToken (n : Nat) (more : Nat) : Lexeme :=
  match Decimal.fit? n with
  | some value => found (.int value) more
  | none => fault .numberOutOfRange more

/-- The letters and digits after a radix mark. -/
def radixNumber (radix : Nat) (cs : List Char) : Lexeme :=
  let digits := cs.takeWhile fun c => isLetter c || Decimal.isDigit c
  let more := digits.length + 1
  if digits.isEmpty then fault .missingRadixDigits more
  else if digits.all fun c => (Decimal.digit? radix c).isSome then
    intToken (Decimal.natOfDigits radix digits) more
  else fault .digitOutOfRadix more

/-- The digits after a point. A point that no digit follows is not part of the number. -/
def fraction : List Char → List Char
  | '.' :: cs => cs.takeWhile Decimal.isDigit
  | _ => []

def fractionLength (digits : List Char) : Nat := if digits.isEmpty then 0 else digits.length + 1

def signLength : List Char → Nat
  | '-' :: _ | '+' :: _ => 1
  | _ => 0

/-- The exponent at the front of a text: the characters read and, if it has digits, its value. -/
def exponent? : List Char → Option (Nat × Option Int)
  | [] => none
  | c :: cs =>
    if c = 'e' || c = 'E' then
      let (negative, rest) := Decimal.takeSign cs
      let digits := rest.takeWhile Decimal.isDigit
      let n : Int := Decimal.natOfDigits 10 digits
      let length := 1 + signLength cs + digits.length
      if digits.isEmpty then some (length, none)
      else some (length, some (if negative then -n else n))
    else none

/-- A decimal number whose first digit is `c`: an integer, unless a fraction or an exponent follows
the digits. -/
def decimalNumber (c : Char) (cs : List Char) : Lexeme :=
  let whole := cs.takeWhile Decimal.isDigit
  let rest := cs.dropWhile Decimal.isDigit
  let places := fraction rest
  let taken := fractionLength places
  let more := whole.length + taken
  let mantissa := Decimal.natOfDigits 10 (c :: whole ++ places)
  match exponent? (rest.drop taken) with
  | some (n, none) => fault .missingExponentDigits (more + n)
  | some (n, some e) => found (.float (Decimal.nearest mantissa (e - places.length))) (more + n)
  | none =>
    if places.isEmpty then intToken mantissa more
    else found (.float (Decimal.nearest mantissa (-places.length))) more

def number (c : Char) (cs : List Char) : Lexeme :=
  match c, cs with
  | '0', r :: rest =>
    match radix? r with
    | some radix => radixNumber radix rest
    | none => decimalNumber c cs
  | _, _ => decimalNumber c cs

/-- The longest operator of at most `limit` characters at the front of a text. -/
def longestOperator? (cs : List Char) : (limit : Nat) → Option Symbol
  | 0 => none
  | n + 1 =>
    match Symbol.operator? (String.ofList (cs.take (n + 1))) with
    | some sign => some sign
    | none => longestOperator? cs n

/-- A sign, or a character that the language does not know. -/
def sign (c : Char) (cs : List Char) : Lexeme :=
  match Symbol.punctuation.find? fun s => s.text = c.toString with
  | some s => found (.symbol s) 0
  | none =>
    match longestOperator? (c :: cs) 4 with
    | some s => found (.symbol s) (s.text.length - 1)
    | none => fault (.unrecognized c) 0

/-- The lexeme at the front of the text `c :: cs`, whose first character is no white space. -/
def read (c : Char) (cs : List Char) : Lexeme :=
  match c, cs with
  | '/', '/' :: _ => lineComment cs
  | '/', '*' :: rest => blockComment rest
  | c, cs =>
    if c = '"' || c = '\'' then string c cs
    else if c = backtick then template cs
    else if startsWord c then word c cs
    else if Decimal.isDigit c then number c cs
    else sign c cs

end Lexeme

namespace LexCause

def title : LexCause → String
  | unrecognized _ => "Unrecognized character"
  | unterminatedString => "Unterminated string literal"
  | unterminatedTemplate => "Unterminated template literal"
  | missingCommentEnd => "Missing `*/` at the end of the block comment"
  | missingExponentDigits => "Missing digits after the exponent"
  | missingRadixDigits => "Missing digits after the radix prefix"
  | digitOutOfRadix => "Digit is out of range for this radix"
  | numberOutOfRange => "Number does not fit into a 64-bit integer"

def notes : LexCause → List String
  | unrecognized c => [s!"`{c}` is not part of the language"]
  | unterminatedString => ["Add the closing quote"]
  | unterminatedTemplate => ["Add the closing backtick"]
  | _ => []

end LexCause

end Scriptlet
