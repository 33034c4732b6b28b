import Scriptlet.Text.Combining
import Scriptlet.Text.Visible

/-! Two ways to write a text between quotes. `escape` undoes exactly the escapes that a string literal
of the language knows; `quoted` is the form for people, which also spells out every character that
would not be seen. -/
namespace Scriptlet.Text

def escapeChar : Char → List Char
  | '\n' => ['\\', 'n']
  | '\t' => ['\\', 't']
  | '\r' => ['\\', 'r']
  | '\x00' => ['\\', '0']
  | '\\' => ['\\', '\\']
  | '"' => ['\\', '"']
  | c => [c]

def escapeChars (cs : List Char) : List Char := cs.flatMap escapeChar

@[simp] theorem escapeChars_nil : escapeChars [] = [] := rfl

@[simp] theorem escapeChars_cons (c : Char) (cs : List Char) :
    escapeChars (c :: cs) = escapeChar c ++ escapeChars cs := rfl

def escape (s : String) : String := String.ofList (escapeChars s.toList)

def literal (s : String) : String := "\"" ++ escape s ++ "\""

/-- A code point in the fewest hexadecimal digits. -/
def codePoint (c : Char) : String :=
  "\\u\x7b" ++ String.ofList (Nat.toDigits 16 c.toNat) ++ "\x7d"

/-- A character of a text that is shown between two marks `quote`: the mark and the backslash are
escaped, the common controls have short escapes, and what cannot be seen is given by its code. -/
def shownChar (quote : Char) (c : Char) : String :=
  match c with
  | '\x00' => "\\0"
  | '\t' => "\\t"
  | '\r' => "\\r"
  | '\n' => "\\n"
  | '\\' => "\\\\"
  | c =>
    if c = quote then String.ofList ['\\', c]
    else if isExtending c || !isVisible c then codePoint c
    else c.toString

def quoted (s : String) : String :=
  "\"" ++ String.join (s.toList.map (shownChar '"')) ++ "\""

def quotedChar (c : Char) : String := "'" ++ shownChar '\'' c ++ "'"

end Scriptlet.Text
