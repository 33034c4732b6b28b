import Scriptlet.Span
import Scriptlet.Token.Lexeme

/-! A whole source as a list of items: tokens and lexical errors in source order, the last one the end
of the file. White space between them is skipped. -/
namespace Scriptlet

/-- An item of a source. -/
abbrev Item := Located (Except LexCause Token)

abbrev LexError := Located LexCause

def LexError.message (e : LexError) : String :=
  s!"[line {e.position.text}] lexical error: {e.content.title}"

/-- How far a source has been read. -/
structure Cursor where
  offset : Nat := 0
  position : Position := {}
  rest : List Char

namespace Cursor

def start (source : String) : Cursor := { rest := source.toList }

/-- Reads the next `n` characters, or as many as there are. -/
def advance (c : Cursor) (n : Nat) : Cursor where
  offset := c.offset + byteLength (c.rest.take n)
  position := c.position.advanceBy (c.rest.take n)
  rest := c.rest.drop n

@[simp] theorem advance_rest (c : Cursor) (n : Nat) : (c.advance n).rest = c.rest.drop n := rfl

def skipBlank (c : Cursor) : Cursor := c.advance (c.rest.takeWhile Text.isBlank).length

theorem skipBlank_length_le (c : Cursor) : c.skipBlank.rest.length ≤ c.rest.length := by
  simp [skipBlank]

def read (c : Cursor) : Item × Cursor :=
  match c.rest with
  | [] => (⟨.ok .endOfFile, .point c.offset, c.position⟩, c)
  | x :: xs =>
    let lexeme := Lexeme.read x xs
    let after := c.advance (lexeme.more + 1)
    (⟨lexeme.outcome, ⟨c.offset, after.offset⟩, c.position⟩, after)

/-- The item after the white space at the front. At the end of the source this is the end of the
file, every time. -/
def next (c : Cursor) : Item × Cursor := c.skipBlank.read

theorem read_rest_lt {c : Cursor} (h : c.rest ≠ []) : c.read.2.rest.length < c.rest.length := by
  unfold read
  split
  · contradiction
  · next heq =>
    simp only [advance_rest, heq, List.drop_succ_cons, List.length_drop, List.length_cons]
    omega

theorem next_rest_lt {c : Cursor} (h : c.skipBlank.rest ≠ []) :
    c.next.2.rest.length < c.rest.length :=
  Nat.lt_of_lt_of_le (read_rest_lt h) c.skipBlank_length_le

/-- Items up to the end of the file, each with the cursor behind it. -/
def trace (c : Cursor) : List (Item × Cursor) :=
  if h : c.skipBlank.rest = [] then [c.next]
  else
    have := next_rest_lt h
    c.next :: c.next.2.trace
termination_by c.rest.length

/-- The cursor behind so many items. -/
def behind (c : Cursor) : Nat → Cursor
  | 0 => c
  | n + 1 => c.next.2.behind n

def text (c : Cursor) : String :=
  let shown : Option Char → String
    | some x => "Some(" ++ Text.quotedChar x ++ ")"
    | none => "None"
  let following := (c.advance 1).offset
  "Lexer \x7b\n\tposition: " ++ toString c.offset ++ ",\n\tnext_position: " ++ toString following ++
    ",\n\tcursor: " ++ c.position.text ++ ",\n\tch: " ++ shown c.rest.head? ++ ", next_ch: " ++
    shown c.rest.tail.head? ++ "\n\x7d"

end Cursor

def lex (source : String) : List Item := (Cursor.start source).trace.map (·.1)

end Scriptlet
