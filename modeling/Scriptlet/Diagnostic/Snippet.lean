import Scriptlet.Span
import Scriptlet.Text.Blank
import Scriptlet.Text.Width

/-! A part of a source shown with its line numbers, a range in it marked with carets and a label. -/
namespace Scriptlet.Snippet

/-- A line of a source: its number from zero, the byte it starts at, and its text with the line break
at its end. -/
structure Line where
  index : Nat
  start : Nat
  text : List Char

namespace Line

def stop (l : Line) : Nat := l.start + byteLength l.text

/-- The text as it is shown, without line break and padding at its end. -/
def shown (l : Line) : List Char :=
  (l.text.reverse.dropWhile fun c => c = '\n' || c = '\r' || c = '\x00').reverse

end Line

/-- Splits a text behind its line breaks. The line with number `index` starts at byte `start` and
begins with `front`. -/
def splitLines (index start : Nat) (front : List Char) : List Char → List Line
  | [] => [⟨index, start, front⟩]
  | c :: cs =>
    let line := front ++ [c]
    if c = '\n' then ⟨index, start, line⟩ :: splitLines (index + 1) (start + byteLength line) [] cs
    else splitLines index start line cs

def lines (source : String) : List Line := splitLines 0 0 [] source.toList

/-- The line that holds a byte; bytes behind the end belong to the last line. -/
def lineOf (all : List Line) (byte : Nat) : Line :=
  ((all.filter fun l => l.start ≤ byte).getLast?).getD ⟨0, 0, []⟩

/-- The column of a byte: one more than the characters of its line that end before it. -/
def column (l : Line) (byte : Nat) : Nat :=
  let limit := min byte l.stop
  let rec count (offset : Nat) : List Char → Nat
    | [] => 0
    | c :: cs =>
      let next := offset + c.utf8Size
      if next ≤ limit then 1 + count next cs else 0
  1 + count l.start l.text

/-- A character of a shown line: the byte it starts at, counted from the line's start, and the columns
it takes. -/
structure Cell where
  char : Char
  byte : Nat
  width : Nat

/-- The cells of a text; a tab reaches to the next multiple of four columns. -/
def cells (byte column : Nat) : List Char → List Cell
  | [] => []
  | c :: cs =>
    let width := if c = '\t' then 4 - column % 4 else Text.width c
    ⟨c, byte, width⟩ :: cells (byte + c.utf8Size) (column + width) cs

def rep (c : Char) (n : Nat) : String := String.ofList (List.replicate n c)

def lineText (text : List Char) : String :=
  String.join ((cells 0 0 text).map fun x => if x.char = '\t' then rep ' ' x.width else x.char.toString)

/-- Carets under the cells that overlap the bytes from `a` to `b`, blanks before them. Behind the last
character stands one more cell, for ranges at the end of the line. -/
def carets (text : List Char) (a b : Nat) : String :=
  let closing : Cell := ⟨'\x00', byteLength text, 1⟩
  String.join ((cells 0 0 text ++ [closing]).map fun x =>
    if max a x.byte < min b (x.byte + x.char.utf8Size) then rep '^' x.width
    else if x.byte < b then rep ' ' x.width
    else "")

/-- A rule under the cells that start before a byte. -/
def ruleTo (text : List Char) (byte : Nat) : String :=
  String.join (((cells 0 0 text).takeWhile fun x => x.byte < byte).map fun x => rep '─' x.width)

def labelText (label : Option String) : String :=
  match label with
  | some t => if t.isEmpty then "" else " " ++ t
  | none => ""

def numberText (gutter : Nat) (l : Line) : String :=
  let n := toString (l.index + 1)
  rep ' ' (gutter - n.length) ++ n

/-- How a range over several lines runs along them: at the line where it starts, between, or at the
line where it ends. -/
def multiLine (gutter : Nat) (span : Span) (label : Option String) (first last l : Line) : List String :=
  let edge := rep ' ' (gutter + 1) ++ "│ "
  let text := l.shown
  let source := lineText text
  let head := numberText gutter l ++ " │ "
  if l.index = first.index then
    let a := span.start - first.start
    let blank := byteLength (text.takeWhile Text.isBlank)
    if a ≤ blank then [head ++ "╭ " ++ source]
    else [head ++ "  " ++ source, edge ++ "╭" ++ ruleTo text (a + 1) ++ "^"]
  else if l.index = last.index then
    let z := span.stop - last.start
    [head ++ "│ " ++ source, edge ++ "╰" ++ ruleTo text z ++ "^" ++ labelText label]
  else [head ++ "│ " ++ source]

/-- Whether a line between the first and the last is shown: the three after the first are, and the one
before the last. -/
def isShown (first last : Nat) (index : Nat) : Bool :=
  index = first || index = last || index - first ≤ 3 || last - index ≤ 1

/-- The shown lines of a long range. A single line left out is shown after all; for more of them
there is one line with dots. -/
def elided (gutter : Nat) (show_ : Line → List String) (first : Nat) (all : List Line) :
    List Line → List String
  | [] => []
  | [l] => show_ l
  | l :: next :: rest =>
    let between : List String :=
      if next.index = l.index + 1 then []
      else if next.index = l.index + 2 then
        (all.filter fun x => x.index = l.index + 1).flatMap show_
      else [rep ' ' (gutter + 1) ++ "·" ++ if l.index = first then "  " else " │"]
    show_ l ++ between ++ elided gutter show_ first all (next :: rest)

def render (path source : String) (span : Span) (label : Option String) : List String :=
  let all := lines source
  let first := lineOf all span.start
  let last := lineOf all span.stop
  let gutter := max (toString (first.index + 1)).length (toString (last.index + 1)).length
  let margin := rep ' ' (gutter + 1)
  let place := s!"{path}:{first.index + 1}:{column first span.start}"
  let opening := margin ++ "┌─ " ++ place
  if first.index = last.index then
    let a := span.start - first.start
    let b := max (span.stop - first.start) (a + 1)
    [opening, margin ++ "│", numberText gutter first ++ " │ " ++ lineText first.shown,
      margin ++ "│ " ++ carets first.shown a b ++ labelText label]
  else
    let covered := all.filter fun l => first.index ≤ l.index && l.index ≤ last.index
    let shown := covered.filter fun l => isShown first.index last.index l.index
    [opening, margin ++ "│  "] ++
      elided gutter (multiLine gutter span label first last) first.index covered shown

end Scriptlet.Snippet
