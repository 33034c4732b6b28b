/-! Places in a source text: byte ranges, and the line and column a reader counts. -/
namespace Scriptlet

/-- The bytes from `start` up to, and not including, `stop`. -/
structure Span where
  start : Nat
  stop : Nat
  deriving DecidableEq, Inhabited

namespace Span

def point (offset : Nat) : Span := ⟨offset, offset⟩

def merge (a b : Span) : Span := ⟨min a.start b.start, max a.stop b.stop⟩

@[simp] theorem merge_start (a b : Span) : (a.merge b).start = min a.start b.start := rfl

@[simp] theorem merge_stop (a b : Span) : (a.merge b).stop = max a.stop b.stop := rfl

def text (s : Span) : String := s!"{s.start}..{s.stop}"

end Span

/-- Line and column, both counted from one; columns count characters. -/
structure Position where
  line : Nat := 1
  column : Nat := 1
  deriving DecidableEq, Inhabited

namespace Position

/-- Where the next character stands once `c` has been read. -/
def advance (p : Position) (c : Char) : Position :=
  if c = '\n' then ⟨p.line + 1, 1⟩ else ⟨p.line, p.column + 1⟩

@[simp] theorem advance_newline (p : Position) : p.advance '\n' = ⟨p.line + 1, 1⟩ := rfl

theorem advance_other (p : Position) {c : Char} (h : c ≠ '\n') :
    p.advance c = ⟨p.line, p.column + 1⟩ := if_neg h

/-- Where the next character stands once all of `cs` has been read. -/
def advanceBy (p : Position) (cs : List Char) : Position := cs.foldl advance p

@[simp] theorem advanceBy_nil (p : Position) : p.advanceBy [] = p := rfl

@[simp] theorem advanceBy_cons (p : Position) (c : Char) (cs : List Char) :
    p.advanceBy (c :: cs) = (p.advance c).advanceBy cs := rfl

theorem advanceBy_append (p : Position) (cs ds : List Char) :
    p.advanceBy (cs ++ ds) = (p.advanceBy cs).advanceBy ds := List.foldl_append

def text (p : Position) : String := s!"{p.line}:{p.column}"

end Position

/-- The number of bytes a text takes in UTF-8. -/
def byteLength (cs : List Char) : Nat := cs.foldr (fun c n => c.utf8Size + n) 0

@[simp] theorem byteLength_nil : byteLength [] = 0 := rfl

@[simp] theorem byteLength_cons (c : Char) (cs : List Char) :
    byteLength (c :: cs) = c.utf8Size + byteLength cs := rfl

theorem byteLength_append (cs ds : List Char) :
    byteLength (cs ++ ds) = byteLength cs + byteLength ds := by
  induction cs with
  | nil => simp
  | cons c cs ih => simp [ih, Nat.add_assoc]

/-- The characters that start before byte `stop`, the first of them standing at byte `offset`. -/
def charsBefore (stop : Nat) : Nat → List Char → List Char
  | _, [] => []
  | offset, c :: cs =>
    if offset < stop then c :: charsBefore stop (offset + c.utf8Size) cs else []

/-- The line and column of the first character of the range, recounted from the source. -/
def Span.positionIn (s : Span) (source : String) : Position :=
  ({} : Position).advanceBy (charsBefore s.start 0 source.toList)

/-- A thing found in a source, with its range and the position of its first character. -/
structure Located (α : Type) where
  content : α
  span : Span
  position : Position
  deriving Inhabited

end Scriptlet
