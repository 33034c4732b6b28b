import Scriptlet.Token.Lexer

/-! A text that comes in character by character, each with its offset, and is read through a window of two
characters. Offsets, lines and columns are counted in 32 bits. The offset behind the last character is worked
out from the length of that character, for the input has no offset there. -/
namespace Scriptlet

/-- The characters of a text with their offsets, the first of which is given. -/
def Text.indexed (offset : Nat) : List Char → List (UInt32 × Char)
  | [] => []
  | c :: cs => (UInt32.ofNat offset, c) :: indexed (offset + c.utf8Size) cs

/-- The same offsets counted while the characters come: each is what was counted before its own bytes. -/
def Text.counted (count : UInt32) : List Char → List (UInt32 × Char)
  | [] => []
  | c :: cs =>
    let next := count + UInt32.ofNat c.utf8Size
    (next - UInt32.ofNat c.utf8Size, c) :: counted next cs

/-- `rest` are the characters that were not read, the first two of them in view; `offsets` belong to those
behind the two, which were not asked for yet; `ended` is set once the input was asked and had nothing left. -/
structure Window where
  position : UInt32
  nextPosition : UInt32
  line : UInt32 := 1
  column : UInt32 := 1
  rest : List Char
  offsets : List UInt32
  ended : Bool

namespace Window

def start : List (UInt32 × Char) → Window
  | [] => { position := 0, nextPosition := 0, rest := [], offsets := [], ended := true }
  | [(offset, c)] =>
    { position := offset
      nextPosition := offset + UInt32.ofNat c.utf8Size
      rest := [c]
      offsets := []
      ended := true }
  | (offset, c) :: (next, d) :: more =>
    { position := offset
      nextPosition := next
      rest := c :: d :: more.map (·.2)
      offsets := more.map (·.1)
      ended := false }

/-- The offset behind the character `last`, if there is one, that stands at `offset`. -/
def behind (offset : UInt32) : Option Char → UInt32
  | some last => offset + UInt32.ofNat last.utf8Size
  | none => offset

/-- Reads a character, if there is one, and asks the input for another. -/
def step (w : Window) : Window where
  position := w.nextPosition
  nextPosition := w.offsets.head?.getD (behind w.nextPosition w.rest.tail.head?)
  line := if w.rest.head? = some '\n' then w.line + 1 else w.line
  column :=
    match w.rest with
    | [] => w.column
    | c :: _ => if c = '\n' then 1 else w.column + 1
  rest := w.rest.tail
  offsets := w.offsets.tail
  ended := w.ended || w.offsets.isEmpty

def advance (w : Window) : Nat → Window
  | 0 => w
  | n + 1 => w.step.advance n

@[simp] theorem advance_rest (w : Window) (n : Nat) : (w.advance n).rest = w.rest.drop n := by
  induction n generalizing w with
  | zero => rfl
  | succ n ih =>
    rw [advance, ih]
    cases h : w.rest with
    | nil => simp [step, h]
    | cons c cs => simp [step, h]

def skipBlank (w : Window) : Window := w.advance (w.rest.takeWhile Text.isBlank).length

def read (w : Window) : Item × Window :=
  let place : Position := ⟨w.line.toNat, w.column.toNat⟩
  match w.rest with
  | [] => (⟨.ok .endOfFile, .point w.position.toNat, place⟩, w)
  | x :: xs =>
    let lexeme := Lexeme.read x xs
    let after := w.advance (lexeme.more + 1)
    (⟨lexeme.outcome, ⟨w.position.toNat, after.position.toNat⟩, place⟩, after)

def next (w : Window) : Item × Window := w.skipBlank.read

theorem next_rest_lt {w : Window} (h : w.skipBlank.rest ≠ []) : w.next.2.rest.length < w.rest.length := by
  have hskip : w.skipBlank.rest.length ≤ w.rest.length := by simp [skipBlank]
  refine Nat.lt_of_lt_of_le ?_ hskip
  unfold next read
  dsimp only
  split
  · contradiction
  · next heq =>
    simp only [advance_rest, heq, List.drop_succ_cons, List.length_drop, List.length_cons]
    omega

def after (w : Window) : Nat → Window
  | 0 => w
  | n + 1 => w.next.2.after n

def trace (w : Window) : List (Item × Window) :=
  if h : w.skipBlank.rest = [] then [w.next]
  else
    have := next_rest_lt h
    w.next :: w.next.2.trace
termination_by w.rest.length

end Window

/-- The items of a source as they come through a window. -/
def scan (source : String) : List Item := (Window.start (Text.indexed 0 source.toList)).trace.map (·.1)

end Scriptlet
