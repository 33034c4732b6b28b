import Scriptlet.Proofs.Syntax.Continuing
import Scriptlet.Proofs.Syntax.Positions

/-! Lexing across line breaks. Up to a line break a source is lexed as if it ended there, unless a string, a
template or a block comment goes on behind it; and from there on it is lexed as a source of its own that
stands farther down. -/
namespace Scriptlet

/-- The same column, so many lines farther down. -/
def Position.down (p : Position) (lines : Nat) : Position := ⟨p.line + lines, p.column⟩

namespace Position

theorem advance_down (p : Position) (lines : Nat) (c : Char) :
    (p.down lines).advance c = (p.advance c).down lines := by
  unfold advance
  split
  · rw [down, down, Nat.add_right_comm]
  · rfl

theorem down_carries (lines : Nat) : Carries (·.down lines) fun _ => True where
  keeps _ _ h := h
  carries p c _ := advance_down p lines c

theorem advanceBy_line (p : Position) (cs : List Char) : (p.advanceBy cs).line = p.line + cs.count '\n' := by
  induction cs generalizing p with
  | nil => rfl
  | cons c cs ih =>
    rw [advanceBy_cons, ih]
    by_cases hc : c = '\n'
    · rw [hc, advance_newline, List.count_cons_self, Nat.add_assoc, Nat.add_comm 1]
    · rw [advance_other p hc, List.count_cons_of_ne hc]

/-- Behind a line break a new line starts. -/
theorem advanceBy_break (p : Position) (cs : List Char) :
    p.advanceBy (cs ++ ['\n']) = ⟨p.line + cs.count '\n' + 1, 1⟩ := by
  rw [advanceBy_append, advanceBy_cons, advance_newline, advanceBy_line]
  rfl

end Position

/-- The same item in a text that starts so many bytes farther on and so many lines farther down. -/
def Item.moved (bytes lines : Nat) (i : Item) : Item :=
  ⟨i.content, ⟨i.span.start + bytes, i.span.stop + bytes⟩, i.position.down lines⟩

namespace Cursor

/-- The same place in a text that starts so many bytes farther on and so many lines farther down. -/
def moved (bytes lines : Nat) (c : Cursor) : Cursor := ⟨c.offset + bytes, c.position.down lines, c.rest⟩

theorem trace_moved (bytes lines : Nat) (c : Cursor) :
    (c.moved bytes lines).trace.map (·.1) = (c.trace.map (·.1)).map (Item.moved bytes lines) :=
  trace_carried bytes (Position.down_carries lines) trivial

/-- Behind a source and a line break, a text starts where it would alone, but for the size of the source. -/
theorem past_start (source text : String) : (start source).past text.toList =
    (start text).moved (source.utf8ByteSize + 1) (source.toList.count '\n' + 1) := by
  unfold past start moved
  dsimp only
  rw [byteLength_toList, Position.advanceBy_break, Nat.zero_add, Nat.zero_add, Position.down, Nat.add_assoc]

end Cursor

/-- Two texts with a line break between them are lexed one by one. The first must not end in a string, a
template or a block comment; its other errors do not matter. -/
theorem lexing_splits_at_line_breaks {source : String} (h : ∀ i ∈ lex source, Closed i.content) (text : String) :
    ∃ body last, lex source = body ++ [last] ∧ last.content = .ok .endOfFile ∧
      lex (source ++ "\n" ++ text) =
        body ++ (lex text).map (Item.moved (source.utf8ByteSize + 1) (source.toList.count '\n' + 1)) := by
  obtain ⟨body, last, hlex, hlast, hwhole⟩ := lex_goOn h text
  refine ⟨body, last, hlex, hlast, ?_⟩
  rw [hwhole, Cursor.past_start, Cursor.trace_moved, ← lex]

/-- An exponent without digits at the end of the first text, with digits behind the line break. -/
theorem lexing_splits_at_line_breaks_exponent :
    (∀ i ∈ lex "/* a\n */ é 0x 1e", Closed i.content) ∧
    ∃ body last, lex "/* a\n */ é 0x 1e" = body ++ [last] ∧ last.content = .ok .endOfFile ∧
      lex ("/* a\n */ é 0x 1e" ++ "\n" ++ "5") = body ++ (lex "5").map (Item.moved 18 2) := by
  have hclosed : ∀ i ∈ lex "/* a\n */ é 0x 1e", Closed i.content := by decide +kernel
  exact ⟨hclosed, lexing_splits_at_line_breaks hclosed "5"⟩

end Scriptlet
