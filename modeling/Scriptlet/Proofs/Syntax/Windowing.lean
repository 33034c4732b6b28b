import Scriptlet.Token.Window
import Scriptlet.Proofs.Syntax.Lexing

/-! What comes through a window are the items of the text, their places counted modulo 2³². -/
namespace Scriptlet

theorem Text.counted_eq_indexed (offset : Nat) (cs : List Char) :
    counted (UInt32.ofNat offset) cs = indexed offset cs := by
  induction cs generalizing offset with
  | nil => rfl
  | cons c cs ih =>
    rw [counted, indexed, UInt32.add_sub_cancel, ← UInt32.ofNat_add, ih]

theorem Text.indexed_chars (offset : Nat) (cs : List Char) : (indexed offset cs).map (·.2) = cs := by
  induction cs generalizing offset with
  | nil => rfl
  | cons c cs ih => rw [indexed, List.map_cons, ih]

def Span.narrow (s : Span) : Span := ⟨s.start % UInt32.size, s.stop % UInt32.size⟩

def Position.narrow (p : Position) : Position := ⟨p.line % UInt32.size, p.column % UInt32.size⟩

def Item.narrow (i : Item) : Item := ⟨i.content, i.span.narrow, i.position.narrow⟩

namespace Window

/-- The window stands where the cursor does, and the offsets to come are those of the cursor's text. -/
structure Shows (w : Window) (c : Cursor) : Prop where
  rest : w.rest = c.rest
  position : w.position = UInt32.ofNat c.offset
  nextPosition : w.nextPosition = UInt32.ofNat (c.advance 1).offset
  line : w.line = UInt32.ofNat c.position.line
  column : w.column = UInt32.ofNat c.position.column
  offsets : w.offsets = (Text.indexed (c.advance 2).offset (c.rest.drop 2)).map (·.1)

theorem shows_start (source : String) : (start (Text.indexed 0 source.toList)).Shows (Cursor.start source) := by
  unfold Cursor.start
  cases source.toList with
  | nil => exact ⟨rfl, rfl, rfl, rfl, rfl, rfl⟩
  | cons c cs =>
    cases cs with
    | nil => exact ⟨rfl, rfl, (UInt32.ofNat_add _ _).symm, rfl, rfl, rfl⟩
    | cons d ds =>
      have hrest : c :: d :: (Text.indexed (0 + c.utf8Size + d.utf8Size) ds).map (·.2) = c :: d :: ds := by
        rw [Text.indexed_chars]
      refine ⟨hrest, rfl, rfl, rfl, rfl, ?_⟩
      show (Text.indexed (0 + c.utf8Size + d.utf8Size) ds).map (·.1) =
        (Text.indexed (0 + (c.utf8Size + (d.utf8Size + 0))) ds).map (·.1)
      rw [Nat.add_zero, Nat.add_assoc]

/-- The offset two characters on is the next one of the input, or it is worked out from the last character. -/
theorem Shows.nextPosition_step {w : Window} {c : Cursor} (h : w.Shows c) :
    w.step.nextPosition = UInt32.ofNat (c.advance 2).offset := by
  show w.offsets.head?.getD (behind w.nextPosition w.rest.tail.head?) = _
  rw [h.offsets, h.nextPosition, h.rest]
  show _ = UInt32.ofNat (c.offset + byteLength (c.rest.take 2))
  match hrest : c.rest with
  | [] => simp [Cursor.advance, hrest, Text.indexed, behind]
  | [x] => simp [Cursor.advance, hrest, Text.indexed, behind]
  | [x, y] => simp [Cursor.advance, hrest, Text.indexed, behind, UInt32.ofNat_add, UInt32.add_assoc]
  | x :: y :: z :: zs => simp [Cursor.advance, hrest, Text.indexed]

/-- One step of the window is one character of the cursor. -/
theorem Shows.step {w : Window} {c : Cursor} (h : w.Shows c) : w.step.Shows (c.advance 1) where
  rest := by rw [Window.step, h.rest, Cursor.advance_rest, List.drop_one]
  position := h.nextPosition
  nextPosition := by rw [h.nextPosition_step, Cursor.advance_advance]
  line := by
    rw [Window.step, h.rest, h.line]
    cases hrest : c.rest with
    | nil => simp [Cursor.advance, hrest]
    | cons x xs =>
      by_cases hx : x = '\n'
      · simp [Cursor.advance, hrest, hx, UInt32.ofNat_add]
      · simp [Cursor.advance, hrest, hx, Position.advance_other]
  column := by
    rw [Window.step, h.rest, h.column]
    cases hrest : c.rest with
    | nil => simp [Cursor.advance, hrest]
    | cons x xs =>
      by_cases hx : x = '\n'
      · simp [Cursor.advance, hrest, hx]
      · simp [Cursor.advance, hrest, hx, Position.advance_other, UInt32.ofNat_add]
  offsets := by
    rw [Cursor.advance_advance, Cursor.advance_rest, List.drop_drop]
    show w.offsets.tail = _
    rw [h.offsets]
    rcases hrest : c.rest with _ | ⟨x, _ | ⟨y, _ | ⟨z, zs⟩⟩⟩
    · rfl
    · rfl
    · rfl
    · simp [Cursor.advance, hrest, Text.indexed, Nat.add_assoc]

theorem Shows.advance {w : Window} {c : Cursor} (h : w.Shows c) (n : Nat) :
    (w.advance n).Shows (c.advance n) := by
  induction n generalizing w c with
  | zero =>
    have hc : c.advance 0 = c := rfl
    rw [hc]
    exact h
  | succ n ih =>
    have hstep := ih h.step
    rw [Cursor.advance_advance, Nat.add_comm] at hstep
    exact hstep

theorem Shows.skipBlank {w : Window} {c : Cursor} (h : w.Shows c) : w.skipBlank.Shows c.skipBlank := by
  rw [Window.skipBlank, Cursor.skipBlank, h.rest]
  exact h.advance _

theorem Shows.place {w : Window} {c : Cursor} (h : w.Shows c) :
    (⟨w.line.toNat, w.column.toNat⟩ : Position) = c.position.narrow := by
  rw [h.line, h.column, UInt32.toNat_ofNat', UInt32.toNat_ofNat']
  rfl

theorem Shows.offset {w : Window} {c : Cursor} (h : w.Shows c) : w.position.toNat = c.offset % UInt32.size := by
  rw [h.position]
  exact UInt32.toNat_ofNat'

theorem Shows.read {w : Window} {c : Cursor} (h : w.Shows c) :
    w.read.1 = c.read.1.narrow ∧ w.read.2.Shows c.read.2 := by
  unfold Window.read Cursor.read
  rw [h.rest, h.place, h.offset]
  cases c.rest with
  | nil => exact ⟨rfl, h⟩
  | cons x xs =>
    refine ⟨?_, h.advance _⟩
    dsimp only
    rw [(h.advance _).offset]
    rfl

theorem Shows.next {w : Window} {c : Cursor} (h : w.Shows c) :
    w.next.1 = c.next.1.narrow ∧ w.next.2.Shows c.next.2 := h.skipBlank.read

theorem Shows.trace {w : Window} {c : Cursor} (h : w.Shows c) :
    w.trace.map (·.1) = (c.trace.map (·.1)).map Item.narrow := by
  fun_induction Cursor.trace c generalizing w with
  | case1 c hend =>
    rw [Window.trace, dif_pos (h.skipBlank.rest.trans hend)]
    exact congrArg ([·]) h.next.1
  | case2 c hend _ ih =>
    rw [Window.trace, dif_neg (by rw [h.skipBlank.rest]; exact hend), List.map_cons, List.map_cons, List.map_cons,
      h.next.1, ih h.next.2]

end Window

/-- The items of a source come through the window with their places modulo 2³². -/
theorem scan_eq (source : String) : scan source = (lex source).map Item.narrow :=
  (Window.shows_start source).trace

@[simp] theorem Item.narrow_token? (i : Item) : i.narrow.token? = i.token? := by
  obtain ⟨content, span, position⟩ := i
  cases content with
  | error cause => rfl
  | ok t => cases t <;> rfl

theorem EndsLast.narrow {items : List Item} (h : EndsLast items) : EndsLast (items.map Item.narrow) := by
  induction items with
  | nil => exact trivial
  | cons i items ih =>
    refine ⟨fun he => ?_, ih h.2⟩
    rw [Item.narrow_token?] at he
    rw [h.1 he, List.map_nil]

theorem scan_endsLast (source : String) : EndsLast (scan source) := by
  rw [scan_eq]
  exact (lex_endsLast source).narrow

theorem properTokens_scan (source : String) : properTokens (scan source) = properTokens (lex source) := by
  have htoken : Item.token? ∘ Item.narrow = Item.token? := funext Item.narrow_token?
  rw [scan_eq, properTokens, properTokens, itemTokens, itemTokens, List.filterMap_map, htoken]

theorem scan_sound {source : String} : ItemsSound (scan source) ↔ ItemsSound (lex source) := by
  rw [scan_eq]
  simp [ItemsSound, Item.narrow]

end Scriptlet
