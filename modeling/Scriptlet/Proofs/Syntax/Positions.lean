import Mathlib.Data.List.Induction
import Scriptlet.Proofs.Syntax.Tiling

/-! Lines and columns. A position counts the text in front of a place, whether it was kept up to date while the
text was read or is recounted from a byte offset; and in a text that stands behind another one, every place moves
along with it. -/
namespace Scriptlet

namespace Position

/-- The place behind a text: a line more for every line break, and a column more for every character behind the
last of them. -/
def behind (text : List Char) : Position :=
  ⟨text.count '\n' + 1, (text.reverse.takeWhile (· ≠ '\n')).length + 1⟩

theorem behind_concat (text : List Char) (c : Char) : behind (text ++ [c]) = (behind text).advance c := by
  by_cases hc : c = '\n'
  · simp [behind, advance, hc]
  · simp [behind, advance, hc]

theorem advanceBy_start (text : List Char) : ({} : Position).advanceBy text = behind text := by
  induction text using List.reverseRecOn with
  | nil => rfl
  | append_singleton text c ih => rw [advanceBy_append, ih, behind_concat, advanceBy_cons, advanceBy_nil]

theorem behind_append (text more : List Char) : behind (text ++ more) = (behind text).advanceBy more := by
  rw [← advanceBy_start, advanceBy_append, advanceBy_start]

end Position

/-- The characters in front of a place are those that start before its offset. -/
theorem charsBefore_append (before after : List Char) (offset : Nat) :
    charsBefore (offset + byteLength before) offset (before ++ after) = before := by
  induction before generalizing offset with
  | nil => cases after <;> simp [charsBefore]
  | cons c before ih =>
    have hpos := Char.utf8Size_pos c
    have hstart : offset < offset + byteLength (c :: before) := by
      rw [byteLength_cons]
      omega
    rw [List.cons_append, charsBefore, if_pos hstart, byteLength_cons, ← Nat.add_assoc, ih]

/-- A range that starts behind a text has its position there. -/
theorem Span.positionIn_eq {source : String} {before after : List Char} (hsource : source.toList = before ++ after)
    {s : Span} (hstart : s.start = byteLength before) : s.positionIn source = Position.behind before := by
  have hchars := charsBefore_append before after 0
  rw [Nat.zero_add] at hchars
  rw [positionIn, hsource, hstart, hchars, Position.advanceBy_start]

/-- The item starts behind some part of the text, at the position there. -/
def Item.Placed (cs : List Char) (i : Item) : Prop :=
  ∃ before after, cs = before ++ after ∧ i.span.start = byteLength before ∧ i.position = Position.behind before

namespace Cursor

/-- The cursor stands in the text, and its offset and position count what is in front of it. -/
def Counts (cs : List Char) (c : Cursor) : Prop :=
  ∃ before, cs = before ++ c.rest ∧ c.offset = byteLength before ∧ c.position = Position.behind before

variable {cs : List Char} {c : Cursor}

theorem Counts.advance (h : c.Counts cs) (n : Nat) : (c.advance n).Counts cs := by
  obtain ⟨before, hcs, hoffset, hposition⟩ := h
  refine ⟨before ++ c.rest.take n, ?_, ?_, ?_⟩
  · rw [advance_rest, List.append_assoc, List.take_append_drop, hcs]
  · show c.offset + byteLength (c.rest.take n) = _
    rw [hoffset, byteLength_append]
  · show c.position.advanceBy (c.rest.take n) = _
    rw [hposition, Position.behind_append]

theorem counts_start (source : String) : (start source).Counts source.toList := ⟨[], rfl, rfl, rfl⟩

/-- An item starts where the cursor stands that reads it. -/
theorem read_start (c : Cursor) : c.read.1.span.start = c.offset ∧ c.read.1.position = c.position := by
  unfold read
  split <;> exact ⟨rfl, rfl⟩

theorem Counts.read (h : c.Counts cs) : c.read.2.Counts cs := by
  unfold Cursor.read
  split
  · exact h
  · exact h.advance _

theorem Counts.next (h : c.Counts cs) : c.next.2.Counts cs := (h.advance _).read

theorem Counts.behind (h : c.Counts cs) (n : Nat) : (c.behind n).Counts cs := by
  induction n generalizing c with
  | zero => exact h
  | succ n ih => exact ih h.next

theorem Counts.next_placed (h : c.Counts cs) : c.next.1.Placed cs := by
  obtain ⟨before, hcs, hoffset, hposition⟩ := h.advance (c.rest.takeWhile Text.isBlank).length
  obtain ⟨hstart, hplace⟩ := read_start c.skipBlank
  exact ⟨before, _, hcs, hstart.trans hoffset, hplace.trans hposition⟩

theorem Counts.trace (h : c.Counts cs) : ∀ i ∈ c.trace.map (·.1), i.Placed cs := by
  fun_induction Cursor.trace c with
  | case1 c hend =>
    rw [List.map_singleton, List.forall_mem_singleton]
    exact h.next_placed
  | case2 c hmore _ ih =>
    rw [List.map_cons, List.forall_mem_cons]
    exact ⟨h.next_placed, ih h.next⟩

end Cursor

/-- The position of an item is the one that is recounted from its byte offset, and counts the lines and columns of
the text in front of it. The same holds of the cursor behind any number of items, also past the end. -/
theorem positions_recount_from_offsets (source : String) :
    (∀ i ∈ lex source, i.position = i.span.positionIn source ∧ ∃ before after, source.toList = before ++ after ∧
      i.span.start = byteLength before ∧ i.position = Position.behind before) ∧
    ∀ n, ((Cursor.start source).behind n).position =
      (Span.point ((Cursor.start source).behind n).offset).positionIn source := by
  have hcounts := Cursor.counts_start source
  constructor
  · intro i hi
    obtain ⟨before, after, hsource, hstart, hposition⟩ := hcounts.trace i hi
    have hrecount := Span.positionIn_eq hsource hstart
    exact ⟨hposition.trans hrecount.symm, before, after, hsource, hstart, hposition⟩
  · intro n
    obtain ⟨before, hsource, hoffset, hposition⟩ := hcounts.behind n
    rw [hposition, Span.positionIn_eq hsource hoffset]

/-- A change of positions that can be made before a character is read or after it, from the positions that are
reached by reading. -/
structure Position.Carries (f : Position → Position) (Reached : Position → Prop) : Prop where
  keeps : ∀ p c, Reached p → Reached (p.advance c)
  carries : ∀ p c, Reached p → (f p).advance c = f (p.advance c)

theorem Position.Carries.advanceBy {f : Position → Position} {Reached : Position → Prop} (hf : Carries f Reached)
    (cs : List Char) {p : Position} (hp : Reached p) :
    (f p).advanceBy cs = f (p.advanceBy cs) ∧ Reached (p.advanceBy cs) := by
  induction cs generalizing p with
  | nil => exact ⟨rfl, hp⟩
  | cons x cs ih =>
    rw [advanceBy_cons, hf.carries p x hp]
    exact ih (hf.keeps p x hp)

def Item.carried (bytes : Nat) (f : Position → Position) (i : Item) : Item :=
  ⟨i.content, ⟨i.span.start + bytes, i.span.stop + bytes⟩, f i.position⟩

namespace Cursor

def carried (bytes : Nat) (f : Position → Position) (c : Cursor) : Cursor := ⟨c.offset + bytes, f c.position, c.rest⟩

variable (bytes : Nat) {f : Position → Position} {Reached : Position → Prop} (hf : Position.Carries f Reached)
include hf

theorem advance_carried {c : Cursor} (hc : Reached c.position) (n : Nat) :
    (c.carried bytes f).advance n = (c.advance n).carried bytes f ∧ Reached (c.advance n).position := by
  obtain ⟨hposition, hreached⟩ := hf.advanceBy (c.rest.take n) hc
  refine ⟨?_, hreached⟩
  unfold advance carried
  dsimp only
  rw [hposition, Nat.add_right_comm]

theorem read_carried {c : Cursor} (hc : Reached c.position) :
    (c.carried bytes f).read = (c.read.1.carried bytes f, c.read.2.carried bytes f) ∧ Reached c.read.2.position := by
  obtain ⟨offset, position, rest⟩ := c
  cases rest with
  | nil => exact ⟨rfl, hc⟩
  | cons x xs =>
    obtain ⟨hafter, hreached⟩ := advance_carried bytes hf hc ((Lexeme.read x xs).more + 1)
    refine ⟨?_, hreached⟩
    unfold read
    dsimp only [carried] at hafter ⊢
    rw [hafter]
    rfl

theorem next_carried {c : Cursor} (hc : Reached c.position) :
    (c.carried bytes f).next = (c.next.1.carried bytes f, c.next.2.carried bytes f) ∧ Reached c.next.2.position := by
  obtain ⟨hskip, hreached⟩ := advance_carried bytes hf hc (c.rest.takeWhile Text.isBlank).length
  have hskip' : (c.carried bytes f).skipBlank = c.skipBlank.carried bytes f := hskip
  rw [next, hskip']
  exact read_carried bytes hf hreached

/-- The items of a text depend on where it starts only in their places. -/
theorem trace_carried {c : Cursor} (hc : Reached c.position) :
    (c.carried bytes f).trace.map (·.1) = (c.trace.map (·.1)).map (Item.carried bytes f) := by
  have hrest (c : Cursor) : (c.carried bytes f).skipBlank.rest = c.skipBlank.rest := rfl
  fun_induction trace c with
  | case1 c h =>
    rw [trace_at_end ((hrest c).trans h), (next_carried bytes hf hc).1]
    rfl
  | case2 c h _ ih =>
    obtain ⟨hnext, hreached⟩ := next_carried bytes hf hc
    have hmore : (c.carried bytes f).skipBlank.rest ≠ [] := h
    rw [trace_before_end hmore, hnext, List.map_cons, ih hreached]
    rfl

end Cursor

namespace Position

/-- The place of what stands at `p` in a text that starts at the place `origin`. -/
def within (origin p : Position) : Position :=
  if p.line = 1 then ⟨origin.line, origin.column + (p.column - 1)⟩ else ⟨origin.line + (p.line - 1), p.column⟩

/-- Lines and columns are counted from one. -/
structure Counted (p : Position) : Prop where
  line : 1 ≤ p.line
  column : 1 ≤ p.column

theorem within_start (origin : Position) : origin.within {} = origin := rfl

theorem within_line (origin p : Position) : (origin.within p).line = origin.line + (p.line - 1) := by
  unfold within
  split
  · next hfirst => simp [hfirst]
  · rfl

theorem within_carries (origin : Position) : Carries origin.within Counted where
  keeps p c hp := by
    unfold advance
    split
    · exact ⟨Nat.le_add_left 1 p.line, Nat.le_refl 1⟩
    · exact ⟨hp.line, Nat.le_add_left 1 p.column⟩
  carries p c hp := by
    obtain ⟨hline, hcolumn⟩ := hp
    by_cases hc : c = '\n'
    · rw [hc, advance_newline, advance_newline, within_line, within, if_neg (by simp; omega)]
      simp
      omega
    · rw [advance_other _ hc, advance_other _ hc]
      unfold within
      split
      · simp
        omega
      · rfl

end Position

/-- The same item in a source that has a text in front. -/
def Item.behind (front : String) (i : Item) : Item :=
  i.carried front.utf8ByteSize (Position.behind front.toList).within

/-- The item at the front of the text that is left, read off the lexeme there. -/
theorem Cursor.next_of_read {c : Cursor} {x : Char} {xs rest : List Char} (hrest : c.rest = x :: (xs ++ rest))
    (hblank : Text.isBlank x = false) {outcome : Except LexCause Token}
    (hread : Lexeme.read x (xs ++ rest) = ⟨outcome, xs.length⟩) :
    c.next = (⟨outcome, ⟨c.offset, c.offset + byteLength (x :: xs)⟩, c.position⟩,
      ⟨c.offset + byteLength (x :: xs), c.position.advanceBy (x :: xs), rest⟩) := by
  have hskip : c.skipBlank = c := by
    rw [skipBlank, hrest, List.takeWhile_cons, hblank]
    simp [advance]
  have hafter : c.advance (xs.length + 1) =
      ⟨c.offset + byteLength (x :: xs), c.position.advanceBy (x :: xs), rest⟩ := by
    unfold advance
    rw [hrest, List.take_succ_cons, List.take_left, List.drop_succ_cons, List.drop_left]
  rw [next, hskip, read, hrest]
  dsimp only
  rw [hread, hafter]

/-- One item is read from the front of a source, and what stands behind it is lexed as it would be alone. -/
theorem lex_append {front : String} {x : Char} {xs : List Char} (hfront : front.toList = x :: xs)
    (hblank : Text.isBlank x = false) {rest : String} {outcome : Except LexCause Token}
    (hread : Lexeme.read x (xs ++ rest.toList) = ⟨outcome, xs.length⟩) :
    lex (front ++ rest) = ⟨outcome, ⟨0, front.utf8ByteSize⟩, {}⟩ :: (lex rest).map (Item.behind front) := by
  have hsource : (Cursor.start (front ++ rest)).rest = x :: (xs ++ rest.toList) := by
    rw [Cursor.start, String.toList_append, hfront, List.cons_append]
  have hnext : (Cursor.start (front ++ rest)).next = (⟨outcome, ⟨0, front.utf8ByteSize⟩, {}⟩,
      (Cursor.start rest).carried front.utf8ByteSize (Position.behind front.toList).within) := by
    rw [Cursor.next_of_read hsource hblank hread, ← hfront, byteLength_toList]
    simp [Cursor.carried, Cursor.start, Position.advanceBy_start, Position.within_start]
  have hmore : (Cursor.start (front ++ rest)).skipBlank.rest ≠ [] := by
    rw [Cursor.skipBlank_rest, hsource, List.dropWhile_cons, hblank]
    exact List.cons_ne_nil _ _
  rw [lex, Cursor.trace_before_end hmore, hnext, List.map_cons,
    Cursor.trace_carried _ (Position.within_carries _) ⟨Nat.le_refl 1, Nat.le_refl 1⟩]
  rfl

/-- White space in front moves the items of a source. -/
theorem lex_blank_append {blank : String} (h : ∀ c ∈ blank.toList, Text.isBlank c = true) (rest : String) :
    lex (blank ++ rest) = (lex rest).map (Item.behind blank) := by
  let moved := (Cursor.start rest).carried blank.utf8ByteSize (Position.behind blank.toList).within
  have hstart : (Cursor.start (blank ++ rest)).advance blank.toList.length = moved := by
    unfold Cursor.advance Cursor.start
    dsimp only
    rw [String.toList_append, List.take_left, List.drop_left, byteLength_toList, Position.advanceBy_start]
    simp [moved, Cursor.carried, Cursor.start, Position.within_start]
  have hskip : (Cursor.start (blank ++ rest)).skipBlank = moved.skipBlank := by
    have hrest : (Cursor.start (blank ++ rest)).rest = blank.toList ++ rest.toList := String.toList_append
    rw [Cursor.skipBlank, hrest, List.takeWhile_append_of_pos h, List.length_append, ← Cursor.advance_advance,
      hstart]
    rfl
  rw [lex, Cursor.trace_of_skipBlank hskip,
    Cursor.trace_carried _ (Position.within_carries _) ⟨Nat.le_refl 1, Nat.le_refl 1⟩]
  rfl

end Scriptlet
