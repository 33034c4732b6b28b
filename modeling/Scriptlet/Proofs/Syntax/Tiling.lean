import Scriptlet.Proofs.Syntax.Spelling

/-! Where the items of a source stand. Each covers the characters that it was read from; they follow one
another from the left to the right, and the characters that none of them covers are white space. -/
namespace Scriptlet

theorem byteLength_toList (s : String) : byteLength s.toList = s.utf8ByteSize := by
  have hchars : ∀ cs : List Char, byteLength cs = (String.ofList cs).utf8ByteSize := by
    intro cs
    induction cs with
    | nil => simp
    | cons c cs ih =>
      rw [byteLength_cons, ih, ← List.singleton_append, String.ofList_append,
        String.utf8ByteSize_append, ← String.singleton_eq_ofList, String.utf8ByteSize_singleton]
  rw [hchars, String.ofList_toList]

/-- A byte offset at which a character of the text starts, or at which the text ends. -/
def OnBoundary (cs : List Char) (offset : Nat) : Prop :=
  ∃ before after, cs = before ++ after ∧ offset = byteLength before

theorem OnBoundary.le {cs : List Char} {offset : Nat} (h : OnBoundary cs offset) :
    offset ≤ byteLength cs := by
  obtain ⟨before, after, rfl, rfl⟩ := h
  simp [byteLength_append]

/-- What comes before one place of a text, compared by its bytes with what comes before a character. -/
theorem split_at_char {before after before' after' : List Char} {x : Char}
    (h : before ++ after = before' ++ x :: after') :
    byteLength before' + x.utf8Size ≤ byteLength before ∧ (∃ k, before = before' ++ x :: k) ∨
      byteLength before ≤ byteLength before' ∧ ∃ k, before' = before ++ k ∧ after = k ++ x :: after' := by
  rcases List.append_eq_append_iff.1 h with ⟨k, hbefore, hafter⟩ | ⟨k, hbefore, hafter⟩
  · right
    exact ⟨by simp [hbefore, byteLength_append], k, hbefore, hafter⟩
  · cases k with
    | nil =>
      right
      exact ⟨by simp [hbefore], [], by simp [hbefore], by simpa using hafter.symm⟩
    | cons y k =>
      left
      obtain ⟨rfl, -⟩ := List.cons.inj hafter
      refine ⟨?_, k, hbefore⟩
      rw [hbefore, byteLength_append, byteLength_cons]
      omega

/-- A character that starts before a boundary ends before it. -/
theorem OnBoundary.char_le {cs before after : List Char} {x : Char} {offset : Nat}
    (h : OnBoundary cs offset) (hcs : cs = before ++ x :: after) (hlt : byteLength before < offset) :
    byteLength before + x.utf8Size ≤ offset := by
  obtain ⟨front, back, hsplit, rfl⟩ := h
  rcases split_at_char (hsplit.symm.trans hcs) with ⟨hle, -⟩ | ⟨hle, -⟩
  · exact hle
  · omega

namespace Lexeme

theorem quotedBody_length (quote : Char) (cs : List Char) {text : List Char} {n : Nat}
    (h : quotedBody quote cs = some (text, n)) : n ≤ cs.length := by
  fun_induction quotedBody quote cs generalizing text n with
  | case1 => cases h
  | case2 c cs ih =>
    obtain ⟨⟨rest, k⟩, hrest, hk⟩ := Option.map_eq_some_iff.1 h
    have hle := ih hrest
    cases hk
    simp only [List.length_cons]
    omega
  | case3 cs _ =>
    cases h
    simp
  | case4 c cs _ _ ih =>
    obtain ⟨⟨rest, k⟩, hrest, hk⟩ := Option.map_eq_some_iff.1 h
    have hle := ih hrest
    cases hk
    simp only [List.length_cons]
    omega

theorem commentEnd?_length (cs : List Char) {n : Nat} (h : commentEnd? cs = some n) : n ≤ cs.length := by
  fun_induction commentEnd? cs generalizing n with
  | case1 => cases h
  | case2 cs =>
    cases h
    simp
  | case3 c cs _ ih =>
    obtain ⟨k, hk, hn⟩ := Option.map_eq_some_iff.1 h
    have hle := ih hk
    simp only [List.length_cons]
    omega

theorem longestOperator?_length (cs : List Char) (limit : Nat) {s : Symbol}
    (h : longestOperator? cs limit = some s) : s.text.length ≤ cs.length := by
  induction limit with
  | zero => cases h
  | succ n ih =>
    unfold longestOperator? at h
    split at h
    · next sign hsign =>
      cases h
      have htext : s.text = String.ofList (cs.take (n + 1)) := by
        have hfound := List.find?_some hsign
        simpa using hfound
      rw [htext, String.length_ofList]
      exact List.length_take_le' _ _
    · exact ih h

theorem string_length (quote : Char) (cs : List Char) : (string quote cs).more ≤ cs.length := by
  unfold string
  split
  · next text n h => exact quotedBody_length quote cs h
  · exact Nat.le_refl _

theorem template_length (cs : List Char) : (template cs).more ≤ cs.length := by
  have hle : (cs.takeWhile (· ≠ backtick)).length ≤ cs.length := (List.takeWhile_prefix _).length_le
  unfold template
  dsimp only
  split
  · exact hle
  · next hmore =>
    have hne : cs.drop (cs.takeWhile (· ≠ backtick)).length ≠ [] := by simpa using hmore
    have hpos := List.length_pos_iff.2 hne
    rw [List.length_drop] at hpos
    show _ + 1 ≤ _
    omega

theorem blockComment_length (cs : List Char) : (blockComment cs).more ≤ cs.length + 1 := by
  unfold blockComment
  split
  · next n h => exact Nat.succ_le_succ (commentEnd?_length cs h)
  · exact Nat.le_refl _

theorem word_length (c : Char) (cs : List Char) : (word c cs).more ≤ cs.length := by
  have hle : (cs.takeWhile inWord).length ≤ cs.length := (List.takeWhile_prefix _).length_le
  unfold word
  dsimp only
  split <;> exact hle

theorem sign_length (c : Char) (cs : List Char) : (sign c cs).more ≤ cs.length := by
  unfold sign
  split
  · exact Nat.zero_le _
  · split
    · next s h =>
      have hle := longestOperator?_length _ _ h
      rw [List.length_cons] at hle
      show s.text.length - 1 ≤ _
      omega
    · exact Nat.zero_le _

/-- No routine takes characters that are not there. -/
theorem read_length (c : Char) (cs : List Char) : (read c cs).more ≤ cs.length := by
  unfold read
  split
  · exact (List.takeWhile_prefix _).length_le
  · exact blockComment_length _
  · split
    · exact string_length _ _
    · split
      · exact template_length _
      · split
        · exact word_length _ _
        · split
          · exact number_length _ _
          · exact sign_length _ _

end Lexeme

/-- The item is the lexeme at its place, and its range is that of the characters of the lexeme. -/
def Item.Stands (cs : List Char) (i : Item) : Prop :=
  ∃ before x text after, cs = before ++ x :: (text ++ after) ∧
    i.content = (Lexeme.read x (text ++ after)).outcome ∧
    (Lexeme.read x (text ++ after)).more = text.length ∧
    i.span = ⟨byteLength before, byteLength (before ++ x :: text)⟩

namespace Item.Stands

variable {cs : List Char} {i : Item} (h : i.Stands cs)
include h

theorem start_lt_stop : i.span.start < i.span.stop := by
  obtain ⟨before, x, text, after, -, -, -, hspan⟩ := h
  have hpos := Char.utf8Size_pos x
  simp only [hspan, byteLength_append, byteLength_cons]
  omega

theorem start_onBoundary : OnBoundary cs i.span.start := by
  obtain ⟨before, x, text, after, hcs, -, -, hspan⟩ := h
  exact ⟨before, _, hcs, by rw [hspan]⟩

theorem stop_onBoundary : OnBoundary cs i.span.stop := by
  obtain ⟨before, x, text, after, hcs, -, -, hspan⟩ := h
  exact ⟨before ++ x :: text, after, by simp [hcs], by rw [hspan]⟩

theorem not_end : i.content ≠ .ok .endOfFile := by
  obtain ⟨before, x, text, after, -, hcontent, -, -⟩ := h
  rw [hcontent]
  exact fun he => (Lexeme.sound_read _ _).readable _ he

end Item.Stands

/-- The characters that start from one offset on and before another are white space. -/
def BlankBetween (cs : List Char) (lower upper : Nat) : Prop :=
  ∀ before x after, cs = before ++ x :: after → lower ≤ byteLength before → byteLength before < upper →
    Text.isBlank x = true

/-- Items that follow one another from an offset on with nothing but white space between them, up to the
end of the file at the end of the text. -/
inductive Tiling (cs : List Char) : Nat → List Item → Prop
  | last {lower : Nat} (position : Position) (hblank : BlankBetween cs lower (byteLength cs)) :
    Tiling cs lower [⟨.ok .endOfFile, .point (byteLength cs), position⟩]
  | item {lower : Nat} {i : Item} {items : List Item} (hstands : i.Stands cs)
    (hlower : lower ≤ i.span.start) (hblank : BlankBetween cs lower i.span.start)
    (hrest : Tiling cs i.span.stop items) : Tiling cs lower (i :: items)

namespace Cursor

/-- The cursor has a text before it and behind it, and its offset counts the bytes before it. -/
def Over (cs : List Char) (c : Cursor) : Prop :=
  ∃ before, cs = before ++ c.rest ∧ c.offset = byteLength before

theorem Over.advance {cs : List Char} {c : Cursor} (h : c.Over cs) (n : Nat) : (c.advance n).Over cs := by
  obtain ⟨before, hcs, hoffset⟩ := h
  refine ⟨before ++ c.rest.take n, ?_, ?_⟩
  · rw [advance_rest, List.append_assoc, List.take_append_drop, hcs]
  · show c.offset + byteLength (c.rest.take n) = _
    rw [hoffset, byteLength_append]

theorem skipBlank_blank {cs : List Char} {c : Cursor} (h : c.Over cs) :
    c.offset ≤ c.skipBlank.offset ∧ BlankBetween cs c.offset c.skipBlank.offset := by
  obtain ⟨before, hcs, hoffset⟩ := h
  let blanks := c.rest.takeWhile Text.isBlank
  have htake : c.rest.take blanks.length = blanks :=
    List.prefix_iff_eq_take.1 (List.takeWhile_prefix _) |>.symm
  have hskip : c.skipBlank.offset = byteLength (before ++ blanks) := by
    show c.offset + byteLength (c.rest.take blanks.length) = _
    rw [htake, hoffset, byteLength_append]
  have hrest : c.rest = blanks ++ c.rest.dropWhile Text.isBlank :=
    (List.takeWhile_append_dropWhile).symm
  constructor
  · rw [hskip, hoffset, byteLength_append]
    omega
  · intro front x after hfront hlower hupper
    rw [hoffset] at hlower
    rw [hskip] at hupper
    have hpos := Char.utf8Size_pos x
    rw [hcs, hrest] at hfront
    -- the character stands behind what was read and before what is left, so among the blanks
    rcases split_at_char hfront with ⟨hle, -⟩ | ⟨-, k, hk, hblanks⟩
    · omega
    · rcases split_at_char hblanks with ⟨-, k', hk'⟩ | ⟨hle, -⟩
      · have hmem : x ∈ blanks := by simp [hk']
        exact List.all_eq_true.1 List.all_takeWhile x hmem
      · rw [hk, byteLength_append, byteLength_append] at hupper
        omega

/-- The item at the front of a text stands where the cursor is, and the cursor behind it is at its end. -/
theorem read_stands {cs : List Char} {c : Cursor} (h : c.Over cs) (hrest : c.rest ≠ []) :
    c.read.1.Stands cs ∧ c.read.1.span = ⟨c.offset, c.read.2.offset⟩ ∧ c.read.2.Over cs := by
  obtain ⟨x, xs, hxs⟩ := List.exists_cons_of_ne_nil hrest
  have hread : c.read = (⟨(Lexeme.read x xs).outcome,
      ⟨c.offset, (c.advance ((Lexeme.read x xs).more + 1)).offset⟩, c.position⟩,
      c.advance ((Lexeme.read x xs).more + 1)) := by
    unfold read
    rw [hxs]
  have hmore := Lexeme.read_length x xs
  rw [hread]
  refine ⟨?_, rfl, h.advance _⟩
  obtain ⟨before, hcs, hoffset⟩ := h
  have hsplit := List.take_append_drop (Lexeme.read x xs).more xs
  refine ⟨before, x, xs.take (Lexeme.read x xs).more, xs.drop (Lexeme.read x xs).more, ?_, ?_, ?_, ?_⟩
  · rw [hsplit, hcs, hxs]
  · rw [hsplit]
  · rw [hsplit, List.length_take, Nat.min_eq_left hmore]
  · show (⟨c.offset, c.offset + byteLength (c.rest.take _)⟩ : Span) = _
    rw [hxs, List.take_succ_cons, hoffset, byteLength_append]

theorem trace_tiling {cs : List Char} (c : Cursor) (h : c.Over cs) :
    Tiling cs c.offset (c.trace.map (·.1)) := by
  fun_induction trace c with
  | case1 c hend =>
    obtain ⟨hle, hblank⟩ := skipBlank_blank h
    obtain ⟨before, hcs, hoffset⟩ := h.advance (c.rest.takeWhile Text.isBlank).length
    have hlength : c.skipBlank.offset = byteLength cs := by
      have hnil : (c.advance (c.rest.takeWhile Text.isBlank).length).rest = [] := hend
      rw [hnil, List.append_nil] at hcs
      rw [hcs]
      exact hoffset
    have hnext : c.next.1 = ⟨.ok .endOfFile, .point (byteLength cs), c.skipBlank.position⟩ := by
      rw [next, read, hend, hlength]
    rw [List.map_singleton, hnext]
    exact .last _ (hlength ▸ hblank)
  | case2 c hmore _ ih =>
    obtain ⟨hle, hblank⟩ := skipBlank_blank h
    obtain ⟨hstands, hspan, hover⟩ := read_stands (h.advance _) hmore
    have hstart : c.next.1.span.start = c.skipBlank.offset := congrArg Span.start hspan
    have hstop : c.next.1.span.stop = c.next.2.offset := congrArg Span.stop hspan
    refine .item hstands ?_ ?_ ?_
    · exact hstart ▸ hle
    · exact hstart ▸ hblank
    · exact hstop ▸ ih hover

end Cursor

theorem lex_tiling (source : String) : Tiling source.toList 0 (lex source) :=
  Cursor.trace_tiling (Cursor.start source) ⟨[], rfl, rfl⟩

namespace Tiling

variable {cs : List Char} {lower : Nat} {items : List Item}

/-- The end of the file comes last, and every other item stands somewhere in the text. -/
theorem split (h : Tiling cs lower items) : ∃ body position,
    items = body ++ [⟨.ok .endOfFile, .point (byteLength cs), position⟩] ∧
      (∀ i ∈ body, i.Stands cs ∧ lower ≤ i.span.start) ∧
      body.Pairwise fun i j => i.span.stop ≤ j.span.start := by
  induction h with
  | last position _ => exact ⟨[], position, rfl, by simp, .nil⟩
  | @item lower i items hstands hlower _ _ ih =>
    obtain ⟨body, position, rfl, hbody, hordered⟩ := ih
    have hlt := hstands.start_lt_stop
    refine ⟨i :: body, position, rfl, ?_, ?_⟩
    · intro j hj
      rcases List.mem_cons.1 hj with rfl | hj
      · exact ⟨hstands, hlower⟩
      · obtain ⟨hj, hle⟩ := hbody j hj
        exact ⟨hj, by omega⟩
    · exact List.pairwise_cons.2 ⟨fun j hj => (hbody j hj).2, hordered⟩

/-- A character is white space, or an item covers it. -/
theorem covers (h : Tiling cs lower items) {before after : List Char} {x : Char}
    (hcs : cs = before ++ x :: after) (hlower : lower ≤ byteLength before) :
    Text.isBlank x = true ∨ ∃ i ∈ items, i.content ≠ .ok .endOfFile ∧ i.span.start ≤ byteLength before ∧
      byteLength before + x.utf8Size ≤ i.span.stop := by
  induction h with
  | last position hblank =>
    have hlt : byteLength before < byteLength cs := by
      have hpos := Char.utf8Size_pos x
      rw [hcs, byteLength_append, byteLength_cons]
      omega
    exact .inl (hblank before x after hcs hlower hlt)
  | @item lower i items hstands _ hblank _ ih =>
    by_cases hstart : byteLength before < i.span.start
    · exact .inl (hblank before x after hcs hlower hstart)
    · by_cases hstop : byteLength before < i.span.stop
      · right
        refine ⟨i, List.mem_cons_self, hstands.not_end, by omega, ?_⟩
        exact hstands.stop_onBoundary.char_le hcs hstop
      · rcases ih (by omega) with hx | ⟨j, hj, hcover⟩
        · exact .inl hx
        · exact .inr ⟨j, List.mem_cons_of_mem _ hj, hcover⟩

end Tiling

/-- The items of a source end with the only end of the file, which stands at the end of the source. Each
other item is what its characters are read as, has at least one, and starts and ends where characters do;
no item starts before the one before it ends; and a character outside of all items is white space. -/
theorem items_tile_source (source : String) : ∃ body position,
    lex source = body ++ [⟨.ok .endOfFile, .point source.utf8ByteSize, position⟩] ∧
      (∀ i ∈ body, i.content ≠ .ok .endOfFile ∧ i.Stands source.toList ∧ i.span.start < i.span.stop ∧
        OnBoundary source.toList i.span.start ∧ OnBoundary source.toList i.span.stop) ∧
      body.Pairwise (fun i j => i.span.stop ≤ j.span.start) ∧
      ∀ before x after, source.toList = before ++ x :: after →
        (∀ i ∈ body, ¬(i.span.start ≤ byteLength before ∧ byteLength before + x.utf8Size ≤ i.span.stop)) →
        Text.isBlank x = true := by
  have htiling := lex_tiling source
  obtain ⟨body, position, hitems, hbody, hordered⟩ := htiling.split
  rw [byteLength_toList] at hitems
  refine ⟨body, position, hitems, ?_, hordered, ?_⟩
  · intro i hi
    have hstands := (hbody i hi).1
    exact ⟨hstands.not_end, hstands, hstands.start_lt_stop, hstands.start_onBoundary,
      hstands.stop_onBoundary⟩
  · intro before x after hsource houtside
    rcases htiling.covers hsource (Nat.zero_le _) with hx | ⟨i, hi, hend, hcover⟩
    · exact hx
    · rw [hitems] at hi
      rcases List.mem_append.1 hi with hi | hi
      · exact (houtside i hi hcover).elim
      · rw [List.mem_singleton] at hi
        exact (hend (by rw [hi])).elim

end Scriptlet
