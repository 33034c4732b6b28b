import Scriptlet.Proofs.Syntax.View

/-! The items of a source. Each token among them is one that characters can stand for, only the last is the
end of the file, and what they are depends on the characters alone, not on where these stand. -/
namespace Scriptlet

/-- A character that opens words and characters that continue them. -/
def IsWord (name : String) : Prop :=
  ∃ c cs, name.toList = c :: cs ∧ Lexeme.startsWord c = true ∧ ∀ x ∈ cs, Lexeme.inWord x = true

/-- What characters can stand for: names are words and no keywords, integers are not negative, other numbers are
read from digits and a power of ten, and the end of the file has no characters. -/
def Token.Readable : Token → Prop
  | identifier name => IsWord name ∧ Keyword.ofText? name = none
  | int value => 0 ≤ value.toInt
  | float x => ∃ m e, x = Decimal.nearest m e
  | endOfFile => False
  | _ => True

theorem fit?_nonneg {n : Nat} {value : Int64} (h : Decimal.fit? n = some value) : 0 ≤ value.toInt := by
  have hfit := (Decimal.fit?_isSome_iff n).1 (by rw [h]; rfl)
  have hu : (n : Int) < 2 ^ 63 := Int.lt_of_le_sub_one hfit.2
  unfold Decimal.fit? at h
  split at h
  · cases h
    rw [Int64.toInt_ofInt_of_le hfit.1 hu]
    exact Int.natCast_nonneg n
  · cases h

namespace Lexeme

/-- The token of a lexeme, if it has one, is readable. -/
structure Sound (l : Lexeme) : Prop where
  readable : ∀ t, l.outcome = .ok t → t.Readable

theorem sound_found {t : Token} {more : Nat} (h : t.Readable) : (found t more).Sound where
  readable t' ht := by
    cases ht
    exact h

theorem sound_fault {cause : LexCause} {more : Nat} : (fault cause more).Sound where
  readable t ht := by cases ht

theorem sound_word {c : Char} (hc : startsWord c = true) (cs : List Char) : (word c cs).Sound := by
  unfold word
  dsimp only
  split
  · exact sound_found trivial
  · next hnone =>
    refine sound_found ⟨⟨c, cs.takeWhile inWord, String.toList_ofList, hc, ?_⟩, hnone⟩
    exact List.all_eq_true.1 List.all_takeWhile

theorem sound_string (quote : Char) (cs : List Char) : (string quote cs).Sound := by
  unfold string
  split
  · exact sound_found trivial
  · exact sound_fault

theorem sound_template (cs : List Char) : (template cs).Sound := by
  unfold template
  dsimp only
  split
  · exact sound_fault
  · exact sound_found trivial

theorem sound_blockComment (cs : List Char) : (blockComment cs).Sound := by
  unfold blockComment
  split
  · exact sound_found trivial
  · exact sound_fault

theorem sound_intToken (n more : Nat) : (intToken n more).Sound := by
  unfold intToken
  split
  · next value hvalue => exact sound_found (fit?_nonneg hvalue)
  · exact sound_fault

theorem sound_radixNumber (radix : Nat) (cs : List Char) : (radixNumber radix cs).Sound := by
  unfold radixNumber
  dsimp only
  split
  · exact sound_fault
  · split
    · exact sound_intToken _ _
    · exact sound_fault

theorem sound_decimalNumber (c : Char) (cs : List Char) : (decimalNumber c cs).Sound := by
  unfold decimalNumber
  dsimp only
  split
  · exact sound_fault
  · exact sound_found ⟨_, _, rfl⟩
  · split
    · exact sound_intToken _ _
    · exact sound_found ⟨_, _, rfl⟩

theorem sound_number (c : Char) (cs : List Char) : (number c cs).Sound := by
  unfold number
  split
  · split
    · exact sound_radixNumber _ _
    · exact sound_decimalNumber _ _
  · exact sound_decimalNumber _ _

theorem sound_sign (c : Char) (cs : List Char) : (sign c cs).Sound := by
  unfold sign
  split
  · exact sound_found trivial
  · split
    · exact sound_found trivial
    · exact sound_fault

theorem sound_read (c : Char) (cs : List Char) : (read c cs).Sound := by
  unfold read
  split
  · exact sound_found trivial
  · exact sound_blockComment _
  · split
    · exact sound_string _ _
    · split
      · exact sound_template _
      · split
        · next hc => exact sound_word hc _
        · split
          · exact sound_number _ _
          · exact sound_sign _ _

end Lexeme

theorem Item.token?_eq_end {i : Item} (h : i.token? = some .endOfFile) : i.content = .ok .endOfFile := by
  obtain ⟨content, span, position⟩ := i
  cases content with
  | error cause => cases h
  | ok t =>
    cases t with
    | endOfFile => rfl
    | _ => cases h

theorem Cursor.trace_at_end {c : Cursor} (h : c.skipBlank.rest = []) : c.trace = [c.next] := by
  rw [trace, dif_pos h]

theorem Cursor.trace_before_end {c : Cursor} (h : c.skipBlank.rest ≠ []) :
    c.trace = c.next :: c.next.2.trace := by
  rw [trace, dif_neg h]

theorem Cursor.advance_advance (c : Cursor) (m n : Nat) : (c.advance m).advance n = c.advance (m + n) := by
  rw [advance, advance, advance]
  dsimp only
  rw [List.take_add, byteLength_append, Position.advanceBy_append, List.drop_drop, Nat.add_assoc]

/-- White space at the front does not matter beyond where it ends. -/
theorem Cursor.trace_of_skipBlank {c d : Cursor} (h : c.skipBlank = d.skipBlank) : c.trace = d.trace := by
  have hnext : c.next = d.next := congrArg read h
  by_cases hend : d.skipBlank.rest = []
  · rw [trace_at_end (h ▸ hend), trace_at_end hend, hnext]
  · rw [trace_before_end (h ▸ hend), trace_before_end hend, hnext]

theorem Cursor.trace_endsLast (c : Cursor) : EndsLast (c.trace.map (·.1)) := by
  fun_induction trace c with
  | case1 c h => exact ⟨fun _ => rfl, trivial⟩
  | case2 c h _ ih =>
    refine ⟨fun he => ?_, ih⟩
    have hend := Item.token?_eq_end he
    unfold next read at hend
    split at hend
    · contradiction
    · exact ((Lexeme.sound_read _ _).readable _ hend).elim

theorem lex_endsLast (source : String) : EndsLast (lex source) := Cursor.trace_endsLast _

theorem Cursor.trace_readable (c : Cursor) :
    ∀ i ∈ c.trace.map (·.1), ∀ t, i.content = .ok t → t = .endOfFile ∨ t.Readable := by
  fun_induction trace c with
  | case1 c h =>
    intro i hi t ht
    rw [List.map_singleton, List.mem_singleton] at hi
    rw [hi, next, read, h] at ht
    cases ht
    exact .inl rfl
  | case2 c h _ ih =>
    rw [List.map_cons, List.forall_mem_cons]
    refine ⟨fun t ht => ?_, ih⟩
    unfold next read at ht
    split at ht
    · contradiction
    · exact .inr ((Lexeme.sound_read _ _).readable t ht)

/-- The tokens of a list of items, without comments and the end of the file. -/
def properTokens (items : List Item) : List Token := (itemTokens items).filter (!·.isEnd)

theorem properTokens_eq {items : List Item} (h : EndsLast items) :
    properTokens items = (itemTokens items).takeWhile (!·.isEnd) := by
  induction items with
  | nil => rfl
  | cons i rest ih =>
    have hrest := ih h.2
    unfold properTokens itemTokens at *
    cases ht : i.token? with
    | none =>
      rw [List.filterMap_cons_none ht]
      exact hrest
    | some t =>
      rw [List.filterMap_cons_some ht]
      cases hend : t.isEnd with
      | false => simp [hend, hrest]
      | true =>
        cases t with
        | endOfFile =>
          rw [h.1 ht]
          simp [hend]
        | _ => cases hend

/-- The tokens and errors of a text, wherever in a source it stands. -/
def contents (cs : List Char) : List (Except LexCause Token) :=
  (Cursor.trace { rest := cs }).map (·.1.content)

namespace Cursor

theorem skipBlank_rest (c : Cursor) : c.skipBlank.rest = c.rest.dropWhile Text.isBlank := by
  rw [skipBlank, advance_rest]
  induction c.rest with
  | nil => rfl
  | cons x xs ih =>
    cases h : Text.isBlank x with
    | true => simp [h, ih]
    | false => simp [h]

theorem trace_of_nil {c : Cursor} (h : c.rest.dropWhile Text.isBlank = []) :
    c.trace.map (·.1.content) = [.ok .endOfFile] := by
  rw [← skipBlank_rest] at h
  rw [trace_at_end h, List.map_singleton, next, read, h]

/-- The first item of a text depends on the characters behind its white space, and so does the text
that is left. -/
theorem trace_of_cons {c : Cursor} {x : Char} {xs : List Char}
    (h : c.rest.dropWhile Text.isBlank = x :: xs) :
    ∃ d : Cursor, d.rest = xs.drop (Lexeme.read x xs).more ∧
      c.trace.map (·.1.content) = (Lexeme.read x xs).outcome :: d.trace.map (·.1.content) := by
  rw [← skipBlank_rest] at h
  have hne : c.skipBlank.rest ≠ [] := by
    rw [h]
    exact List.cons_ne_nil x xs
  refine ⟨c.next.2, ?_, ?_⟩
  · rw [next, read, h]
    show (c.skipBlank.advance _).rest = _
    rw [advance_rest, h, List.drop_succ_cons]
  · rw [trace_before_end hne, List.map_cons]
    congr 1
    rw [next, read, h]

theorem trace_contents (n : Nat) : ∀ c d : Cursor, c.rest.length ≤ n → c.rest = d.rest →
    c.trace.map (·.1.content) = d.trace.map (·.1.content) := by
  induction n with
  | zero =>
    intro c d hn h
    have hnil := List.length_eq_zero_iff.1 (Nat.le_zero.1 hn)
    rw [trace_of_nil (by rw [hnil]; rfl), trace_of_nil (by rw [← h, hnil]; rfl)]
  | succ n ih =>
    intro c d hn h
    cases hblank : c.rest.dropWhile Text.isBlank with
    | nil => rw [trace_of_nil hblank, trace_of_nil (h ▸ hblank)]
    | cons x xs =>
      obtain ⟨c', hc, hcontent⟩ := trace_of_cons hblank
      obtain ⟨d', hd, hcontent'⟩ := trace_of_cons (h ▸ hblank)
      have hlength : (x :: xs).length ≤ c.rest.length := by
        rw [← hblank]
        exact (List.dropWhile_suffix _).length_le
      rw [hcontent, hcontent', ih c' d' ?_ (hc.trans hd.symm)]
      rw [hc, List.length_drop]
      rw [List.length_cons] at hlength
      omega

end Cursor

theorem lex_contents (source : String) : (lex source).map (·.content) = contents source.toList := by
  rw [lex, List.map_map]
  exact Cursor.trace_contents _ _ _ (Nat.le_refl _) rfl

theorem contents_nil : contents [] = [.ok .endOfFile] := Cursor.trace_of_nil rfl

theorem contents_cons {x : Char} {xs : List Char} (h : Text.isBlank x = false) :
    contents (x :: xs) = (Lexeme.read x xs).outcome :: contents (xs.drop (Lexeme.read x xs).more) := by
  have hblank : (x :: xs).dropWhile Text.isBlank = x :: xs := by simp [h]
  obtain ⟨d, hd, hcontent⟩ := Cursor.trace_of_cons (c := { rest := x :: xs }) hblank
  rw [contents, hcontent, Cursor.trace_contents _ d { rest := d.rest } (Nat.le_refl _) rfl, hd]
  rfl

theorem contents_blank {x : Char} {xs : List Char} (h : Text.isBlank x = true) :
    contents (x :: xs) = contents xs := by
  have hskip : (x :: xs).dropWhile Text.isBlank = xs.dropWhile Text.isBlank := by simp [h]
  cases hblank : xs.dropWhile Text.isBlank with
  | nil =>
    rw [contents, contents, Cursor.trace_of_nil (hskip.trans hblank), Cursor.trace_of_nil hblank]
  | cons y ys =>
    obtain ⟨c', hc, hcontent⟩ := Cursor.trace_of_cons (c := { rest := x :: xs }) (hskip.trans hblank)
    obtain ⟨d', hd, hcontent'⟩ := Cursor.trace_of_cons (c := { rest := xs }) hblank
    rw [contents, contents, hcontent, hcontent',
      Cursor.trace_contents _ c' d' (Nat.le_refl _) (hc.trans hd.symm)]

end Scriptlet
