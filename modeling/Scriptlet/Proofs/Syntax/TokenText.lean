import Scriptlet.Proofs.Syntax.Numbers

/-! Tokens and their text. Whatever token a source yields, its text is lexed as that token and nothing else; only
the infinite number, which a literal beyond all doubles stands for, has a text that is lexed as a name. -/
namespace Scriptlet

theorem Token.stops_nil (t : Token) : t.Stops [] := by
  cases t with
  | string value => trivial
  | symbol s =>
    right
    intro c hc
    cases hc
  | _ => exact quiet_nil

/-- A token that can be spelled is all that its text is lexed as. -/
theorem Token.Spelled.lex_text {t : Token} (h : t.Spelled) :
    (lex t.text).map (·.content) = [.ok t, .ok .endOfFile] := by
  have hcontents := h.contents t.stops_nil
  rwa [List.append_nil, contents_nil, ← lex_contents] at hcontents

theorem infinite_text : (Token.float (1.0 / 0.0)).text = "inf" := by decide +kernel

theorem lex_inf : (lex "inf").map (·.content) = [.ok (.identifier "inf"), .ok .endOfFile] := by
  have hspelled : (Token.identifier "inf").Spelled :=
    ⟨⟨'i', ['n', 'f'], rfl, by decide, List.all_eq_true.1 (by decide)⟩, by decide⟩
  exact hspelled.lex_text

/-- A token of a source other than a comment can be spelled, unless it is the infinite number. -/
theorem Token.Readable.spelled {t : Token} (h : t.Readable) (hcomment : t ≠ .comment)
    (hinfinite : t ≠ .float (1.0 / 0.0)) : t.Spelled := by
  cases t with
  | float x =>
    refine h.readsBack ?_
    obtain ⟨m, e, rfl⟩ := h
    cases hfinite : (Decimal.nearest m e).isFinite with
    | true => rfl
    | false => exact absurd (congrArg Token.float (Decimal.nearest_eq_infinity hfinite)) hinfinite
  | comment => exact absurd rfl hcomment
  | _ => exact h

theorem lex_readable {source : String} {i : Item} (hi : i ∈ lex source) {t : Token} (ht : i.content = .ok t)
    (hend : t ≠ .endOfFile) : t.Readable :=
  (Cursor.trace_readable _ i hi t ht).resolve_left hend

/-- The text of a token that a source yields is lexed as the same token, followed by the end of the file, if and
only if it is not the infinite number. -/
theorem token_text_lexes_back_iff {source : String} {i : Item} (hi : i ∈ lex source) {t : Token}
    (ht : i.content = .ok t) (hcomment : t ≠ .comment) (hend : t ≠ .endOfFile) :
    (lex t.text).map (·.content) = [.ok t, .ok .endOfFile] ↔ t ≠ .float (1.0 / 0.0) := by
  constructor
  · rintro hlex rfl
    rw [infinite_text, lex_inf] at hlex
    cases hlex
  · intro hinfinite
    exact ((lex_readable hi ht hend).spelled hcomment hinfinite).lex_text

/-- The least double above zero, which has a shorter text than the one it was read from. -/
theorem token_text_lexes_back_iff_least : ∃ i ∈ lex "4.9e-324", ∃ x, i.content = .ok (.float x) ∧
    (Token.float x).text = "5e-324" ∧ (lex "5e-324").map (·.content) = [.ok (.float x), .ok .endOfFile] := by
  have hlex : (lex "4.9e-324").map (·.content) = [.ok (.float (Decimal.nearest 49 (-325))), .ok .endOfFile] := by
    have hread := @contents_cons '4' ['.', '9', 'e', '-', '3', '2', '4'] (by decide)
    rw [lex_contents]
    exact hread.trans (congrArg _ contents_nil)
  have htext : (Token.float (Decimal.nearest 49 (-325))).text = "5e-324" := by decide +kernel
  have hfinite : Token.float (Decimal.nearest 49 (-325)) ≠ .float (1.0 / 0.0) := by
    intro h
    have hsame := htext.symm.trans ((congrArg Token.text h).trans infinite_text)
    revert hsame
    decide
  obtain ⟨i, hi, hcontent⟩ : ∃ i ∈ lex "4.9e-324", i.content = .ok (.float (Decimal.nearest 49 (-325))) := by
    have hmem : .ok (.float (Decimal.nearest 49 (-325))) ∈ (lex "4.9e-324").map (·.content) := by
      rw [hlex]
      exact List.mem_cons_self
    exact List.mem_map.1 hmem
  refine ⟨i, hi, _, hcontent, htext, ?_⟩
  rw [← htext]
  exact (token_text_lexes_back_iff hi hcontent (by simp) (by simp)).2 hfinite

/-- A literal beyond all doubles is lexed as the infinite number, whose text is lexed as a name. -/
theorem infinite_number_lexes_as_name :
    (lex "1e999").map (·.content) = [.ok (.float (1.0 / 0.0)), .ok .endOfFile] ∧
    (Token.float (1.0 / 0.0)).text = "inf" ∧
    (lex "inf").map (·.content) = [.ok (.identifier "inf"), .ok .endOfFile] := by
  refine ⟨?_, infinite_text, lex_inf⟩
  have hread := @contents_cons '1' ['e', '9', '9', '9'] (by decide)
  rw [lex_contents]
  exact hread.trans (congrArg _ contents_nil)

end Scriptlet
