import Mathlib.Data.List.Basic
import Scriptlet.Proofs.Syntax.Acceptance
import Scriptlet.Proofs.Syntax.Numbers
import Scriptlet.Proofs.Syntax.StatementWriting

/-! Programs written and read again. The tokens of a source are ones that a source can spell, so the program
read from them is written as a text that is read as tokens of the same program. -/
namespace Scriptlet

def properToken? : Except LexCause Token → Option Token
  | .ok .comment | .ok .endOfFile | .error _ => none
  | .ok t => some t

theorem properToken?_eq_some {content : Except LexCause Token} {t : Token} :
    properToken? content = some t ↔ content = .ok t ∧ t ≠ .comment ∧ t ≠ .endOfFile := by
  cases content with
  | error cause => simp [properToken?]
  | ok t' => cases t' <;> simp [properToken?] <;> rintro rfl <;> simp

theorem properTokens_contents (items : List Item) :
    properTokens items = (items.map (·.content)).filterMap properToken? := by
  induction items with
  | nil => rfl
  | cons i rest ih =>
    rw [List.map_cons, List.filterMap_cons, ← ih, properTokens, properTokens, itemTokens,
      List.filterMap_cons]
    obtain ⟨content, span, position⟩ := i
    cases content with
    | error cause => rfl
    | ok t => cases t <;> rfl

theorem sourceTokens_readable {source : String} :
    ∀ t ∈ sourceTokens source, t.Readable ∧ t ≠ .comment := by
  intro t ht
  rw [sourceTokens, properTokens_contents, List.mem_filterMap] at ht
  obtain ⟨content, hcontent, hproper⟩ := ht
  obtain ⟨i, hi, rfl⟩ := List.mem_map.1 hcontent
  obtain ⟨hok, hcomment, hend⟩ := properToken?_eq_some.1 hproper
  exact ⟨(Cursor.trace_readable _ i hi t hok).resolve_left hend, hcomment⟩

/-- The tokens of a source are those that a source can spell, as far as its numbers read back. -/
theorem sourceTokens_spelled {source : String}
    (hfloats : ∀ x, Token.float x ∈ sourceTokens source → ReadsBack x) :
    ∀ t ∈ sourceTokens source, t.Spelled := by
  intro t ht
  obtain ⟨hreadable, hcomment⟩ := sourceTokens_readable t ht
  cases t with
  | float x => exact hfloats x ht
  | comment => exact (hcomment rfl).elim
  | _ => exact hreadable

theorem Written.lexed {source : String} {ts : List Token} (h : Written source.toList ts) :
    ItemsSound (lex source) ∧ sourceTokens source = ts := by
  have hcontents : (lex source).map (·.content) = ts.map .ok ++ [.ok .endOfFile] := by
    rw [lex_contents]
    exact h.reads
  constructor
  · intro i hi
    have hmem := List.mem_map_of_mem (f := (·.content)) hi
    rw [hcontents, List.mem_append, List.mem_map, List.mem_singleton] at hmem
    rcases hmem with ⟨t, -, ht⟩ | ht
    · exact ⟨t, ht.symm⟩
    · exact ⟨_, ht⟩
  · -- Comments and the end of the file are no spelled tokens, so none of the tokens is dropped.
    have hproper : ∀ t ∈ ts, properToken? (.ok t) = some t := by
      intro t ht
      have hspelled := h.spelled t ht
      refine properToken?_eq_some.2 ⟨rfl, ?_, ?_⟩ <;> rintro rfl <;> exact hspelled
    rw [sourceTokens, properTokens_contents, hcontents, List.filterMap_append, List.filterMap_map]
    have hall : ts.filterMap (properToken? ∘ .ok) = ts.filterMap some :=
      List.filterMap_congr hproper
    rw [hall, List.filterMap_some]
    exact List.append_nil ts

/-- A program that was read is written as a text from which the same program is read, up to places. Its float
literals, which are the float tokens of the source, have to read back one by one. -/
theorem text_parses_back (source : String) (p : Program) (h : parse source = .ok p)
    (hfloats : ∀ x, Token.float x ∈ sourceTokens source → ReadsBack x) :
    ∃ q, parse p.text = .ok q ∧ q.bare = p.bare := by
  obtain ⟨he, rfl⟩ := parse_eq_ok_iff.1 h
  obtain ⟨-, hcanonical, hyields⟩ := Parsed.ofSource_sound he
  -- The tokens of the text need not be those of the source, but they are tokens of the same tree.
  obtain ⟨ts, hts, hwritten⟩ := Program.written hyields (sourceTokens_spelled hfloats)
  obtain ⟨hsound, htokens⟩ := hwritten.lexed
  rw [← htokens] at hts
  obtain ⟨herrors, hbare⟩ :=
    Parsed.ofSource_complete hsound hcanonical hts
  exact ⟨_, parse_eq_ok_iff.2 ⟨herrors, rfl⟩, hbare⟩

def Token.isFinite? : Token → Option Bool
  | float x => some x.isFinite
  | _ => none

/-- Under a conditional with an alternative: signs that must not grow together, a key written as a name, a
comma at the end of a row and a member of a number that has a shorter text. -/
def oddlyWritten : String := "if [a] f(- -b, \x7bk: 'it\\'s'\x7d,); else 2.50.m;"

/-- All of it is written in one way, from which the program is read again. -/
theorem text_parses_back_conditional :
    ∃ p q : Program, parse oddlyWritten = .ok p ∧
      (∃ x, Token.float x ∈ sourceTokens oddlyWritten) ∧
      (∀ x, Token.float x ∈ sourceTokens oddlyWritten → ReadsBack x) ∧
      p.text = "if [a] f(- -b, \x7b\"k\": \"it's\"\x7d); else 2.5.m;" ∧
      parse p.text = .ok q ∧ q.bare = p.bare := by
  have hnumbers : (sourceTokens oddlyWritten).filterMap Token.isFinite? = [true] := by decide +kernel
  have htext : (parse oddlyWritten).toOption.map Program.text =
      some "if [a] f(- -b, \x7b\"k\": \"it's\"\x7d); else 2.5.m;" := by decide +kernel
  have hfloat : ∃ x, Token.float x ∈ sourceTokens oddlyWritten := by
    obtain ⟨t, ht, hfinite⟩ := List.mem_filterMap.1 (hnumbers ▸ List.mem_singleton_self true)
    cases t with
    | float x => exact ⟨x, ht⟩
    | _ => cases hfinite
  have hfloats : ∀ x, Token.float x ∈ sourceTokens oddlyWritten → ReadsBack x := by
    intro x hx
    have hfinite := List.mem_filterMap.2 ⟨_, hx, (rfl : Token.isFinite? (.float x) = some x.isFinite)⟩
    rw [hnumbers] at hfinite
    exact (sourceTokens_readable _ hx).1.readsBack (List.mem_singleton.1 hfinite)
  cases hp : parse oddlyWritten with
  | error es =>
    rw [hp] at htext
    cases htext
  | ok p =>
    rw [hp] at htext
    obtain ⟨q, hq, hbare⟩ := text_parses_back _ p hp hfloats
    exact ⟨p, q, rfl, hfloat, hfloats, Option.some.inj htext, hq, hbare⟩

end Scriptlet
