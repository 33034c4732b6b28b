import Scriptlet.Proofs.Syntax.Soundness
import Scriptlet.Proofs.Syntax.StatementReading
import Scriptlet.Proofs.Syntax.Windowing

/-! The sources that are accepted. A source is read without errors just when its tokens are those of a
canonical program, and then that program is the one read, up to places. -/
namespace Scriptlet

namespace Parsed

variable {items : List Item}

/-- What was read when all statements were read. -/
theorem ofItems_eq {ss : List Stmt} {after : Reader}
    (h : (Grammar.for_ (.start items)).statements Token.isEnd (Reader.start items).remaining
      (.start items) = .ok ss after) :
    (ofItems items).program.statements = ss ∧
      ((ofItems items).errors = [] ↔ after.latestErrors = []) := by
  unfold ofItems
  dsimp only
  rw [show (Grammar.for_ (.start items)).limit = (Reader.start items).remaining from rfl, h]
  refine ⟨rfl, ?_⟩
  rw [← List.length_eq_zero_iff, List.length_mergeSort, Reader.errors, List.length_reverse,
    List.length_eq_zero_iff]

theorem ofItems_errors {e : ParseError} {after : Reader}
    (h : (Grammar.for_ (.start items)).statements Token.isEnd (Reader.start items).remaining
      (.start items) = .error e after) : (ofItems items).errors = [e] := by
  unfold ofItems
  dsimp only
  rw [show (Grammar.for_ (.start items)).limit = (Reader.start items).remaining from rfl, h]

/-- Where no errors are left, the items were sound and the program stands for their tokens. -/
theorem ofItems_sound (h : EndsLast items) (he : (ofItems items).errors = []) :
    ItemsSound items ∧ (ofItems items).program.Canonical ∧
      (ofItems items).program.Yields (properTokens items) := by
  have hsound : (Grammar.for_ (.start items)).Sound := Grammar.sound_upTo _ _
  have htakes := hsound.statements Token.isEnd (Reader.start items) (Reader.start_consistent h)
    (Reader.tokens_length_lt _)
  cases hread : (Grammar.for_ (.start items)).statements Token.isEnd (Reader.start items).remaining
      (.start items) with
  | error e after =>
    rw [ofItems_errors hread] at he
    cases he
  | ok ss after =>
    obtain ⟨hprogram, herrors⟩ := ofItems_eq hread
    have hnone := herrors.1 he
    rw [show (Grammar.for_ (.start items)).limit = (Reader.start items).remaining from rfl,
      hread] at htakes
    obtain ⟨ts, hpasses, hresult⟩ := htakes
    obtain ⟨⟨hy, hc⟩, hend⟩ := hresult hnone
    have hcurrent : after.current.content.isEnd = true := by
      rcases hend with hend | hend
      · rw [after.tokens_headD] at hend
        exact hend
      · rw [← after.tokens_headD, hend]
        rfl
    have hflawless := (hpasses.consistent.flawless_iff hcurrent).2 hnone
    have htokens : properTokens items = ts := by
      have hall := hpasses.tokens
      rw [Reader.start_tokens, ← properTokens_eq h, Reader.tokens_of_end hcurrent,
        List.append_nil] at hall
      exact hall
    refine ⟨(Reader.start_flawless items).1 (hpasses.flawless hflawless), ?_, ?_⟩
    · rw [Program.Canonical, hprogram]
      exact hc
    · rw [Program.Yields, hprogram, htokens]
      exact hy

/-- Every canonical program is read back from its tokens. -/
theorem ofItems_complete (h : EndsLast items) (hs : ItemsSound items) {p : Program} (hc : p.Canonical)
    (hy : p.Yields (properTokens items)) :
    (ofItems items).errors = [] ∧ (ofItems items).program.bare = p.bare := by
  have hcomplete : (Grammar.for_ (.start items)).Complete (2 * (Reader.start items).remaining) :=
    Grammar.complete_upTo _ _
  have htokens : (Reader.start items).tokens = properTokens items := by
    rw [Reader.start_tokens, properTokens_eq h]
  have hshort : (properTokens items).length < (Reader.start items).remaining := by
    rw [← htokens]
    exact Reader.tokens_length_lt _
  have hsees : (Reader.start items).Sees (Reader.start items).remaining Reader.Flawless
      (properTokens items ++ []) := by
    rw [List.append_nil]
    exact ⟨fun r => r.shift_flawless.2, (Reader.start_flawless items).2 hs,
      Reader.start_recovering items, htokens, hshort⟩
  obtain ⟨ss, after, hread, hbare, hafter⟩ := hcomplete.statements hy hc (by omega) rfl
    (fun _ => Token.isEnd_of_opensStatement) (fun s => ⟨by simp, by simp⟩)
    (Reader.start items).remaining hshort _ _ hsees
  obtain ⟨hprogram, herrors⟩ := ofItems_eq hread
  refine ⟨herrors.2 hafter.kept.1, ?_⟩
  rw [Program.bare, Program.bare, hprogram, hbare]

end Parsed

def sourceTokens (source : String) : List Token := properTokens (lex source)

namespace Parsed

theorem ofSource_sound {source : String} (h : (ofSource source).errors = []) : ItemsSound (lex source) ∧
    (ofSource source).program.Canonical ∧ (ofSource source).program.Yields (sourceTokens source) := by
  rw [← scan_sound, sourceTokens, ← properTokens_scan]
  exact ofItems_sound (scan_endsLast source) h

theorem ofSource_complete {source : String} (hs : ItemsSound (lex source)) {p : Program} (hc : p.Canonical)
    (hy : p.Yields (sourceTokens source)) :
    (ofSource source).errors = [] ∧ (ofSource source).program.bare = p.bare := by
  rw [sourceTokens, ← properTokens_scan] at hy
  exact ofItems_complete (scan_endsLast source) (scan_sound.2 hs) hc hy

end Parsed

theorem parse_eq_ok_iff {source : String} {p : Program} : parse source = .ok p ↔
    (Parsed.ofSource source).errors = [] ∧ (Parsed.ofSource source).program = p := by
  unfold parse Parsed.result
  cases h : (Parsed.ofSource source).errors with
  | nil => simp
  | cons e es => simp

/-- A source is accepted just when its items are sound and its tokens are those of a canonical program;
all canonical programs with these tokens are then the one that is read, up to places. -/
theorem accepts_exactly_canonical (source : String) :
    ((∃ q, parse source = .ok q) ↔
      ItemsSound (lex source) ∧ ∃ p : Program, p.Canonical ∧ p.Yields (sourceTokens source)) ∧
    ∀ q, parse source = .ok q → q.Canonical ∧ q.Yields (sourceTokens source) ∧
      ∀ p : Program, p.Canonical → p.Yields (sourceTokens source) → p.bare = q.bare := by
  constructor
  · constructor
    · rintro ⟨q, hq⟩
      obtain ⟨he, hprogram⟩ := parse_eq_ok_iff.1 hq
      obtain ⟨hs, hc, hy⟩ := Parsed.ofSource_sound he
      exact ⟨hs, _, hc, hy⟩
    · rintro ⟨hs, p, hc, hy⟩
      obtain ⟨he, -⟩ := Parsed.ofSource_complete hs hc hy
      exact ⟨_, parse_eq_ok_iff.2 ⟨he, rfl⟩⟩
  · intro q hq
    obtain ⟨he, rfl⟩ := parse_eq_ok_iff.1 hq
    obtain ⟨hs, hc, hy⟩ := Parsed.ofSource_sound he
    refine ⟨hc, hy, fun p hcp hyp => ?_⟩
    exact (Parsed.ofSource_complete hs hcp hyp).2.symm

/-- A call whose argument is a power of a negated name. -/
theorem accepts_exactly_canonical_call :
    ∃ p q : Program, parse "f(-a ** 2,);" = .ok q ∧ p.Canonical ∧
      p.Yields (sourceTokens "f(-a ** 2,);") ∧ q.Canonical ∧ p.bare = q.bare := by
  let s : Span := default
  let power : Expr := .binary (.compute .power) (.unary .negate (.identifier ⟨"a", s⟩) s)
    (.literal (.int 2) s) s
  let p : Program := ⟨[.expression (.call (.identifier ⟨"f", s⟩) [power] s) s], s⟩
  have hparse : (parse "f(-a ** 2,);").isOk = true := by with_unfolding_all rfl
  have htokens : sourceTokens "f(-a ** 2,);" = [.identifier "f", .symbol .leftParen,
      .symbol (.binary (.compute .subtract)), .identifier "a", .symbol (.binary (.compute .power)),
      .int 2, .symbol .comma, .symbol .rightParen, .symbol .semicolon] := by with_unfolding_all rfl
  have hpower : power.Canonical := by
    refine .binary s (.unary _ s (.identifier _) ?_) (.literal _ s) ?_ ?_ rfl
    · exact (Precedence.le_iff _ _).2 (Nat.le_succ 14)
    · exact (Precedence.lt_iff _ _).2 (Nat.lt_succ_self 13)
    · exact (Precedence.le_iff _ _).2 (Nat.le_add_right 13 2)
  have hcanonical : p.Canonical := by
    intro x hx
    cases List.mem_singleton.1 hx
    refine .expression s (.call s (.identifier _) rfl ?_) rfl
    intro e he
    cases List.mem_singleton.1 he
    exact hpower
  have hyields : p.Yields (sourceTokens "f(-a ** 2,);") := by
    rw [htokens]
    have hy : power.Yields [.symbol (.binary (.compute .subtract)), .identifier "a",
        .symbol (.binary (.compute .power)), .int 2] :=
      .binary _ s (.unary .negate s (.identifier _)) (.literal s rfl)
    have hcall : Expr.Yields (.call (.identifier ⟨"f", s⟩) [power] s) _ :=
      .call s (.identifier _) (.more hy .nil)
    exact Joined.cons (Stmt.Yields.expression s hcall) .nil
  cases hq : parse "f(-a ** 2,);" with
  | error es =>
    rw [hq] at hparse
    cases hparse
  | ok q =>
    obtain ⟨hc, -, hunique⟩ := (accepts_exactly_canonical "f(-a ** 2,);").2 q hq
    exact ⟨p, q, rfl, hcanonical, hyields, hc, hunique p hcanonical hyields⟩

/-- No comma stands right before a closing sign, so no row is written with a comma behind its last
phrase. -/
def Untrailed (ts : List Token) : Prop :=
  ∀ close : Symbol, close ∈ [.rightParen, .rightBracket, .rightBrace] →
    ¬[.symbol .comma, .symbol close] <:+: ts

/-- A grammar without commas behind the last phrase of a row does not have all that is accepted. -/
theorem trailing_comma_accepted :
    (∃ q, parse "[1,];" = .ok q) ∧ ¬∃ p : Program, p.Canonical ∧ p.Yields (sourceTokens "[1,];") ∧
      Untrailed (sourceTokens "[1,];") := by
  have hparse : (parse "[1,];").isOk = true := by with_unfolding_all rfl
  have htokens : sourceTokens "[1,];" = [.symbol .leftBracket, .int 1] ++
      [.symbol .comma, .symbol .rightBracket] ++ [.symbol .semicolon] := by with_unfolding_all rfl
  constructor
  · cases hq : parse "[1,];" with
    | error es =>
      rw [hq] at hparse
      cases hparse
    | ok q => exact ⟨q, rfl⟩
  · rintro ⟨p, -, -, huntrailed⟩
    rw [htokens] at huntrailed
    exact huntrailed .rightBracket (by decide) ⟨_, _, rfl⟩

end Scriptlet
