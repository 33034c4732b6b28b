import Scriptlet.Proofs.Conversation
import Scriptlet.Proofs.Syntax.Brackets
import Scriptlet.Proofs.Syntax.Continuing
import Scriptlet.Proofs.Syntax.Extent
import Scriptlet.Proofs.Syntax.RoundTrip
import Scriptlet.Proofs.Syntax.StatementCut

/-! Texts that stop while brackets are open. If such a text can be finished it has one error. The loop that
evaluates lines waits for more just if that error is the end of the text; the other errors that are met there,
and where they are met, are listed. -/
namespace Scriptlet

theorem Reader.stream_proper (r : Reader) : ∀ t ∈ r.stream, (!t.content.isEnd) = true :=
  List.all_eq_true.1 List.all_takeWhile

/-- The tokens of the whole, with their places, are those of the text and then those of what follows. -/
theorem start_goOn {source : String} (hsound : ItemsSound (lex source)) (text : String) :
    ∃ us : List (Located Token), us.map (·.content) = sourceTokens text ∧
      (Reader.start (scan (source ++ "\n" ++ text))).stream =
        (Reader.start (scan source)).stream ++ us := by
  obtain ⟨body, last, more, hlex, hlast, hwhole, -⟩ := lex_goOn_contents hsound text
  obtain ⟨position, hstream⟩ := Reader.start_stream source
  obtain ⟨position', hstream'⟩ := Reader.start_stream (source ++ "\n" ++ text)
  have hbody : (body.map Item.narrow).filterMap Item.located? = (Reader.start (scan source)).stream := by
    have hrow : locatedTokens source =
        (body.map Item.narrow).filterMap Item.located? ++ [last.narrow].filterMap Item.located? := by
      rw [locatedTokens, scan_eq, hlex, List.map_append, List.filterMap_append, List.map_singleton]
    obtain ⟨content, span, place⟩ := last
    cases hlast
    exact (List.append_inj' (hrow.symm.trans hstream) rfl).1
  have hall : (Reader.start (scan (source ++ "\n" ++ text))).stream =
      (Reader.start (scan source)).stream ++
        ((more.map Item.narrow).filterMap Item.located?).takeWhile (!·.content.isEnd) := by
    have hrow : locatedTokens (source ++ "\n" ++ text) =
        (Reader.start (scan source)).stream ++ (more.map Item.narrow).filterMap Item.located? := by
      rw [locatedTokens, scan_eq, hwhole, List.map_append, List.filterMap_append, hbody]
    have htake := congrArg (List.takeWhile (!·.content.isEnd)) (hstream'.symm.trans hrow)
    rw [List.takeWhile_append_of_pos (Reader.stream_proper _),
      List.takeWhile_append_of_pos (Reader.stream_proper _)] at htake
    simpa [Token.isEnd] using htake
  refine ⟨_, ?_, hall⟩
  have htokens := sourceTokens_goOn hsound text
  rw [← Reader.start_tokens_eq, ← Reader.start_tokens_eq, Reader.tokens_eq_map, Reader.tokens_eq_map, hall,
    List.map_append] at htokens
  exact List.append_cancel_left htokens

/-- Every row of tokens that can be spelled is the tokens of a text. -/
theorem exists_text {ts : List Token} (h : ∀ t ∈ ts, t.Spelled) :
    ∃ text, ItemsSound (lex text) ∧ sourceTokens text = ts := by
  have hwritten : ∃ cs, Written cs ts := by
    induction ts with
    | nil => exact ⟨[], .nil⟩
    | cons t ts ih =>
      obtain ⟨ht, hts⟩ := List.forall_mem_cons.1 h
      obtain ⟨cs, hcs⟩ := ih hts
      refine ⟨_, hcs.space.token t ht ?_⟩
      cases t with
      | string value => trivial
      | symbol s =>
        refine .inr fun c hc => ?_
        cases hc
        decide
      | _ => exact quiet_space cs
  obtain ⟨cs, hcs⟩ := hwritten
  refine ⟨String.ofList cs, Written.lexed ?_⟩
  rwa [String.toList_ofList]

theorem openBrackets_of_accepted {source : String} (h : (Parsed.ofSource source).errors = []) :
    openBrackets (sourceTokens source) = [] :=
  (Parsed.ofSource_sound h).2.2.openBrackets_eq

/-- The statements of a text are read in the same way with all bounds on loops and nesting that suffice. -/
theorem exists_read (source : String) : ∃ ss after,
    ((Parsed.ofSource source).errors = [] ↔ after.latestErrors = []) ∧
    (∀ e, after.latestErrors = [e] → (Parsed.ofSource source).errors = [e]) ∧
    ∀ limit, (Reader.start (scan source)).remaining ≤ limit →
      (Grammar.upTo limit limit).statements Token.isEnd limit (Reader.start (scan source)) = .ok ss after := by
  obtain ⟨ss, after, -, -, hread⟩ := Grammar.statements_read source
  have hfor := hread _ _ (Nat.le_refl _) (Nat.le_mul_of_pos_left _ Nat.two_pos)
  refine ⟨ss, after, (Parsed.ofItems_eq hfor).2, fun e he => ?_, fun limit hl => hread limit limit hl hl⟩
  rw [Parsed.ofSource, (Parsed.ofItems_read hfor).2.2, Reader.errors, he]
  exact List.mergeSort_singleton e

/-- The text has one error, which was met at its end. -/
theorem cut_error {source text : String} {p : Program} (hsound : ItemsSound (lex source))
    (hopen : openBrackets (sourceTokens source) ≠ []) (hwhole : parse (source ++ "\n" ++ text) = .ok p) :
    ∃ e u, (Parsed.ofSource source).errors = [e] ∧ (sourceTokens text).head? = some u ∧
      BreaksOff u (Joined Stmt.Yields) (fun ss => ∀ s ∈ ss, s.Canonical) e.content (sourceTokens source) := by
  have hwhole' := (parse_eq_ok_iff.1 hwhole).1
  have hrefused : (Parsed.ofSource source).errors ≠ [] := fun h => hopen (openBrackets_of_accepted h)
  obtain ⟨us, hus, hstream⟩ := start_goOn hsound text
  cases us with
  | nil =>
    have htokens := sourceTokens_goOn hsound text
    rw [← hus, List.map_nil, List.append_nil] at htokens
    exact (hopen (htokens ▸ openBrackets_of_accepted hwhole')).elim
  | cons next behind =>
    let first := Reader.start (scan source)
    let first' := Reader.start (scan (source ++ "\n" ++ text))
    let k : Cut := ⟨source, source ++ "\n" ++ text, next, behind⟩
    have habreast : first.Abreast k first' :=
      ⟨Reader.start_placed _, Reader.start_placed _, (Reader.start_flawless _).2 (scan_sound.2 hsound),
        Reader.start_recovering _, Reader.start_recovering _, hstream⟩
    obtain ⟨ss, after, hnone, hone, hread⟩ := exists_read source
    obtain ⟨ss', after', hnone', -, hread'⟩ := exists_read (source ++ "\n" ++ text)
    -- one bound serves both readers
    let limit := max first.remaining first'.remaining
    have hread := hread limit (Nat.le_max_left _ _)
    have hread' := hread' limit (Nat.le_max_right _ _)
    have hl : first'.tokens.length < limit :=
      Nat.lt_of_lt_of_le first'.tokens_length_lt (Nat.le_max_right _ _)
    have hfollows := Grammar.follows_upTo k limit limit
    cases hfollows.statements_ending Token.isEnd limit habreast hl hread' (hnone'.1 hwhole') with
    | abreast hrule _ hr =>
      cases hread.symm.trans hrule
      exact (hrefused (hnone.2 hr.flawless.1)).elim
    | done hrule hr =>
      cases hread.symm.trans hrule
      exact (hrefused (hnone.2 hr.flawless.1)).elim
    | @noted _ _ e hrule hr he =>
      cases hread.symm.trans hrule
      refine ⟨e, next.content, hone e hr.noted, ?_, ?_⟩
      · rw [← hus]
        rfl
      · rw [← Reader.start_tokens_eq]
        exact he

/-- The text can go on with a token: a program can be made of it by a text that starts with the token. -/
def CanGoOn (source : String) (u : Token) : Prop :=
  ∃ text p, parse (source ++ "\n" ++ text) = .ok p ∧ (sourceTokens text).head? = some u

/-- The errors, other than the end of the text, that are reported where a text stops that could go on. -/
inductive Slips (source : String) : ParseCause → Prop
  | semicolon (h : CanGoOn source (.symbol .semicolon)) : Slips source .missingSemicolon
  | member (h : (sourceTokens source).getLast? = some (.symbol .dot)) : Slips source .expectedMember
  | target (expected : List String) (h : (sourceTokens source).getLast? = some (.keyword .import_)) :
    Slips source (.unexpectedToken .endOfFile expected)
  | key {s : Symbol} (hs : s = .leftBrace ∨ s = .comma)
    (h : (sourceTokens source).getLast? = some (.symbol s))
    (hnext : ∀ u, CanGoOn source u → u.name?.isSome = true ∨ u = .symbol .rightBrace) :
    Slips source .invalidMapKey
  | constant (name : String) (h : (sourceTokens source).getLast? = some (.identifier name))
    (hnext : ∀ u, CanGoOn source u → u = .symbol (.assign none)) : Slips source (.missingInitializer name)
  | caught (h : (sourceTokens source).getLast? = some (.symbol .rightBrace))
    (hnext : ∀ u, CanGoOn source u → u = .keyword .catch_ ∨ u = .keyword .finally_) :
    Slips source .missingCatchOrFinally

/-- Where a semicolon is missing, a text that starts with one makes a program. -/
theorem canGoOn_semicolon {source : String} (hsound : ItemsSound (lex source))
    (h : Mends (Joined Stmt.Yields) (fun ss => ∀ s ∈ ss, s.Canonical) (sourceTokens source)) :
    CanGoOn source (.symbol .semicolon) := by
  obtain ⟨ss, vs, hy, hc, hvs⟩ := h
  obtain ⟨text, htext, htokens⟩ := exists_text (List.forall_mem_cons.2 ⟨Token.spelled_symbol .semicolon, hvs⟩)
  have hyields : Program.Yields ⟨ss, default⟩ (sourceTokens (source ++ "\n" ++ text)) := by
    rw [sourceTokens_goOn hsound, htokens]
    exact hy
  have hcanonical : Program.Canonical ⟨ss, default⟩ := hc
  obtain ⟨he, -⟩ := Parsed.ofSource_complete (itemsSound_goOn hsound text htext) hcanonical hyields
  refine ⟨text, _, parse_eq_ok_iff.2 ⟨he, rfl⟩, ?_⟩
  rw [htokens]
  rfl

section Inversion

variable {u : Token} {ts : List Token}

theorem Rule.Stop.ne_missingSemicolon {c : ParseCause} (h : Stop u c ts) : c ≠ .missingSemicolon := by
  cases h <;> exact ParseCause.noConfusion

theorem Rule.Stop.key_next (h : Stop u .invalidMapKey ts) :
    u.name?.isSome = true ∨ u = .symbol .rightBrace := by
  cases h with
  | key _ _ hnext => exact hnext

theorem Rule.Stop.constant_next {name : String} (h : Stop u (.missingInitializer name) ts) :
    u = .symbol (.assign none) := by
  cases h with
  | constant _ _ hnext => exact hnext

theorem Rule.Stop.caught_next (h : Stop u .missingCatchOrFinally ts) :
    u = .keyword .catch_ ∨ u = .keyword .finally_ := by
  cases h with
  | caught _ hnext => exact hnext

end Inversion

theorem slips_of_stop {source : String} {u : Token} {c : ParseCause}
    (hall : ∀ v, CanGoOn source v → Rule.Stop v c (sourceTokens source)) (hu : CanGoOn source u) :
    c = .unexpectedEnd ∨ Slips source c := by
  have hstop := hall u hu
  generalize hts : sourceTokens source = ts at hstop
  cases hstop with
  | ended => exact .inl rfl
  | member ts => exact .inr (.member (by rw [hts, List.getLast?_concat]))
  | target ts expected => exact .inr (.target expected (by rw [hts, List.getLast?_concat]))
  | key ts hs _ =>
    exact .inr (.key hs (by rw [hts, List.getLast?_concat]) fun v hv => (hall v hv).key_next)
  | constant ts name _ =>
    exact .inr (.constant name (by rw [hts, List.getLast?_concat]) fun v hv => (hall v hv).constant_next)
  | caught ts _ =>
    exact .inr (.caught (by rw [hts, List.getLast?_concat]) fun v hv => (hall v hv).caught_next)

theorem ParseCause.isUnexpectedEnd_iff (c : ParseCause) : c.isUnexpectedEnd = true ↔ c = .unexpectedEnd := by
  cases c <;> simp [isUnexpectedEnd]

theorem Session.futile_of_errors (session : Session) {source : String} {errors : List ParseError}
    (h : parse source = .error errors) :
    session.Futile source ↔ errors.any (·.content.isUnexpectedEnd) = true := by
  have hload : loadSource session.context.options.optimize "<repl>" source =
      .error (.parse "<repl>" source errors) := by
    rw [loadSource, h]
    rfl
  rw [session.futile_iff, session.run_of_load_error hload]
  rfl

/-- A text without lexical errors that leaves brackets open and that some further text makes a program of has
one error. The loop that evaluates lines waits for more just if the error is the end of the text, which it is
unless the text stops at one of a few places. -/
theorem open_text_waits_or_slips {source : String} (hsound : ItemsSound (lex source))
    (hopen : openBrackets (sourceTokens source) ≠ [])
    (hfinish : ∃ text p, parse (source ++ "\n" ++ text) = .ok p) :
    ∃ e, parse source = .error [e] ∧
      (∀ session : Session, session.Futile source ↔ e.content = .unexpectedEnd) ∧
      (e.content = .unexpectedEnd ∨ Slips source e.content) := by
  obtain ⟨text, p, hwhole⟩ := hfinish
  obtain ⟨e, u, herrors, hu, hbreaks⟩ := cut_error hsound hopen hwhole
  have hparse : parse source = .error [e] := by
    rw [parse, Parsed.result, herrors]
    rfl
  refine ⟨e, hparse, fun session => ?_, ?_⟩
  · rw [session.futile_of_errors hparse, List.any_cons, List.any_nil, Bool.or_false,
      ParseCause.isUnexpectedEnd_iff]
  · -- the error does not depend on how the text goes on
    have hall : ∀ v, CanGoOn source v → BreaksOff v (Joined Stmt.Yields) (fun ss => ∀ s ∈ ss, s.Canonical)
        e.content (sourceTokens source) := by
      rintro v ⟨text', p', hwhole', hv⟩
      obtain ⟨e', v', herrors', hv', hbreaks'⟩ := cut_error hsound hopen hwhole'
      cases herrors.symm.trans herrors'
      cases hv.symm.trans hv'
      exact hbreaks'
    rcases hbreaks with hstop | ⟨hc, hmends⟩
    · refine slips_of_stop (fun v hv => (hall v hv).resolve_right fun hm => ?_) ⟨text, p, hwhole, hu⟩
      exact hstop.ne_missingSemicolon hm.1
    · rw [hc]
      exact .inr (.semicolon (canGoOn_semicolon hsound hmends))

/-- Rows inside one another: behind the comma an expression may follow, or the bracket that closes the row. -/
theorem open_text_waits_or_slips_rows :
    ItemsSound (lex "g(a, [f(1),") ∧ openBrackets (sourceTokens "g(a, [f(1),") ≠ [] ∧
    (∃ text p, parse ("g(a, [f(1)," ++ "\n" ++ text) = .ok p) ∧
    ∃ e, parse "g(a, [f(1)," = .error [e] ∧
      (∀ session : Session, session.Futile "g(a, [f(1)," ↔ e.content = .unexpectedEnd) ∧
      (e.content = .unexpectedEnd ∨ Slips "g(a, [f(1)," e.content) := by
  have hsound : ItemsSound (lex "g(a, [f(1),") := itemsSound_of_all (by decide +kernel)
  have hopen : openBrackets (sourceTokens "g(a, [f(1),") ≠ [] :=
    List.isEmpty_eq_false_iff.1 (by decide +kernel)
  have hfinish : ∃ text p, parse ("g(a, [f(1)," ++ "\n" ++ text) = .ok p :=
    ⟨"2]);", exists_of_isOk (by decide +kernel)⟩
  exact ⟨hsound, hopen, hfinish, open_text_waits_or_slips hsound hopen hfinish⟩

deriving instance DecidableEq for Token, ParseCause

/-- The text leaves brackets open and `text` makes a program of it, but its only error is not the end of the
text, so that the loop does not wait. -/
structure GivesUp (source text : String) (c : ParseCause) : Prop where
  sound : ItemsSound (lex source)
  opened : openBrackets (sourceTokens source) ≠ []
  finished : ∃ p, parse (source ++ "\n" ++ text) = .ok p
  refused : ∃ e, parse source = .error [e] ∧ e.content = c
  futile : ∀ session : Session, ¬session.Futile source

theorem GivesUp.of_errors {source text : String} {c : ParseCause} (hc : c.isUnexpectedEnd = false)
    (hsound : (lex source).all (·.content.isOk) = true)
    (hopen : (openBrackets (sourceTokens source)).isEmpty = false)
    (hfinish : (parse (source ++ "\n" ++ text)).isOk = true)
    (herrors : (Parsed.ofSource source).errors.map (·.content) = [c]) : GivesUp source text c := by
  obtain ⟨e, he, rfl⟩ := List.map_eq_singleton_iff.1 herrors
  have hparse : parse source = .error [e] := by
    rw [parse, Parsed.result, he]
    rfl
  refine ⟨itemsSound_of_all hsound, List.isEmpty_eq_false_iff.1 hopen, exists_of_isOk hfinish,
    ⟨e, hparse, rfl⟩, fun session hfutile => ?_⟩
  rw [session.futile_of_errors hparse, List.any_cons, hc] at hfutile
  cases hfutile

/-- The loop gives up at each of the places where the end of the text is not taken for the end. -/
theorem open_text_gives_up :
    GivesUp "\x7b a" "; \x7d" .missingSemicolon ∧ GivesUp "f(a." "b);" .expectedMember ∧
    GivesUp "\x7b import" "a; \x7d" (.unexpectedToken .endOfFile ["a module name", "a path string"]) ∧
    GivesUp "x = \x7b" "\x7d;" .invalidMapKey ∧ GivesUp "\x7b const x" "= 1; \x7d" (.missingInitializer "x") ∧
    GivesUp "\x7b try \x7b\x7d" "catch \x7b\x7d \x7d" .missingCatchOrFinally := by
  refine ⟨?_, ?_, ?_, ?_, ?_, ?_⟩
  all_goals exact .of_errors rfl (by decide +kernel) (by decide +kernel) (by decide +kernel) (by decide +kernel)

end Scriptlet
