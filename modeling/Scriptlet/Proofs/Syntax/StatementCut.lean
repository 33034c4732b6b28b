import Scriptlet.Proofs.Syntax.ExpressionCut

/-! Statements of a source that is cut off. Where the whole is read without errors, a rule for statements does
the same on the source that is cut off, or reads a statement that ends with it, or fails at its end. If it
fails for want of a semicolon, a semicolon and little more would finish the statement. -/
namespace Scriptlet

open Rule Reader

@[simp] theorem Token.spelled_symbol (s : Symbol) : (Token.symbol s).Spelled := trivial

@[simp] theorem Token.spelled_keyword (k : Keyword) : (Token.keyword k).Spelled := trivial

section Mending

variable {α β : Type} {Y : α → List Token → Prop} {C : α → Prop} {Z : β → List Token → Prop} {B : β → Prop}
  {next : Token} {c : ParseCause} {us : List Token}

/-- A semicolon behind the tokens, and what finishes the statements around it, would make a phrase of them. -/
def Mends (Y : α → List Token → Prop) (C : α → Prop) (ts : List Token) : Prop :=
  ∃ a vs, Y a (ts ++ .symbol .semicolon :: vs) ∧ C a ∧ ∀ v ∈ vs, v.Spelled

theorem Mends.wrap (h : Mends Y C us) (before behind : List Token) (hbehind : ∀ v ∈ behind, v.Spelled)
    (hz : ∀ a vs, Y a vs → C a → ∃ b, Z b (before ++ (vs ++ behind)) ∧ B b) : Mends Z B (before ++ us) := by
  obtain ⟨a, vs, hy, hc, hvs⟩ := h
  obtain ⟨b, hb, hcb⟩ := hz a _ hy hc
  refine ⟨b, vs ++ behind, by simpa using hb, hcb, fun v hv => ?_⟩
  rcases List.mem_append.1 hv with hv | hv
  · exact hvs v hv
  · exact hbehind v hv

/-- What stops a rule that reads statements: one of the errors that stop all rules, or a semicolon that is
missing. -/
def BreaksOff (next : Token) (Y : α → List Token → Prop) (C : α → Prop) (c : ParseCause)
    (ts : List Token) : Prop :=
  Stop next c ts ∨ c = .missingSemicolon ∧ Mends Y C ts

instance : Ends next (BreaksOff next Y C) := ⟨.inl⟩

theorem BreaksOff.wrap (h : BreaksOff next Y C c us) (before behind : List Token)
    (hbehind : ∀ v ∈ behind, v.Spelled)
    (hz : ∀ a vs, Y a vs → C a → ∃ b, Z b (before ++ (vs ++ behind)) ∧ B b) :
    BreaksOff next Z B c (before ++ us) := by
  rcases h with hstop | ⟨rfl, hmends⟩
  · exact .inl (hstop.after before)
  · exact .inr ⟨rfl, hmends.wrap before behind hbehind hz⟩

/-- Nothing is missing behind the phrase. -/
theorem BreaksOff.wrap_nil (h : BreaksOff next Y C c us) (before : List Token)
    (hz : ∀ a vs, Y a vs → C a → ∃ b, Z b (before ++ vs) ∧ B b) : BreaksOff next Z B c (before ++ us) := by
  refine h.wrap before [] (fun v hv => (List.not_mem_nil hv).elim) fun a vs hy hc => ?_
  rw [List.append_nil]
  exact hz a vs hy hc

theorem BreaksOff.imp (h : BreaksOff next Y C c us) (hz : ∀ a vs, Y a vs → C a → ∃ b, Z b vs ∧ B b) :
    BreaksOff next Z B c us := h.wrap_nil [] hz

end Mending

namespace Rule

variable {α β : Type} {k : Cut} {limit : Nat} {At : Reader → Prop} {rule item : Rule α} {D : α → α → Prop}
  {E : ParseCause → List Token → Prop} {P : α → List Token → List Token → Prop}

/-- A semicolon at the end of a phrase. -/
theorem Follows.semicolon {f : α → Span → β} (h : Follows k limit At rule D E) (ht : Takes limit rule P)
    (he : ∀ a ts, P a ts [] → E .missingSemicolon ts) :
    Follows k limit At (rule >>= fun a => Rule.semicolon >>= fun stop => Pure.pure (f a stop))
      (fun _ _ => False) E := by
  refine h.bind ht (fun a => ?_) fun a a' ts _ hp => ((semicolon_fails (he a ts hp)).bind _).rests
  refine (semicolon_follows.yield fun _ _ hd => hd).mono (fun _ _ hd => hd) ?_
  rintro _ _ ⟨rfl, rfl⟩ ts hp
  rw [List.append_nil]
  exact he a ts hp

/-- What stands behind a word, if the word stands there. -/
theorem optional_follows {word : Keyword} {Y : Option α → List Token → Prop} {next : Option α → Rule β}
    {D : β → β → Prop}
    (hitem : Follows k limit Anywhere item (fun _ _ => False) (Under E fun ts _ => ts = [.keyword word]))
    (hsome : Takes limit item fun a ts _ => Y (some a) (.keyword word :: ts)) (hnone : Y none [])
    (hn : ∀ p, Follows k limit Anywhere (next p) D (Under E fun ts _ => Y p ts))
    (hcut : k.next.content = .keyword word →
      Rests k (next none) (some <$> item >>= next) D fun c => E c []) :
    Follows k limit Anywhere (takeWord word >>= fun found =>
      if found = true then some <$> item >>= next else Pure.pure none >>= next) D E := by
  refine (takeWord_follows word).bind (takeWord_takes word) (fun found => ?_) ?_
  · cases found with
    | true =>
      have htakes : Takes limit (some <$> item) fun p ts _ => Y p (.keyword word :: ts) :=
        fun r => .map (hsome r)
      refine Follows.bind_must ((hitem.map fun _ _ hd => hd).mono (fun _ _ hd => hd) ?_) htakes fun p => ?_
      · intro c us he ts hts
        exact he ts (by simpa using hts)
      · refine (hn p).mono (fun _ _ hd => hd) fun c us he ts hts ws hws => ?_
        obtain ⟨-, rfl⟩ : true = true ∧ ws = [.keyword word] := by simpa using hws
        exact he _ hts
    | false =>
      refine (hn none).mono (fun _ _ hd => hd) fun c us he ts hts => ?_
      obtain ⟨rfl, -⟩ : ts = [] ∧ _ := by simpa using hts
      exact he [] hnone
  · rintro _ _ ts ⟨rfl, rfl, hnext⟩ hts
    obtain rfl : ts = [] := by simpa using hts
    exact hcut hnext

/-- Phrases one after another. -/
theorem repeated_follows {Y : α → List Token → Prop} {C : α → Prop}
    (hitem : Follows k limit Anywhere item (fun _ _ => True) (BreaksOff k.next.content Y C))
    (ht : Takes limit item fun a ts _ => ts ≠ [] ∧ Y a ts ∧ C a) (hneeds : Needs item) (stop : Symbol)
    (n : Nat) :
    Follows k limit Anywhere (repeated item stop n) (fun _ _ => True)
      (BreaksOff k.next.content (Joined Y) fun as => ∀ a ∈ as, C a) := by
  induction n with
  | zero => exact .pure []
  | succ n ih =>
    refine .test rfl (.pure []) ?_ fun _ => (hneeds.bind _).ends []
    refine Follows.bind (hitem.mono (fun _ _ hd => hd) fun c us he => ?_) ht (fun a => ?_)
      fun a a' ts _ _ => ?_
    · refine he.wrap_nil [] fun a vs hy hc => ⟨[a], ?_, by simpa using hc⟩
      simpa using Joined.cons hy .nil
    · refine (ih.yield fun _ _ _ => trivial).mono (fun _ _ hd => hd) ?_
      rintro c us he ts ⟨-, hy, hc⟩
      refine he.wrap_nil ts fun as vs hys hcs => ⟨a :: as, .cons hy hys, ?_⟩
      exact List.forall_mem_cons.2 ⟨hc, hcs⟩
    · cases n with
      | zero => exact .pure fun _ => trivial
      | succ n =>
        have hrepeated : Needs (repeated item stop (n + 1)) := .unless rfl (hneeds.bind _)
        exact (hrepeated.bind _).ends ts

end Rule

namespace Grammar

/-- How the expressions and statements inside a phrase end with the source. -/
structure FollowsStatements (k : Cut) (g : Grammar) : Prop extends FollowsExpressions k g where
  statement : Follows k g.limit Anywhere g.statement (fun _ _ => True)
    (BreaksOff k.next.content Stmt.Yields Stmt.Canonical)
  statement_needs : Needs g.statement

variable {k : Cut} {g : Grammar}

namespace FollowsExpressions

variable (h : g.FollowsExpressions k)
include h

/-- A constant without a value is refused where the value would follow. -/
theorem binding (kind : DeclarationKind) :
    Follows k g.limit Anywhere (g.binding kind) (fun _ _ => True) (Stop k.next.content) := by
  refine identifier_follows.bind_must identifier_takes fun id =>
    (takeSign_follows _).bind (takeSign_takes _) (fun given => ?_) ?_
  · cases given with
    | true => exact (h.anyExpression.yield fun _ _ _ => trivial).lift
    | false =>
      cases hconstant : kind.isConstant with
      | true => exact failHere_follows _
      | false => exact .pure _
  · rintro _ _ ts ⟨rfl, rfl, hnext⟩ hts
    obtain rfl : ts = [] := by simpa using hts
    cases hconstant : kind.isConstant with
    | true =>
      refine (failHere_fails _ ?_).rests
      rintro _ rfl
      exact .constant [] id.name hnext
    | false => exact .pure fun _ => trivial

theorem declaration : Follows k g.limit Inside g.declaration (fun _ _ => False)
    (BreaksOff k.next.content Declaration.Yields Declaration.Canonical) := by
  refine Follows.take.bind_must Takes.take fun word => ?_
  split
  · next kind hkind =>
    refine Follows.semicolon
      (sequence_follows (h.binding kind) (fun _ ts _ => Stop.afterComma ts) g.limit).lift
      (sequence_takes (h.sound.binding kind)) ?_
    intro bs ts hts ws hws
    rw [hws (not_end_of_some rfl hkind)]
    obtain ⟨hy, hc⟩ := hts.split
    refine .inr ⟨rfl, ⟨kind, bs, default⟩, [], .mk _ hkind hy, ?_, by simp⟩
    exact ⟨fun b hb => (hc b hb).1, fun hk b hb => (hc b hb).2 hk⟩
  · exact .throw _

end FollowsExpressions

/-- An error that is not noted comes after another one. -/
theorem report_noted {e : ParseError} {r r₁ : Reader} {u : Unit} (hrule : report e r = .ok u r₁)
    (hnone : r₁.latestErrors = []) : r.recovering = true ∧ r.latestErrors = [] := by
  cases hr : r.recovering with
  | true =>
    rw [report_of_recovering e hr] at hrule
    cases hrule
    exact ⟨rfl, hnone⟩
  | false =>
    rw [report_of_calm e hr] at hrule
    cases hrule
    cases hnone

theorem report_lasting (e : ParseError) : Lasting (report e) where
  of_ok hrule hnone := (report_noted hrule hnone).2
  of_error hrule := by cases hrule

theorem synchronize_lasting (n : Nat) : Lasting (synchronize n) := by
  induction n with
  | zero => exact .pure ()
  | succ n ih =>
    refine .get fun r => ?_
    dsimp only
    split
    · exact .pure ()
    · exact Lasting.take.bind fun _ => ih

/-- The tokens that are skipped after a report. -/
theorem skip_lasting (start : Span) : Lasting (do
    synchronize g.limit
    let r ← get
    if r.current.span = start && !r.current.content.isEnd then
      let _ ← take
      synchronize g.limit) := by
  refine (synchronize_lasting g.limit).bind fun _ => .get fun r => ?_
  split
  · exact Lasting.take.bind fun _ => synchronize_lasting g.limit
  · exact .pure ()

theorem recover_lasting (start : Span) (e : ParseError) : Lasting (g.recover start e) :=
  (report_lasting e).bind fun _ => skip_lasting start

theorem recover_noted {start : Span} {e : ParseError} {r r₁ : Reader} {u : Unit} (hc : r.Consistent)
    (hrule : g.recover start e r = .ok u r₁) : r₁.latestErrors ≠ [] := by
  intro hnone
  obtain ⟨_, r₂, hreport, hskip⟩ := ok_of_bind hrule
  obtain ⟨hrecovering, herrors⟩ := report_noted hreport ((skip_lasting start).of_ok hskip hnone)
  exact hc.noted hrecovering herrors

theorem synchronize_of_end (n : Nat) {r : Reader} (hend : r.current.content.isEnd = true) :
    synchronize n r = .ok () r := by
  cases n with
  | zero => rfl
  | succ n =>
    unfold synchronize
    rw [get_bind, hend]
    rfl

/-- The error to blame is the only one that is noted. -/
theorem recover_of_end (start : Span) {source : String} {r : Reader} {e b : ParseError}
    (hr : r.Blames source e b) : ∃ r₁, g.recover start e r = .ok () r₁ ∧ r₁.Noted b := by
  have hskip : ∀ {r : Reader}, r.current.content.isEnd = true → (do
      synchronize g.limit
      let r ← get
      if r.current.span = start && !r.current.content.isEnd then
        let _ ← take
        synchronize g.limit : Rule Unit) r = .ok () r := by
    intro r hend
    rw [bind_of_ok (synchronize_of_end g.limit hend), get_bind, hend]
    simp only [Bool.not_true, Bool.and_false, Bool.false_eq_true, if_false]
    rfl
  rcases hr with ⟨hdone, rfl⟩ | hnoted
  · have hreport := report_of_calm b hdone.calm
    have hended : Token.isEnd r.current.content = true := hdone.ended
    refine ⟨_, (bind_of_ok hreport).trans (hskip hended), ?_, rfl, hended⟩
    rw [hdone.flawless.1]
  · have hreport := report_of_recovering e hnoted.recovering
    exact ⟨r, (bind_of_ok hreport).trans (hskip hnoted.ended), hnoted⟩

/-- How a loop over statements ends that succeeds on the whole without errors: in the same way, or at the end
of the source, perhaps with an error that was noted there. -/
inductive Ending (k : Cut) (rule : Rule (List Stmt)) (r : Reader) (ss' : List Stmt) (r₁' : Reader) : Prop
  | abreast {r₁ : Reader} {ts : List Token} (hrule : rule r = .ok ss' r₁) (hts : r.tokens = ts ++ r₁.tokens)
    (hr : r₁.Abreast k r₁')
  | done {ss : List Stmt} {r₁ : Reader} (hrule : rule r = .ok ss r₁) (hr : r₁.Done k.source)
  | noted {ss : List Stmt} {r₁ : Reader} {b : ParseError} (hrule : rule r = .ok ss r₁) (hr : r₁.Noted b)
    (he : BreaksOff k.next.content (Joined Stmt.Yields) (fun ss => ∀ s ∈ ss, s.Canonical) b.content r.tokens)

namespace FollowsStatements

variable (h : g.FollowsStatements k)
include h

theorem statements_lasting (stop : Token → Bool) (n : Nat) : Lasting (g.statements stop n) := by
  induction n with
  | zero => exact .pure []
  | succ n ih =>
    refine .look fun here => ?_
    split
    · exact .pure []
    · have hcalm : Lasting (modify fun r => { r with recovering := false } : Rule Unit) := by
        constructor
        · rintro r _ _ ⟨⟩ hnone
          exact hnone
        · rintro r _ _ ⟨⟩
      refine hcalm.bind fun _ => h.statement.lasting.attempt.bind fun result => ?_
      cases result with
      | ok s => exact ih.bind fun ss => .pure (s :: ss)
      | error e => exact (recover_lasting here.span e).bind fun _ => ih

/-- On the whole no statement fails. -/
theorem statement_succeeds {stop : Token → Bool} {n : Nat} {r' r₁' : Reader} {ss' : List Stmt}
    (hstop : (stop r'.current.content || r'.current.content.isEnd) = false) (hcalm : r'.recovering = false)
    (hc : r'.Consistent) (hl : r'.tokens.length < g.limit)
    (hrule' : g.statements stop (n + 1) r' = .ok ss' r₁') (hnone : r₁'.latestErrors = []) :
    ∃ s' ss₂' r₂', g.statement r' = .ok s' r₂' ∧ g.statements stop n r₂' = .ok ss₂' r₁' ∧ ss' = s' :: ss₂' ∧
      r₂'.latestErrors = [] := by
  have htakes := h.sound.statement r' hc hl
  cases hs : g.statement r' with
  | error e r₂' =>
    rw [hs] at htakes
    obtain ⟨us, hpasses⟩ := htakes
    rw [statements_fail hstop hcalm hs] at hrule'
    obtain ⟨_, r₃', hrecover, hrest⟩ := ok_of_bind hrule'
    have hnoted := recover_noted hpasses.consistent hrecover
    exact (hnoted ((h.statements_lasting stop n).of_ok hrest hnone)).elim
  | ok s' r₂' =>
    rw [statements_step hstop hcalm hs] at hrule'
    obtain ⟨ss₂', r₃', hrest, hlast⟩ := ok_of_bind hrule'
    cases hlast
    exact ⟨s', ss₂', r₂', rfl, hrest, rfl, (h.statements_lasting stop n).of_ok hrest hnone⟩

omit h in
/-- A statement that fails at the end of the source is the last one that is read. -/
theorem ending_failed {stop : Token → Bool} {n : Nat} {r r₁ r₁' : Reader} {e b : ParseError} {ss' : List Stmt}
    (hstop : (stop r.current.content || r.current.content.isEnd) = false) (hcalm : r.recovering = false)
    (hs : g.statement r = .error e r₁) (hr₁ : r₁.Blames k.source e b)
    (he : BreaksOff k.next.content Stmt.Yields Stmt.Canonical b.content r.tokens) :
    Ending k (g.statements stop (n + 1)) r ss' r₁' := by
  obtain ⟨r₂, hrecover, hnoted⟩ := recover_of_end (g := g) r.current.span hr₁
  have hrest : g.statements stop n r₂ = .ok [] r₂ := statements_of_end hnoted.ended
  refine .noted ((statements_fail hstop hcalm hs).trans ((bind_of_ok hrecover).trans hrest)) hnoted ?_
  refine he.wrap_nil [] fun s vs hy hcs => ⟨[s], ?_, by simpa using hcs⟩
  simpa using Joined.cons hy .nil

/-- A statement that ends before the source does, and the statements behind it. -/
theorem ending_step {stop : Token → Bool} {n : Nat} {r r' r₁ r₁' r₂' : Reader} {s : Stmt} {ss' : List Stmt}
    {ts : List Token} (hstop : (stop r.current.content || r.current.content.isEnd) = false)
    (hr : r.Abreast k r') (hl : r'.tokens.length < g.limit) (hs : g.statement r = .ok s r₁)
    (hts : r.tokens = ts ++ r₁.tokens) (hr₁ : r₁.Abreast k r₁')
    (hrest : Ending k (g.statements stop n) r₁ ss' r₂') :
    Ending k (g.statements stop (n + 1)) r (s :: ss') r₂' := by
  have hstep := statements_step (n := n) hstop hr.calm hs
  cases hrest with
  | @abreast r₂ us hrest hus hr₂ =>
    have hall : r.tokens = (ts ++ us) ++ r₂.tokens := by rw [hts, hus, List.append_assoc]
    exact .abreast (hstep.trans (bind_of_ok hrest)) hall hr₂
  | done hrest hr₂ => exact .done (hstep.trans (bind_of_ok hrest)) hr₂
  | noted hrest hr₂ he =>
    have htakes := h.sound.statement r hr.consistent (hr.short hl)
    rw [hs] at htakes
    obtain ⟨vs, hpasses, hread⟩ := htakes
    obtain rfl := List.append_cancel_right (hts.symm.trans hpasses.tokens)
    have hstatement := hread hr₁.flawless.1
    refine .noted (hstep.trans (bind_of_ok hrest)) hr₂ ?_
    rw [hts]
    refine he.wrap_nil ts fun ss vs hy hcs => ⟨s :: ss, .cons hstatement.yields hy, ?_⟩
    exact List.forall_mem_cons.2 ⟨hstatement.canonical, hcs⟩

theorem statements_ending (stop : Token → Bool) (n : Nat) {r r' r₁' : Reader} {ss' : List Stmt}
    (hr : r.Abreast k r') (hl : r'.tokens.length < g.limit) (hrule' : g.statements stop n r' = .ok ss' r₁')
    (hnone : r₁'.latestErrors = []) : Ending k (g.statements stop n) r ss' r₁' := by
  induction n generalizing r r' ss' with
  | zero =>
    cases hrule'
    exact .abreast rfl (List.nil_append _).symm hr
  | succ n ih =>
    cases hend : r.current.content.isEnd with
    | true => exact .done (statements_of_end hend) (hr.done hend)
    | false =>
      have hcurrent := hr.current_eq hend
      cases hstop : stop r.current.content || r.current.content.isEnd with
      | true =>
        rw [statements_stop (by rw [hcurrent, hstop])] at hrule'
        cases hrule'
        exact .abreast (statements_stop hstop) (List.nil_append _).symm hr
      | false =>
        obtain ⟨s', ss₂', r₂', hs', hrest', rfl, hnone'⟩ := h.statement_succeeds (by rw [hcurrent, hstop])
          hr.calm' (hr.placed'.consistent hr.calm') hl hrule' hnone
        cases h.statement.outcome trivial hr hl hs' hnone' with
        | failed hs hr₂ he => exact ending_failed hstop hr.calm hs hr₂ he
        | done hs hr₂ _ =>
          have hlast : g.statements stop n _ = _ := statements_of_end hr₂.ended
          exact .done ((statements_step hstop hr.calm hs).trans (bind_of_ok hlast)) hr₂
        | abreast hs hts hr₂ =>
          exact h.ending_step hstop hr hl hs hts hr₂ (ih hr₂ (hr.short_passed hr₂ hts hl) hrest')

omit h in
theorem block_needs : Needs g.block := (expectSign_needs .leftBrace).bind _

/-- A block that the source ends in has no closing brace. -/
theorem block : Follows k g.limit Anywhere g.block (fun _ _ => False)
    (BreaksOff k.next.content Block.Yields Block.Canonical) := by
  refine (expectSign_follows .leftBrace).bind_must (expectSign_takes _) fun start => ?_
  have hclose : ∀ ss, Follows k g.limit Anywhere
      (do return Block.mk ss (start.merge (← expectSign .rightBrace)))
      (fun _ _ => False) (Stop k.next.content) :=
    fun ss => (expectSign_follows .rightBrace).yield fun _ _ hd => hd
  refine ⟨(h.statements_lasting _ _).bind fun ss => (hclose ss).lasting, ?_⟩
  intro r r' b' r₂' _ hr hl hrule' hnone
  obtain ⟨ss', r₁', hloop', hlast'⟩ := ok_of_bind hrule'
  cases h.statements_ending _ _ hr hl hloop' ((hclose ss').lasting.of_ok hlast' hnone) with
  | @abreast r₁ ts hloop hts hr₁ =>
    have hl₁ := hr.short_passed hr₁ hts hl
    refine Outcome.after ((hclose ss').outcome trivial hr₁ hl₁ hlast' hnone) hloop hts fun c he => ?_
    exact Ends.of_stop (he.after ts)
  | @done ss r₁ hloop hr₁ =>
    obtain ⟨e, hlast, he⟩ := ((expectSign_needs .rightBrace).bind _) r₁ hr₁.ended
    refine .failed ((bind_of_ok hloop).trans hlast) (hr₁.blames e) ?_
    rw [he]
    exact Ends.ended k.next.content _
  | @noted ss r₁ b hloop hr₁ he =>
    obtain ⟨e, hlast, -⟩ := ((expectSign_needs .rightBrace).bind _) r₁ hr₁.ended
    refine .failed ((bind_of_ok hloop).trans hlast) (.inr hr₁) ?_
    rintro _ rfl
    refine he.wrap [.symbol .leftBrace] [.symbol .rightBrace] (by simp) fun ss vs hy hc => ?_
    exact ⟨.mk ss default, .mk _ hy, .mk _ hc⟩

theorem function : Follows k g.limit Anywhere g.function (fun _ _ => False)
    (BreaksOff k.next.content FunctionDecl.Yields FunctionDecl.Canonical) := by
  refine (expectWord_follows _).bind_must (expectWord_takes _) fun start =>
    identifier_follows.bind_must identifier_takes fun id =>
      FollowsExpressions.parameters.lift.bind_must Sound.parameters fun ps =>
        (h.block.yield fun _ _ hd => hd).mono (fun _ _ hd => hd) ?_
  rintro c us hus _ ⟨ts, rfl, hps, hd⟩ _ rfl _ rfl
  rw [← List.append_assoc, ← List.append_assoc]
  refine hus.wrap_nil _ fun b vs hy hc => ⟨.mk id ps b default, ?_, .mk _ _ hd hc⟩
  simpa using FunctionDecl.Yields.mk id default hps hy

omit h in
theorem classMember_needs : Needs g.classMember := by
  intro r hend
  unfold Grammar.classMember
  rw [current_bind, eq_end hend]
  exact failExpecting_needs _ r hend

theorem classMember : Follows k g.limit Anywhere g.classMember (fun _ _ => True)
    (BreaksOff k.next.content Member.Yields Member.Canonical) := by
  refine .current classMember_needs fun here => ?_
  split
  · refine (h.declaration.yield fun _ _ => False.elim).mono (fun _ _ hd => hd) fun c us hus => ?_
    exact hus.imp fun d vs hy hc => ⟨.field d, .field hy, .field hc⟩
  · split
    · refine ((h.function.yield fun _ _ => False.elim).mono (fun _ _ hd => hd) fun c us hus => ?_).weaken
      exact hus.imp fun f vs hy hc => ⟨.method f, .method hy, .method hc⟩
    · exact failExpecting_follows _

theorem class_ : Follows k g.limit Anywhere g.class_ (fun _ _ => False)
    (BreaksOff k.next.content Stmt.Yields Stmt.Canonical) := by
  refine (expectWord_follows _).bind_must (expectWord_takes _) fun start =>
    identifier_follows.bind_must identifier_takes fun id => ?_
  refine optional_follows (Y := Maybe fun i us => us = [.keyword .extends_, .identifier i.name])
    identifier_follows (identifier_takes.mono fun i ts _ hi => ?_) .none (fun p => ?_)
    fun _ => ((expectSign_needs .leftBrace).bind _).ends []
  · cases hi
    exact .some rfl
  · refine (expectSign_follows .leftBrace).bind_must (expectSign_takes _) fun _ => ?_
    have hmembers := repeated_follows h.classMember h.sound.classMember classMember_needs .rightBrace g.limit
    refine Follows.andThen_needs (hmembers.mono (fun _ _ hd => hd) ?_)
      (fun ms => (expectSign_follows .rightBrace).yield fun _ _ hd => hd)
      fun ms => (expectSign_needs .rightBrace).bind _
    rintro c us hus _ rfl ps hps _ rfl _ rfl
    rw [← List.append_assoc, ← List.append_assoc, ← List.append_assoc]
    refine hus.wrap _ [.symbol .rightBrace] (by simp) fun ms vs hy hc =>
      ⟨.class_ id p ms default, ?_, .class_ _ _ _ hc⟩
    cases hps with
    | none => exact .class_ id _ hy
    | @some i _ hi =>
      subst hi
      exact .subclass id i _ hy

theorem bracketed : Follows k g.limit Anywhere g.bracketed (fun _ _ => False) (Stop k.next.content) :=
  (expectSign_follows .leftBracket).andThen_must fun _ => h.anyExpression.andThen_needs
    (fun _ => (expectSign_follows .rightBracket).yield fun _ _ hd => hd)
    fun _ => (expectSign_needs .rightBracket).bind _

theorem conditional : Follows k g.limit Anywhere g.conditional (fun _ _ => True)
    (BreaksOff k.next.content Stmt.Yields Stmt.Canonical) := by
  refine (expectWord_follows _).bind_must (expectWord_takes _) fun start =>
    h.bracketed.lift.bind_must h.sound.bracketed fun c => ?_
  refine Follows.bind (h.statement.mono (fun _ _ hd => hd) ?_) h.sound.statement (fun r => ?_)
    fun r r' ts _ _ => .takeWord (.pure fun _ => trivial)
  · rintro c us hus ts ⟨hts, hc⟩ _ rfl
    rw [← List.append_assoc]
    refine hus.wrap_nil _ fun r vs hy hr => ⟨.conditional _ r none default, ?_, .conditional _ hc hr⟩
    simpa using Stmt.Yields.conditional _ hts hy
  · refine (takeWord_follows _).bind (takeWord_takes _) (fun more => ?_) ?_
    · cases more with
      | false => exact .pure _
      | true =>
        refine (h.statement.yield fun _ _ _ => trivial).mono (fun _ _ hd => hd) ?_
        rintro c vs hvs cs hcs us hus ts ⟨hts, hc⟩ _ rfl
        obtain ⟨-, rfl⟩ : true = true ∧ cs = [.keyword .else_] := by simpa using hcs
        have hnearest : r.isDangling = false := by
          cases hd : r.isDangling with
          | false => rfl
          | true => exact (hus.dangling hd rfl).elim
        rw [← List.append_assoc, ← List.append_assoc, ← List.append_assoc]
        refine hvs.wrap_nil _ fun a ws hy ha =>
          ⟨.conditional _ r (some a) default, ?_, .alternative _ hc hus.canonical ha hnearest⟩
        simpa using Stmt.Yields.alternative _ hts hus.yields hy
    · rintro _ _ ts ⟨rfl, rfl, -⟩ _
      exact .pure fun _ => trivial

theorem whileLoop : Follows k g.limit Anywhere g.whileLoop (fun _ _ => True)
    (BreaksOff k.next.content Stmt.Yields Stmt.Canonical) := by
  refine (expectWord_follows _).bind_must (expectWord_takes _) fun start =>
    h.bracketed.lift.bind_must h.sound.bracketed fun c =>
      (h.statement.yield fun _ _ _ => trivial).mono (fun _ _ hd => hd) ?_
  rintro c us hus ts ⟨hts, hc⟩ _ rfl
  rw [← List.append_assoc]
  refine hus.wrap_nil _ fun b vs hy hb => ⟨.whileLoop _ b default, ?_, .whileLoop _ hc hb⟩
  simpa using Stmt.Yields.whileLoop _ hts hy

theorem expressionStatement : Follows k g.limit Anywhere g.expressionStatement (fun _ _ => False)
    (BreaksOff k.next.content (fun e ts => ∃ us, ts = us ++ [.symbol .semicolon] ∧ e.Yields us)
      Expr.Canonical) := by
  refine Follows.semicolon h.anyExpression.lift h.sound.anyExpression ?_
  rintro e ts ⟨hy, hc, -⟩
  exact .inr ⟨rfl, e, [], ⟨ts, rfl, hy⟩, hc, by simp⟩

theorem initializer_needs : Needs g.initializer := by
  intro r hend
  unfold Grammar.initializer
  rw [current_bind, eq_end hend]
  exact (h.anyExpression_needs.bind _).bind _ r hend

theorem initializer : Follows k g.limit Anywhere g.initializer (fun _ _ => False)
    (BreaksOff k.next.content Initializer.Yields fun i => ∀ x ∈ i, x.Canonical) := by
  refine .current h.initializer_needs fun here => ?_
  split
  · exact Follows.take.yield fun _ _ hd => hd
  · split
    · refine (h.declaration.yield fun _ _ hd => hd).mono (fun _ _ hd => hd) fun c us hus => ?_
      refine hus.imp fun d vs hy hc => ⟨some (.declare d), .declare hy, ?_⟩
      simpa using Initializer.Canonical.declare hc
    · refine Follows.weaken ?_
      refine (h.expressionStatement.yield fun _ _ hd => hd).mono (fun _ _ hd => hd) fun c us hus => ?_
      refine hus.imp ?_
      rintro e _ ⟨vs, rfl, hy⟩ hc
      refine ⟨some (.expression e default), .expression _ hy, ?_⟩
      simpa using Initializer.Canonical.expression _ hc

omit h in
/-- A header that wants its second semicolon. -/
theorem header_wants {next : Token} {i : Option Initializer} {c : Option Expr} {ts us : List Token}
    (hi : Initializer.Yields i ts ∧ ∀ x ∈ i, x.Canonical)
    (hc : Maybe Expr.Yields c us ∧ ∀ e ∈ c, e.Canonical) :
    BreaksOff next Stmt.Yields Stmt.Canonical .missingSemicolon
      ([.keyword .for_] ++ ([.symbol .leftBracket] ++ (ts ++ us))) := by
  refine .inr ⟨rfl, .forLoop ⟨i, c, none⟩ (.pass default) default,
    [.symbol .rightBracket, .keyword .pass, .symbol .semicolon], ?_, ?_, by simp⟩
  · simpa using Stmt.Yields.forLoop default (.mk hi.1 hc.1 .none) (.pass default)
  · exact .forLoop _ ⟨hi.2, hc.2, by simp⟩ (.pass _)

theorem forLoop : Follows k g.limit Anywhere g.forLoop (fun _ _ => True)
    (BreaksOff k.next.content Stmt.Yields Stmt.Canonical) := by
  refine (expectWord_follows _).bind_must (expectWord_takes _) fun start =>
    (expectSign_follows _).bind_must (expectSign_takes _) fun _ =>
      Follows.bind_must (h.initializer.mono (fun _ _ hd => hd) ?_) h.sound.initializer fun i =>
        h.maybe (fun c => ?_) fun c us hc => (semicolon_fails ?_).bind _
  · rintro c us hus _ rfl _ rfl
    rw [← List.append_assoc]
    refine hus.wrap _ [.symbol .semicolon, .symbol .rightBracket, .keyword .pass, .symbol .semicolon]
      (by simp) fun i vs hy hc => ⟨.forLoop ⟨i, none, none⟩ (.pass default) default, ?_, ?_⟩
    · simpa using Stmt.Yields.forLoop default (.mk hy .none .none) (.pass default)
    · exact .forLoop _ ⟨hc, by simp, by simp⟩ (.pass _)
  · refine Follows.bind_must (semicolon_follows.mono (fun _ _ hd => hd) ?_) semicolon_takes fun _ =>
      h.maybe (fun u => ?_) fun u ts _ =>
        ((expectSign_needs .rightBracket).bind _).fails (Ends.ended k.next.content ts)
    · rintro _ _ ⟨rfl, rfl⟩ us hc ts hi _ rfl _ rfl
      rw [List.append_nil]
      exact header_wants hi hc
    · refine (expectSign_follows .rightBracket).bind_must (expectSign_takes _) fun _ =>
        (h.statement.yield fun _ _ _ => trivial).mono (fun _ _ hd => hd) ?_
      rintro c ws hws _ rfl vs ⟨hvs, hcv⟩ _ rfl us ⟨hus, hcu⟩ ts ⟨hts, hct⟩ _ rfl _ rfl
      simp only [← List.append_assoc]
      refine hws.wrap_nil _ fun b xs hy hb =>
        ⟨.forLoop ⟨i, _, u⟩ b default, ?_, .forLoop _ ⟨hct, hcu, hcv⟩ hb⟩
      simpa using Stmt.Yields.forLoop default (.mk hts hus hvs) hy
  · rintro ts hi _ rfl _ rfl
    exact header_wants hi hc

omit h in
theorem defaultWord : Follows k g.limit Anywhere defaultWord (fun _ _ => True) (Stop k.next.content) := by
  refine (takeWord_follows .default).andThen (fun found => ?_) ?_
  · cases found with
    | true => exact .pure _
    | false => exact failExpecting_follows _
  · rintro _ _ ⟨rfl, rfl, -⟩
    exact (failExpecting_needs _).rests rfl

omit h in
theorem defaultWord_needs : Needs Grammar.defaultWord := .takeWord (failExpecting_needs _)

theorem caseValue : Follows k g.limit Anywhere g.caseValue (fun _ _ => True) (Stop k.next.content) := by
  refine (takeWord_follows .case).andThen (fun found => ?_) ?_
  · cases found with
    | true => exact h.anyExpression.map fun _ _ _ => trivial
    | false => exact defaultWord
  · rintro _ _ ⟨rfl, rfl, -⟩
    exact defaultWord_needs.rests rfl

omit h in
theorem caseValue_needs : Needs g.caseValue := .takeWord defaultWord_needs

omit h in
theorem case_needs : Needs g.case := fun r hend => (caseValue_needs.bind _) r hend

theorem case : Follows k g.limit Anywhere g.case (fun _ _ => True)
    (BreaksOff k.next.content Case.Yields Case.Canonical) := by
  refine .current case_needs fun here => ?_
  refine (Follows.bind h.caseValue.lift h.sound.caseValue (fun v => ?_)
    fun v v' ts _ _ => ((expectSign_needs .colon).bind _).ends ts).weaken
  refine (expectSign_follows .colon).bind_must (expectSign_takes _) fun _ =>
    (h.statement.yield fun _ _ _ => trivial).mono (fun _ _ hd => hd) ?_
  rintro c us hus _ rfl _ (⟨e, ts, rfl, rfl, he, hc⟩ | ⟨rfl, rfl⟩)
  · rw [← List.append_assoc]
    refine hus.wrap_nil _ fun b vs hy hb => ⟨.mk (some e) b default, ?_, .mk _ (by simpa using hc) hb⟩
    simpa using Case.Yields.value _ he hy
  · rw [← List.append_assoc]
    exact hus.wrap_nil _ fun b vs hy hb => ⟨.mk none b default, .default _ hy, .mk _ (by simp) hb⟩

theorem switch : Follows k g.limit Anywhere g.switch (fun _ _ => False)
    (BreaksOff k.next.content Stmt.Yields Stmt.Canonical) := by
  refine (expectWord_follows _).bind_must (expectWord_takes _) fun start =>
    h.bracketed.lift.bind_must h.sound.bracketed fun e =>
      (expectSign_follows .leftBrace).bind_must (expectSign_takes _) fun _ => ?_
  have hcases := repeated_follows h.case h.sound.case case_needs .rightBrace g.limit
  refine Follows.andThen_needs (hcases.mono (fun _ _ hd => hd) ?_)
    (fun ks => (expectSign_follows .rightBrace).yield fun _ _ hd => hd)
    fun ks => (expectSign_needs .rightBrace).bind _
  rintro c us hus _ rfl ts ⟨hts, hc⟩ _ rfl
  rw [← List.append_assoc, ← List.append_assoc]
  refine hus.wrap _ [.symbol .rightBrace] (by simp) fun ks vs hy hks =>
    ⟨.switch e ks default, ?_, .switch _ hc hks⟩
  simpa using Stmt.Yields.switch _ hts hy

theorem return_ : Follows k g.limit Anywhere g.return_ (fun _ _ => False)
    (BreaksOff k.next.content Stmt.Yields Stmt.Canonical) := by
  have hwants : ∀ {e : Option Expr} {ts : List Token}, Maybe Expr.Yields e ts ∧ (∀ x ∈ e, x.Canonical) →
      BreaksOff k.next.content Stmt.Yields Stmt.Canonical .missingSemicolon ([.keyword .return_] ++ ts) :=
    fun {e _} he => .inr ⟨rfl, .return_ e default, [], .return_ _ he.1, .return_ _ he.2, by simp⟩
  refine (expectWord_follows _).bind_must (expectWord_takes _) fun start =>
    h.maybe (fun e => ?_) fun e ts he => (semicolon_fails ?_).bind _
  · refine (semicolon_follows.yield fun _ _ hd => hd).mono (fun _ _ hd => hd) ?_
    rintro _ _ ⟨rfl, rfl⟩ ts he _ rfl
    rw [List.append_nil]
    exact hwants he
  · rintro _ rfl
    exact hwants he

omit h in
theorem single {word : Keyword} {make : Span → Stmt}
    (hy : ∀ s, (make s).Yields [.keyword word, .symbol .semicolon]) (hc : ∀ s, (make s).Canonical) :
    Follows k g.limit Anywhere (single word make) (fun _ _ => False)
      (BreaksOff k.next.content Stmt.Yields Stmt.Canonical) := by
  refine (expectWord_follows word).semicolon (expectWord_takes word) ?_
  rintro start _ rfl
  exact .inr ⟨rfl, make default, [], hy _, hc _, by simp⟩

theorem throw_ : Follows k g.limit Anywhere g.throw_ (fun _ _ => False)
    (BreaksOff k.next.content Stmt.Yields Stmt.Canonical) := by
  refine (expectWord_follows _).bind_must (expectWord_takes _) fun start =>
    Follows.semicolon h.anyExpression.lift h.sound.anyExpression ?_
  rintro e ts ⟨hy, hc, -⟩ _ rfl
  exact .inr ⟨rfl, .throw e default, [], .throw _ hy, .throw _ hc, by simp⟩

theorem print : Follows k g.limit Anywhere g.print (fun _ _ => False)
    (BreaksOff k.next.content Stmt.Yields Stmt.Canonical) := by
  refine (expectWord_follows _).bind_must (expectWord_takes _) fun start =>
    (expectSign_follows _).bind_must (expectSign_takes _) fun _ =>
      Follows.semicolon (h.expressions .rightParen).lift (h.sound.expressions .rightParen) ?_
  rintro ⟨es, s⟩ _ ⟨ts, rfl, hy, hc⟩ _ rfl _ rfl
  refine .inr ⟨rfl, .print es default, [], ?_, .print _ hc, by simp⟩
  simpa using Stmt.Yields.print _ hy

omit h in
theorem import_ : Follows k g.limit Anywhere import_ (fun _ _ => False)
    (BreaksOff k.next.content Stmt.Yields Stmt.Canonical) := by
  refine (expectWord_follows _).bind_must (expectWord_takes _) fun start => Follows.split ?_ ?_
  · refine Follows.take.bind_must Takes.take fun target => ?_
    split
    · next name hname =>
      refine (semicolon_follows.yield fun _ _ hd => hd).mono (fun _ _ hd => hd) ?_
      rintro _ _ ⟨rfl, rfl⟩ ts hts _ rfl
      rw [hts (not_end_of_some rfl hname)]
      exact .inr ⟨rfl, .import_ name default, [], .import_ _ hname, .import_ _ _, by simp⟩
    · exact .throw _
  · intro r r' s' r₁' hr _ hrule'
    refine Rests.outcome (Fails.rests ?_) hr hrule'
    refine take_fails (e := fun t => ⟨.unexpectedToken t.content ["a module name", "a path string"], t.span,
      t.position⟩) (fun t ht => ?_) fun t ht => ?_
    · rw [ht]
    · rintro _ rfl
      rw [ht]
      exact .inl (.target [] _)

theorem handler : Follows k g.limit Anywhere g.handler (fun _ _ => False)
    (BreaksOff k.next.content (fun k ts => k.Yields (.keyword .catch_ :: ts)) Handler.Canonical) := by
  refine (takeSign_follows _).bind (takeSign_takes _) (fun named => ?_) ?_
  · cases named with
    | true =>
      refine identifier_follows.bind_must identifier_takes fun id =>
        (expectSign_follows _).bind_must (expectSign_takes _) fun _ => ?_
      refine (h.block.yield fun _ _ hd => hd).mono (fun _ _ hd => hd) ?_
      rintro c us hus _ rfl _ rfl cs hcs
      obtain ⟨-, rfl⟩ : true = true ∧ cs = [.symbol .leftParen] := by simpa using hcs
      simp only [← List.append_assoc]
      exact hus.wrap_nil _ fun b vs hy hc => ⟨.mk (some id) b, .named id hy, .mk _ hc⟩
    | false =>
      refine (h.block.yield fun _ _ hd => hd).mono (fun _ _ hd => hd) ?_
      rintro c us hus cs hcs
      obtain ⟨rfl, -⟩ : cs = [] ∧ _ := by simpa using hcs
      exact hus.imp fun b vs hy hc => ⟨.mk none b, .plain hy, .mk _ hc⟩
  · rintro _ _ ts ⟨rfl, rfl, -⟩ _
    exact (block_needs.bind _).ends ts

omit h in
/-- A block that only a `catch` or a `finally` can follow. -/
theorem block_caught {b : Block} {ts : List Token} (hb : b.Yields ts)
    (hnext : k.next.content = .keyword .catch_ ∨ k.next.content = .keyword .finally_) :
    Stop k.next.content .missingCatchOrFinally (.keyword .try_ :: ts) := by
  cases hb with
  | @mk ss us s hss => exact .caught (.keyword .try_ :: .symbol .leftBrace :: us) hnext

theorem try_ : Follows k g.limit Anywhere g.try_ (fun _ _ => True)
    (BreaksOff k.next.content Stmt.Yields Stmt.Canonical) := by
  refine (expectWord_follows _).bind_must (expectWord_takes _) fun start =>
    Follows.bind_must (h.block.mono (fun _ _ hd => hd) ?_) h.sound.block fun b => ?_
  · rintro c us hus _ rfl
    refine hus.wrap _ [.keyword .catch_, .symbol .leftBrace, .symbol .rightBrace] (by simp)
      fun b vs hy hc => ⟨.try_ b (some (.mk none (.mk [] default))) none default, ?_, ?_⟩
    · simpa using Stmt.Yields.try_ default hy (.some (.plain (.mk default .nil))) .none
    · exact .try_ _ hc (by simpa using Handler.Canonical.mk none (.mk default (by simp))) (by simp) (.inl rfl)
  refine optional_follows (Y := fun k ts => Maybe Handler.Yields k ts ∧ ∀ x ∈ k, x.Canonical)
    (h.handler.mono (fun _ _ hd => hd) ?_)
    (h.sound.handler.mono fun k ts _ hk => ⟨.some hk.1, by simpa using hk.2⟩) ⟨.none, by simp⟩
    (fun caught => ?_) fun hnext => .takeWord (failHere_fails _ ?_).rests
  · rintro c us hus _ rfl ts ⟨hts, hc⟩ _ rfl
    rw [← List.append_assoc, ← List.append_assoc]
    refine hus.wrap_nil _ fun x vs hy hx => ⟨.try_ b (some x) none default, ?_, ?_⟩
    · simpa using Stmt.Yields.try_ default hts (.some hy) .none
    · exact .try_ _ hc (by simpa using hx) (by simp) (.inl rfl)
  · refine optional_follows (Y := fun f ts => Maybe Block.YieldsCleanup f ts ∧ ∀ x ∈ f, x.Canonical)
      (h.block.mono (fun _ _ hd => hd) ?_)
      (h.sound.block.mono fun f ts _ hf => ⟨.some (.mk hf.1), by simpa using hf.2⟩) ⟨.none, by simp⟩
      (fun cleanup => ?_) fun hnext => ?_
    · rintro c us hus _ rfl vs ⟨hvs, hcv⟩ ts ⟨hts, hc⟩ _ rfl
      simp only [← List.append_assoc]
      refine hus.wrap_nil _ fun x ws hy hx => ⟨.try_ b caught (some x) default, ?_, ?_⟩
      · simpa using Stmt.Yields.try_ default hts hvs (.some (.mk hy))
      · exact .try_ _ hc hcv (by simpa using hx) (.inr rfl)
    · dsimp only
      split
      · exact failHere_follows _
      · exact .pure _
      · exact .pure _
    · cases caught with
      | some x => exact .pure fun _ => trivial
      | none =>
        refine (failHere_fails _ ?_).rests
        rintro us ⟨hus, -⟩ ts ⟨hts, -⟩ _ rfl
        cases hus
        simp only [List.append_nil]
        exact .inl (block_caught hts (.inr hnext))
  · rintro ts ⟨hts, -⟩ _ rfl
    rw [List.append_nil]
    exact .inl (block_caught hts (.inl hnext))

theorem statementRule_needs : Needs g.statementRule := by
  intro r hend
  unfold Grammar.statementRule
  rw [current_bind, eq_end hend]
  exact ((h.anyExpression_needs.bind _).bind _) r hend

theorem statementRule : Follows k g.limit Anywhere g.statementRule (fun _ _ => True)
    (BreaksOff k.next.content Stmt.Yields Stmt.Canonical) := by
  refine .current_head h.statementRule_needs fun here => ?_
  have hwhole : ∀ {rule : Rule Stmt} {D : Stmt → Stmt → Prop},
      Follows k g.limit Anywhere rule D (BreaksOff k.next.content Stmt.Yields Stmt.Canonical) →
        Follows k g.limit Inside rule (fun _ _ => True) fun c ts => ts.head? = some here.content →
          BreaksOff k.next.content Stmt.Yields Stmt.Canonical c ts := by
    intro rule D hrule
    refine (hrule.mono (fun _ _ _ => trivial) ?_).weaken
    exact fun _ _ he _ => he
  split
  iterate 5
    · refine (h.declaration.yield fun _ _ _ => trivial).mono (fun _ _ hd => hd) fun c us hus _ => ?_
      exact hus.imp fun d vs hy hc => ⟨.declare d, .declare hy, .declare hc⟩
  · refine ((h.function.yield fun _ _ _ => trivial).mono (fun _ _ hd => hd) fun c us hus _ => ?_).weaken
    exact hus.imp fun f vs hy hc => ⟨.function f, .function hy, .function hc⟩
  · exact hwhole h.class_
  · refine ((h.block.yield fun _ _ _ => trivial).mono (fun _ _ hd => hd) fun c us hus _ => ?_).weaken
    exact hus.imp fun b vs hy hc => ⟨.block b, .block hy, .block hc⟩
  · exact hwhole h.conditional
  · exact hwhole h.whileLoop
  · exact hwhole h.forLoop
  · exact hwhole h.switch
  · exact hwhole h.return_
  · exact hwhole (single .break_ .break_)
  · exact hwhole (single .continue_ .continue_)
  · exact hwhole h.throw_
  · exact hwhole h.try_
  · exact hwhole import_
  · exact hwhole h.print
  · exact hwhole (single .pass .pass)
  · next hbrace _ _ _ _ _ _ _ _ _ _ _ _ =>
    refine ((h.expressionStatement.yield fun _ _ => False.elim).mono (fun _ _ hd => hd) ?_).weaken
    rintro c us (hstop | ⟨rfl, e, ws, ⟨vs, hvs, hy⟩, hc, hws⟩) hhead
    · exact .inl hstop
    have hstart : e.startsWithMap = false := by
      cases hs : e.startsWithMap with
      | false => rfl
      | true =>
        -- the expression and the tokens that were read begin with the same token
        obtain ⟨t, xs, rfl, -⟩ := hy.head
        obtain ⟨us, rfl⟩ := List.head?_eq_some_iff.1 hhead
        obtain ⟨rfl, -⟩ := List.cons.inj hvs
        exact (hbrace (Option.some.inj (hy.head_brace.2 hs))).elim
    exact .inr ⟨rfl, .expression e default, ws, hvs ▸ .expression _ hy, .expression _ hc hstart, hws⟩

end FollowsStatements

/-- Every level of nesting. -/
theorem follows_upTo (k : Cut) (limit depth : Nat) : (upTo limit depth).FollowsStatements k := by
  induction depth with
  | zero =>
    exact ⟨⟨sound_upTo limit 0, fun _ => failHere_follows _, fun _ r _ => ⟨_, rfl, rfl⟩⟩, failHere_follows _,
      fun r _ => ⟨_, rfl, rfl⟩⟩
  | succ depth ih =>
    have hexpressions : (upTo limit (depth + 1)).FollowsExpressions k :=
      ⟨sound_upTo limit (depth + 1), ih.expressionRule, fun _ => FollowsExpressions.expressionRule_needs _⟩
    exact ⟨hexpressions, ih.statementRule, ih.statementRule_needs⟩

end Grammar

end Scriptlet
