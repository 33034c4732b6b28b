import Scriptlet.Proofs.Syntax.Reading

/-! Where rules stop before a semicolon. Ahead of a reader there are plain tokens, which open no block and no
`for` loop, and then a semicolon. A rule for expressions takes some of the plain tokens and stops before the
semicolon; a rule for statements that succeeds stops right behind it. Neither goes on behind the semicolon,
also when it fails. -/
namespace Scriptlet

/-- Neither a brace that opens a block, nor a semicolon, nor the word of the loop that has semicolons inside
it. -/
structure Token.Plain (t : Token) : Prop where
  noBrace : t ≠ .symbol .leftBrace
  noSemicolon : t ≠ .symbol .semicolon
  noLoop : t ≠ .keyword .for_

namespace Reader

def skip (r : Reader) : Nat → Reader
  | 0 => r
  | n + 1 => r.shift.skip n

theorem skip_add (r : Reader) (m n : Nat) : r.skip (m + n) = (r.skip m).skip n := by
  induction m generalizing r with
  | zero => rw [Nat.zero_add, skip]
  | succ m ih => rw [Nat.succ_add, skip, skip, ih]

theorem skip_succ (r : Reader) (n : Nat) : r.skip (n + 1) = (r.skip n).shift := r.skip_add n 1

theorem skip_tokens {r : Reader} {us vs : List Token} (h : r.tokens = us ++ vs) :
    (r.skip us.length).tokens = vs := by
  induction us generalizing r with
  | nil => exact h
  | cons u us ih => exact ih (current_of_tokens h).2

theorem not_end_of_tokens {r : Reader} {us rest : List Token} {t : Token} (h : r.tokens = us ++ t :: rest) :
    r.current.content.isEnd = false := by
  cases hend : r.current.content.isEnd with
  | false => rfl
  | true =>
    rw [tokens_of_end hend] at h
    cases us <;> cases h

/-- All that happened between the two readers is that tokens were taken. -/
def Moves (r r' : Reader) : Prop := ∃ ts, r.tokens = ts ++ r'.tokens ∧ r' = r.skip ts.length

theorem Moves.refl (r : Reader) : r.Moves r := ⟨[], rfl, rfl⟩

theorem Moves.trans {r r' r'' : Reader} (h : r.Moves r') (h' : r'.Moves r'') : r.Moves r'' := by
  obtain ⟨ts, hts, rfl⟩ := h
  obtain ⟨us, hus, rfl⟩ := h'
  refine ⟨ts ++ us, by rw [hts, hus, List.append_assoc], ?_⟩
  rw [List.length_append, skip_add]

theorem moves_shift {r : Reader} (h : r.current.content.isEnd = false) : r.Moves r.shift :=
  ⟨[r.current.content], tokens_of_not_end h, rfl⟩

/-- Plain tokens stand ahead, then a semicolon, and then `rest`. -/
def Before (rest : List Token) (r : Reader) : Prop :=
  ∃ us : List Token, (∀ t ∈ us, t.Plain) ∧ r.tokens = us ++ .symbol .semicolon :: rest

/-- The semicolon has been taken, and no token behind it. -/
def Behind (rest : List Token) (r : Reader) : Prop := r.tokens = rest

/-- The reader is not further than right behind the semicolon. -/
def Near (rest : List Token) (r : Reader) : Prop := r.Before rest ∨ r.Behind rest

variable {rest : List Token} {r : Reader}

/-- What one token of lookahead shows before the semicolon. -/
theorem Before.cases (h : r.Before rest) :
    r.current.content = .symbol .semicolon ∧ r.shift.Behind rest ∨
      r.current.content.Plain ∧ r.shift.Before rest := by
  obtain ⟨us, hus, htokens⟩ := h
  cases us with
  | nil => exact .inl (current_of_tokens htokens)
  | cons u us =>
    obtain ⟨hu, hshift⟩ := current_of_tokens htokens
    obtain ⟨hplain, hus⟩ := List.forall_mem_cons.1 hus
    exact .inr ⟨hu ▸ hplain, us, hus, hshift⟩

theorem Before.not_end (h : r.Before rest) : r.current.content.isEnd = false := by
  obtain ⟨us, -, htokens⟩ := h
  exact not_end_of_tokens htokens

/-- A token other than the semicolon is a plain one. -/
theorem Before.shift (h : r.Before rest) (ht : r.current.content ≠ .symbol .semicolon) :
    r.shift.Before rest := by
  rcases h.cases with ⟨hsign, -⟩ | ⟨-, hshift⟩
  · exact (ht hsign).elim
  · exact hshift

/-- How many tokens have been taken at most. -/
theorem Moves.near {us : List Token} {r' : Reader} (h : r.Moves r')
    (htokens : r.tokens = us ++ .symbol .semicolon :: rest) (hnear : r'.Near rest) :
    ∃ k, k ≤ us.length + 1 ∧ r' = r.skip k := by
  obtain ⟨ts, hts, hskip⟩ := h
  refine ⟨ts.length, ?_, hskip⟩
  have hlength := congrArg List.length (htokens.symm.trans hts)
  simp only [List.length_append, List.length_cons] at hlength
  rcases hnear with ⟨vs, -, hvs⟩ | hbehind
  · simp only [hvs, List.length_append, List.length_cons] at hlength
    omega
  · rw [hbehind] at hlength
    omega

end Reader

namespace Rule

open Reader

variable {α β : Type}

/-- From `r` on, tokens were taken and nothing else was done. What succeeded has stopped at a reader in `P`, and
what failed not further than right behind the semicolon. -/
def Halted (rest : List Token) (r : Reader) (P : Reader → Prop) : EStateM.Result ParseError Reader α → Prop
  | .ok _ r' => r.Moves r' ∧ P r'
  | .error _ r' => r.Moves r' ∧ r'.Near rest

theorem Halted.after {rest : List Token} {r r' : Reader} {P : Reader → Prop}
    {x : EStateM.Result ParseError Reader α} (hmoves : r.Moves r') (h : Halted rest r' P x) :
    Halted rest r P x := by
  cases x with
  | ok a r'' => exact ⟨hmoves.trans h.1, h.2⟩
  | error e r'' => exact ⟨hmoves.trans h.1, h.2⟩

def HaltsAt (rest : List Token) (r : Reader) (rule : Rule α) (P : Reader → Prop) : Prop :=
  Halted rest r P (rule r)

def Halts (rest : List Token) (rule : Rule α) (P : Reader → Prop) : Prop :=
  ∀ r, Before rest r → HaltsAt rest r rule P

variable {rest : List Token} {r : Reader} {rule : Rule α} {P Q : Reader → Prop}

namespace HaltsAt

theorem pure {a : α} (h : P r) : HaltsAt rest r (pure a) P := ⟨.refl r, h⟩

theorem throw {e : ParseError} (h : r.Near rest) : HaltsAt rest r (throw e : Rule α) P := ⟨.refl r, h⟩

theorem bind {next : α → Rule β} (h : HaltsAt rest r rule P)
    (hn : ∀ a r', P r' → HaltsAt rest r' (next a) Q) : HaltsAt rest r (rule >>= next) Q := by
  unfold HaltsAt at h ⊢
  simp only [Bind.bind, EStateM.bind]
  cases hrule : rule r with
  | error e r' =>
    rw [hrule] at h
    exact h
  | ok a r' =>
    rw [hrule] at h
    exact (hn a r' h.2).after h.1

theorem map {f : α → β} (h : HaltsAt rest r rule P) : HaltsAt rest r (f <$> rule) P := by
  rw [map_eq_pure_bind]
  exact h.bind fun _ _ hp => .pure hp

/-- A failure that is caught is one of the two ways on. -/
theorem attempt {next : Except ParseError α → Rule β} (h : HaltsAt rest r rule P)
    (hok : ∀ a r', P r' → HaltsAt rest r' (next (.ok a)) Q)
    (herror : ∀ e r', r'.Near rest → HaltsAt rest r' (next (.error e)) Q) :
    HaltsAt rest r (Rule.attempt rule >>= next) Q := by
  unfold HaltsAt at h ⊢
  simp only [Bind.bind, EStateM.bind, Rule.attempt]
  cases hrule : rule r with
  | error e r' =>
    rw [hrule] at h
    exact (herror e r' h.2).after h.1
  | ok a r' =>
    rw [hrule] at h
    exact (hok a r' h.2).after h.1

theorem current {next : Located Token → Rule β} (h : HaltsAt rest r (next r.current) P) :
    HaltsAt rest r (Rule.current >>= next) P := h

theorem get {next : Reader → Rule β} (h : HaltsAt rest r (next r) P) :
    HaltsAt rest r (MonadState.get >>= next) P := h

theorem check {test : Token → Bool} {next : Bool → Rule β}
    (h : HaltsAt rest r (next (test r.current.content)) P) :
    HaltsAt rest r (Rule.check test >>= next) P := h

theorem take {next : Located Token → Rule β} (hend : r.current.content.isEnd = false)
    (h : HaltsAt rest r.shift (next r.current) P) : HaltsAt rest r (Rule.take >>= next) P :=
  Halted.after (moves_shift hend) h

end HaltsAt

namespace Halts

theorem pure (a : α) : Halts rest (pure a) (Before rest) := fun _ hr => .pure hr

theorem bind {next : α → Rule β} (h : Halts rest rule P)
    (hn : ∀ a r', P r' → HaltsAt rest r' (next a) Q) : Halts rest (rule >>= next) Q :=
  fun r hr => (h r hr).bind hn

/-- A rule that stops before the semicolon, and one that goes on there. -/
theorem andThen {next : α → Rule β} (h : Halts rest rule (Before rest))
    (hn : ∀ a, Halts rest (next a) Q) : Halts rest (rule >>= next) Q := h.bind hn

theorem map {f : α → β} (h : Halts rest rule P) : Halts rest (f <$> rule) P := fun r hr => (h r hr).map

/-- What comes behind a rule that always fails does not matter. -/
theorem never {next : α → Rule β} (h : Halts rest rule fun _ => False) : Halts rest (rule >>= next) Q :=
  h.bind fun _ _ hf => hf.elim

theorem fails (h : Halts rest rule fun _ => False) : Halts rest rule Q := by
  rw [← bind_pure rule]
  exact h.never

end Halts

theorem failHere_halts {cause : ParseCause} (h : r.Near rest) :
    HaltsAt rest r (failHere cause : Rule α) P := .current (.throw h)

theorem failExpecting_halts {expected : List String} (h : r.Near rest) :
    HaltsAt rest r (failExpecting expected : Rule α) P := by
  refine .current ?_
  split
  · exact failHere_halts h
  · exact failHere_halts h

/-- A token that is not the semicolon is taken if it stands there. -/
theorem test_halts {test : Token → Bool} {x : Token} (hx : x ≠ .symbol .semicolon)
    (htest : ∀ t, test t = true ↔ t = x) {yes : Located Token → Rule β} {no : Rule β}
    (hyes : ∀ t, Halts rest (yes t) P) (hno : Halts rest no P) :
    Halts rest (check test >>= fun found => if found = true then take >>= yes else no) P := by
  intro r hr
  refine .check ?_
  split
  · next h => exact .take hr.not_end (hyes _ _ (hr.shift ((htest _).1 h ▸ hx)))
  · exact hno r hr

theorem takeSign_halts {sign : Symbol} (hsign : sign ≠ .semicolon) :
    Halts rest (takeSign sign) (Before rest) :=
  test_halts (by simpa) (fun _ => isSymbol_iff) (fun _ => .pure true) (.pure false)

theorem takeWord_halts (word : Keyword) : Halts rest (takeWord word) (Before rest) :=
  test_halts (by simp) (fun _ => isKeyword_iff) (fun _ => .pure true) (.pure false)

theorem expectSign_halts {sign : Symbol} (hsign : sign ≠ .semicolon) :
    Halts rest (expectSign sign) (Before rest) :=
  test_halts (by simpa) (fun _ => isSymbol_iff) (fun t => .pure t.span)
    fun _ hr => failExpecting_halts (.inl hr)

theorem expectWord_halts (word : Keyword) : Halts rest (expectWord word) (Before rest) :=
  test_halts (by simp) (fun _ => isKeyword_iff) (fun t => .pure t.span)
    fun _ hr => failExpecting_halts (.inl hr)

/-- No plain token opens a block. -/
theorem brace_halts : Halts rest (expectSign .leftBrace) fun _ => False := by
  intro r hr
  refine .check ?_
  split
  · next h =>
    have hbrace := isSymbol_iff.1 h
    rcases hr.cases with ⟨hsign, -⟩ | ⟨hplain, -⟩
    · cases hbrace.symm.trans hsign
    · exact (hplain.noBrace hbrace).elim
  · exact failExpecting_halts (.inl hr)

theorem identifier_halts : Halts rest identifier (Before rest) := by
  intro r hr
  refine .current ?_
  split
  · next h => exact .take hr.not_end (.pure (hr.shift (by rw [h]; simp)))
  · exact failHere_halts (.inl hr)
  · exact failHere_halts (.inl hr)

theorem semicolon_halts : Halts rest semicolon (Behind rest) := by
  intro r hr
  refine .check ?_
  split
  · next h =>
    refine .take hr.not_end (.pure ?_)
    rcases hr.cases with ⟨-, hbehind⟩ | ⟨hplain, -⟩
    · exact hbehind
    · exact (hplain.noSemicolon (isSymbol_iff.1 h)).elim
  · refine .get ?_
    split
    · exact .throw (.inl hr)
    · exact .throw (.inl hr)

theorem separated_halts {item : Rule α} (h : Halts rest item (Before rest)) (stop : Symbol) (n : Nat) :
    Halts rest (separated item stop n) (Before rest) := by
  induction n with
  | zero => exact .pure []
  | succ n ih =>
    intro r hr
    refine .check ?_
    split
    · exact .pure hr
    · refine (h r hr).bind fun x r₁ h₁ => (takeSign_halts (by decide) r₁ h₁).bind fun more r₂ h₂ => ?_
      cases more with
      | true => exact (ih r₂ h₂).bind fun _ _ h₃ => .pure h₃
      | false => exact .pure h₂

theorem sequence_halts {item : Rule α} (h : Halts rest item (Before rest)) (n : Nat) :
    Halts rest (sequence item n) (Before rest) := by
  induction n with
  | zero => exact .pure []
  | succ n ih =>
    refine h.andThen fun x => (takeSign_halts (by decide)).andThen fun more r hr => ?_
    cases more with
    | true => exact (ih r hr).bind fun _ _ h₁ => .pure h₁
    | false => exact .pure hr

end Rule

namespace Grammar

open Rule Reader

/-- Expressions end before the semicolon, and statements right behind it. -/
structure Halting (rest : List Token) (g : Grammar) : Prop where
  expression : ∀ bound, Halts rest (g.expression bound) (Before rest)
  statement : Halts rest g.statement (Behind rest)

namespace Halting

variable {rest : List Token} {g : Grammar} (h : g.Halting rest) {r : Reader}

theorem parameterNames (earlier : List String) (n : Nat) :
    Halts rest (parameterNames earlier n) (Before rest) := by
  induction n generalizing earlier with
  | zero => exact .pure []
  | succ n ih =>
    intro r hr
    refine .check ?_
    split
    · exact .pure hr
    · refine .current ((identifier_halts r hr).bind fun name r₁ h₁ => ?_)
      split
      · exact .throw (.inl h₁)
      · refine (takeSign_halts (by decide) r₁ h₁).bind fun more r₂ h₂ => ?_
        cases more with
        | true => exact (ih _ r₂ h₂).bind fun _ _ h₃ => .pure h₃
        | false => exact .pure h₂

theorem parameters : Halts rest g.parameters (Before rest) :=
  (expectSign_halts (by decide)).andThen fun _ => (parameterNames [] _).andThen fun names =>
    (expectSign_halts (by decide)).andThen fun _ => .pure names

theorem block : Halts rest g.block fun _ => False := brace_halts.never

theorem function : Halts rest g.function fun _ => False :=
  (expectWord_halts _).andThen fun _ => identifier_halts.andThen fun _ => parameters.andThen fun _ =>
    block.never

include h

theorem anyExpression : Halts rest g.anyExpression (Before rest) := h.expression .lowest

theorem expressions {close : Symbol} (hclose : close ≠ .semicolon) :
    Halts rest (g.expressions close) (Before rest) :=
  (separated_halts h.anyExpression _ _).andThen fun _ => (expectSign_halts hclose).andThen fun _ => .pure _

omit h in
theorem literal (hr : r.Before rest) (ht : r.current.content ≠ .symbol .semicolon) :
    HaltsAt rest r literal (Before rest) := by
  refine .take hr.not_end ?_
  split
  · exact .pure (hr.shift ht)
  · exact .throw (.inl (hr.shift ht))

theorem prefixed (hr : r.Before rest) (ht : r.current.content ≠ .symbol .semicolon) :
    HaltsAt rest r g.prefixed (Before rest) := by
  refine .take hr.not_end ((h.expression _ _ (hr.shift ht)).bind fun operand r₁ h₁ => ?_)
  dsimp only
  split
  · exact .throw (.inl h₁)
  · exact .pure h₁

theorem nested : Halts rest g.nested (Before rest) :=
  (expectSign_halts (by decide)).andThen fun _ => h.anyExpression.andThen fun _ =>
    (expectSign_halts (by decide)).andThen fun _ => .pure _

theorem list : Halts rest g.list (Before rest) :=
  (expectSign_halts (by decide)).andThen fun _ => (h.expressions (by decide)).andThen fun _ => .pure _

theorem lambda : Halts rest g.lambda (Before rest) :=
  (expectWord_halts _).andThen fun _ => parameters.andThen fun _ =>
    (expectSign_halts (by decide)).andThen fun _ => h.anyExpression.andThen fun _ => .pure _

theorem input : Halts rest g.input (Before rest) := by
  refine (expectWord_halts _).andThen fun _ => (expectSign_halts (by decide)).andThen fun _ r hr => ?_
  have hstop {make : Span → Expr} :
      Halts rest (do return make (← expectSign .rightParen)) (Before rest) :=
    (expectSign_halts (by decide)).andThen fun _ => .pure _
  refine .check ?_
  split
  · exact (Halts.pure none).andThen (fun _ => hstop) r hr
  · exact h.anyExpression.map.andThen (fun _ => hstop) r hr

theorem primary : Halts rest g.primary (Before rest) := by
  intro r hr
  refine .current ?_
  split
  · exact (identifier_halts r hr).bind fun _ _ h₁ => .pure h₁
  iterate 7
    · next hcontent => exact literal hr (by rw [hcontent]; simp)
  iterate 5
    · next hcontent => exact (h.prefixed hr (by rw [hcontent]; simp)).bind fun _ _ h₁ => .pure h₁
  · exact h.nested r hr
  · exact h.list r hr
  · exact brace_halts.never r hr
  · exact h.input r hr
  · exact h.lambda r hr
  · exact failHere_halts (.inl hr)
  · exact failHere_halts (.inl hr)

theorem assignment (op : Option ComputeOp) (left : Expr) (hr : r.Before rest)
    (ht : r.current.content ≠ .symbol .semicolon) :
    HaltsAt rest r (g.assignment op left) (Before rest) := by
  cases left with
  | identifier target =>
    exact .take hr.not_end ((h.expression _ _ (hr.shift ht)).bind fun _ _ h₁ => .pure h₁)
  | _ => exact .current (.throw (.inl hr))

theorem binary (op : BinaryOp) (left : Expr) (hr : r.Before rest)
    (ht : r.current.content ≠ .symbol .semicolon) : HaltsAt rest r (g.binary op left) (Before rest) :=
  .take hr.not_end ((h.expression _ _ (hr.shift ht)).bind fun _ _ h₁ => .pure h₁)

theorem ternary (condition : Expr) : Halts rest (g.ternary condition) (Before rest) :=
  (expectSign_halts (by decide)).andThen fun _ => h.anyExpression.andThen fun _ =>
    (expectSign_halts (by decide)).andThen fun _ => (h.expression _).andThen fun _ => .pure _

theorem call (callee : Expr) : Halts rest (g.call callee) (Before rest) :=
  (expectSign_halts (by decide)).andThen fun _ => (h.expressions (by decide)).andThen fun _ => .pure _

theorem index (object : Expr) : Halts rest (g.index object) (Before rest) :=
  (expectSign_halts (by decide)).andThen fun _ => h.anyExpression.andThen fun _ =>
    (expectSign_halts (by decide)).andThen fun _ => .pure _

omit h in
theorem member (object : Expr) : Halts rest (member object) (Before rest) :=
  (expectSign_halts (by decide)).andThen fun _ r hr =>
    (identifier_halts r hr).attempt (fun _ _ h₁ => .pure h₁) fun _ _ hnear => .throw hnear

theorem extend (bound : Precedence) (n : Nat) (left : Expr) :
    Halts rest (g.extend bound n left) (Before rest) := by
  induction n generalizing left with
  | zero => exact .pure left
  | succ n ih =>
    intro r hr
    refine .current ?_
    split
    · split
      · next hcontent => exact (h.assignment _ left hr (by rw [hcontent]; simp)).bind fun e => ih e
      · next hcontent => exact (h.binary _ left hr (by rw [hcontent]; simp)).bind fun e => ih e
      · exact (h.ternary left).andThen ih r hr
      · exact (h.call left).andThen ih r hr
      · exact (h.index left).andThen ih r hr
      · exact (member left).andThen ih r hr
      · exact .pure hr
    · exact .pure hr

theorem expressionRule (bound : Precedence) : Halts rest (g.expressionRule bound) (Before rest) :=
  h.primary.andThen fun left => h.extend bound _ left

omit h in
/-- The semicolon at the end of a statement. -/
theorem ending {α : Type} (make : Span → α) : Halts rest (do return make (← semicolon)) (Behind rest) :=
  semicolon_halts.bind fun _ _ hr => .pure hr

theorem expressionStatement : Halts rest g.expressionStatement (Behind rest) :=
  h.anyExpression.andThen fun _ => ending _

theorem binding (kind : DeclarationKind) : Halts rest (g.binding kind) (Before rest) := by
  refine identifier_halts.andThen fun name => (takeSign_halts (by decide)).andThen fun found r hr => ?_
  cases found with
  | true => exact (h.anyExpression r hr).bind fun _ _ h₁ => .pure h₁
  | false =>
    show HaltsAt rest r (if kind.isConstant = true then _ else _) _
    split
    · exact failHere_halts (.inl hr)
    · exact .pure hr

theorem declaration (hr : r.Before rest) (ht : r.current.content ≠ .symbol .semicolon) :
    HaltsAt rest r g.declaration (Behind rest) := by
  refine .take hr.not_end ?_
  split
  · exact (sequence_halts (h.binding _) _).andThen (fun _ => ending _) _ (hr.shift ht)
  · exact .throw (.inl (hr.shift ht))

omit h in
theorem class_ : Halts rest g.class_ fun _ => False := by
  refine (expectWord_halts _).andThen fun _ => identifier_halts.andThen fun _ =>
    (takeWord_halts _).andThen fun found r hr => ?_
  cases found with
  | true => exact identifier_halts.map.andThen (fun _ => brace_halts.never) r hr
  | false => exact (Halts.pure none).andThen (fun _ => brace_halts.never) r hr

theorem bracketed : Halts rest g.bracketed (Before rest) :=
  (expectSign_halts (by decide)).andThen fun _ => h.anyExpression.andThen fun e =>
    (expectSign_halts (by decide)).andThen fun _ => .pure e

/-- What is behind the semicolon does not belong to the conditional. -/
theorem conditional (hrest : rest.head? ≠ some (.keyword .else_)) :
    Halts rest g.conditional (Behind rest) := by
  refine (expectWord_halts _).andThen fun _ => h.bracketed.andThen fun _ =>
    h.statement.bind fun _ r hr => ?_
  have hword : takeWord .else_ r = .ok false r := by
    have hmissed : r.current.content.isKeyword .else_ = false := by
      rw [← r.tokens_headD, hr]
      exact isKeyword_headD hrest
    show (if r.current.content.isKeyword .else_ = true then _ else Pure.pure false : Rule Bool) r = _
    rw [hmissed]
    rfl
  unfold HaltsAt
  simp only [Bind.bind, EStateM.bind, hword]
  exact HaltsAt.pure hr

theorem whileLoop : Halts rest g.whileLoop (Behind rest) :=
  (expectWord_halts _).andThen fun _ => h.bracketed.andThen fun _ => h.statement.bind fun _ _ hr => .pure hr

theorem switch : Halts rest g.switch fun _ => False :=
  (expectWord_halts _).andThen fun _ => h.bracketed.andThen fun _ => brace_halts.never

theorem return_ : Halts rest g.return_ (Behind rest) := by
  refine (expectWord_halts _).andThen fun _ r hr => ?_
  refine .check ?_
  split
  · exact (Halts.pure none).andThen (fun _ => ending _) r hr
  · exact h.anyExpression.map.andThen (fun _ => ending _) r hr

omit h in
theorem single (word : Keyword) (make : Span → Stmt) : Halts rest (single word make) (Behind rest) :=
  (expectWord_halts _).andThen fun _ => ending _

theorem throw_ : Halts rest g.throw_ (Behind rest) :=
  (expectWord_halts _).andThen fun _ => h.anyExpression.andThen fun _ => ending _

omit h in
theorem try_ : Halts rest g.try_ fun _ => False :=
  (expectWord_halts _).andThen fun _ => block.never

omit h in
/-- The only rule that takes the semicolon and fails then: it takes whatever stands where the name of a
module has to stand. -/
theorem import_ : Halts rest import_ (Behind rest) := by
  refine (expectWord_halts _).andThen fun _ r hr => .take hr.not_end ?_
  rcases hr.cases with ⟨hsign, hbehind⟩ | ⟨-, hbefore⟩
  · rw [hsign]
    exact .throw (.inr hbehind)
  · split
    · exact ending _ _ hbefore
    · exact .throw (.inl hbefore)

theorem print : Halts rest g.print (Behind rest) :=
  (expectWord_halts _).andThen fun _ => (expectSign_halts (by decide)).andThen fun _ =>
    (h.expressions (by decide)).andThen fun _ => ending _

theorem statementRule (hrest : rest.head? ≠ some (.keyword .else_)) :
    Halts rest g.statementRule (Behind rest) := by
  intro r hr
  refine .current ?_
  split
  iterate 5
    · next hcontent => exact (h.declaration hr (by rw [hcontent]; simp)).bind fun _ _ h₁ => .pure h₁
  · exact function.never r hr
  · exact class_.fails r hr
  · exact block.never r hr
  · exact h.conditional hrest r hr
  · exact h.whileLoop r hr
  · next hcontent =>
    rcases hr.cases with ⟨hsign, -⟩ | ⟨hplain, -⟩
    · cases hcontent.symm.trans hsign
    · exact (hplain.noLoop hcontent).elim
  · exact h.switch.fails r hr
  · exact h.return_ r hr
  · exact single _ _ r hr
  · exact single _ _ r hr
  · exact h.throw_ r hr
  · exact try_.fails r hr
  · exact import_ r hr
  · exact h.print r hr
  · exact single _ _ r hr
  · exact (h.expressionStatement r hr).bind fun (e, span) _ h₁ => .pure h₁

end Halting

/-- No token that continues a statement stands behind the semicolon. -/
theorem halting_upTo {rest : List Token} (hrest : rest.head? ≠ some (.keyword .else_))
    (limit depth : Nat) : (upTo limit depth).Halting rest := by
  induction depth with
  | zero => exact ⟨fun _ _ hr => failHere_halts (.inl hr), fun _ hr => failHere_halts (.inl hr)⟩
  | succ depth ih => exact ⟨ih.expressionRule, ih.statementRule hrest⟩

end Grammar

end Scriptlet
