import Scriptlet.Proofs.Syntax.Soundness
import Scriptlet.Proofs.Syntax.Stopping

/-! Expressions of a source that is cut off. Where the whole is read without errors, a rule for expressions
does the same on the source that is cut off, or reads an expression that ends with it, or fails at its end;
one that ends with it while the whole goes on is no name on the whole. -/
namespace Scriptlet

open Rule Reader

def Rule.Makes (rule : Rule Expr) : Prop :=
  ∀ r e r₁, rule r = .ok e r₁ → e.isIdentifier = false

theorem Rule.Makes.bind {α : Type} {rule : Rule α} {next : α → Rule Expr} (hn : ∀ a, Makes (next a)) :
    Makes (rule >>= next) := by
  intro r e r₁ h
  obtain ⟨a, r₂, -, hnext⟩ := ok_of_bind h
  exact hn a _ _ _ hnext

theorem Rule.Makes.pure {e : Expr} (h : e.isIdentifier = false) : Makes (Pure.pure e) := by
  rintro r _ _ ⟨⟩
  exact h

/-- Where the whole goes on with an expression that is at its end in the source, it yields no name. -/
def NoName (_ e' : Expr) : Prop := e'.isIdentifier = false

theorem Prefixed.expr_isIdentifier (p : Prefixed) : p.expr.isIdentifier = false := by
  unfold expr
  split <;> rfl

namespace Grammar

/-- How the expressions inside a phrase end with the source. -/
structure FollowsExpressions (k : Cut) (g : Grammar) : Prop where
  sound : g.Sound
  expression : ∀ bound, Follows k g.limit Anywhere (g.expression bound) NoName (Stop k.next.content)
  needs : ∀ bound, Needs (g.expression bound)

namespace FollowsExpressions

variable {k : Cut} {g : Grammar} (h : g.FollowsExpressions k)
include h

theorem anyExpression : Follows k g.limit Anywhere g.anyExpression NoName
    (Stop k.next.content) := h.expression .lowest

theorem anyExpression_needs : Needs g.anyExpression := h.needs .lowest

theorem expressions (close : Symbol) :
    Follows k g.limit Anywhere (g.expressions close) (fun _ _ => False) (Stop k.next.content) := by
  refine (separated_follows h.anyExpression (fun _ ts _ => Stop.afterComma ts)
    (fun _ => h.anyExpression_needs.fails (.ended [])) g.limit).andThen_needs (fun items => ?_) fun items => ?_
  · exact (expectSign_follows close).yield fun _ _ hd => hd
  · exact (expectSign_needs close).bind _

omit h in
theorem literal : Follows k g.limit Inside literal NoName (Stop k.next.content) := by
  refine Follows.take.andThen_must fun token => ?_
  split
  · exact .pure _
  · exact .throw _

theorem prefixed : Follows k g.limit Inside g.prefixed (fun _ _ => True) (Stop k.next.content) := by
  refine Follows.take.andThen_must fun operator => (h.expression .prefixed).andThen (fun operand => ?_) ?_
  · dsimp only
    split
    · exact .throw _
    · exact .pure _
  · -- the whole has no name here, so its operator does not step one
    intro operand operand' hd r r' a' r₁' _ hrule'
    replace hd : operand'.isIdentifier = false := hd
    dsimp only at hrule' ⊢
    rw [hd] at hrule'
    split at hrule'
    · cases hrule'
    · next hchanges =>
      have hkeeps :
          (operator.content.isSymbol .plusPlus || operator.content.isSymbol .minusMinus) = false := by
        simpa using hchanges
      rw [hkeeps]
      exact .inl ⟨_, rfl, trivial⟩

theorem nested : Follows k g.limit Anywhere g.nested (fun _ _ => False) (Stop k.next.content) :=
  (expectSign_follows .leftParen).andThen_must fun _ => h.anyExpression.andThen_needs
    (fun _ => (expectSign_follows .rightParen).yield fun _ _ hd => hd)
    fun _ => (expectSign_needs .rightParen).bind _

theorem list : Follows k g.limit Anywhere g.list (fun _ _ => False) (Stop k.next.content) :=
  (expectSign_follows .leftBracket).andThen_must fun _ =>
    (h.expressions .rightBracket).yield fun _ _ hd => hd

/-- What stops an entry: an error inside it, or one at the place of its key. -/
def StopsEntry (next : Token) (c : ParseCause) (us : List Token) : Prop :=
  Stop next c us ∨
    us = [] ∧ c = .invalidMapKey ∧ (next.name?.isSome = true ∨ next = .symbol .rightBrace)

omit h in
theorem StopsEntry.after {next : Token} {c : ParseCause} {us : List Token} (h : StopsEntry next c us)
    (ts : List Token) {s : Symbol} (hs : s = .leftBrace ∨ s = .comma) :
    Stop next c (ts ++ .symbol s :: us) := by
  rcases h with hstop | ⟨rfl, rfl, hnext⟩
  · rw [List.append_cons]
    exact hstop.after _
  · exact .key ts hs hnext

omit h in
theorem entry_fails : Fails k g.entry (· = .invalidMapKey) := by
  refine take_fails (e := fun t => ⟨.invalidMapKey, t.span, t.position⟩) (fun t ht => ?_) fun _ _ => rfl
  rw [ht]

theorem entry : Follows k g.limit Anywhere g.entry (fun _ _ => True) (StopsEntry k.next.content) := by
  have hinside : Follows k g.limit Inside g.entry (fun _ _ => True) (Stop k.next.content) := by
    refine Follows.take.andThen_must fun key => ?_
    split
    · exact (expectSign_follows .colon).andThen_must fun _ => h.anyExpression.yield fun _ _ _ => trivial
    · exact .throw _
  refine (hinside.mono (fun _ _ hd => hd) fun _ _ => .inl).split ?_
  intro r r' a' r₁' hr habreast hrule'
  obtain ⟨e, r₁, hrule, hr₁, he⟩ := entry_fails (g := g) r hr
  refine .failed hrule (hr₁.blames e) (.inr ⟨hr.tokens, he, .inl ?_⟩)
  rw [← habreast.current_next hr.ended]
  obtain ⟨key, r₂, htake, hnext⟩ := ok_of_bind hrule'
  obtain ⟨rfl, rfl⟩ : r'.current = key ∧ r'.shift = r₂ := by
    cases htake
    exact ⟨rfl, rfl⟩
  cases hname : r'.current.content.name? with
  | some name => rfl
  | none =>
    simp only [hname] at hnext
    cases hnext

omit h in
instance (next : Token) : Ends next (StopsEntry next) := ⟨.inl⟩

theorem map : Follows k g.limit Anywhere g.map (fun _ _ => False) (Stop k.next.content) := by
  refine (expectSign_follows .leftBrace).bind_must (expectSign_takes _) fun start => ?_
  have hentries : Follows k g.limit Anywhere (separated g.entry .rightBrace g.limit) (fun _ _ => True)
      (StopsEntry k.next.content) := by
    refine separated_follows h.entry (fun c ts us he => .inl (he.after ts (.inr rfl)))
      (fun hnext r hr => ?_) g.limit
    obtain ⟨e, r₁, hrule, hr₁, he⟩ := entry_fails (g := g) r hr
    exact ⟨e, r₁, hrule, hr₁, .inr ⟨rfl, he, .inr hnext⟩⟩
  refine (hentries.andThen_needs (fun entries => ?_) fun entries => ?_).mono (fun _ _ hd => hd) ?_
  · exact (expectSign_follows .rightBrace).yield fun _ _ hd => hd
  · exact (expectSign_needs .rightBrace).bind _
  · rintro c us hus _ rfl
    exact hus.after [] (.inl rfl)

omit h in
theorem parameterNames (n : Nat) (earlier : List String) :
    Follows k g.limit Anywhere (parameterNames earlier n) (fun _ _ => True) (Stop k.next.content) := by
  induction n generalizing earlier with
  | zero => exact .pure []
  | succ n ih =>
    refine .test rfl (.pure []) ?_ fun _ => ?_
    · refine .current ?_ fun here => ?_
      · exact fun r hend => (identifier_needs.bind _) r hend
      refine (identifier_follows.andThen_must fun name => ?_).weaken
      split
      · exact .throw _
      · refine (takeSign_follows .comma).andThen (fun more => ?_) ?_
        · cases more with
          | true => exact (ih _).yield fun _ _ _ => trivial
          | false => exact .pure _
        · rintro _ _ ⟨rfl, rfl, -⟩
          exact .pure fun _ => trivial
    · refine Needs.rests (fun r hend => ?_) (.ended [])
      exact (identifier_needs.bind _) r hend

omit h in
theorem parameters : Follows k g.limit Anywhere g.parameters (fun _ _ => False) (Stop k.next.content) :=
  (expectSign_follows .leftParen).andThen_must fun _ => (parameterNames g.limit []).andThen_needs
    (fun _ => (expectSign_follows .rightParen).yield fun _ _ hd => hd)
    fun _ => (expectSign_needs .rightParen).bind _

theorem lambda : Follows k g.limit Anywhere g.lambda NoName (Stop k.next.content) :=
  (expectWord_follows .lambda).andThen_must fun _ => parameters.andThen_must fun _ =>
    (expectSign_follows .fatArrow).andThen_must fun _ => h.anyExpression.yield fun _ _ _ => rfl

/-- An expression that stands there unless a sign follows that would stand behind it. -/
theorem maybe {α : Type} {sign : Symbol} {next : Option Expr → Rule α} {D : α → α → Prop}
    {E : ParseCause → List Token → Prop} [Ends k.next.content E]
    (hn : ∀ p, Follows k g.limit Anywhere (next p) D
      (Under E fun ts _ => Maybe Expr.Yields p ts ∧ ∀ e ∈ p, e.Canonical))
    (hi : ∀ p ts, Maybe Expr.Yields p ts ∧ (∀ e ∈ p, e.Canonical) → Fails k (next p) fun c => E c ts) :
    Follows k g.limit Anywhere (do
      if ← isSign sign then pure none >>= next else some <$> g.anyExpression >>= next) D E := by
  have hsome : Takes g.limit (some <$> g.anyExpression) fun p ts _ =>
      Maybe Expr.Yields p ts ∧ ∀ e ∈ p, e.Canonical := by
    intro r
    refine TakesAt.map ((h.sound.anyExpression r).mono fun e ts _ he => ⟨.some he.1, ?_⟩)
    rintro _ ⟨⟩
    exact he.2.1
  refine .test rfl ?_ ?_ fun _ => ((h.anyExpression_needs.map some).bind _).ends []
  · refine ((hn none).mono (fun _ _ hd => hd) fun c us he => ?_).weaken
    exact he [] ⟨.none, by simp⟩
  · have hfollows : Follows k g.limit Anywhere (some <$> g.anyExpression) (fun _ _ => True) E :=
      (h.anyExpression.map fun _ _ _ => trivial).lift
    exact hfollows.bind hsome hn fun p _ ts _ hp => (hi p ts hp).rests

theorem input : Follows k g.limit Anywhere g.input (fun _ _ => False) (Stop k.next.content) := by
  refine (expectWord_follows .input).andThen_must fun start =>
    (expectSign_follows .leftParen).andThen_must fun _ => h.maybe (fun prompt => ?_) fun prompt ts _ => ?_
  · exact (expectSign_follows .rightParen).yield fun _ _ hd => hd
  · exact ((expectSign_needs .rightParen).bind _).fails (.ended ts)

omit h in
theorem primary_needs : Needs g.primary := by
  intro r hend
  refine ⟨⟨.unexpectedEnd, r.current.span, r.current.position⟩, ?_, rfl⟩
  unfold Grammar.primary
  rw [current_bind, eq_end hend]
  rfl

theorem primary : Follows k g.limit Anywhere g.primary NoName (Stop k.next.content) := by
  refine .current primary_needs fun here => ?_
  split
  · exact (identifier_follows.yield fun _ _ => False.elim).weaken
  iterate 7 exact literal
  iterate 5 exact h.prefixed.yield fun _ p _ => p.expr_isIdentifier
  · exact (h.nested.mono (fun _ _ => False.elim) fun _ _ hs => hs).weaken
  · exact (h.list.mono (fun _ _ => False.elim) fun _ _ hs => hs).weaken
  · exact (h.map.mono (fun _ _ => False.elim) fun _ _ hs => hs).weaken
  · exact (h.input.mono (fun _ _ => False.elim) fun _ _ hs => hs).weaken
  · exact h.lambda.weaken
  · exact failHere_follows _
  · exact failHere_follows _

theorem assignment (op : Option ComputeOp) (left : Expr) : Follows k g.limit Inside (g.assignment op left)
    NoName (Stop k.next.content) := by
  cases left with
  | identifier target =>
    exact Follows.take.andThen_must fun _ => (h.expression .lowest).yield fun _ _ _ => rfl
  | _ => exact .look fun here => .throw _

theorem binary (op : BinaryOp) (left : Expr) : Follows k g.limit Inside (g.binary op left)
    NoName (Stop k.next.content) :=
  Follows.take.andThen_must fun _ => (h.expression _).yield fun _ _ _ => rfl

theorem ternary (left : Expr) : Follows k g.limit Anywhere (g.ternary left) NoName (Stop k.next.content) :=
  (expectSign_follows .question).andThen_must fun _ => h.anyExpression.andThen_needs
    (fun _ => (expectSign_follows .colon).andThen_must fun _ =>
      (h.expression _).yield fun _ _ _ => rfl)
    fun _ => (expectSign_needs .colon).bind _

theorem call (left : Expr) : Follows k g.limit Anywhere (g.call left) NoName (Stop k.next.content) :=
  (expectSign_follows .leftParen).andThen_must fun _ =>
    (h.expressions .rightParen).yield fun _ _ => False.elim

theorem index (left : Expr) : Follows k g.limit Anywhere (g.index left) NoName (Stop k.next.content) :=
  (expectSign_follows .leftBracket).andThen_must fun _ => h.anyExpression.andThen_needs
    (fun _ => (expectSign_follows .rightBracket).yield fun _ _ => False.elim)
    fun _ => (expectSign_needs .rightBracket).bind _

omit h in
theorem member (left : Expr) : Follows k g.limit Anywhere (member left) NoName (Stop k.next.content) := by
  refine (expectSign_follows .dot).bind_must (expectSign_takes _) fun _ => ?_
  refine (Follows.single (f := fun t => (identifier? t).map fun name =>
    .member left name (left.span.merge name.span)) ?_ ?_ ?_).mono (fun _ _ => False.elim) ?_
    (E := fun c us => c = .expectedMember ∧ us = [])
  · intro r e he
    obtain ⟨name, hname, rfl⟩ := Option.map_eq_some_iff.1 he
    exact bind_of_ok (attempt_of_ok (identifier_of_some hname))
  · intro r he
    obtain ⟨e, hrule⟩ := identifier_of_none (Option.map_eq_none_iff.1 he)
    exact ⟨_, bind_of_ok (attempt_of_error hrule)⟩
  · intro _ r hend
    obtain ⟨e, hrule, -⟩ := identifier_needs r hend
    exact ⟨_, bind_of_ok (attempt_of_error hrule), rfl, rfl⟩
  · rintro _ _ ⟨rfl, rfl⟩ _ rfl
    exact .member []

omit h in
theorem assignment_makes (op : Option ComputeOp) (left : Expr) : Makes (g.assignment op left) := by
  cases left with
  | identifier target => exact .bind fun _ => .bind fun _ => .pure rfl
  | _ => rintro r _ _ ⟨⟩

omit h in
theorem member_makes (left : Expr) : Makes (Grammar.member left) := by
  refine .bind fun _ => .bind fun name => ?_
  cases name with
  | error e => rintro r _ _ ⟨⟩
  | ok name => exact .pure rfl

/-- The rule yields what it was given and takes nothing, or it yields no name. -/
def Keeps (left : Expr) (rule : Rule Expr) : Prop :=
  ∀ r e r₁, rule r = .ok e r₁ → e = left ∧ r₁ = r ∨ e.isIdentifier = false

omit h in
theorem Keeps.look {left : Expr} {next : Located Token → Rule Expr} (hn : ∀ t, Keeps left (next t)) :
    Keeps left (current >>= next) := fun r => hn r.current r

omit h in
theorem extend_keeps (bound : Precedence) (n : Nat) (left : Expr) : Keeps left (g.extend bound n left) := by
  induction n generalizing left with
  | zero =>
    rintro r _ _ ⟨⟩
    exact .inl ⟨rfl, rfl⟩
  | succ n ih =>
    have hround : ∀ {rule : Rule Expr}, Makes rule → Keeps left (rule >>= g.extend bound n) := by
      intro rule hmakes r e r₁ hbind
      obtain ⟨e₁, r₂, hfirst, hrest⟩ := ok_of_bind hbind
      rcases ih e₁ _ _ _ hrest with ⟨rfl, -⟩ | hnone
      · exact .inr (hmakes _ _ _ hfirst)
      · exact .inr hnone
    have hstay : Keeps left (pure left) := by
      rintro r _ _ ⟨⟩
      exact .inl ⟨rfl, rfl⟩
    refine Keeps.look fun here => ?_
    split
    · split
      · exact hround (assignment_makes _ left)
      · exact hround (.bind fun _ => .bind fun _ => .pure rfl)
      · exact hround (.bind fun _ => .bind fun _ => .bind fun _ => .bind fun _ => .pure rfl)
      · exact hround (.bind fun _ => .bind fun _ => .pure rfl)
      · exact hround (.bind fun _ => .bind fun _ => .bind fun _ => .pure rfl)
      · exact hround (member_makes left)
      · exact hstay
    · exact hstay

omit h in
/-- At the end of a source no operator follows. -/
theorem extend_of_end (bound : Precedence) (n : Nat) (left : Expr) {r : Reader}
    (hend : r.current.content.isEnd = true) : g.extend bound n left r = .ok left r := by
  cases n with
  | zero => rfl
  | succ n =>
    have hlowest : ¬bound < Token.precedence .endOfFile := Nat.not_lt_zero _
    unfold Grammar.extend
    rw [current_bind, eq_end hend, if_neg hlowest]
    rfl

omit h in
theorem extend_rests (bound : Precedence) (n : Nat) (e : Expr) {e' : Expr} (hnone : e'.isIdentifier = false) :
    Rests k (g.extend bound n e) (g.extend bound n e') NoName (· = .unexpectedEnd) := by
  intro r r' x' r₁' hr hrule'
  refine .inl ⟨e, extend_of_end bound n e hr.ended, ?_⟩
  rcases extend_keeps bound n e' _ _ _ hrule' with ⟨rfl, -⟩ | hnone'
  · exact hnone
  · exact hnone'

omit h in
/-- One round of the loop, and the rounds after it. -/
theorem extend_round {bound : Precedence} {n : Nat} {rule : Rule Expr}
    (hrule : Follows k g.limit Inside rule NoName (Stop k.next.content))
    (ih : ∀ e, Follows k g.limit Anywhere (g.extend bound n e) NoName (Stop k.next.content)) :
    Follows k g.limit Inside (rule >>= g.extend bound n) NoName
      (Stop k.next.content) := hrule.andThen ih fun e _ => extend_rests bound n e

theorem extend (bound : Precedence) (n : Nat) (left : Expr) : Follows k g.limit Anywhere
    (g.extend bound n left) NoName (Stop k.next.content) := by
  induction n generalizing left with
  | zero => exact .pure left
  | succ n ih =>
    refine Follows.split (.look fun here => ?_) ?_
    · split
      · split
        · exact extend_round (h.assignment _ left) ih
        · exact extend_round (h.binary _ left) ih
        · exact extend_round (h.ternary left).weaken ih
        · exact extend_round (h.call left).weaken ih
        · exact extend_round (h.index left).weaken ih
        · exact extend_round (member left).weaken ih
        · exact .pure left
      · exact .pure left
    · intro r r' e' r₁' hr habreast hrule'
      have hrule := extend_of_end (g := g) bound (n + 1) left hr.ended
      rcases extend_keeps bound (n + 1) left _ _ _ hrule' with ⟨rfl, rfl⟩ | hnone
      · exact .abreast hrule (List.nil_append _).symm habreast
      · exact .done hrule hr hnone

theorem expressionRule (bound : Precedence) : Follows k g.limit Anywhere (g.expressionRule bound)
    NoName (Stop k.next.content) :=
  h.primary.andThen (h.extend bound g.limit) fun e _ => extend_rests bound g.limit e

omit h in
theorem expressionRule_needs (bound : Precedence) : Needs (g.expressionRule bound) := primary_needs.bind _

end FollowsExpressions

end Grammar

end Scriptlet
