import Scriptlet.Proofs.Syntax.Lookahead
import Scriptlet.Proofs.Syntax.Taking

/-! Whatever the rules of the grammar read without an error being noted is a canonical tree that is written
with the tokens they took. -/
namespace Scriptlet

open Rule

/-- What is known of an expression that a rule for operators tighter than `bound` has read. -/
structure Expr.ReadAs (bound : Nat) (e : Expr) (ts rest : List Token) : Prop where
  yields : e.Yields ts
  canonical : e.Canonical
  fits : bound < e.level
  stops : pull rest ≤ bound
  reach : pull rest ≤ e.reach

/-- What is known of an expression that the rule for what opens expressions has read. -/
structure Expr.OpenedAs (e : Expr) (ts rest : List Token) : Prop where
  yields : e.Yields ts
  canonical : e.Canonical
  level : e.level = Precedence.call.rank
  reach : pull rest ≤ e.reach

structure Stmt.ReadAs (s : Stmt) (ts rest : List Token) : Prop where
  yields : s.Yields ts
  canonical : s.Canonical
  dangling : s.isDangling = true → rest.head? ≠ some (.keyword .else_)

namespace Grammar

/-- The grammar reads canonical trees that are written with the tokens taken. -/
structure Sound (g : Grammar) : Prop where
  expression : ∀ bound, bound < .call →
    Takes g.limit (g.expression bound) fun e ts rest => e.ReadAs bound.rank ts rest
  statement : Takes g.limit g.statement fun s ts rest => s.ReadAs ts rest

namespace Sound

variable {g : Grammar} (h : g.Sound)
include h

theorem anyExpression :
    Takes g.limit g.anyExpression fun e ts rest => e.Yields ts ∧ e.Canonical ∧ pull rest = 0 :=
  (h.expression .lowest (by decide)).mono fun _ _ _ he => ⟨he.yields, he.canonical, Nat.le_zero.1 he.stops⟩

theorem expressions (close : Symbol) :
    Takes g.limit (g.expressions close) fun (es, _) ts _ =>
      ∃ us, ts = us ++ [.symbol close] ∧ Listed Expr.Yields es us ∧ ∀ e ∈ es, e.Canonical := by
  have hitem : Takes g.limit g.anyExpression fun e ts _ => e.Yields ts ∧ e.Canonical :=
    h.anyExpression.mono fun _ _ _ he => ⟨he.1, he.2.1⟩
  refine (separated_takes hitem close).bind fun es => (expectSign_takes close).bind fun stop => .pure ?_
  rintro rest cs rfl ts hts
  obtain ⟨hy, hc⟩ := hts.split
  exact ⟨ts, rfl, hy, hc⟩

omit h in
theorem literal : Takes g.limit literal fun e ts rest => e.OpenedAs ts rest := by
  refine Takes.take.bind fun t => ?_
  split
  · next value hv =>
    refine .pure ?_
    rintro rest ts hts
    rw [hts (not_end_of_some rfl hv)]
    exact ⟨.literal _ hv, .literal _ _, rfl, pull_le_call _⟩
  · exact fun r => .throw _

theorem nested : Takes g.limit g.nested fun e ts rest => e.OpenedAs ts rest := by
  refine (expectSign_takes _).bind fun start => h.anyExpression.bind fun e =>
    (expectSign_takes _).bind fun stop => .pure ?_
  rintro rest _ rfl ts ⟨hy, hc, -⟩ _ rfl
  exact ⟨.nested _ hy, .nested _ hc, rfl, pull_le_call _⟩

theorem list : Takes g.limit g.list fun e ts rest => e.OpenedAs ts rest := by
  refine (expectSign_takes _).bind fun start => (h.expressions _).bind fun (es, stop) => .pure ?_
  rintro rest _ ⟨ts, rfl, hy, hc⟩ _ rfl
  refine ⟨?_, .list _ hc, rfl, pull_le_call _⟩
  simpa using Expr.Yields.list _ hy

theorem entry :
    Takes g.limit g.entry fun e ts _ => e.Yields ts ∧ e.value.Canonical := by
  refine Takes.take.bind fun key => ?_
  split
  · next name hname =>
    refine (expectSign_takes _).bind fun _ => h.anyExpression.bind fun value => .pure ?_
    rintro rest ts ⟨hy, hc, -⟩ _ rfl ks hks
    rw [hks (not_end_of_some rfl hname)]
    refine ⟨?_, hc⟩
    simpa using Entry.Yields.mk _ hname hy
  · exact fun r => .throw _

theorem map : Takes g.limit g.map fun e ts rest => e.OpenedAs ts rest := by
  refine (expectSign_takes _).bind fun start => (separated_takes h.entry _).bind fun es =>
    (expectSign_takes _).bind fun stop => .pure ?_
  rintro rest _ rfl ts hts _ rfl
  obtain ⟨hy, hc⟩ := hts.split
  exact ⟨.map _ hy, .map _ hc, rfl, pull_le_call _⟩

omit h in
theorem parameterNames (n : Nat) (earlier : List String) :
    Takes g.limit (parameterNames earlier n) fun ps ts rest => (ts ++ rest).length < n →
      Listed Identifier.Yields ps ts ∧ (∀ p ∈ ps, p.name ∉ earlier) ∧ Distinct ps := by
  induction n generalizing earlier with
  | zero => exact .pure fun rest hn => (Nat.not_lt_zero _ hn).elim
  | succ n ih =>
    intro r
    refine .check ?_
    split
    · exact .pure fun _ => ⟨.nil, by simp, List.nodup_nil⟩
    · refine .current ((identifier_takes r).bind fun id => ?_)
      split
      · exact fun r => .throw _
      · next hnew =>
        refine (takeSign_takes .comma).bind fun more => ?_
        cases more with
        | true =>
          refine (ih (id.name :: earlier)).bind fun ps => .pure ?_
          rintro rest us hus cs hcs ts hts hlength
          obtain ⟨-, rfl⟩ : true = true ∧ cs = [.symbol .comma] := by simpa using hcs
          have hlength' : (us ++ ([] ++ rest)).length < n := by
            simp only [List.length_append, List.length_cons, List.length_nil] at hlength ⊢
            omega
          obtain ⟨hy, hearlier, hdistinct⟩ := hus hlength'
          refine ⟨?_, ?_, ?_⟩
          · simpa using Listed.more hts hy
          · refine List.forall_mem_cons.2 ⟨hnew, fun p hp => ?_⟩
            exact fun hm => hearlier p hp (List.mem_cons_of_mem _ hm)
          · refine List.nodup_cons.2 ⟨?_, hdistinct⟩
            rintro hm
            obtain ⟨p, hp, hname⟩ := List.mem_map.1 hm
            exact hearlier p hp (by rw [hname]; exact List.mem_cons_self)
        | false =>
          refine .pure ?_
          rintro rest cs hcs ts hts hlength
          obtain ⟨rfl, -⟩ : cs = [] ∧ _ := by simpa using hcs
          refine ⟨?_, by simpa using hnew, List.nodup_cons.2 ⟨by simp, List.nodup_nil⟩⟩
          simpa using Listed.last hts

omit h in
theorem parameters : Takes g.limit g.parameters fun ps ts _ =>
    ∃ us, ts = .symbol .leftParen :: (us ++ [.symbol .rightParen]) ∧
      Listed Identifier.Yields ps us ∧ Distinct ps := by
  have hnames : Takes g.limit (Grammar.parameterNames [] g.limit) fun ps ts _ =>
      Listed Identifier.Yields ps ts ∧ Distinct ps :=
    fun r => ((parameterNames g.limit [] r).mono fun _ _ _ hp hl => ⟨(hp hl).1, (hp hl).2.2⟩).short
  refine (expectSign_takes _).bind fun _ => hnames.bind fun ps => (expectSign_takes _).bind fun _ =>
    .pure ?_
  rintro rest _ rfl ts ⟨hy, hd⟩ _ rfl
  exact ⟨ts, rfl, hy, hd⟩

theorem lambda : Takes g.limit g.lambda fun e ts rest => e.OpenedAs ts rest := by
  refine (expectWord_takes _).bind fun start => parameters.bind fun ps =>
    (expectSign_takes _).bind fun _ => h.anyExpression.bind fun e => .pure ?_
  rintro rest ts ⟨hy, hc, hpull⟩ _ rfl _ ⟨us, rfl, hps, hd⟩ _ rfl
  refine ⟨?_, .lambda _ hd hc, rfl, Nat.le_of_eq hpull⟩
  simpa using Expr.Yields.lambda _ hps hy

/-- An expression that stands there unless a test finds what would follow it. -/
theorem maybe {α : Type} {test : Bool} {next : Option Expr → Rule α}
    {S : α → List Token → List Token → Prop}
    (hn : ∀ p, Takes g.limit (next p) fun a us rest => ∀ ts,
      Maybe Expr.Yields p ts ∧ (∀ e ∈ p, e.Canonical) → S a (ts ++ us) rest) :
    Takes g.limit (if test = true then pure none >>= next else some <$> g.anyExpression >>= next) S := by
  have hsome : Takes g.limit (some <$> g.anyExpression) fun p ts _ =>
      Maybe Expr.Yields p ts ∧ ∀ e ∈ p, e.Canonical := by
    intro r
    refine TakesAt.map ((h.anyExpression r).mono fun e ts _ he => ⟨.some he.1, ?_⟩)
    intro x hx
    cases hx
    exact he.2.1
  have hnone : Takes g.limit (pure none) fun p ts _ =>
      Maybe Expr.Yields p ts ∧ ∀ e ∈ p, e.Canonical := .pure fun _ => ⟨.none, by simp⟩
  cases test with
  | true => exact hnone.bind hn
  | false => exact hsome.bind hn

theorem input : Takes g.limit g.input fun e ts rest => e.OpenedAs ts rest := by
  refine (expectWord_takes _).bind fun start => (expectSign_takes _).bind fun _ =>
    (Takes.check _).bind fun empty => h.maybe fun p => (expectSign_takes _).bind fun stop => .pure ?_
  rintro rest _ rfl ts ⟨hy, hc⟩ _ ⟨rfl, -⟩ _ rfl _ rfl
  exact ⟨.input _ hy, .input _ hc, rfl, pull_le_call _⟩

/-- The operators before operands. -/
theorem prefixed {r : Reader} {sign : Symbol} (hr : r.current.content = .symbol sign) :
    TakesAt g.limit r g.prefixed fun p ts rest => ∃ us, p.operator = .symbol sign ∧
      ts = .symbol sign :: us ∧ p.operand.ReadAs Precedence.prefixed.rank us rest ∧
        (sign = .plusPlus ∨ sign = .minusMinus → p.operand.isIdentifier = true) := by
  refine (TakesAt.take_known hr rfl).bind fun operator => (h.expression _ (by decide)).bind
    fun operand => ?_
  dsimp only
  split
  · exact fun r => .throw _
  · next hchanges =>
    refine .pure ?_
    rintro rest us hus _ ⟨rfl, rfl⟩
    refine ⟨us, hr, by simp, hus, fun hsign => ?_⟩
    rw [hr] at hchanges
    cases hid : operand.isIdentifier with
    | true => rfl
    | false =>
      rcases hsign with rfl | rfl <;> simp [Token.isSymbol, hid] at hchanges

omit h in
theorem unary (op : UnaryOp) {e : Expr} {us rest : List Token} (s : Span)
    (he : e.ReadAs Precedence.prefixed.rank us rest) :
    (Expr.unary op e s).OpenedAs (.symbol op.sign :: us) rest :=
  ⟨.unary op s he.yields, .unary op s he.canonical ((prefixed_le_iff e).2 he.fits), rfl,
    Nat.le_min.2 ⟨he.stops, he.reach⟩⟩

omit h in
theorem step (op : StepOp) {id : Identifier} {us rest : List Token} (s : Span)
    (he : (Expr.identifier id).ReadAs Precedence.prefixed.rank us rest) :
    (Expr.step op id s).OpenedAs (.symbol op.sign :: us) rest := by
  obtain ⟨hy, -, -, hstops, -⟩ := he
  cases hy
  exact ⟨.step op id s, .step op id s, rfl, hstops⟩

theorem prefixedExpr {r : Reader} {sign : Symbol} (hr : r.current.content = .symbol sign)
    (hsign : sign ∈ [.bang, .tilde, .plusPlus, .minusMinus, .binary (.compute .subtract)]) :
    TakesAt g.limit r (do return (← g.prefixed).expr) fun e ts rest => e.OpenedAs ts rest := by
  refine (h.prefixed hr).bind fun p => .pure ?_
  rintro rest _ ⟨us, hoperator, rfl, hus, hid⟩
  obtain ⟨operator, operand, s⟩ := p
  simp only [List.append_nil] at *
  subst hoperator
  simp only [List.mem_cons, List.not_mem_nil, or_false] at hsign
  rcases hsign with rfl | rfl | rfl | rfl | rfl
  · exact unary .not s hus
  · exact unary .complement s hus
  · cases operand with
    | identifier id => exact step .increment s hus
    | _ => cases hid (.inl rfl)
  · cases operand with
    | identifier id => exact step .decrement s hus
    | _ => cases hid (.inr rfl)
  · exact unary .negate s hus

theorem primary : Takes g.limit g.primary fun e ts rest => e.OpenedAs ts rest := by
  intro r
  refine .current ?_
  split
  · refine (identifier_takes r).bind fun id => .pure ?_
    rintro rest _ rfl
    exact ⟨.identifier id, .identifier id, rfl, pull_le_call _⟩
  iterate 7 exact literal r
  iterate 5
    · next hr => exact h.prefixedExpr hr (by simp)
  · exact h.nested r
  · exact h.list r
  · exact h.map r
  · exact h.input r
  · exact h.lambda r
  · exact failHere_takes _ r
  · exact failHere_takes _ r

/-- The tokens turn an expression that ends before them into one of another form, which holds at least as
tightly as the first of them binds. -/
structure ExtendsBy (left : Expr) (e : Expr) (us rest : List Token) : Prop where
  ne_nil : us ≠ []
  extend : ∀ ts, left.Yields ts → left.Canonical → pull (us ++ rest) ≤ left.reach →
    e.Yields (ts ++ us) ∧ e.Canonical ∧ pull (us ++ rest) ≤ e.level ∧ pull rest ≤ e.reach

theorem assignment {r : Reader} {op : Option ComputeOp} (hr : r.current.content = .symbol (.assign op))
    (left : Expr) : TakesAt g.limit r (g.assignment op left) (ExtendsBy left) := by
  cases left with
  | identifier target =>
    refine (TakesAt.take_known hr rfl).bind fun _ => (h.expression _ (by decide)).bind
      fun value => .pure ?_
    rintro rest us hus _ ⟨-, rfl⟩
    refine ⟨by simp, fun ts hts _ _ => ?_⟩
    cases hts
    refine ⟨?_, .assign _ _ _ hus.canonical, Nat.le_refl _, hus.stops⟩
    simpa using Expr.Yields.assign _ _ _ hus.yields
  | _ => exact .current (.throw _)

theorem binary {r : Reader} {op : BinaryOp} (hr : r.current.content = .symbol (.binary op))
    (left : Expr) : TakesAt g.limit r (g.binary op left) (ExtendsBy left) := by
  refine (TakesAt.take_known hr rfl).bind fun _ =>
    (h.expression _ (rightPrecedence_lt op)).bind fun right => .pure ?_
  rintro rest us hus _ ⟨-, rfl⟩
  refine ⟨by simp, fun ts hts hleft hreach => ?_⟩
  obtain ⟨hclosed, hallows⟩ := (hleft.le_reach_iff op).1 hreach
  refine ⟨?_, ?_, Nat.le_refl _, Nat.le_min.2 ⟨hus.stops, hus.reach⟩⟩
  · simpa using Expr.Yields.binary op _ hts hus.yields
  · exact .binary _ hleft hus.canonical hallows ((allowsRight_iff op right).2 hus.fits) hclosed

theorem ternary (left : Expr) : Takes g.limit (g.ternary left) (ExtendsBy left) := by
  refine (expectSign_takes _).bind fun _ => h.anyExpression.bind fun resolution =>
    (expectSign_takes _).bind fun _ => (h.expression _ (by decide)).bind
      fun alternative => .pure ?_
  rintro rest vs hvs _ rfl us ⟨hus, hcus, -⟩ _ rfl
  refine ⟨by simp, fun ts hts hleft hreach => ?_⟩
  obtain ⟨hclosed, hcondition⟩ := hleft.question_le_reach_iff.1 hreach
  refine ⟨?_, ?_, Nat.le_refl _, Nat.le_min.2 ⟨hvs.stops, hvs.reach⟩⟩
  · simpa using Expr.Yields.ternary _ hts hus hvs.yields
  · exact .ternary _ hleft hcus hvs.canonical hcondition hclosed ((ternary_le_iff _).2 hvs.fits)

theorem call (left : Expr) : Takes g.limit (g.call left) (ExtendsBy left) := by
  refine (expectSign_takes _).bind fun _ => (h.expressions _).bind fun (es, stop) => .pure ?_
  rintro rest _ ⟨us, rfl, hy, hc⟩ _ rfl
  refine ⟨by simp, fun ts hts hleft hreach => ?_⟩
  have hbase := left.call_le_reach_iff.1 hreach
  refine ⟨?_, .call _ hleft hbase hc, Nat.le_refl _, pull_le_call _⟩
  simpa using Expr.Yields.call _ hts hy

theorem index (left : Expr) : Takes g.limit (g.index left) (ExtendsBy left) := by
  refine (expectSign_takes _).bind fun _ => h.anyExpression.bind fun key =>
    (expectSign_takes _).bind fun stop => .pure ?_
  rintro rest _ rfl us ⟨hus, hc, -⟩ _ rfl
  refine ⟨by simp, fun ts hts hleft hreach => ?_⟩
  have hbase := left.call_le_reach_iff.1 hreach
  refine ⟨?_, .index _ hleft hbase hc, Nat.le_refl _, pull_le_call _⟩
  simpa using Expr.Yields.index _ hts hus

omit h in
theorem member (left : Expr) : Takes g.limit (member left) (ExtendsBy left) := by
  refine (expectSign_takes _).bind fun _ => Takes.bind (fun r => (identifier_takes r).attempt)
    fun name => ?_
  cases name with
  | error e => exact fun r => .throw _
  | ok name =>
    refine .pure ?_
    rintro rest us hus _ rfl
    cases hus name rfl
    refine ⟨by simp, fun ts hts hleft hreach => ?_⟩
    have hbase := left.call_le_reach_iff.1 hreach
    exact ⟨.member _ _ hts, .member _ _ hleft hbase, Nat.le_refl _, pull_le_call _⟩

/-- What the loop over operators makes of an expression that ends where the loop starts. -/
def Extended (bound : Precedence) (n : Nat) (left e : Expr) (us rest : List Token) : Prop :=
  (us ++ rest).length < n → ∀ ts, left.Yields ts → left.Canonical → bound.rank < left.level →
    pull (us ++ rest) ≤ left.reach → e.ReadAs bound.rank (ts ++ us) rest

omit h in
/-- One round of the loop: an operator that binds tighter than the bound, and the rounds after it. -/
theorem extend_round {bound : Precedence} {n : Nat} {left : Expr} {r : Reader} {rule : Rule Expr}
    (hbound : bound < r.current.content.precedence) (hrule : TakesAt g.limit r rule (ExtendsBy left))
    (ih : ∀ e, Takes g.limit (g.extend bound n e) (Extended bound n e)) :
    TakesAt g.limit r (rule >>= g.extend bound n) (Extended bound (n + 1) left) := by
  have hpull : pull r.tokens = r.current.content.precedence.rank := by rw [pull, r.tokens_headD]
  refine .whole (hrule.bind fun e => (ih e).mono ?_)
  intro e' vs rest hvs us hus htokens hlength ts hts hleft hlevel hreach
  rw [List.append_assoc] at htokens hreach hlength
  obtain ⟨hy, hcan, hle, hreach'⟩ := hus.extend ts hts hleft hreach
  have hlength' : (vs ++ rest).length < n := by
    have hpos := List.length_pos_iff.2 hus.ne_nil
    rw [List.length_append] at hlength
    omega
  have hlevel' : bound.rank < e.level := by
    rw [htokens, hpull] at hle
    exact Nat.lt_of_lt_of_le hbound hle
  rw [← List.append_assoc]
  exact hvs hlength' (ts ++ us) hy hcan hlevel' hreach'

omit h in
/-- The loop ends at a token that binds no tighter than the bound. -/
theorem extend_end {bound : Precedence} {n : Nat} {left : Expr} {r : Reader}
    (hbound : ¬bound < r.current.content.precedence) :
    TakesAt g.limit r (pure left) (Extended bound n left) := by
  refine .pure fun hlength ts hts hleft hlevel hreach => ?_
  rw [List.append_nil]
  refine ⟨hts, hleft, hlevel, ?_, hreach⟩
  rw [pull, r.tokens_headD]
  exact Nat.le_of_not_lt hbound

theorem extend (bound : Precedence) (n : Nat) (left : Expr) :
    Takes g.limit (g.extend bound n left) (Extended bound n left) := by
  induction n generalizing left with
  | zero => exact .pure fun rest hn => (Nat.not_lt_zero _ hn).elim
  | succ n ih =>
    intro r
    refine .current ?_
    split
    · next hbound =>
      split
      · next hr => exact extend_round hbound (h.assignment hr left) ih
      · next hr => exact extend_round hbound (h.binary hr left) ih
      · exact extend_round hbound (h.ternary left r) ih
      · exact extend_round hbound (h.call left r) ih
      · exact extend_round hbound (h.index left r) ih
      · exact extend_round hbound (member left r) ih
      · -- any other token binds nothing, so none is met here
        next hassign hbinary hquestion hparen hbracket hdot =>
        have hlowest : r.current.content.precedence = .lowest := by
          unfold Token.precedence
          split <;> simp_all
        rw [hlowest] at hbound
        exact (Nat.not_lt_zero _ hbound).elim
    · next hbound => exact extend_end hbound

theorem expressionRule (bound : Precedence) (hbound : bound < .call) :
    Takes g.limit (g.expressionRule bound) fun e ts rest => e.ReadAs bound.rank ts rest := by
  refine h.primary.bind fun left r => TakesAt.short ((h.extend bound g.limit left r).mono ?_)
  intro e us rest he hl ts hts
  exact he hl ts hts.yields hts.canonical (by rw [hts.level]; exact hbound) hts.reach

theorem binding (kind : DeclarationKind) : Takes g.limit (g.binding kind) fun b ts _ =>
    b.Yields ts ∧ (∀ e ∈ b.value, e.Canonical) ∧ (kind.isConstant = true → b.value.isSome = true) := by
  refine identifier_takes.bind fun id => (takeSign_takes _).bind fun given => ?_
  cases given with
  | true =>
    refine h.anyExpression.bind fun e => .pure ?_
    rintro rest us ⟨hy, hc, -⟩ cs hcs _ rfl
    obtain ⟨-, rfl⟩ : true = true ∧ cs = [.symbol (.assign none)] := by simpa using hcs
    refine ⟨?_, by simpa using hc, fun _ => rfl⟩
    simpa using Binding.Yields.value id hy
  | false =>
    cases hconstant : kind.isConstant with
    | true => exact failHere_takes _
    | false =>
      refine .pure ?_
      rintro rest cs hcs _ rfl
      obtain ⟨rfl, -⟩ : cs = [] ∧ _ := by simpa using hcs
      exact ⟨.plain id, by simp, by simp⟩

theorem declaration : Takes g.limit g.declaration fun d ts _ => d.Yields ts ∧ d.Canonical := by
  refine Takes.take.bind fun word => ?_
  split
  · next kind hkind =>
    refine (sequence_takes (h.binding kind)).bind fun bs => semicolon_takes.bind fun stop => .pure ?_
    rintro rest _ rfl ts hts ws hws
    rw [hws (not_end_of_some rfl hkind)]
    obtain ⟨hy, hc⟩ := hts.split
    exact ⟨.mk _ hkind hy, fun b hb => (hc b hb).1, fun hk b hb => (hc b hb).2 hk⟩
  · exact fun r => .throw _

omit h in
theorem synchronize (n : Nat) : Takes g.limit (synchronize n) fun _ _ _ => True := by
  induction n with
  | zero => exact .pure fun _ => trivial
  | succ n ih =>
    intro r
    refine .get ?_
    dsimp only
    split
    · exact .pure trivial
    · exact TakesAt.take.bind fun _ => ih.mono fun _ _ _ _ _ _ => trivial

omit h in
/-- After a report there is an error that was noted. -/
theorem report (e : ParseError) : Takes g.limit (report e) fun _ _ _ => False := by
  intro r hc _
  cases hr : r.recovering with
  | true =>
    have he : Grammar.report e r = .ok () r := by
      show EStateM.Result.ok () (if r.recovering = true then r else _) = _
      rw [if_pos hr]
    rw [he]
    exact ⟨[], hc.passes_self, fun hn => hc.noted hr hn⟩
  | false =>
    have he : Grammar.report e r =
        .ok () { r with recovering := true, latestErrors := e :: r.latestErrors } := by
      show EStateM.Result.ok () (if r.recovering = true then r else _) = _
      rw [if_neg (by rw [hr]; decide)]
    rw [he]
    refine ⟨[], ⟨⟨fun _ => List.cons_ne_nil _ _, hc.ended, hc.emptied, hc.sealed⟩, rfl, ?_, ?_⟩, ?_⟩
    · exact fun hn => (List.cons_ne_nil _ _ hn).elim
    · exact fun hf => (List.cons_ne_nil _ _ hf.1).elim
    · exact fun hn => List.cons_ne_nil _ _ hn

omit h in
theorem recover (start : Span) (e : ParseError) : Takes g.limit (g.recover start e) fun _ _ _ => False := by
  refine (report e).bind fun _ => (synchronize g.limit).bind fun _ r => .get ?_
  split
  · refine TakesAt.take.bind fun _ => (synchronize g.limit).mono ?_
    intro _ _ _ _ _ _ _ _ _ hfalse
    exact hfalse
  · exact .pure fun _ _ _ hfalse => hfalse

omit h in
theorem calm : Takes g.limit (modify fun r => { r with recovering := false } : Rule Unit)
    fun _ ts _ => ts = [] :=
  fun _ hc _ => ⟨[], ⟨⟨fun hr => (by cases hr), hc.ended, hc.emptied, hc.sealed⟩, rfl, id, id⟩,
    fun _ => rfl⟩

theorem statements_loop (stop : Token → Bool) (n : Nat) :
    Takes g.limit (g.statements stop n) fun ss ts rest => (ts ++ rest).length < n →
      Joined (fun s us => s.Yields us ∧ s.Canonical) ss ts ∧
        (stop (rest.headD .endOfFile) = true ∨ rest = []) := by
  induction n with
  | zero => exact .pure fun rest hn => (Nat.not_lt_zero _ hn).elim
  | succ n ih =>
    intro r
    refine .current ?_
    split
    · next hstop =>
      refine .pure fun _ => ⟨.nil, ?_⟩
      rw [r.tokens_headD]
      rcases Bool.or_eq_true_iff.1 hstop with hs | he
      · exact .inl hs
      · exact .inr (Reader.tokens_of_end he)
    · refine (calm r).bind fun _ => Takes.bind (fun r => (h.statement r).attempt) fun result => ?_
      cases result with
      | error e =>
        refine (recover _ e).bind fun _ => ih.mono ?_
        intro _ _ _ _ _ hfalse
        exact hfalse.elim
      | ok s =>
        refine ih.bind fun ss => .pure ?_
        rintro rest us hus ts hts _ rfl hlength
        obtain ⟨hy, hc, -⟩ := hts s rfl
        obtain ⟨t, vs, rfl, -⟩ := hy.head
        have hlength' : (us ++ ([] ++ rest)).length < n := by
          simp only [List.length_append, List.length_cons, List.length_nil] at hlength ⊢
          omega
        obtain ⟨hjoined, hend⟩ := hus hlength'
        refine ⟨?_, hend⟩
        simpa using Joined.cons (Y := fun (s : Stmt) us => s.Yields us ∧ s.Canonical) ⟨hy, hc⟩ hjoined

theorem statements (stop : Token → Bool) :
    Takes g.limit (g.statements stop g.limit) fun ss ts rest =>
      (Joined Stmt.Yields ss ts ∧ ∀ s ∈ ss, s.Canonical) ∧
        (stop (rest.headD .endOfFile) = true ∨ rest = []) :=
  fun r => ((h.statements_loop stop g.limit r).mono fun _ _ _ hs hl =>
    ⟨(hs hl).1.split, (hs hl).2⟩).short

theorem block : Takes g.limit g.block fun b ts _ => b.Yields ts ∧ b.Canonical := by
  refine (expectSign_takes _).bind fun start => (h.statements _).bind fun ss =>
    (expectSign_takes _).bind fun stop => .pure ?_
  rintro rest _ rfl ts ⟨⟨hy, hc⟩, -⟩ _ rfl
  exact ⟨.mk _ hy, .mk _ hc⟩

theorem function : Takes g.limit g.function fun f ts _ => f.Yields ts ∧ f.Canonical := by
  refine (expectWord_takes _).bind fun start => identifier_takes.bind fun id => parameters.bind fun ps =>
    h.block.bind fun b => .pure ?_
  rintro rest us ⟨hy, hc⟩ _ ⟨ts, rfl, hps, hd⟩ _ rfl _ rfl
  refine ⟨?_, .mk _ _ hd hc⟩
  simpa using FunctionDecl.Yields.mk id _ hps hy

theorem classMember :
    Takes g.limit g.classMember fun m ts _ => ts ≠ [] ∧ m.Yields ts ∧ m.Canonical := by
  intro r
  refine .current ?_
  split
  · refine (h.declaration r).bind fun d => .pure ?_
    rintro rest ts ⟨hy, hc⟩
    obtain ⟨t, us, rfl, -⟩ := hy.head
    exact ⟨by simp, .field (by simpa using hy), .field hc⟩
  · split
    · refine (h.function r).bind fun f => .pure ?_
      rintro rest ts ⟨hy, hc⟩
      have hne : ts ≠ [] := by
        cases hy
        simp
      rw [List.append_nil]
      exact ⟨hne, .method hy, .method hc⟩
    · exact failExpecting_takes _ r

theorem class_ : Takes g.limit g.class_ fun s ts rest => s.ReadAs ts rest := by
  refine (expectWord_takes _).bind fun start => identifier_takes.bind fun id => ?_
  refine optional_takes (Y := Maybe fun i us => us = [.keyword .extends_, .identifier i.name])
    (identifier_takes.mono fun i ts _ hi => ?_) .none fun p => ?_
  · cases hi
    exact .some rfl
  · refine (expectSign_takes _).bind fun _ => (repeated_takes h.classMember _).bind fun ms =>
      (expectSign_takes _).bind fun stop => .pure ?_
    rintro rest _ rfl us hus _ rfl ps hps _ rfl _ rfl
    obtain ⟨hy, hc⟩ := hus.split
    refine ⟨?_, .class_ _ _ _ hc, fun hd => by cases hd⟩
    cases hps with
    | none => exact .class_ id _ hy
    | @some i _ hi =>
      subst hi
      exact .subclass id i _ hy

theorem bracketed : Takes g.limit g.bracketed fun e ts _ => Bracketed e ts ∧ e.Canonical := by
  refine (expectSign_takes _).bind fun _ => h.anyExpression.bind fun e => (expectSign_takes _).bind
    fun _ => .pure ?_
  rintro rest _ rfl ts ⟨hy, hc, -⟩ _ rfl
  exact ⟨.mk hy, hc⟩

theorem conditional : Takes g.limit g.conditional fun s ts rest => s.ReadAs ts rest := by
  refine (expectWord_takes _).bind fun start => h.bracketed.bind fun c => h.statement.bind fun r =>
    (takeWord_takes _).bind fun more => ?_
  cases more with
  | true =>
    refine h.statement.bind fun a => .pure ?_
    rintro rest vs hvs cs hcs us hus ts ⟨hts, hc⟩ _ rfl
    obtain ⟨-, rfl⟩ : true = true ∧ cs = [.keyword .else_] := by simpa using hcs
    have hnearest : r.isDangling = false := by
      cases hd : r.isDangling with
      | false => rfl
      | true => exact (hus.dangling hd rfl).elim
    refine ⟨?_, .alternative _ hc hus.canonical hvs.canonical hnearest, hvs.dangling⟩
    simpa using Stmt.Yields.alternative _ hts hus.yields hvs.yields
  | false =>
    refine .pure ?_
    rintro rest cs hcs us hus ts ⟨hts, hc⟩ _ rfl
    obtain ⟨rfl, helse⟩ : cs = [] ∧ rest.head? ≠ some (.keyword .else_) := by simpa using hcs
    refine ⟨?_, .conditional _ hc hus.canonical, fun _ => helse⟩
    simpa using Stmt.Yields.conditional _ hts hus.yields

theorem whileLoop : Takes g.limit g.whileLoop fun s ts rest => s.ReadAs ts rest := by
  refine (expectWord_takes _).bind fun start => h.bracketed.bind fun c => h.statement.bind fun b =>
    .pure ?_
  rintro rest us hus ts ⟨hts, hc⟩ _ rfl
  refine ⟨?_, .whileLoop _ hc hus.canonical, hus.dangling⟩
  simpa using Stmt.Yields.whileLoop _ hts hus.yields

theorem expressionStatement : Takes g.limit g.expressionStatement fun (e, _) ts _ =>
    ∃ us, ts = us ++ [.symbol .semicolon] ∧ e.Yields us ∧ e.Canonical := by
  refine h.anyExpression.bind fun e => semicolon_takes.bind fun stop => .pure ?_
  rintro rest _ rfl us ⟨hy, hc, -⟩
  exact ⟨us, rfl, hy, hc⟩

theorem initializer : Takes g.limit g.initializer fun i ts _ =>
    Initializer.Yields i ts ∧ ∀ x ∈ i, x.Canonical := by
  intro r
  refine .current ?_
  split
  · next hsign =>
    refine (TakesAt.take_known (isSymbol_iff.1 hsign) rfl).bind fun _ => .pure ?_
    rintro rest _ ⟨-, rfl⟩
    exact ⟨.none, by simp⟩
  · split
    · refine (h.declaration r).bind fun d => .pure ?_
      rintro rest ts ⟨hy, hc⟩
      rw [List.append_nil]
      exact ⟨.declare hy, by simpa using Initializer.Canonical.declare hc⟩
    · refine (h.expressionStatement r).bind fun (e, s) => .pure ?_
      rintro rest _ ⟨ts, rfl, hy, hc⟩
      rw [List.append_nil]
      exact ⟨.expression s hy, by simpa using Initializer.Canonical.expression s hc⟩

theorem forLoop : Takes g.limit g.forLoop fun s ts rest => s.ReadAs ts rest := by
  refine (expectWord_takes _).bind fun start => (expectSign_takes _).bind fun _ =>
    h.initializer.bind fun i => (Takes.check _).bind fun _ => h.maybe fun c =>
      semicolon_takes.bind fun _ => (Takes.check _).bind fun _ => h.maybe fun u =>
        (expectSign_takes _).bind fun _ => h.statement.bind fun b => .pure ?_
  rintro rest ws hws _ rfl vs ⟨hvs, hcv⟩ _ ⟨rfl, -⟩ _ rfl us ⟨hus, hcu⟩ _ ⟨rfl, -⟩ ts ⟨hts, hct⟩ _ rfl _ rfl
  refine ⟨?_, .forLoop _ ⟨hct, hcu, hcv⟩ hws.canonical, hws.dangling⟩
  simpa using Stmt.Yields.forLoop _ (.mk hts hus hvs) hws.yields

omit h in
theorem defaultWord : Takes g.limit defaultWord fun v ts _ => v = none ∧ ts = [.keyword .default] := by
  refine (takeWord_takes _).bind fun found => ?_
  cases found with
  | true =>
    refine .pure ?_
    rintro rest cs hcs
    obtain ⟨-, rfl⟩ : true = true ∧ cs = [.keyword .default] := by simpa using hcs
    exact ⟨rfl, rfl⟩
  | false => exact failExpecting_takes _

/-- Where there is no value, the word is another one. -/
theorem caseValue : Takes g.limit g.caseValue fun v ts _ =>
    (∃ e us, v = some e ∧ ts = .keyword .case :: us ∧ e.Yields us ∧ e.Canonical) ∨
      v = none ∧ ts = [.keyword .default] := by
  refine (takeWord_takes _).bind fun found => ?_
  cases found with
  | true =>
    refine fun r => TakesAt.map ((h.anyExpression r).mono ?_)
    rintro e us rest ⟨hy, hc, -⟩ cs hcs
    obtain ⟨-, rfl⟩ : true = true ∧ cs = [.keyword .case] := by simpa using hcs
    exact .inl ⟨e, us, rfl, rfl, hy, hc⟩
  | false =>
    refine defaultWord.mono ?_
    rintro v us rest ⟨rfl, rfl⟩ cs hcs
    obtain rfl : cs = [] := by simpa using hcs
    exact .inr ⟨rfl, rfl⟩

theorem case : Takes g.limit g.case fun k ts _ => ts ≠ [] ∧ k.Yields ts ∧ k.Canonical := by
  intro r
  refine .current ((h.caseValue r).bind fun v => (expectSign_takes _).bind fun _ =>
    h.statement.bind fun b => .pure ?_)
  rintro rest us hus _ rfl _ (⟨e, ts, rfl, rfl, hy, hc⟩ | ⟨rfl, rfl⟩)
  · refine ⟨by simp, ?_, .mk _ (by simpa using hc) hus.canonical⟩
    simpa using Case.Yields.value _ hy hus.yields
  · refine ⟨by simp, ?_, .mk _ (by simp) hus.canonical⟩
    simpa using Case.Yields.default _ hus.yields

theorem switch : Takes g.limit g.switch fun s ts rest => s.ReadAs ts rest := by
  refine (expectWord_takes _).bind fun start => h.bracketed.bind fun e => (expectSign_takes _).bind
    fun _ => (repeated_takes h.case _).bind fun ks => (expectSign_takes _).bind fun stop => .pure ?_
  rintro rest _ rfl us hus _ rfl ts ⟨hts, hc⟩ _ rfl
  obtain ⟨hy, hcs⟩ := hus.split
  refine ⟨?_, .switch _ hc hcs, fun hd => by cases hd⟩
  simpa using Stmt.Yields.switch _ hts hy

theorem return_ : Takes g.limit g.return_ fun s ts rest => s.ReadAs ts rest := by
  refine (expectWord_takes _).bind fun start => (Takes.check _).bind fun _ => h.maybe fun e =>
    semicolon_takes.bind fun stop => .pure ?_
  rintro rest _ rfl ts ⟨hy, hc⟩ _ ⟨rfl, -⟩ _ rfl
  exact ⟨.return_ _ hy, .return_ _ hc, fun hd => by cases hd⟩

omit h in
theorem single (word : Keyword) (make : Span → Stmt)
    (hy : ∀ s, (make s).Yields [.keyword word, .symbol .semicolon]) (hc : ∀ s, (make s).Canonical)
    (hd : ∀ s, (make s).isDangling = false) :
    Takes g.limit (single word make) fun s ts rest => s.ReadAs ts rest := by
  refine (expectWord_takes _).bind fun start => semicolon_takes.bind fun stop => .pure ?_
  rintro rest _ rfl _ rfl
  refine ⟨hy _, hc _, fun hs => ?_⟩
  rw [hd] at hs
  cases hs

theorem throw_ : Takes g.limit g.throw_ fun s ts rest => s.ReadAs ts rest := by
  refine (expectWord_takes _).bind fun start => h.anyExpression.bind fun e => semicolon_takes.bind
    fun stop => .pure ?_
  rintro rest _ rfl ts ⟨hy, hc, -⟩ _ rfl
  exact ⟨.throw _ hy, .throw _ hc, fun hd => by cases hd⟩

theorem handler : Takes g.limit g.handler fun k ts _ =>
    k.Yields (.keyword .catch_ :: ts) ∧ k.Canonical := by
  refine (takeSign_takes _).bind fun named => ?_
  cases named with
  | true =>
    refine identifier_takes.bind fun id => (expectSign_takes _).bind fun _ =>
      Takes.bind (Takes.pure (P := fun p ts _ => p = some id ∧ ts = []) fun _ => ⟨rfl, rfl⟩) fun p =>
        h.block.bind fun b => .pure ?_
    rintro rest us ⟨hy, hc⟩ _ ⟨rfl, rfl⟩ _ rfl _ rfl cs hcs
    obtain ⟨-, rfl⟩ : true = true ∧ cs = [.symbol .leftParen] := by simpa using hcs
    refine ⟨?_, .mk _ hc⟩
    simpa using Handler.Yields.named id hy
  | false =>
    refine Takes.bind (Takes.pure (P := fun p ts _ => p = none ∧ ts = []) fun _ => ⟨rfl, rfl⟩) fun p =>
      h.block.bind fun b => .pure ?_
    rintro rest us ⟨hy, hc⟩ _ ⟨rfl, rfl⟩ cs hcs
    obtain ⟨rfl, -⟩ : cs = [] ∧ _ := by simpa using hcs
    refine ⟨?_, .mk _ hc⟩
    simpa using Handler.Yields.plain hy

theorem try_ : Takes g.limit g.try_ fun s ts rest => s.ReadAs ts rest := by
  refine (expectWord_takes _).bind fun start => h.block.bind fun b => ?_
  refine optional_takes (Y := fun k ts => Maybe Handler.Yields k ts ∧ ∀ x ∈ k, x.Canonical)
    (h.handler.mono fun k ts _ hk => ⟨.some hk.1, by simpa using hk.2⟩) ⟨.none, by simp⟩ fun k => ?_
  refine optional_takes (Y := fun f ts => Maybe Block.YieldsCleanup f ts ∧ ∀ x ∈ f, x.Canonical)
    (h.block.mono fun f ts _ hf => ⟨.some (.mk hf.1), by simpa using hf.2⟩) ⟨.none, by simp⟩
    fun f => ?_
  dsimp only
  split
  · exact failHere_takes _
  · refine .pure ?_
    rintro rest vs ⟨hvs, hcv⟩ us ⟨hus, hcu⟩ ts ⟨hts, hct⟩ _ rfl
    refine ⟨?_, .try_ _ hct hcu hcv (.inl rfl), fun hd => by cases hd⟩
    simpa using Stmt.Yields.try_ _ hts hus hvs
  · refine .pure ?_
    rintro rest vs ⟨hvs, hcv⟩ us ⟨hus, hcu⟩ ts ⟨hts, hct⟩ _ rfl
    refine ⟨?_, .try_ _ hct hcu hcv (.inr rfl), fun hd => by cases hd⟩
    simpa using Stmt.Yields.try_ _ hts hus hvs

omit h in
theorem import_ : Takes g.limit import_ fun s ts rest => s.ReadAs ts rest := by
  refine (expectWord_takes _).bind fun start => Takes.take.bind fun target => ?_
  split
  · next name hname =>
    refine semicolon_takes.bind fun stop => .pure ?_
    rintro rest _ rfl ts hts _ rfl
    rw [hts (not_end_of_some rfl hname)]
    exact ⟨.import_ _ hname, .import_ _ _, fun hd => by cases hd⟩
  · exact fun r => .throw _

theorem print : Takes g.limit g.print fun s ts rest => s.ReadAs ts rest := by
  refine (expectWord_takes _).bind fun start => (expectSign_takes _).bind fun _ =>
    (h.expressions _).bind fun (es, _) => semicolon_takes.bind fun stop => .pure ?_
  rintro rest _ rfl _ ⟨ts, rfl, hy, hc⟩ _ rfl _ rfl
  refine ⟨?_, .print _ hc, fun hd => by cases hd⟩
  simpa using Stmt.Yields.print _ hy

theorem statementRule : Takes g.limit g.statementRule fun s ts rest => s.ReadAs ts rest := by
  intro r
  refine .current ?_
  split
  iterate 5
    · refine (h.declaration r).bind fun d => .pure ?_
      rintro rest ts ⟨hy, hc⟩
      rw [List.append_nil]
      exact ⟨.declare hy, .declare hc, fun hd => by cases hd⟩
  · refine (h.function r).bind fun f => .pure ?_
    rintro rest ts ⟨hy, hc⟩
    rw [List.append_nil]
    exact ⟨.function hy, .function hc, fun hd => by cases hd⟩
  · exact h.class_ r
  · refine (h.block r).bind fun b => .pure ?_
    rintro rest ts ⟨hy, hc⟩
    rw [List.append_nil]
    exact ⟨.block hy, .block hc, fun hd => by cases hd⟩
  · exact h.conditional r
  · exact h.whileLoop r
  · exact h.forLoop r
  · exact h.switch r
  · exact h.return_ r
  · exact single _ _ .break_ .break_ (fun _ => rfl) r
  · exact single _ _ .continue_ .continue_ (fun _ => rfl) r
  · exact h.throw_ r
  · exact h.try_ r
  · exact import_ r
  · exact h.print r
  · exact single _ _ .pass .pass (fun _ => rfl) r
  · next hbrace _ _ _ _ _ _ _ _ _ _ _ _ =>
    refine .whole ((h.expressionStatement r).bind fun (e, s) => .pure ?_)
    rintro rest _ ⟨us, rfl, hy, hc⟩ htokens
    have hstart : e.startsWithMap = false := by
      cases hs : e.startsWithMap with
      | false => rfl
      | true =>
        obtain ⟨t, vs, rfl, -⟩ := hy.head
        cases hy.head_brace.2 hs
        exact (hbrace (Reader.current_of_tokens htokens.symm).1).elim
    rw [List.append_nil]
    exact ⟨.expression s hy, .expression s hc hstart, fun hd => by cases hd⟩

end Sound

/-- Every level of nesting reads canonical trees. -/
theorem sound_upTo (limit depth : Nat) : (upTo limit depth).Sound := by
  induction depth with
  | zero =>
    constructor
    · intro bound _
      exact failHere_takes _
    · exact failHere_takes _
  | succ depth ih =>
    constructor
    · intro bound hbound
      exact ih.expressionRule bound hbound
    · exact ih.statementRule

end Grammar
end Scriptlet
