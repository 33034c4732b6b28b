import Scriptlet.Proofs.Syntax.Lookahead
import Scriptlet.Proofs.Syntax.Reading

/-! Wherever the tokens of a canonical expression stand ahead, with something behind them that cannot belong
to it, the rules of the grammar read that expression, up to places. -/
namespace Scriptlet

open Rule

theorem Expr.bareList_eq (es : List Expr) : bareList es = es.map bare := by
  induction es with
  | nil => rfl
  | cons e es ih => rw [bareList, ih, List.map_cons]

def Entry.bare (e : Entry Expr) : Entry Expr := ⟨e.key, e.value.bare, default⟩

theorem Expr.bareEntries_eq (es : List (Entry Expr)) : bareEntries es = es.map Entry.bare := by
  induction es with
  | nil => rfl
  | cons e es ih => rw [bareEntries, ih, List.map_cons, Entry.bare]

theorem Expr.bare_eq_identifier {e : Expr} {id : Identifier} (h : e.bare = .identifier id.bare) :
    ∃ id', e = .identifier id' ∧ id'.bare = id.bare := by
  cases e with
  | identifier id' =>
    rw [bare] at h
    exact ⟨id', rfl, Expr.identifier.inj h⟩
  | input prompt s => cases prompt <;> rw [bare] at h <;> cases h
  | _ => rw [bare] at h; cases h

theorem Expr.level_pos (e : Expr) : 0 < e.level := by
  cases e with
  | binary op l r s =>
    have hop := op.rank_bounds
    show 0 < op.precedence.rank
    omega
  | _ => simp [level, Precedence.rank]

theorem Expr.strength_le_level (e : Expr) : e.strength.rank ≤ e.level := by
  have h := e.level_cases
  omega

theorem Expr.level_of_isBase {e : Expr} (h : e.isBase = true) : e.level = Precedence.call.rank := by
  cases e <;> first | rfl | cases h

/-- What can stand behind a statement without becoming a part of it. -/
structure Stmt.StopsAt (s : Stmt) (rest : List Token) : Prop where
  nearest : s.isDangling = true → rest.head? ≠ some (.keyword .else_)
  cleanup : rest.head? ≠ some (.keyword .finally_)

namespace Grammar

/-- The grammar reads the canonical trees that are written with fewer than `n` tokens. -/
structure Complete (g : Grammar) (n : Nat) : Prop where
  expression : ∀ {e : Expr} {ts rest : List Token} (bound : Precedence), e.Yields ts → e.Canonical →
    ts.length < n → bound.rank < e.level → pull rest ≤ bound.rank → pull rest ≤ e.reach →
      Reads g.limit (g.expression bound) (fun e' => e'.bare = e.bare) ts rest
  statement : ∀ {s : Stmt} {ts rest : List Token}, s.Yields ts → s.Canonical → ts.length < n →
    s.StopsAt rest → Reads g.limit g.statement (fun s' => s'.bare = s.bare) ts rest

namespace Complete

variable {g : Grammar} {n : Nat} (h : g.Complete n) {ts rest : List Token}
include h

theorem anyExpression {e : Expr} (hy : e.Yields ts) (hc : e.Canonical) (hn : ts.length < n)
    (hrest : pull rest = 0) : Reads g.limit g.anyExpression (fun e' => e'.bare = e.bare) ts rest := by
  refine h.expression .lowest hy hc hn e.level_pos ?_ ?_
  · exact Nat.le_of_eq hrest
  · rw [hrest]
    exact Nat.zero_le _

omit h in
theorem pull_of_head {t : Token} (hhead : rest.head? = some t) (ht : t.precedence = .lowest) :
    pull rest = 0 := by
  cases rest with
  | nil => cases hhead
  | cons t' rest =>
    cases hhead
    rw [pull, List.headD_cons, ht]
    rfl

omit h in
theorem pull_of_comma_or {stop : Symbol} (hstop : (Token.symbol stop).precedence = .lowest)
    (hhead : rest.head? = some (.symbol .comma) ∨ rest.head? = some (.symbol stop)) :
    pull rest = 0 := by
  rcases hhead with hhead | hhead
  · exact pull_of_head hhead rfl
  · exact pull_of_head hhead hstop

omit h in
theorem expression_head {e : Expr} (hy : e.Yields ts) {stop : Symbol}
    (hstop : (Token.symbol stop).startsExpression = false) :
    ∃ t us, ts = t :: us ∧ t ≠ .symbol stop := by
  obtain ⟨t, us, rfl, ht⟩ := hy.head
  refine ⟨t, us, rfl, ?_⟩
  rintro rfl
  rw [hstop] at ht
  cases ht

theorem expressions {close : Symbol} (hclose : close = .rightBracket ∨ close = .rightParen)
    {es : List Expr} (hes : Listed Expr.Yields es ts) (hc : ∀ e ∈ es, e.Canonical)
    (hn : ts.length < n) :
    Reads g.limit (g.expressions close) (fun p => Expr.bareList p.1 = Expr.bareList es)
      (ts ++ [.symbol close]) rest := by
  have hsymbol : close ≠ .comma ∧ (Token.symbol close).precedence = .lowest ∧
      (Token.symbol close).startsExpression = false := by
    rcases hclose with rfl | rfl <;> exact ⟨by decide, rfl, rfl⟩
  obtain ⟨hcomma, hlowest, hstart⟩ := hsymbol
  have hitems : Reads g.limit (separated g.anyExpression close g.limit)
      (fun es' => es'.map Expr.bare = es.map Expr.bare) ts (.symbol close :: rest) := by
    refine .short fun hl => separated_reads hcomma ?_ ?_ hes hn g.limit ?_
    · intro e us rest' he hy hm hhead
      exact h.anyExpression hy (hc e he) hm (pull_of_comma_or hlowest hhead)
    · intro e us hy
      exact expression_head hy hstart
    · rw [List.length_append] at hl
      omega
  refine hitems.bind fun es' hes' => .sign fun s => .pure ?_
  rw [Expr.bareList_eq, Expr.bareList_eq]
  exact hes'

theorem primary_nested {e : Expr} (s : Span) (hy : e.Yields ts) (hc : e.Canonical) (hn : ts.length < n) :
    Reads g.limit g.primary (fun e' => e'.bare = (Expr.nested e s).bare)
      (.symbol .leftParen :: (ts ++ [.symbol .rightParen])) rest := by
  refine .here fun _ _ => .sign fun _ => (h.anyExpression hy hc hn rfl).bind fun e' he' =>
    .sign fun _ => .pure ?_
  rw [Expr.bare, Expr.bare, he']

theorem primary_list {es : List Expr} (s : Span) (hes : Listed Expr.Yields es ts) (hc : ∀ e ∈ es, e.Canonical)
    (hn : ts.length < n) :
    Reads g.limit g.primary (fun e' => e'.bare = (Expr.list es s).bare)
      (.symbol .leftBracket :: (ts ++ [.symbol .rightBracket])) rest := by
  refine .here fun _ _ => .sign fun _ => (h.expressions (.inl rfl) hes hc hn).last fun p hp => .pure ?_
  rw [Expr.bare, Expr.bare, hp]

theorem entry {e : Entry Expr} (hy : e.Yields ts) (hc : e.value.Canonical) (hn : ts.length < n)
    (hrest : pull rest = 0) :
    Reads g.limit g.entry (fun e' => e'.bare = e.bare) ts rest := by
  cases hy with
  | @mk key t value us s hk hv =>
    refine .take fun here hhere => ?_
    rw [hhere, hk]
    have hus : us.length < n := by
      simp only [List.length_cons] at hn
      omega
    refine .sign fun _ => (h.anyExpression hv hc hus hrest).last fun v hv' => .pure ?_
    rw [Entry.bare, Entry.bare, hv']

theorem primary_map {es : List (Entry Expr)} (s : Span) (hes : Listed Entry.Yields es ts)
    (hc : ∀ e ∈ es, e.value.Canonical) (hn : ts.length < n) :
    Reads g.limit g.primary (fun e' => e'.bare = (Expr.map es s).bare)
      (.symbol .leftBrace :: (ts ++ [.symbol .rightBrace])) rest := by
  have hitems : Reads g.limit (separated g.entry .rightBrace g.limit)
      (fun es' => es'.map Entry.bare = es.map Entry.bare) ts (.symbol .rightBrace :: rest) := by
    refine .short fun hl => separated_reads (by decide) ?_ ?_ hes hn g.limit ?_
    · intro e us rest' he hy hm hhead
      exact h.entry hy (hc e he) hm (pull_of_comma_or rfl hhead)
    · rintro e us ⟨s, hk, hv⟩
      refine ⟨_, _, rfl, ?_⟩
      rintro rfl
      cases hk
    · rw [List.length_append] at hl
      omega
  refine .here fun _ _ => .sign fun _ => hitems.bind fun es' hes' => .sign fun _ => .pure ?_
  rw [Expr.bare, Expr.bare, Expr.bareEntries_eq, Expr.bareEntries_eq, hes']

omit h in
theorem parameterNames {ps : List Identifier} (hps : Listed Identifier.Yields ps ts) (hd : Distinct ps)
    {earlier : List String} (hearlier : ∀ p ∈ ps, p.name ∉ earlier) (k : Nat) (hk : ts.length < k) :
    Reads g.limit (parameterNames earlier k)
      (fun ps' => ps'.map Identifier.bare = ps.map Identifier.bare) ts
        (.symbol .rightParen :: rest) := by
  induction hps generalizing earlier k with
  | nil =>
    cases k with
    | zero => exact .pure rfl
    | succ k => exact .isSign_found (.pure rfl)
  | @last p us hy =>
    cases k with
    | zero => exact (Nat.not_lt_zero _ hk).elim
    | succ k =>
      cases hy
      refine .isSign_missed (by simp) (.current fun here _ => ?_)
      refine (identifier_reads p).last fun p' hp' => ?_
      have hname : p'.name = p.name := (Identifier.mk.inj hp').1
      rw [hname, if_neg (hearlier p List.mem_cons_self)]
      refine .takeSign_missed (by simp) (.pure ?_)
      rw [List.map_singleton, List.map_singleton, hp']
  | @more p ps us vs hy hs ih =>
    cases k with
    | zero => exact (Nat.not_lt_zero _ hk).elim
    | succ k =>
      cases hy
      refine .isSign_missed (by simp) (.current fun here _ => ?_)
      refine (identifier_reads p).bind fun p' hp' => ?_
      have hname : p'.name = p.name := (Identifier.mk.inj hp').1
      rw [hname, if_neg (hearlier p List.mem_cons_self)]
      obtain ⟨hnew, hd'⟩ := List.nodup_cons.1 hd
      have hearlier' : ∀ q ∈ ps, q.name ∉ p.name :: earlier := by
        intro q hq hm
        rcases List.mem_cons.1 hm with he | hm
        · exact hnew (List.mem_map.2 ⟨q, hq, he⟩)
        · exact hearlier q (List.mem_cons_of_mem p hq) hm
      have hk' : vs.length < k := by
        simp only [List.length_append, List.length_cons, List.length_nil] at hk
        omega
      refine .takeSign_found ((ih hd' hearlier' k hk').last fun ps' hps' => .pure ?_)
      rw [List.map_cons, List.map_cons, hp', hps']

omit h in
theorem parameters {α : Type} {B : α → Prop} {next : List Identifier → Rule α} {us : List Token}
    {ps : List Identifier} (hps : Listed Identifier.Yields ps ts) (hd : Distinct ps)
    (hn : ∀ ps', ps'.map Identifier.bare = ps.map Identifier.bare → Reads g.limit (next ps') B us rest) :
    Reads g.limit (g.parameters >>= next) B
      (.symbol .leftParen :: (ts ++ .symbol .rightParen :: us)) rest := by
  have hnames : Reads g.limit g.parameters
      (fun ps' => ps'.map Identifier.bare = ps.map Identifier.bare)
      (.symbol .leftParen :: (ts ++ [.symbol .rightParen])) (us ++ rest) := by
    refine .sign fun _ => Reads.bind ?_ fun ps' hps' => .sign fun _ => .pure hps'
    refine .short fun hl => parameterNames hps hd (by simp) g.limit ?_
    rw [List.length_append] at hl
    omega
  have hall := hnames.bind hn
  rwa [List.cons_append, List.append_assoc] at hall

theorem primary_lambda {ps : List Identifier} {e : Expr} {us : List Token} (s : Span)
    (hps : Listed Identifier.Yields ps ts) (hd : Distinct ps) (hy : e.Yields us) (hc : e.Canonical)
    (hn : us.length < n) (hrest : pull rest = 0) :
    Reads g.limit g.primary (fun e' => e'.bare = (Expr.lambda ps e s).bare)
      (.keyword .lambda :: .symbol .leftParen :: (ts ++ .symbol .rightParen :: .symbol .fatArrow :: us))
      rest := by
  refine .here fun _ _ => .word fun _ => parameters hps hd fun ps' hps' => .sign fun _ =>
    (h.anyExpression hy hc hn hrest).last fun e' he' => .pure ?_
  rw [Expr.bare, Expr.bare, hps', he']

/-- An expression that stands there unless a sign is found that would follow it. -/
theorem maybe {α : Type} {B : α → Prop} {next : Option Expr → Rule α} {us : List Token} {sign : Symbol}
    (hlowest : (Token.symbol sign).precedence = .lowest)
    (hstart : (Token.symbol sign).startsExpression = false) {p : Option Expr}
    (hy : Maybe Expr.Yields p ts) (hc : ∀ e ∈ p, e.Canonical) (hn : ts.length < n)
    (hnext : ∀ p', p'.map Expr.bare = p.map Expr.bare →
      Reads g.limit (next p') B (.symbol sign :: us) rest) :
    Reads g.limit (isSign sign >>= fun found =>
      if found = true then pure none >>= next else some <$> g.anyExpression >>= next) B
        (ts ++ .symbol sign :: us) rest := by
  cases hy with
  | none => exact .found (isSymbol_iff.2 rfl) (hnext none rfl)
  | @some e _ hy =>
    obtain ⟨t, vs, rfl, ht⟩ := expression_head hy hstart
    refine .isSign_missed (fun he => ht (Option.some.inj he)) ?_
    have hpull : pull (.symbol sign :: us ++ rest) = 0 := pull_of_head rfl hlowest
    refine ((h.anyExpression hy (hc e rfl) hn hpull).map fun e' he' => ?_).bind hnext
    rw [Option.map_some, Option.map_some, he']

omit h in
theorem bare_input (p : Option Expr) (s : Span) :
    (Expr.input p s).bare = .input (p.map Expr.bare) default := by
  cases p <;> rw [Expr.bare] <;> rfl

theorem primary_input {p : Option Expr} (s : Span) (hy : Maybe Expr.Yields p ts) (hc : ∀ e ∈ p, e.Canonical)
    (hn : ts.length < n) :
    Reads g.limit g.primary (fun e' => e'.bare = (Expr.input p s).bare)
      (.keyword .input :: .symbol .leftParen :: (ts ++ [.symbol .rightParen])) rest := by
  refine .here fun _ _ => .word fun _ => .sign fun _ => h.maybe rfl rfl hy hc hn fun p' hp' =>
    .sign fun _ => .pure ?_
  rw [bare_input, bare_input, hp']

omit h in
theorem literal {t : Token} {value : Literal} (s : Span) (ht : t.literal? = some value) :
    Reads g.limit literal (fun e' => e'.bare = (Expr.literal value s).bare) [t] rest := by
  refine .take fun here hhere => ?_
  rw [hhere, ht]
  exact .pure rfl

/-- An operator before an operand, where the result is known to be of the right form. -/
theorem prefixed {sign : Symbol} {e : Expr} (hy : e.Yields ts) (hc : e.Canonical) (hn : ts.length < n)
    (hfits : Precedence.prefixed.rank < e.level) (hrest : pull rest ≤ Precedence.prefixed.rank)
    (hreach : pull rest ≤ e.reach) {x : Expr}
    (hx : ∀ e' s, e'.bare = e.bare →
      (sign = .plusPlus ∨ sign = .minusMinus → e'.isIdentifier = true) ∧
        (Prefixed.mk (.symbol sign) e' s).expr.bare = x.bare) :
    Reads g.limit (do return (← g.prefixed).expr) (fun e' => e'.bare = x.bare)
      (.symbol sign :: ts) rest := by
  have hread : Reads g.limit g.prefixed (fun p => p.expr.bare = x.bare) (.symbol sign :: ts) rest := by
    refine .take fun here hhere => ?_
    refine (h.expression .prefixed hy hc hn hfits hrest hreach).last fun e' he' => ?_
    obtain ⟨hid, hbare⟩ := hx e' ⟨here.span.start, e'.span.stop⟩ he'
    rw [hhere]
    have hkeep : (((Token.symbol sign).isSymbol .plusPlus ||
        (Token.symbol sign).isSymbol .minusMinus) && !e'.isIdentifier) = false := by
      cases hi : e'.isIdentifier with
      | true => simp
      | false =>
        have hsign : sign ≠ .plusPlus ∧ sign ≠ .minusMinus := by
          constructor <;> rintro rfl <;> simp [hi] at hid
        simp [Token.isSymbol, hsign.1, hsign.2]
    dsimp only
    rw [hkeep]
    exact .pure hbare
  exact hread.last fun p hp => .pure hp

omit h in
theorem expr_unary (op : UnaryOp) (e : Expr) (s : Span) :
    (Prefixed.mk (.symbol op.sign) e s).expr = .unary op e s := by
  cases op <;> rfl

omit h in
theorem expr_step (op : StepOp) (id : Identifier) (s : Span) :
    (Prefixed.mk (.symbol op.sign) (.identifier id) s).expr = .step op id s := by
  cases op <;> rfl

theorem primary_unary {op : UnaryOp} {e : Expr} (s : Span) (hy : e.Yields ts) (hc : e.Canonical)
    (hn : ts.length < n) (hs : .prefixed ≤ e.strength)
    (hrest : pull rest ≤ (Expr.unary op e s).reach) :
    Reads g.limit g.primary (fun e' => e'.bare = (Expr.unary op e s).bare)
      (.symbol op.sign :: ts) rest := by
  obtain ⟨hstop, hreach⟩ := Nat.le_min.1 hrest
  have hread : Reads g.limit (do return (← g.prefixed).expr)
      (fun e' => e'.bare = (Expr.unary op e s).bare) (.symbol op.sign :: ts) rest := by
    refine h.prefixed hy hc hn ((prefixed_le_iff e).1 hs) hstop hreach fun e' s' he' => ⟨?_, ?_⟩
    · cases op <;> rintro (hsign | hsign) <;> cases hsign
    · rw [expr_unary, Expr.bare, Expr.bare, he']
  refine .here fun _ _ => ?_
  cases op <;> exact hread

theorem primary_step {op : StepOp} (id : Identifier) (s : Span) (hn : 1 < n)
    (hrest : pull rest ≤ Precedence.prefixed.rank) :
    Reads g.limit g.primary (fun e' => e'.bare = (Expr.step op id s).bare)
      [.symbol op.sign, .identifier id.name] rest := by
  have hlevel : Precedence.prefixed.rank < (Expr.identifier id).level := Nat.lt_succ_self 14
  have hread : Reads g.limit (do return (← g.prefixed).expr)
      (fun e' => e'.bare = (Expr.step op id s).bare) [.symbol op.sign, .identifier id.name] rest := by
    refine h.prefixed (.identifier id) (.identifier id) hn hlevel hrest (pull_le_call rest)
      fun e' s' he' => ?_
    rw [Expr.bare] at he'
    obtain ⟨id', rfl, hid⟩ := Expr.bare_eq_identifier he'
    refine ⟨fun _ => rfl, ?_⟩
    rw [expr_step, Expr.bare, Expr.bare, hid]
  refine .here fun _ _ => ?_
  cases op <;> exact hread

omit h in
theorem primary_identifier (id : Identifier) :
    Reads g.limit g.primary (fun e' => e'.bare = (Expr.identifier id).bare)
      [.identifier id.name] rest := by
  refine .here fun _ _ => ?_
  refine (identifier_reads id).last fun id' hid => .pure ?_
  rw [Expr.bare, Expr.bare, hid]

omit h in
theorem primary_literal {t : Token} {value : Literal} (s : Span) (ht : t.literal? = some value) :
    Reads g.limit g.primary (fun e' => e'.bare = (Expr.literal value s).bare) [t] rest := by
  have hliteral : Reads g.limit Grammar.literal (fun e' => e'.bare = (Expr.literal value s).bare) [t] rest :=
    literal s ht
  refine .here fun _ _ => ?_
  unfold Token.literal? at ht
  split at ht <;> first | exact hliteral | cases ht

theorem assignment {id id' : Identifier} {op : Option ComputeOp} {e : Expr} (s : Span)
    (hid : id'.bare = id.bare) (hy : e.Yields ts) (hc : e.Canonical) (hn : ts.length < n)
    (hrest : pull rest = 0) :
    Reads g.limit (g.assignment op (.identifier id'))
      (fun e' => e'.bare = (Expr.assign id op e s).bare) (.symbol (.assign op) :: ts) rest := by
  refine .take fun here _ => (h.anyExpression hy hc hn hrest).last fun e' he' => .pure ?_
  rw [Expr.bare, Expr.bare, hid, he']

theorem binary {op : BinaryOp} {l l' r : Expr} (s : Span) (hl : l'.bare = l.bare) (hy : r.Yields ts)
    (hc : r.Canonical) (hn : ts.length < n) (hright : op.AllowsRight r)
    (hrest : pull rest ≤ (Expr.binary op l r s).reach) :
    Reads g.limit (g.binary op l') (fun e' => e'.bare = (Expr.binary op l r s).bare)
      (.symbol (.binary op) :: ts) rest := by
  obtain ⟨hstop, hreach⟩ := Nat.le_min.1 hrest
  refine .take fun here _ => (h.expression _ hy hc hn ((allowsRight_iff op r).1 hright) hstop
    hreach).last fun r' hr' => .pure ?_
  rw [Expr.bare, Expr.bare, hl, hr']

theorem ternary {c c' r a : Expr} {us : List Token} (s : Span) (hl : c'.bare = c.bare) (hr : r.Yields ts)
    (hcr : r.Canonical) (hnr : ts.length < n) (ha : a.Yields us) (hca : a.Canonical)
    (hna : us.length < n) (halternative : .ternary ≤ a.strength)
    (hrest : pull rest ≤ (Expr.ternary c r a s).reach) :
    Reads g.limit (g.ternary c') (fun e' => e'.bare = (Expr.ternary c r a s).bare)
      (.symbol .question :: (ts ++ .symbol .colon :: us)) rest := by
  obtain ⟨hstop, hreach⟩ := Nat.le_min.1 hrest
  refine .sign fun _ => (h.anyExpression hr hcr hnr rfl).bind fun r' hr' => .sign fun _ =>
    (h.expression _ ha hca hna ((ternary_le_iff a).1 halternative) hstop hreach).last fun a' ha' =>
      .pure ?_
  rw [Expr.bare, Expr.bare, hl, hr', ha']

theorem call {f f' : Expr} {es : List Expr} (s : Span) (hl : f'.bare = f.bare)
    (hes : Listed Expr.Yields es ts) (hc : ∀ e ∈ es, e.Canonical) (hn : ts.length < n) :
    Reads g.limit (g.call f') (fun e' => e'.bare = (Expr.call f es s).bare)
      (.symbol .leftParen :: (ts ++ [.symbol .rightParen])) rest := by
  refine .sign fun _ => (h.expressions (.inr rfl) hes hc hn).last fun p hp => .pure ?_
  rw [Expr.bare, Expr.bare, hl, hp]

theorem index {e e' k : Expr} (s : Span) (hl : e'.bare = e.bare) (hy : k.Yields ts) (hc : k.Canonical)
    (hn : ts.length < n) :
    Reads g.limit (g.index e') (fun x => x.bare = (Expr.index e k s).bare)
      (.symbol .leftBracket :: (ts ++ [.symbol .rightBracket])) rest := by
  refine .sign fun _ => (h.anyExpression hy hc hn rfl).bind fun k' hk' => .sign fun _ => .pure ?_
  rw [Expr.bare, Expr.bare, hl, hk']

omit h in
theorem member {e e' : Expr} (id : Identifier) (s : Span) (hl : e'.bare = e.bare) :
    Reads g.limit (member e') (fun x => x.bare = (Expr.member e id s).bare)
      [.symbol .dot, .identifier id.name] rest := by
  refine .sign fun _ => (identifier_reads id).attempt.last fun name hname => ?_
  obtain ⟨id', rfl, hid⟩ := hname
  refine .pure ?_
  rw [Expr.bare, Expr.bare, hl, hid]

/-- The rule for what opens an expression and some rounds after it come to the end of the expression. -/
def Grows (g : Grammar) (bound : Precedence) (e : Expr) (ts rest : List Token) : Prop :=
  ∀ (Kept : Reader → Prop) r k, r.Sees g.limit Kept (ts ++ rest) → ts.length ≤ k → ∃ e' r' j,
    e'.bare = e.bare ∧ r'.Sees g.limit Kept rest ∧ k ≤ j + ts.length ∧
      (g.primary >>= g.extend bound k) r = g.extend bound j e' r'

omit h in
theorem grows_primary {bound : Precedence} {e : Expr}
    (hread : Reads g.limit g.primary (fun e' => e'.bare = e.bare) ts rest) :
    Grows g bound e ts rest := by
  intro Kept r k hr _
  obtain ⟨e', r', he, hb, hr'⟩ := hread Kept r hr
  refine ⟨e', r', k, hb, hr', Nat.le_add_right _ _, ?_⟩
  simp only [Bind.bind, EStateM.bind, he]

omit h in
/-- One more round, with the rule that the token behind the expression asks for. -/
theorem grows_round {bound : Precedence} {l e : Expr} {t : Token} {us : List Token}
    {rule : Expr → Rule Expr} (hl : Grows g bound l ts (t :: (us ++ rest)))
    (hround : ∀ k left (r : Reader), r.current.content = t →
      g.extend bound (k + 1) left r = (rule left >>= g.extend bound k) r)
    (hrule : ∀ l', l'.bare = l.bare →
      Reads g.limit (rule l') (fun e' => e'.bare = e.bare) (t :: us) rest) :
    Grows g bound e (ts ++ t :: us) rest := by
  intro Kept r k hr hk
  rw [List.append_assoc] at hr
  rw [List.length_append, List.length_cons] at hk ⊢
  obtain ⟨l', r', j, hb, hr', hj, he⟩ := hl Kept r k hr (by omega)
  obtain ⟨i, rfl⟩ : ∃ i, j = i + 1 := ⟨j - 1, by omega⟩
  obtain ⟨e', r'', he', hb', hr''⟩ := hrule l' hb Kept r' hr'
  refine ⟨e', r'', i, hb', hr'', by omega, ?_⟩
  rw [he, hround _ _ _ hr'.current]
  simp only [Bind.bind, EStateM.bind, he']

omit h in
/-- A token that binds tighter than the bound gets its round. -/
theorem extend_of_lt {bound : Precedence} {t : Token} (hbound : bound < t.precedence) (k : Nat)
    (left : Expr) (r : Reader) (hr : r.current.content = t) :
    g.extend bound (k + 1) left r =
      (match t with
      | .symbol (.assign op) => g.assignment op left >>= g.extend bound k
      | .symbol (.binary op) => g.binary op left >>= g.extend bound k
      | .symbol .question => g.ternary left >>= g.extend bound k
      | .symbol .leftParen => g.call left >>= g.extend bound k
      | .symbol .leftBracket => g.index left >>= g.extend bound k
      | .symbol .dot => Grammar.member left >>= g.extend bound k
      | _ => pure left) r := by
  subst hr
  show (if bound < r.current.content.precedence then (_ : Rule Expr) else _) r = _
  exact congrFun (if_pos hbound) r

/-- Every canonical expression that holds tighter than the bound is grown from what opens it. -/
theorem grows {bound : Precedence} : ∀ {e : Expr} {ts rest : List Token}, e.Yields ts → e.Canonical →
    ts.length ≤ n → bound.rank < e.level → pull rest ≤ e.reach → Grows g bound e ts rest
  | .identifier id, _, _, hy, _, _, _, _ => by
    cases hy
    exact grows_primary (primary_identifier id)
  | .literal value s, _, _, hy, _, _, _, _ => by
    cases hy with
    | literal _ ht => exact grows_primary (primary_literal s ht)
  | .unary op e s, _, _, hy, hc, hn, _, hrest => by
    cases hy with
    | unary _ _ he =>
      cases hc with
      | unary _ _ hce hs => exact grows_primary (h.primary_unary s he hce hn hs hrest)
  | .step op id s, _, _, hy, _, hn, _, hrest => by
    cases hy
    exact grows_primary (h.primary_step id s hn hrest)
  | .list es s, _, _, hy, hc, hn, _, _ => by
    cases hy with
    | list _ hes =>
      cases hc with
      | list _ hces =>
        simp only [List.length_cons, List.length_append] at hn
        exact grows_primary (h.primary_list s hes hces (by omega))
  | .map es s, _, _, hy, hc, hn, _, _ => by
    cases hy with
    | map _ hes =>
      cases hc with
      | map _ hces =>
        simp only [List.length_cons, List.length_append] at hn
        exact grows_primary (h.primary_map s hes hces (by omega))
  | .lambda ps e s, _, _, hy, hc, hn, _, hrest => by
    cases hy with
    | lambda _ hps he =>
      cases hc with
      | lambda _ hd hce =>
        simp only [List.length_cons, List.length_append] at hn
        exact grows_primary (h.primary_lambda s hps hd he hce (by omega) (Nat.le_zero.1 hrest))
  | .input p s, _, _, hy, hc, hn, _, _ => by
    cases hy with
    | input _ hp =>
      cases hc with
      | input _ hcp =>
        simp only [List.length_cons, List.length_append] at hn
        exact grows_primary (h.primary_input s hp hcp (by omega))
  | .nested e s, _, _, hy, hc, hn, _, _ => by
    cases hy with
    | nested _ he =>
      cases hc with
      | nested _ hce =>
        simp only [List.length_cons, List.length_append] at hn
        exact grows_primary (h.primary_nested s he hce (by omega))
  | .assign id op e s, _, _, hy, hc, hn, hfits, hrest => by
    cases hy with
    | assign _ _ _ he =>
      cases hc with
      | assign _ _ _ hce =>
        simp only [List.length_cons] at hn
        refine grows_round (grows_primary (primary_identifier id)) (extend_of_lt hfits) ?_
        intro l' hl'
        rw [Expr.bare] at hl'
        obtain ⟨id', rfl, hid⟩ := Expr.bare_eq_identifier hl'
        exact h.assignment s hid he hce (by omega) (Nat.le_zero.1 hrest)
  | .binary op l r s, _, _, hy, hc, hn, hfits, hrest => by
    cases hy with
    | binary _ _ hl hr =>
      cases hc with
      | binary _ hcl hcr hleft hright hclosed =>
        simp only [List.length_append, List.length_cons] at hn
        have hlevel : op.precedence.rank ≤ l.level :=
          Nat.le_trans ((op.allowsLeft_iff l).1 hleft).1 l.strength_le_level
        refine grows_round (grows hl hcl (by omega) ?_ ?_) (extend_of_lt hfits) fun l' hl' =>
          h.binary s hl' hr hcr (by omega) hright hrest
        · exact Nat.lt_of_lt_of_le hfits hlevel
        · exact (hcl.le_reach_iff op).2 ⟨hclosed, hleft⟩
  | .ternary c r a s, _, _, hy, hc, hn, hfits, hrest => by
    cases hy with
    | ternary _ hyc hyr hya =>
      cases hc with
      | ternary _ hcc hcr hca hcondition hclosed halternative =>
        simp only [List.length_append, List.length_cons] at hn
        have hlevel : Precedence.ternary.rank ≤ c.level :=
          Nat.le_trans (Nat.le_of_lt hcondition) c.strength_le_level
        refine grows_round (grows hyc hcc (by omega) ?_ ?_) (extend_of_lt hfits) fun c' hc' =>
          h.ternary s hc' hyr hcr (by omega) hya hca (by omega) halternative hrest
        · exact Nat.lt_of_lt_of_le hfits hlevel
        · exact hcc.question_le_reach_iff.2 ⟨hclosed, hcondition⟩
  | .call f es s, _, _, hy, hc, hn, hfits, _ => by
    cases hy with
    | call _ hf hes =>
      cases hc with
      | call _ hcf hbase hces =>
        simp only [List.length_append, List.length_cons] at hn
        refine grows_round (grows hf hcf (by omega) ?_ ?_) (extend_of_lt hfits) fun f' hf' =>
          h.call s hf' hes hces (by omega)
        · rw [Expr.level_of_isBase hbase]
          exact hfits
        · exact f.call_le_reach_iff.2 hbase
  | .member e id s, _, _, hy, hc, hn, hfits, _ => by
    cases hy with
    | member _ _ he =>
      cases hc with
      | member _ _ hce hbase =>
        simp only [List.length_append, List.length_cons] at hn
        refine grows_round (grows he hce (by omega) ?_ ?_) (extend_of_lt hfits) fun e' he' =>
          member id s he'
        · rw [Expr.level_of_isBase hbase]
          exact hfits
        · exact e.call_le_reach_iff.2 hbase
  | .index e k s, _, _, hy, hc, hn, hfits, _ => by
    cases hy with
    | index _ he hk =>
      cases hc with
      | index _ hce hbase hck =>
        simp only [List.length_append, List.length_cons] at hn
        refine grows_round (grows he hce (by omega) ?_ ?_) (extend_of_lt hfits) fun e' he' =>
          h.index s he' hk hck (by omega)
        · rw [Expr.level_of_isBase hbase]
          exact hfits
        · exact e.call_le_reach_iff.2 hbase

omit h in
/-- The loop over operators ends at a token that binds no tighter than the bound. -/
theorem extend_stops {bound : Precedence} {e : Expr} {Kept : Reader → Prop} {r : Reader} (k : Nat)
    (hr : r.Sees g.limit Kept rest) (hrest : pull rest ≤ bound.rank) :
    g.extend bound k e r = .ok e r := by
  cases k with
  | zero => rfl
  | succ k =>
    have hstop : ¬bound < r.current.content.precedence := by
      rw [hr.current]
      exact Nat.not_lt_of_le hrest
    show (if bound < r.current.content.precedence then (_ : Rule Expr) else pure e) r = _
    rw [if_neg hstop]
    rfl

theorem expressionRule {e : Expr} (bound : Precedence) (hy : e.Yields ts) (hc : e.Canonical)
    (hn : ts.length ≤ n) (hfits : bound.rank < e.level) (hstop : pull rest ≤ bound.rank)
    (hreach : pull rest ≤ e.reach) :
    Reads g.limit (g.expressionRule bound) (fun e' => e'.bare = e.bare) ts rest := by
  intro Kept r hr
  have hk : ts.length ≤ g.limit := by
    have hshort := hr.short
    rw [List.length_append] at hshort
    omega
  obtain ⟨e', r', j, hb, hr', -, he⟩ := h.grows hy hc hn hfits hreach Kept r g.limit hr hk
  exact ⟨e', r', he.trans (extend_stops j hr' hstop), hb, hr'⟩

end Complete
end Grammar
end Scriptlet
