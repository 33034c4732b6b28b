import Scriptlet.Proofs.Syntax.Acceptance
import Scriptlet.Proofs.Syntax.Laying
import Scriptlet.Proofs.Syntax.Positions
import Scriptlet.Proofs.Syntax.Recovery

/-! The ranges of what is read. Whatever the rules of the grammar read, with or without errors on the way,
lies in the tokens that they took as its layout says; so every node has the range from the start of its first
token to the end of its last one. -/
namespace Scriptlet

open Layout Rule

namespace Grammar

/-- What the grammar reads lies in the tokens that were taken. -/
structure LaysOut (source : String) (g : Grammar) : Prop where
  expression : ∀ bound, Lays source g.limit (g.expression bound) fun e ts => e.layout.Occupies ts
  statement : Lays source g.limit g.statement fun s ts => s.layout.Occupies ts

namespace LaysOut

variable {source : String} {g : Grammar} (h : g.LaysOut source)
include h

theorem expressions (close : Symbol) : Lays source g.limit (g.expressions close) fun x ts =>
    ∃ us vs, ts = us ++ vs ∧ Occupy (listed (Expr.layouts x.1)) us ∧ Marked (sign close) x.2 vs := by
  refine (separated_lays (h.expression _) close g.limit).bind fun es => (expectSign_lays close).bind
    fun stop => .pure ?_
  rintro vs hvs us hus
  rw [Expr.layouts_eq]
  exact ⟨us, vs, by rw [List.append_nil], hus, hvs⟩

omit h in
theorem literal : Lays source g.limit literal fun e ts => e.layout.Occupies ts := by
  intro r
  refine (take_reading Token.literal? rfl r).follow fun t r₁ ts hs ht => ?_
  split
  · next value hvalue =>
    refine .pure ?_
    obtain ⟨htoken, hcovers⟩ := ht.2 value hvalue
    rw [List.append_nil]
    exact .phrase hcovers (.single htoken)
  · exact .throw ⟨rfl, ht.1⟩

theorem nested : Lays source g.limit g.nested fun e ts => e.layout.Occupies ts := by
  refine .inRow ((expectSign_lays _).bind fun start => (h.expression _).bind fun e =>
    (expectSign_lays _).bind fun stop => .pure ?_)
  rintro _ ⟨hclose, hstop⟩ _ he _ ⟨hopen, hstart⟩ hrow -
  exact .phrase (hrow.across hstart hstop (by simp)) (.cons hopen (.cons he (.cons hclose .nil)))

theorem list : Lays source g.limit g.list fun e ts => e.layout.Occupies ts := by
  refine .inRow ((expectSign_lays _).bind fun start => (h.expressions _).bind fun (es, stop) => .pure ?_)
  rintro _ ⟨us, vs, rfl, hes, hclose, hstop⟩ _ ⟨hopen, hstart⟩ hrow -
  refine .phrase (hrow.across hstart hstop (by simp)) ?_
  rw [List.append_nil]
  exact .cons hopen (hes.append (.single hclose))

theorem entry : Lays source g.limit g.entry fun e ts => e.layout.Occupies ts := by
  intro r
  refine .inRow ((take_reading Token.name? rfl r).follow fun key r₁ ts hs hkey => ?_)
  split
  · next name hname =>
    obtain ⟨htoken, hstart⟩ := hkey.2 name hname
    refine ((expectSign_lays _).bind fun _ => (h.expression _).bind fun value => .pure ?_) r₁
    rintro _ hvalue _ ⟨hcolon, -⟩ hrow -
    have hstop := hvalue.covers value.layout_span?
    exact .phrase (hrow.across hstart hstop (by simp)) (.cons htoken (.cons hcolon (.cons hvalue .nil)))
  · exact .throw ⟨rfl, hkey.1⟩

theorem map : Lays source g.limit g.map fun e ts => e.layout.Occupies ts := by
  refine .inRow ((expectSign_lays _).bind fun start => (separated_lays h.entry _ _).bind fun es =>
    (expectSign_lays _).bind fun stop => .pure ?_)
  rintro _ ⟨hclose, hstop⟩ _ hes _ ⟨hopen, hstart⟩ hrow -
  refine .phrase (hrow.across hstart hstop (by simp)) ?_
  rw [List.append_nil, Expr.entryLayouts_eq]
  exact .cons hopen (hes.append (.single hclose))

omit h in
theorem parameterNames (earlier : List String) (n : Nat) :
    Lays source g.limit (parameterNames earlier n) fun ps ts =>
      Occupy (listed (ps.map Identifier.layout)) ts := by
  induction n generalizing earlier with
  | zero => exact .pure .nil
  | succ n ih =>
    refine .check fun stops => ?_
    split
    · exact .pure .nil
    · refine fun r => .current ((identifier_lays r).follow fun id r₁ ts hs hid => ?_)
      split
      · exact .throw ⟨rfl, hs.inText hid.2⟩
      · refine ((takeSign_lays .comma).bind fun more => ?_) r₁
        cases more with
        | true =>
          refine (ih (id.name :: earlier)).bind fun ps => .pure ?_
          rintro us hus cs hcs
          have hcomma : (sign .comma).Occupies cs := by simpa using hcs
          exact (listed_more hid.1 hcomma hus)
        | false =>
          refine .pure ?_
          rintro cs hcs
          obtain rfl : cs = [] := by simpa using hcs
          exact .cons hid.1 (.cons (.own (.inl rfl)) .nil)

omit h in
theorem parameters : Lays source g.limit g.parameters fun ps ts => Occupy (parameterLayouts ps) ts := by
  refine (expectSign_lays _).bind fun _ => (parameterNames [] g.limit).bind fun ps =>
    (expectSign_lays _).bind fun _ => .pure ?_
  rintro _ ⟨hclose, -⟩ _ hps _ ⟨hopen, -⟩
  rw [List.append_nil]
  exact .cons hopen (hps.append (.single hclose))

theorem lambda : Lays source g.limit g.lambda fun e ts => e.layout.Occupies ts := by
  refine .inRow ((expectWord_lays _).bind fun start => parameters.bind fun ps =>
    (expectSign_lays _).bind fun _ => (h.expression _).bind fun e => .pure ?_)
  rintro _ he _ ⟨harrow, -⟩ _ hps _ ⟨hword, hstart⟩ hrow -
  have hstop := he.covers e.layout_span?
  exact .phrase (hrow.across hstart hstop (by simp [← List.append_assoc]))
    (.cons hword (hps.append (.cons harrow (.cons he .nil))))

/-- An expression that stands there unless a test finds what would follow it. -/
theorem maybe {α : Type} {test : Bool} {next : Option Expr → Rule α} {S : α → List (Located Token) → Prop}
    (hn : ∀ p, Lays source g.limit (next p) fun a us => ∀ ts,
      Occupy (Expr.layoutOption p) ts → S a (ts ++ us)) :
    Lays source g.limit
      (if test = true then pure none >>= next else some <$> g.anyExpression >>= next) S := by
  cases test with
  | true =>
    have hnone : Lays source g.limit (pure none) fun p ts => Occupy (Expr.layoutOption p) ts := .pure .nil
    exact hnone.bind hn
  | false =>
    have hsome : Lays source g.limit (some <$> g.anyExpression) fun p ts =>
        Occupy (Expr.layoutOption p) ts := .map ((h.expression _).mono fun _ _ he => .single he)
    exact hsome.bind hn

theorem input : Lays source g.limit g.input fun e ts => e.layout.Occupies ts := by
  refine .inRow ((expectWord_lays _).bind fun start => (expectSign_lays _).bind fun _ => .check fun _ =>
    h.maybe fun p => (expectSign_lays _).bind fun stop => .pure ?_)
  rintro _ ⟨hclose, hstop⟩ _ hp _ ⟨hopen, -⟩ _ ⟨hword, hstart⟩ hrow -
  have hcovers := hrow.across hstart hstop (by simp [← List.append_assoc])
  have hpieces : Occupy (word .input :: sign .leftParen :: (Expr.layoutOption p ++ [sign .rightParen])) _ :=
    .cons hword (.cons hopen (hp.append (.cons hclose .nil)))
  cases p with
  | none => exact .phrase hcovers hpieces
  | some e => exact .phrase hcovers hpieces

/-- The operators before operands. -/
theorem prefixed {r : Reader} {s : Symbol} (hr : r.current.content = .symbol s) :
    LaysAt source g.limit r g.prefixed fun p ts => ∃ us vs, ts = us ++ vs ∧ (sign s).Occupies us ∧
      p.operator = .symbol s ∧ p.operand.layout.Occupies vs ∧ p.span.Covers ts ∧
      (s = .plusPlus ∨ s = .minusMinus → p.operand.isIdentifier = true) := by
  refine (take_token hr rfl).follow fun operator r₁ us hs hoperator => ?_
  obtain ⟨rfl, hsign, hstart⟩ := hoperator
  refine (h.expression _ r₁).follow fun operand r₂ vs hs' hoperand => ?_
  have hstop := hoperand.covers operand.layout_span?
  dsimp only
  split
  · exact .throw ⟨rfl, hs'.inText hstop⟩
  · next hchanges =>
    refine .pure ⟨us, vs, by simp, hsign, hr, hoperand, ?_, fun hsteps => ?_⟩
    · exact hstart.join hstop (List.prefix_append _ _) (by simp)
    rw [hr] at hchanges
    cases hid : operand.isIdentifier with
    | true => rfl
    | false => rcases hsteps with rfl | rfl <;> simp [Token.isSymbol, hid] at hchanges

theorem prefixedExpr {r : Reader} {s : Symbol} (hr : r.current.content = .symbol s)
    (hs : s ∈ [.bang, .tilde, .plusPlus, .minusMinus, .binary (.compute .subtract)]) :
    LaysAt source g.limit r (do return (← g.prefixed).expr) fun e ts => e.layout.Occupies ts := by
  refine (h.prefixed hr).bind fun p => .pure ?_
  rintro _ ⟨us, vs, rfl, hsign, hoperator, hoperand, hcovers, hid⟩
  obtain ⟨operator, operand, span⟩ := p
  rw [List.append_nil]
  subst hoperator
  have hpieces := Occupy.cons hsign (.single hoperand)
  simp only [List.mem_cons, List.not_mem_nil, or_false] at hs
  rcases hs with rfl | rfl | rfl | rfl | rfl
  · exact .phrase hcovers hpieces
  · exact .phrase hcovers hpieces
  · cases operand with
    | identifier id => exact .phrase hcovers hpieces
    | _ => cases hid (.inl rfl)
  · cases operand with
    | identifier id => exact .phrase hcovers hpieces
    | _ => cases hid (.inr rfl)
  · exact .phrase hcovers hpieces

theorem primary : Lays source g.limit g.primary fun e ts => e.layout.Occupies ts := by
  intro r
  refine .current ?_
  split
  · refine (identifier_lays r).bind fun id => .pure ?_
    rintro ts ⟨hid, -⟩
    rw [List.append_nil]
    exact hid
  iterate 7 exact literal r
  iterate 5
    · next hr => exact h.prefixedExpr hr (by simp)
  · exact h.nested r
  · exact h.list r
  · exact h.map r
  · exact h.input r
  · exact h.lambda r
  · exact failHere_lays rfl r
  · exact failHere_lays rfl r

/-! What extends an expression. The expression that is there has taken the tokens up to the reader. -/

section extensions

variable {r₀ r : Reader} {ts : List (Located Token)} {left : Expr}

omit h in
/-- The tokens from the start of the expression on are one behind the other. -/
theorem extended (hs : r₀.Spends source r ts) {rule : Rule Expr}
    (hrule : LaysAt source g.limit r rule fun e us => InRow (ts ++ us) → e.layout.Occupies (ts ++ us)) :
    LaysAt source g.limit r rule fun e us => e.layout.Occupies (ts ++ us) := by
  intro hfits hr hl
  have hresult := hrule hfits hr hl
  split at hresult
  · obtain ⟨us, hs', he⟩ := hresult
    exact ⟨us, hs', he (hs.trans hs').inRow⟩
  · exact hresult

variable (hs : r₀.Spends source r ts) (hleft : left.layout.Occupies ts)
include hs hleft

theorem assignment {op : Option ComputeOp} (hr : r.current.content = .symbol (.assign op)) :
    LaysAt source g.limit r (g.assignment op left) fun e us => e.layout.Occupies (ts ++ us) := by
  have hstart := hleft.covers left.layout_span?
  cases left with
  | identifier target =>
    refine extended hs ((take_token hr rfl).bind fun _ => (h.expression _).bind fun value => .pure ?_)
    rintro _ hvalue _ ⟨-, hsign, -⟩ hrow
    have hstop := hvalue.covers value.layout_span?
    exact .phrase (hrow.across hstart hstop (by simp)) (.cons hleft (.cons hsign (.cons hvalue .nil)))
  | _ => exact .current (.throw ⟨rfl, hs.inText hstart⟩)

omit hs in
theorem binary {op : BinaryOp} (hr : r.current.content = .symbol (.binary op)) :
    LaysAt source g.limit r (g.binary op left) fun e us => e.layout.Occupies (ts ++ us) := by
  refine (take_token hr rfl).bind fun _ => (h.expression _).bind fun right => .pure ?_
  rintro _ hright _ ⟨-, hsign, -⟩
  have hstart := hleft.covers left.layout_span?
  have hstop := hright.covers right.layout_span?
  refine .phrase (hstart.join hstop (List.prefix_append _ _) ?_)
    (.cons hleft (.cons hsign (.cons hright .nil)))
  simp [← List.append_assoc]

theorem ternary : LaysAt source g.limit r (g.ternary left) fun e us => e.layout.Occupies (ts ++ us) := by
  refine extended hs ((expectSign_lays _ r).bind fun _ => (h.expression _).bind fun resolution =>
    (expectSign_lays _).bind fun _ => (h.expression _).bind fun alternative => .pure ?_)
  rintro _ halternative _ ⟨hcolon, -⟩ _ hresolution _ ⟨hquestion, -⟩ hrow
  have hstart := hleft.covers left.layout_span?
  have hstop := halternative.covers alternative.layout_span?
  exact .phrase (hrow.across hstart hstop (by simp [← List.append_assoc]))
    (.cons hleft (.cons hquestion (.cons hresolution (.cons hcolon (.cons halternative .nil)))))

theorem call : LaysAt source g.limit r (g.call left) fun e us => e.layout.Occupies (ts ++ us) := by
  refine extended hs ((expectSign_lays _ r).bind fun _ => (h.expressions _).bind fun (es, stop) => .pure ?_)
  rintro _ ⟨us, vs, rfl, hes, hclose, hstop⟩ _ ⟨hopen, -⟩ hrow
  have hstart := hleft.covers left.layout_span?
  refine .phrase (hrow.across hstart hstop (by simp [← List.append_assoc])) ?_
  rw [List.append_nil]
  exact .cons hleft (.cons hopen (hes.append (.single hclose)))

theorem index : LaysAt source g.limit r (g.index left) fun e us => e.layout.Occupies (ts ++ us) := by
  refine extended hs ((expectSign_lays _ r).bind fun _ => (h.expression _).bind fun key =>
    (expectSign_lays _).bind fun stop => .pure ?_)
  rintro _ ⟨hclose, hstop⟩ _ hkey _ ⟨hopen, -⟩ hrow
  have hstart := hleft.covers left.layout_span?
  exact .phrase (hrow.across hstart hstop (by simp [← List.append_assoc]))
    (.cons hleft (.cons hopen (.cons hkey (.cons hclose .nil))))

omit h in
theorem member : LaysAt source g.limit r (member left) fun e us => e.layout.Occupies (ts ++ us) := by
  refine extended hs ((expectSign_lays _ r).follow fun _ r₁ us _ hdot => ?_)
  refine (identifier_lays r₁).attempt.follow fun name r₂ vs _ hname => ?_
  cases name with
  | error e => exact .throw ⟨rfl, (hname.2 e rfl).inText⟩
  | ok id =>
    refine .pure fun hrow => ?_
    obtain ⟨hid, hstop⟩ := hname.1 id rfl
    have hstart := hleft.covers left.layout_span?
    exact .phrase (hrow.across hstart hstop (by simp)) (.cons hleft (.cons hdot.1 (.cons hid .nil)))

end extensions

theorem extend (bound : Precedence) (n : Nat) {r₀ r : Reader} {ts : List (Located Token)} {left : Expr}
    (hs : r₀.Spends source r ts) (hleft : left.layout.Occupies ts) :
    LaysAt source g.limit r (g.extend bound n left) fun e us => e.layout.Occupies (ts ++ us) := by
  induction n generalizing r ts left with
  | zero =>
    refine .pure ?_
    rw [List.append_nil]
    exact hleft
  | succ n ih =>
    have hround {rule : Rule Expr}
        (hrule : LaysAt source g.limit r rule fun e us => e.layout.Occupies (ts ++ us)) :
        LaysAt source g.limit r (rule >>= g.extend bound n) fun e us => e.layout.Occupies (ts ++ us) := by
      refine hrule.follow fun e r₁ us hs' he => (ih (hs.trans hs') he).mono fun e' vs he' => ?_
      rw [← List.append_assoc]
      exact he'
    have hend : LaysAt source g.limit r (pure left) fun e us => e.layout.Occupies (ts ++ us) := by
      refine .pure ?_
      rw [List.append_nil]
      exact hleft
    refine .current ?_
    split
    · split
      · next hr => exact hround (h.assignment hs hleft hr)
      · next hr => exact hround (h.binary hleft hr)
      · exact hround (h.ternary hs hleft)
      · exact hround (h.call hs hleft)
      · exact hround (h.index hs hleft)
      · exact hround (member hs hleft)
      · exact hend
    · exact hend

theorem expressionRule (bound : Precedence) :
    Lays source g.limit (g.expressionRule bound) fun e ts => e.layout.Occupies ts :=
  fun r => (h.primary r).follow fun _ _ _ hs hleft => h.extend bound g.limit hs hleft

theorem binding (kind : DeclarationKind) :
    Lays source g.limit (g.binding kind) fun b ts => Occupy b.layouts ts := by
  refine identifier_lays.bind fun id => (takeSign_lays _).bind fun given => ?_
  cases given with
  | true =>
    refine (h.expression _).bind fun e => .pure ?_
    rintro _ he _ hsign _ ⟨hid, -⟩
    exact .cons hid (.cons (by simpa using hsign) (.cons he .nil))
  | false =>
    cases hconstant : kind.isConstant with
    | true => exact failHere_lays rfl
    | false =>
      refine .pure ?_
      rintro cs hcs _ ⟨hid, -⟩
      obtain rfl : cs = [] := by simpa using hcs
      exact .cons hid .nil

theorem declaration : Lays source g.limit g.declaration fun d ts => d.layout.Occupies ts := by
  intro r
  refine .inRow ((take_reading Token.declarationKind? rfl r).follow fun word r₁ ts hs hword => ?_)
  split
  · next kind hkind =>
    obtain ⟨htoken, hstart⟩ := hword.2 kind hkind
    refine ((sequence_lays (h.binding kind) (Nat.le_refl _)).bind fun bs => semicolon_lays.bind
      fun stop => .pure ?_) r₁
    rintro _ ⟨hsemicolon, hstop⟩ _ hbs hrow -
    exact .phrase (hrow.across hstart hstop (by simp)) (.cons htoken (hbs.append (.cons hsemicolon .nil)))
  · exact .throw ⟨rfl, hword.1⟩

omit h in
theorem synchronize (n : Nat) : Lays source g.limit (synchronize n) fun _ _ => True := by
  induction n with
  | zero => exact .pure trivial
  | succ n ih =>
    refine fun r => .get ?_
    dsimp only
    split
    · exact .pure trivial
    · exact (LaysAt.of_agree take_any).bind fun _ => ih.mono fun _ _ _ _ _ => trivial

omit h in
theorem recover {r : Reader} (start : Span) {e : ParseError} (he : ParseError.Placed source e) :
    LaysAt source g.limit r (g.recover start e) fun _ _ => True := by
  refine (LaysAt.of_agree (report_agrees he)).bind fun _ => (synchronize g.limit).bind fun _ r => .get ?_
  split
  · refine (LaysAt.of_agree take_any).bind fun _ => (synchronize g.limit).mono ?_
    exact fun _ _ _ _ _ _ _ _ _ => trivial
  · exact .pure fun _ _ _ _ => trivial

omit h in
/-- More tokens may be skipped before the pieces. -/
theorem scattered_skip {ps : List Layout} {ts us : List (Located Token)} (h : Occupy (scattered ps) us) :
    Occupy (scattered ps) (ts ++ us) := by
  cases ps with
  | nil =>
    cases h with
    | cons h hs =>
      rw [← List.append_assoc]
      exact .cons (.own trivial) hs
  | cons p ps =>
    cases h with
    | cons h hs =>
      rw [← List.append_assoc]
      exact .cons (.own trivial) hs

theorem statements (stop : Token → Bool) (n : Nat) : Lays source g.limit (g.statements stop n) fun ss ts =>
    Occupy (scattered (Stmt.layouts ss)) ts := by
  induction n with
  | zero => exact .pure (.single (.own trivial))
  | succ n ih =>
    refine fun r => .current ?_
    split
    · exact .pure (.single (.own trivial))
    · refine LaysAt.follow (P := fun _ ts => ts = []) ?_ fun _ r₁ ts hs hts => ?_
      · exact fun hfits hr _ => ⟨[], ⟨hfits, hr, (calm_agrees hr).2.1, rfl⟩, rfl⟩
      · subst hts
        refine (h.statement r₁).attempt.follow fun result r₂ us hs' hresult => ?_
        cases result with
        | ok s =>
          refine (ih.bind fun ss => .pure ?_) r₂
          rintro vs hvs
          rw [List.append_nil]
          exact .cons (.own trivial) (.cons (hresult.1 s rfl) hvs)
        | error e =>
          refine (recover _ (hresult.2 e rfl)).follow fun _ r₃ vs hs'' _ => (ih r₃).mono fun ss ws hws => ?_
          rw [List.nil_append]
          exact scattered_skip (scattered_skip hws)

theorem block : Lays source g.limit g.block fun b ts => b.layout.Occupies ts := by
  refine .inRow ((expectSign_lays _).bind fun start => (h.statements _ _).bind fun ss =>
    (expectSign_lays _).bind fun stop => .pure ?_)
  rintro _ ⟨hclose, hstop⟩ _ hss _ ⟨hopen, hstart⟩ hrow -
  exact .phrase (hrow.across hstart hstop (by simp)) (.cons hopen (hss.append (.cons hclose .nil)))

theorem function : Lays source g.limit g.function fun f ts => f.layout.Occupies ts := by
  refine .inRow ((expectWord_lays _).bind fun start => identifier_lays.bind fun id => parameters.bind
    fun ps => h.block.bind fun b => .pure ?_)
  rintro _ hb _ hps _ ⟨hid, -⟩ _ ⟨hword, hstart⟩ hrow -
  have hstop := hb.covers b.layout_span?
  exact .phrase (hrow.across hstart hstop (by simp [← List.append_assoc]))
    (.cons hword (.cons hid (hps.append (.cons hb .nil))))

theorem classMember : Lays source g.limit g.classMember fun m ts => m.layout.Occupies ts := by
  intro r
  refine .current ?_
  split
  · refine (h.declaration r).bind fun d => .pure fun ts hd => ?_
    rw [List.append_nil]
    exact hd
  · split
    · refine (h.function r).bind fun f => .pure fun ts hf => ?_
      rw [List.append_nil]
      exact hf
    · exact failExpecting_lays _ r

theorem class_ : Lays source g.limit g.class_ fun s ts => s.layout.Occupies ts := by
  refine .inRow ((expectWord_lays _).bind fun start => identifier_lays.bind fun id => ?_)
  refine optional_lays (Y := fun p ts => Occupy (p.elim [] fun i => [word .extends_, i.layout]) ts)
    (identifier_lays.mono fun i ts hi ws hws => .cons hws (.single hi.1)) .nil fun p => ?_
  refine (expectSign_lays _).bind fun _ => (repeated_lays h.classMember _ _).bind fun ms =>
    (expectSign_lays _).bind fun stop => .pure ?_
  rintro _ ⟨hclose, hstop⟩ _ hms _ ⟨hopen, -⟩ _ hp _ ⟨hid, -⟩ _ ⟨hword, hstart⟩ hrow -
  have hcovers := hrow.across hstart hstop (by simp [← List.append_assoc])
  rw [← memberLayouts_eq] at hms
  have hpieces : Occupy (word .class_ :: id.layout :: ((p.elim [] fun i => [word .extends_, i.layout]) ++
      sign .leftBrace :: (memberLayouts ms ++ [sign .rightBrace]))) _ :=
    .cons hword (.cons hid (hp.append (.cons hopen (hms.append (.cons hclose .nil)))))
  cases p with
  | none => exact .phrase hcovers hpieces
  | some i => exact .phrase hcovers hpieces

theorem bracketed : Lays source g.limit g.bracketed fun e ts => Occupy e.bracketedLayouts ts := by
  refine (expectSign_lays _).bind fun _ => (h.expression _).bind fun e => (expectSign_lays _).bind
    fun _ => .pure ?_
  rintro _ ⟨hclose, -⟩ _ he _ ⟨hopen, -⟩
  exact .cons hopen (.cons he (.cons hclose .nil))

theorem conditional : Lays source g.limit g.conditional fun s ts => s.layout.Occupies ts := by
  refine .inRow ((expectWord_lays _).bind fun start => h.bracketed.bind fun c => h.statement.bind fun r =>
    (takeWord_lays _).bind fun more => ?_)
  cases more with
  | true =>
    refine h.statement.bind fun a => .pure ?_
    rintro _ ha _ helse _ hr _ hc _ ⟨hword, hstart⟩ hrow -
    have hstop := ha.covers a.layout_span?
    exact .phrase (hrow.across hstart hstop (by simp [← List.append_assoc]))
      (.cons hword (hc.append (.cons hr (.cons (by simpa using helse) (.cons ha .nil)))))
  | false =>
    refine .pure ?_
    rintro cs hcs _ hr _ hc _ ⟨hword, hstart⟩ hrow -
    obtain rfl : cs = [] := by simpa using hcs
    have hstop := hr.covers r.layout_span?
    exact .phrase (hrow.across hstart hstop (by simp)) (.cons hword (hc.append (.cons hr .nil)))

theorem whileLoop : Lays source g.limit g.whileLoop fun s ts => s.layout.Occupies ts := by
  refine .inRow ((expectWord_lays _).bind fun start => h.bracketed.bind fun c => h.statement.bind fun b =>
    .pure ?_)
  rintro _ hb _ hc _ ⟨hword, hstart⟩ hrow -
  have hstop := hb.covers b.layout_span?
  exact .phrase (hrow.across hstart hstop (by simp)) (.cons hword (hc.append (.cons hb .nil)))

theorem expressionStatement : Lays source g.limit g.expressionStatement fun x ts =>
    (Layout.phrase x.2 [x.1.layout, sign .semicolon]).Occupies ts := by
  refine .inRow ((h.expression _).bind fun e => semicolon_lays.bind fun stop => .pure ?_)
  rintro _ ⟨hsemicolon, hstop⟩ _ he hrow -
  have hstart := he.covers e.layout_span?
  exact .phrase (hrow.across hstart hstop (by simp)) (.cons he (.cons hsemicolon .nil))

theorem initializer : Lays source g.limit g.initializer fun i ts => Occupy (Initializer.layouts i) ts := by
  intro r
  refine .current ?_
  split
  · next hsign =>
    exact (take_token (isSymbol_iff.1 hsign) rfl).bind fun _ => .pure fun ts ht => .cons ht.2.1 .nil
  · split
    · exact (h.declaration r).bind fun d => .pure fun ts hd => .cons hd .nil
    · exact (h.expressionStatement r).bind fun x => .pure fun ts he => .cons he .nil

theorem forLoop : Lays source g.limit g.forLoop fun s ts => s.layout.Occupies ts := by
  refine .inRow ((expectWord_lays _).bind fun start => (expectSign_lays _).bind fun _ =>
    h.initializer.bind fun i => .check fun _ => h.maybe fun c => semicolon_lays.bind fun _ =>
      .check fun _ => h.maybe fun u => (expectSign_lays _).bind fun _ => h.statement.bind fun b =>
        .pure ?_)
  rintro _ hb _ ⟨hclose, -⟩ _ hu _ ⟨hsemicolon, -⟩ _ hc _ hi _ ⟨hopen, -⟩ _ ⟨hword, hstart⟩ hrow -
  have hstop := hb.covers b.layout_span?
  refine .phrase (hrow.across hstart hstop (by simp [← List.append_assoc])) (.cons hword (.cons hopen ?_))
  have hpieces := hi.append (hc.append (.cons hsemicolon (hu.append (.cons hclose (.cons hb .nil)))))
  simpa [LoopHeader.layouts] using hpieces

/-- The word of a case, with its value if it has one. -/
theorem caseValue : Lays source g.limit g.caseValue fun v ts =>
    ts ≠ [] ∧ Occupy (v.elim [word .default] fun e => [word .case, e.layout]) ts := by
  refine (takeWord_lays _).bind fun found => ?_
  cases found with
  | true =>
    refine .map ((h.expression _).mono fun e us he ws hws => ?_)
    have hword : (word .case).Occupies ws := by simpa using hws
    exact ⟨List.append_ne_nil_of_left_ne_nil hword.token_ne_nil _, .cons hword (.single he)⟩
  | false =>
    refine (takeWord_lays _).bind fun found => ?_
    cases found with
    | true =>
      refine .pure ?_
      rintro ws hws cs hcs
      obtain rfl : cs = [] := by simpa using hcs
      have hword : (word .default).Occupies ws := by simpa using hws
      rw [List.nil_append, List.append_nil]
      exact ⟨hword.token_ne_nil, .single hword⟩
    | false => exact failExpecting_lays _

theorem case : Lays source g.limit g.case fun k ts => k.layout.Occupies ts := by
  refine fun r => .inRow (.current ((h.caseValue r).follow fun v r₁ ts hs hv => ?_))
  obtain ⟨hfirst, hv⟩ := hv
  have hstart := hs.first hfirst
  refine ((expectSign_lays _).bind fun _ => h.statement.bind fun b => .pure ?_) r₁
  rintro _ hb _ ⟨hcolon, -⟩ hrow -
  have hstop := hb.covers b.layout_span?
  have hcovers := hrow.merge (.singleton r.current) hstop (hstart.trans (List.prefix_append _ _))
    (by simp [← List.append_assoc])
  have hpieces := hv.append (.cons hcolon (.cons hb .nil))
  cases v with
  | none => exact .phrase hcovers hpieces
  | some e => exact .phrase hcovers hpieces

theorem switch : Lays source g.limit g.switch fun s ts => s.layout.Occupies ts := by
  refine .inRow ((expectWord_lays _).bind fun start => h.bracketed.bind fun e => (expectSign_lays _).bind
    fun _ => (repeated_lays h.case _ _).bind fun ks => (expectSign_lays _).bind fun stop => .pure ?_)
  rintro _ ⟨hclose, hstop⟩ _ hks _ ⟨hopen, -⟩ _ he _ ⟨hword, hstart⟩ hrow -
  rw [← caseLayouts_eq] at hks
  exact .phrase (hrow.across hstart hstop (by simp [← List.append_assoc]))
    (.cons hword (he.append (.cons hopen (hks.append (.cons hclose .nil)))))

theorem return_ : Lays source g.limit g.return_ fun s ts => s.layout.Occupies ts := by
  refine .inRow ((expectWord_lays _).bind fun start => .check fun _ => h.maybe fun e =>
    semicolon_lays.bind fun stop => .pure ?_)
  rintro _ ⟨hsemicolon, hstop⟩ _ he _ ⟨hword, hstart⟩ hrow -
  exact .phrase (hrow.across hstart hstop (by simp)) (.cons hword (he.append (.cons hsemicolon .nil)))

omit h in
theorem single (w : Keyword) {make : Span → Stmt}
    (hmake : ∀ s, (make s).layout = .phrase s [word w, sign .semicolon]) :
    Lays source g.limit (single w make) fun s ts => s.layout.Occupies ts := by
  refine .inRow ((expectWord_lays _).bind fun start => semicolon_lays.bind fun stop => .pure ?_)
  rintro _ ⟨hsemicolon, hstop⟩ _ ⟨hword, hstart⟩ hrow -
  rw [hmake]
  exact .phrase (hrow.across hstart hstop (by simp)) (.cons hword (.cons hsemicolon .nil))

theorem throw_ : Lays source g.limit g.throw_ fun s ts => s.layout.Occupies ts := by
  refine .inRow ((expectWord_lays _).bind fun start => (h.expression _).bind fun e => semicolon_lays.bind
    fun stop => .pure ?_)
  rintro _ ⟨hsemicolon, hstop⟩ _ he _ ⟨hword, hstart⟩ hrow -
  exact .phrase (hrow.across hstart hstop (by simp)) (.cons hword (.cons he (.cons hsemicolon .nil)))

/-- What stands behind the word of a handler; the block is at its end. -/
theorem handler : Lays source g.limit g.handler fun k ts => (∃ us, us <:+ ts ∧ k.body.span.Covers us) ∧
    ∀ ws, (word .catch_).Occupies ws → Occupy (handlerLayouts (some k)) (ws ++ ts) := by
  refine (takeSign_lays _).bind fun named => ?_
  cases named with
  | true =>
    refine identifier_lays.bind fun id => (expectSign_lays _).bind fun _ =>
      Lays.bind (Lays.pure (P := fun p ts => p = some id ∧ ts = []) ⟨rfl, rfl⟩) fun p =>
        h.block.bind fun b => .pure ?_
    rintro bs hb _ ⟨rfl, rfl⟩ _ ⟨hclose, -⟩ _ ⟨hid, -⟩ cs hcs
    have hopen : (sign .leftParen).Occupies cs := by simpa using hcs
    refine ⟨⟨bs, by simp [← List.append_assoc], hb.covers b.layout_span?⟩, fun ws hws => ?_⟩
    rw [List.nil_append]
    exact .cons hws (.cons hopen (.cons hid (.cons hclose (.cons hb .nil))))
  | false =>
    refine Lays.bind (Lays.pure (P := fun p ts => p = none ∧ ts = []) ⟨rfl, rfl⟩) fun p =>
      h.block.bind fun b => .pure ?_
    rintro bs hb _ ⟨rfl, rfl⟩ cs hcs
    obtain rfl : cs = [] := by simpa using hcs
    refine ⟨⟨bs, by simp, hb.covers b.layout_span?⟩, fun ws hws => ?_⟩
    rw [List.nil_append, List.nil_append]
    exact .cons hws (.cons hb .nil)

theorem try_ : Lays source g.limit g.try_ fun s ts => s.layout.Occupies ts := by
  refine .inRow ((expectWord_lays _).bind fun start => h.block.bind fun b => ?_)
  refine optional_lays (Y := fun k ts => Occupy (handlerLayouts k) ts ∧
      ∀ x ∈ k, ∃ us, us <:+ ts ∧ x.body.span.Covers us)
    (h.handler.mono fun k ts hk ws hws => ⟨hk.2 ws hws, ?_⟩) ⟨.nil, by simp⟩ fun k => ?_
  · obtain ⟨us, hus, hcovers⟩ := hk.1
    simpa using ⟨us, hus.trans (List.suffix_append _ _), hcovers⟩
  refine optional_lays (Y := fun f ts => Occupy (cleanupLayouts f) ts ∧
      ∀ x ∈ f, ∃ us, us <:+ ts ∧ x.span.Covers us)
    (h.block.mono fun f ts hf ws hws => ⟨.cons hws (.single hf), ?_⟩) ⟨.nil, by simp⟩ fun f => ?_
  · simpa using ⟨ts, List.suffix_append _ _, hf.covers f.layout_span?⟩
  dsimp only
  split
  · exact failHere_lays rfl
  · next k =>
    refine .pure ?_
    rintro _ ⟨hf, -⟩ ks ⟨hk, hend⟩ _ hb _ ⟨hword, hstart⟩ hrow -
    cases hf
    obtain ⟨us, hus, hstop⟩ := hend k rfl
    have hback : us <:+ ks ++ ([] ++ []) := by simpa using hus
    exact .phrase (hrow.across hstart hstop (List.suffix_append_of_suffix hback))
      (.cons hword (.cons hb (hk.append .nil)))
  · next f =>
    refine .pure ?_
    rintro fs ⟨hf, hend⟩ _ ⟨hk, -⟩ _ hb _ ⟨hword, hstart⟩ hrow -
    obtain ⟨us, hus, hstop⟩ := hend f rfl
    have hback : us <:+ fs ++ [] := by simpa using hus
    refine .phrase (hrow.across hstart hstop ?_) ?_
    · exact List.suffix_append_of_suffix (List.suffix_append_of_suffix hback)
    rw [List.append_nil]
    exact .cons hword (.cons hb (hk.append hf))

omit h in
theorem import_ : Lays source g.limit import_ fun s ts => s.layout.Occupies ts := by
  refine fun r => .inRow ((expectWord_lays _ r).follow fun start r₁ us _ hword => ?_)
  refine (take_reading Token.name? rfl r₁).follow fun target r₂ ts _ htarget => ?_
  split
  · next name hname =>
    refine (semicolon_lays r₂).bind fun stop => .pure ?_
    rintro _ ⟨hsemicolon, hstop⟩ hrow -
    exact .phrase (hrow.across hword.2 hstop (by simp))
      (.cons hword.1 (.cons (htarget.2 name hname).1 (.cons hsemicolon .nil)))
  · exact .throw ⟨rfl, htarget.1⟩

theorem print : Lays source g.limit g.print fun s ts => s.layout.Occupies ts := by
  refine .inRow ((expectWord_lays _).bind fun start => (expectSign_lays _).bind fun _ =>
    (h.expressions _).bind fun (es, _) => semicolon_lays.bind fun stop => .pure ?_)
  rintro _ ⟨hsemicolon, hstop⟩ _ ⟨us, vs, rfl, hes, hclose, -⟩ _ ⟨hopen, -⟩ _ ⟨hword, hstart⟩ hrow -
  refine .phrase (hrow.across hstart hstop (by simp [← List.append_assoc])) (.cons hword (.cons hopen ?_))
  rw [List.append_assoc]
  exact hes.append (.cons hclose (.cons hsemicolon .nil))

theorem statementRule : Lays source g.limit g.statementRule fun s ts => s.layout.Occupies ts := by
  intro r
  refine .current ?_
  split
  iterate 5
    · refine (h.declaration r).bind fun d => .pure fun ts hd => ?_
      rw [List.append_nil]
      exact hd
  · refine (h.function r).bind fun f => .pure fun ts hf => ?_
    rw [List.append_nil]
    exact hf
  · exact h.class_ r
  · refine (h.block r).bind fun b => .pure fun ts hb => ?_
    rw [List.append_nil]
    exact hb
  · exact h.conditional r
  · exact h.whileLoop r
  · exact h.forLoop r
  · exact h.switch r
  · exact h.return_ r
  · exact single _ (fun _ => rfl) r
  · exact single _ (fun _ => rfl) r
  · exact h.throw_ r
  · exact h.try_ r
  · exact import_ r
  · exact h.print r
  · exact single _ (fun _ => rfl) r
  · refine (h.expressionStatement r).bind fun (e, s) => .pure fun ts he => ?_
    rw [List.append_nil]
    exact he

end LaysOut

/-- Every level of nesting. -/
theorem laysOut_upTo (source : String) (limit depth : Nat) : (upTo limit depth).LaysOut source := by
  induction depth with
  | zero => exact ⟨fun _ => failHere_lays rfl, failHere_lays rfl⟩
  | succ depth ih => exact ⟨ih.expressionRule, ih.statementRule⟩

end Grammar

def locatedTokens (source : String) : List (Located Token) := (scan source).filterMap Item.located?

theorem locatedTokens_inRow {source : String} (hfits : Addressable source.toList) : InRow (locatedTokens source) :=
  ⟨(scan_inOrder source).ordered hfits, fun t ht => ((scan_inOrder source).places t ht).within.ordered hfits⟩

namespace Reader

theorem start_stream_eq {items : List Item} (h : items.filterMap Item.located? ≠ []) :
    (start items).stream = (items.filterMap Item.located?).takeWhile (!·.content.isEnd) := by
  let before : Reader := { items, previous := some ⟨.endOfFile, .point 0, {}⟩ }
  let first : Reader := before.fetch items
  have hfirst : first.next :: first.items.filterMap Item.located? = items.filterMap Item.located? := by
    rcases fetch_row before items with hrow | ⟨hnil, -⟩
    · exact hrow
    · exact (h hnil).elim
  have hrow : (start items).row = first.next :: first.shift.next ::
      first.shift.items.filterMap Item.located? := congrArg (· :: _) first.shift_current
  rw [stream, hrow, ← hfirst]
  rcases fetch_row { first with previous := some first.current, current := first.next } first.items with
    hnext | ⟨hnil, hitems, hnext⟩
  · rw [← hnext]
    rfl
  · -- the end of the file once more
    have hitems' : first.shift.items = [] := hitems
    have hnext' : first.shift.next.content = .endOfFile := congrArg Located.content hnext
    rw [hnil, hitems']
    simp [List.takeWhile_cons, hnext', Token.isEnd]

/-- A reader at the first token of a source has all tokens to take, up to the end of the file. -/
theorem start_stream (source : String) : ∃ position, locatedTokens source =
    (start (scan source)).stream ++ [⟨.endOfFile, .last source.toList, position⟩] := by
  obtain ⟨body, position, hlex, hbody, -⟩ := (lex_tiling source).split
  have htokens : locatedTokens source = (body.map Item.narrow).filterMap Item.located? ++
      [⟨.endOfFile, .last source.toList, position.narrow⟩] := by
    rw [locatedTokens, scan_eq, hlex, List.map_append, List.filterMap_append]
    rfl
  have hproper : ∀ t ∈ (body.map Item.narrow).filterMap Item.located?, (!t.content.isEnd) = true := by
    intro t ht
    obtain ⟨i, hi, hloc⟩ := List.mem_filterMap.1 ht
    obtain ⟨j, hj, rfl⟩ := List.mem_map.1 hi
    have hnot : j.narrow.content ≠ .ok .endOfFile := (hbody j hj).1.not_end
    rw [(j.narrow.located?_span hloc).1] at hnot
    cases hc : t.content with
    | endOfFile => exact (hnot (by rw [hc])).elim
    | _ => rfl
  have hne : (scan source).filterMap Item.located? ≠ [] := by
    intro hnil
    rw [locatedTokens, hnil] at htokens
    cases List.append_eq_nil_iff.1 htokens.symm |>.2
  refine ⟨position.narrow, ?_⟩
  rw [start_stream_eq hne, ← locatedTokens, htokens, List.takeWhile_append_of_pos hproper]
  simp [Token.isEnd]

end Reader

/-- The program is what the bounds of the grammar for its source let be read, up to the end of the file. -/
theorem program_read (source : String) : ∃ ss after,
    (Grammar.for_ (.start (scan source))).statements Token.isEnd (Grammar.for_ (.start (scan source))).limit
      (.start (scan source)) = .ok ss after ∧ after.current.content.isEnd = true ∧
    (Parsed.ofSource source).program =
      ⟨ss, ⟨(Reader.start (scan source)).place, byteLength source.toList % UInt32.size⟩⟩ := by
  obtain ⟨ss, after, hleads, hend, hread⟩ := Grammar.statements_read source
  have hfor := hread _ _ (Nat.le_refl _) (Nat.le_mul_of_pos_left _ Nat.two_pos)
  refine ⟨ss, after, hfor, hend, ?_⟩
  have hprogram : (Parsed.ofSource source).program =
      ⟨ss, ⟨(Reader.start (scan source)).place, after.current.span.stop⟩⟩ := by
    unfold Parsed.ofSource Parsed.ofItems
    dsimp only
    rw [show (Grammar.for_ (.start (scan source))).statements Token.isEnd
      (Grammar.for_ (.start (scan source))).limit (.start (scan source)) = .ok ss after from hfor]
    rfl
  rw [hprogram, hleads.placed.inPlace.last hend]
  rfl

/-- The statements that are read lie in the tokens up to the end of the file. -/
theorem program_lays {source : String} (hfits : Addressable source.toList) :
    Occupy (scattered (Stmt.layouts (Parsed.ofSource source).program.statements))
      (Reader.start (scan source)).stream := by
  obtain ⟨ss, after, hread, hend, hprogram⟩ := program_read source
  have hplaced := Reader.start_placed source
  have hlays : (Grammar.for_ (.start (scan source))).LaysOut source := Grammar.laysOut_upTo source _ _
  have hss := hlays.statements Token.isEnd (Grammar.for_ (.start (scan source))).limit _ hfits hplaced
    (Nat.lt_of_succ_lt hplaced.toPrimed.left_lt_remaining)
  rw [hread] at hss
  obtain ⟨ts, hs, hss⟩ := hss
  rw [hprogram, hs.stream, Reader.stream_of_end hend, List.append_nil]
  exact hss

/-- The program starts with the first token of the source and ends with the end of the file. -/
theorem program_covers (source : String) :
    (Parsed.ofSource source).program.span.Covers (locatedTokens source) := by
  obtain ⟨position, htokens⟩ := Reader.start_stream source
  obtain ⟨ss, after, -, -, hprogram⟩ := program_read source
  rw [hprogram, htokens]
  constructor
  · cases hend : (Reader.start (scan source)).current.content.isEnd with
    | true =>
      have hlast := (Reader.start_placed source).inPlace.last hend
      rw [Reader.stream_of_end hend, Reader.place, hlast]
      rfl
    | false =>
      rw [Reader.stream_of_not_end hend]
      rfl
  · rw [List.getLast?_append]
    rfl

/-- In a source whose offsets fit in 32 bits every node of the program has the range from the start of its first
token to the end of its last one, whether the source has errors or not. So the ranges of the nodes in a node lie
in its own one, and are apart and in order; and the range of the program goes from the first token to the end of
the source. Where there are no errors, no token is skipped. -/
theorem spans_are_exact (source : String) (hsize : source.utf8ByteSize < UInt32.size) :
    (Parsed.ofSource source).program.layout.Occupies (locatedTokens source) ∧
      (Parsed.ofSource source).program.layout.Nested ∧
      (Parsed.ofSource source).program.span.stop = source.utf8ByteSize ∧
      ((Parsed.ofSource source).errors = [] →
        (Parsed.ofSource source).program.Yields (sourceTokens source)) := by
  have hfits : Addressable source.toList := addressable_iff.2 hsize
  obtain ⟨position, htokens⟩ := Reader.start_stream source
  have hoccupies : (Parsed.ofSource source).program.layout.Occupies (locatedTokens source) := by
    refine .phrase (program_covers source) ?_
    rw [htokens]
    exact (program_lays hfits).append (.single (.own rfl))
  refine ⟨hoccupies, hoccupies.nested (locatedTokens_inRow hfits), ?_, fun herrors => ?_⟩
  · obtain ⟨ss, after, -, -, hprogram⟩ := program_read source
    rw [hprogram, ← byteLength_toList]
    exact Nat.mod_eq_of_lt hfits
  · exact (Parsed.ofSource_sound herrors).2.2

/-- Brackets that are never closed, in the first of two statements. -/
theorem spans_are_exact_unclosed :
    "x = (1; y;".utf8ByteSize < UInt32.size ∧ (Parsed.ofSource "x = (1; y;").errors.length = 1 ∧
      (Parsed.ofSource "x = (1; y;").program.layout.Occupies (locatedTokens "x = (1; y;") ∧
      (Parsed.ofSource "x = (1; y;").program.layout.Nested ∧
      (Parsed.ofSource "x = (1; y;").program.span = ⟨0, 10⟩ := by
  have hsize : "x = (1; y;".utf8ByteSize < UInt32.size := by decide
  obtain ⟨hoccupies, hnested, -, -⟩ := spans_are_exact "x = (1; y;" hsize
  exact ⟨hsize, by with_unfolding_all rfl, hoccupies, hnested, by with_unfolding_all rfl⟩

def bracketsBehind (n : Nat) : String := String.ofList (List.replicate n ' ') ++ "(          a);"

theorem byteLength_blanks (n : Nat) : byteLength (List.replicate n ' ') = n := by
  induction n with
  | zero => rfl
  | succ n ih =>
    rw [List.replicate_succ, byteLength_cons, ih]
    exact Nat.add_comm 1 n

theorem scan_bracketsBehind (n : Nat) : ∃ a b c d e, scan (bracketsBehind n) =
    [⟨.ok (.symbol .leftParen), Span.narrow ⟨0 + n, 1 + n⟩, a⟩,
      ⟨.ok (.identifier "a"), Span.narrow ⟨11 + n, 12 + n⟩, b⟩,
      ⟨.ok (.symbol .rightParen), Span.narrow ⟨12 + n, 13 + n⟩, c⟩,
      ⟨.ok (.symbol .semicolon), Span.narrow ⟨13 + n, 14 + n⟩, d⟩,
      ⟨.ok .endOfFile, Span.narrow ⟨14 + n, 14 + n⟩, e⟩] := by
  have hlex : lex "(          a);" =
      [⟨.ok (.symbol .leftParen), ⟨0, 1⟩, ⟨1, 1⟩⟩, ⟨.ok (.identifier "a"), ⟨11, 12⟩, ⟨1, 12⟩⟩,
        ⟨.ok (.symbol .rightParen), ⟨12, 13⟩, ⟨1, 13⟩⟩, ⟨.ok (.symbol .semicolon), ⟨13, 14⟩, ⟨1, 14⟩⟩,
        ⟨.ok .endOfFile, ⟨14, 14⟩, ⟨1, 15⟩⟩] := by with_unfolding_all rfl
  have hblank : ∀ c ∈ (String.ofList (List.replicate n ' ')).toList, Text.isBlank c = true := by
    intro c hc
    rw [String.toList_ofList] at hc
    rw [List.eq_of_mem_replicate hc]
    rfl
  have hsize : (String.ofList (List.replicate n ' ')).utf8ByteSize = n := by
    rw [← byteLength_toList, String.toList_ofList, byteLength_blanks]
  rw [scan_eq, bracketsBehind, lex_blank_append hblank, hlex]
  unfold Item.behind
  rw [hsize]
  exact ⟨_, _, _, _, _, rfl⟩

/-- The range of the brackets is merged from those of its ends, the second of which comes first in 32 bits. So
it starts behind the first token, and the name in the brackets is not in it. -/
theorem merged_range_wraps :
    (Parsed.ofSource (bracketsBehind 4294967290)).program.statements =
      [.expression (.nested (.identifier ⟨"a", ⟨5, 6⟩⟩) ⟨6, 4294967291⟩) ⟨6, 4294967291⟩] ∧
    (locatedTokens (bracketsBehind 4294967290)).head?.map (·.span) = some ⟨4294967290, 4294967291⟩ ∧
    ¬(Parsed.ofSource (bracketsBehind 4294967290)).program.layout.Nested := by
  obtain ⟨a, b, c, d, e, hscan⟩ := scan_bracketsBehind 4294967290
  have hstatements : (Parsed.ofSource (bracketsBehind 4294967290)).program.statements =
      [.expression (.nested (.identifier ⟨"a", ⟨5, 6⟩⟩) ⟨6, 4294967291⟩) ⟨6, 4294967291⟩] := by
    rw [Parsed.ofSource, hscan]
    with_unfolding_all rfl
  refine ⟨hstatements, ?_, fun hnested => ?_⟩
  · rw [locatedTokens, hscan]
    rfl
  · rw [Program.layout, hstatements] at hnested
    cases hnested with
    | phrase _ _ hprogram =>
      have hstatement := hprogram _ (List.mem_cons_of_mem _ List.mem_cons_self)
      cases hstatement with
      | phrase _ _ hpieces =>
        have hnode := hpieces _ List.mem_cons_self
        cases hnode with
        | phrase hinside _ _ => exact absurd (hinside ⟨5, 6⟩ List.mem_cons_self).1 (by decide)

end Scriptlet
