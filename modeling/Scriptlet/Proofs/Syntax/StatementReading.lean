import Scriptlet.Proofs.Syntax.ExpressionReading
import Scriptlet.Proofs.Syntax.Running

/-! Wherever the tokens of a canonical statement stand ahead, with something behind them that cannot belong
to it, the rules of the grammar read that statement, up to places. The last section closes the circle of
expressions and statements. -/
namespace Scriptlet

open Rule

theorem Stmt.bareList_eq (ss : List Stmt) : bareList ss = ss.map bare := by
  induction ss with
  | nil => rfl
  | cons s ss ih => rw [bareList, ih, List.map_cons]

theorem bareMembers_eq (ms : List Member) : bareMembers ms = ms.map Member.bare := by
  induction ms with
  | nil => rfl
  | cons m ms ih => rw [bareMembers, ih, List.map_cons]

theorem bareCases_eq (ks : List Case) : bareCases ks = ks.map Case.bare := by
  induction ks with
  | nil => rfl
  | cons k ks ih => rw [bareCases, ih, List.map_cons]

theorem Joined.length_le {α : Type} {Y : α → List Token → Prop} {as : List α} {ts : List Token}
    (h : Joined Y as ts) (hfilled : ∀ a us, Y a us → 0 < us.length) : as.length ≤ ts.length := by
  induction h with
  | nil => exact Nat.le_refl 0
  | cons ha _ ih =>
    have hpos := hfilled _ _ ha
    rw [List.length_cons, List.length_append]
    omega

theorem Stmt.Yields.filled {s : Stmt} {ts : List Token} (h : s.Yields ts) : 0 < ts.length := by
  obtain ⟨t, us, rfl, -⟩ := h.head
  exact Nat.succ_pos _

theorem Stmt.stopsAt_cons {s : Stmt} {t : Token} {rest : List Token} (helse : t ≠ .keyword .else_)
    (hfinally : t ≠ .keyword .finally_) : s.StopsAt (t :: rest) where
  nearest _ he := helse (Option.some.inj he)
  cleanup he := hfinally (Option.some.inj he)

theorem Token.isEnd_of_opensStatement {t : Token} (h : t.opensStatement = true) : t.isEnd = false := by
  cases t with
  | endOfFile => cases h
  | _ => rfl

theorem Token.isDeclaration_of_startsExpression {t : Token} (h : t.startsExpression = true) :
    t.isDeclaration = false := by
  cases t with
  | keyword word => cases word <;> first | rfl | cases h
  | _ => rfl

theorem Token.isSymbol_of_startsExpression {t : Token} {sign : Symbol} (h : t.startsExpression = true)
    (hsign : (Token.symbol sign).startsExpression = false) : t.isSymbol sign = false := by
  rw [Bool.eq_false_iff]
  intro ht
  rw [isSymbol_iff.1 ht, hsign] at h
  cases h

namespace Grammar
namespace Complete

variable {g : Grammar} {n : Nat} (h : g.Complete n) {ts rest : List Token}
include h

theorem binding {kind : DeclarationKind} {b : Binding} (hy : b.Yields ts)
    (hc : ∀ e ∈ b.value, e.Canonical) (hconstant : kind.isConstant = true → b.value.isSome = true)
    (hn : ts.length < n)
    (hhead : rest.head? = some (.symbol .comma) ∨ rest.head? = some (.symbol .semicolon)) :
    Reads g.limit (g.binding kind) (fun b' => b'.bare = b.bare) ts rest := by
  cases hy with
  | plain id =>
    refine (identifier_reads id).last fun id' hid => .takeSign_missed ?_ ?_
    · rcases hhead with hhead | hhead <;> simp [hhead]
    · have hvariable : kind.isConstant = false := by
        cases hk : kind.isConstant with
        | false => rfl
        | true => cases hconstant hk
      rw [hvariable]
      refine .pure ?_
      rw [Binding.bare, Binding.bare, hid]
  | @value id e us he =>
    have hus : us.length < n := by
      simp only [List.length_cons] at hn
      omega
    refine (identifier_reads id).bind fun id' hid => .takeSign_found ?_
    refine (h.anyExpression he (hc e rfl) hus (pull_of_comma_or rfl hhead)).last fun e' he' => .pure ?_
    rw [Binding.bare, Binding.bare, hid, Option.map_some, Option.map_some, he']

theorem declaration {d : Declaration} (hy : d.Yields ts) (hc : d.Canonical) (hn : ts.length ≤ n) :
    Reads g.limit g.declaration (fun d' => d'.bare = d.bare) ts rest := by
  cases hy with
  | @mk kind t bs us s hk hbs =>
    simp only [List.length_cons, List.length_append] at hn
    have hbindings : Reads g.limit (sequence (g.binding kind) g.limit)
        (fun bs' => bs'.map Binding.bare = bs.map Binding.bare) us (.symbol .semicolon :: rest) := by
      refine .short fun hl => sequence_reads (by decide) ?_ hbs (by omega : us.length < n) g.limit ?_
      · intro b vs rest' hb hy hm hhead
        exact h.binding hy (hc.values b hb) (fun hk => hc.constants hk b hb) hm hhead
      · rw [List.length_append] at hl
        omega
    refine .take fun here hhere => ?_
    rw [hhere, hk]
    refine hbindings.bind fun bs' hbs' => .semicolon fun _ => .pure ?_
    rw [Declaration.bare, Declaration.bare, hbs']

/-- The statements that stand ahead are read one after another, and the loop goes on with what is behind
them. -/
theorem statements_ahead {stop : Token → Bool} {ss : List Stmt} (hss : Joined Stmt.Yields ss ts)
    (hc : ∀ s ∈ ss, s.Canonical) (hn : ts.length < n)
    (hopen : ∀ t : Token, t.opensStatement = true → stop t = false)
    (hrest : ∀ s : Stmt, s.StopsAt rest) (k : Nat) (Kept : Reader → Prop) (r : Reader)
    (hr : r.Sees g.limit Kept (ts ++ rest)) :
    ∃ ss' r', Stmt.bareList ss' = Stmt.bareList ss ∧ r'.Sees g.limit Kept rest ∧
      g.statements stop (ss.length + k) r = (g.statements stop k >>= fun more => pure (ss' ++ more)) r' := by
  induction hss generalizing r with
  | nil => exact ⟨[], r, rfl, hr, by simp⟩
  | @cons s ss us vs hy hs ih =>
    obtain ⟨t, ws, rfl, ht⟩ := hy.head
    simp only [List.length_append, List.length_cons] at hn
    have hbehind : s.StopsAt (vs ++ rest) := by
      cases hs with
      | nil => exact hrest s
      | @cons s' ss' us' vs' hy' _ =>
        obtain ⟨t', ws', rfl, ht'⟩ := hy'.head
        refine Stmt.stopsAt_cons ?_ ?_ <;> rintro rfl <;> cases ht'
    rw [List.append_assoc] at hr
    have hfirst : (stop r.current.content || r.current.content.isEnd) = false := by
      rw [hr.current]
      show (stop t || t.isEnd) = false
      rw [hopen t ht, Token.isEnd_of_opensStatement ht]
      rfl
    obtain ⟨s', r', hread, hs', hr'⟩ := h.statement hy (hc s List.mem_cons_self)
      (by simp only [List.length_cons]; omega) hbehind Kept r hr
    obtain ⟨ss', r'', hss', hr'', hloop⟩ :=
      ih (fun x hx => hc x (List.mem_cons_of_mem s hx)) (by omega) r' hr'
    refine ⟨s' :: ss', r'', by rw [Stmt.bareList, Stmt.bareList, hs', hss'], hr'', ?_⟩
    rw [List.length_cons, Nat.add_right_comm, statements_step hfirst hr.calm hread]
    simp only [Bind.bind, EStateM.bind, hloop]
    cases g.statements stop k r'' <;> rfl

/-- Statements up to a token that no statement starts with. -/
theorem statements {stop : Token → Bool} {ss : List Stmt} (hss : Joined Stmt.Yields ss ts)
    (hc : ∀ s ∈ ss, s.Canonical) (hn : ts.length < n)
    (hstop : (stop (rest.headD .endOfFile) || (rest.headD .endOfFile).isEnd) = true)
    (hopen : ∀ t : Token, t.opensStatement = true → stop t = false)
    (hrest : ∀ s : Stmt, s.StopsAt rest) (k : Nat) (hk : ts.length < k) :
    Reads g.limit (g.statements stop k) (fun ss' => Stmt.bareList ss' = Stmt.bareList ss) ts rest := by
  intro Kept r hr
  obtain ⟨j, rfl⟩ : ∃ j, k = ss.length + j := by
    have hlength := hss.length_le fun _ _ => Stmt.Yields.filled
    exact ⟨k - ss.length, by omega⟩
  obtain ⟨ss', r', hbare, hr', hloop⟩ := h.statements_ahead hss hc hn hopen hrest j Kept r hr
  rw [← hr'.current] at hstop
  refine ⟨ss', r', ?_, hbare, hr'⟩
  rw [hloop, bind_of_ok (statements_stop hstop), List.append_nil]
  rfl

theorem block {b : Block} (hy : b.Yields ts) (hc : b.Canonical) (hn : ts.length ≤ n) :
    Reads g.limit g.block (fun b' => b'.bare = b.bare) ts rest := by
  cases hy with
  | @mk ss us s hss =>
    cases hc with
    | mk _ hcss =>
      simp only [List.length_cons, List.length_append] at hn
      have hbody : Reads g.limit (g.statements (Token.isSymbol .rightBrace) g.limit)
          (fun ss' => Stmt.bareList ss' = Stmt.bareList ss) us (.symbol .rightBrace :: rest) := by
        refine .short fun hl => h.statements hss hcss (by omega) rfl ?_ ?_ g.limit ?_
        · intro t ht
          rw [Bool.eq_false_iff]
          intro hs
          rw [isSymbol_iff.1 hs] at ht
          cases ht
        · intro s
          exact Stmt.stopsAt_cons (by simp) (by simp)
        · rw [List.length_append] at hl
          omega
      refine .sign fun _ => hbody.bind fun ss' hss' => .sign fun _ => .pure ?_
      rw [Block.bare, Block.bare, hss']

theorem function {f : FunctionDecl} (hy : f.Yields ts) (hc : f.Canonical) (hn : ts.length ≤ n) :
    Reads g.limit g.function (fun f' => f'.bare = f.bare) ts rest := by
  cases hy with
  | @mk id ps b us vs s hps hb =>
    cases hc with
    | mk _ _ hd hcb =>
      simp only [List.length_cons, List.length_append] at hn
      refine .word fun _ => (identifier_reads id).bind fun id' hid => parameters hps hd fun ps' hps' =>
        (h.block hb hcb (by omega)).last fun b' hb' => .pure ?_
      rw [FunctionDecl.bare, FunctionDecl.bare, hid, hps', hb']

theorem classMember {m : Member} (hy : m.Yields ts) (hc : m.Canonical) (hn : ts.length ≤ n) :
    Reads g.limit g.classMember (fun m' => m'.bare = m.bare) ts rest := by
  cases hy with
  | field hd =>
    cases hc with
    | field hcd =>
      obtain ⟨t, us, rfl, ht⟩ := hd.head
      refine .here fun _ _ => ?_
      dsimp only
      rw [ht]
      refine (h.declaration hd hcd hn).last fun d' hd' => .pure ?_
      rw [Member.bare, Member.bare, hd']
  | method hf =>
    cases hc with
    | method hcf =>
      cases hf with
      | mk id s hps hb =>
        refine .here fun _ _ => ?_
        refine (h.function (.mk id s hps hb) hcf hn).last fun f' hf' => .pure ?_
        rw [Member.bare, Member.bare, hf']

theorem members {ms : List Member} (hms : Joined Member.Yields ms ts) (hc : ∀ m ∈ ms, m.Canonical)
    (hn : ts.length < n) :
    Reads g.limit (repeated g.classMember .rightBrace g.limit)
      (fun ms' => bareMembers ms' = bareMembers ms) ts (.symbol .rightBrace :: rest) := by
  rw [bareMembers_eq]
  refine Reads.mono ?_ fun ms' hms' => (bareMembers_eq ms').trans hms'
  refine .short fun hl => repeated_reads (F := fun _ => True) ?_ ?_ (fun _ => trivial) hms hn g.limit ?_
  · intro m us rest' hm hy hlength _
    exact h.classMember hy (hc m hm) (Nat.le_of_lt hlength)
  · intro m us hy
    cases hy with
    | field hd =>
      obtain ⟨t, us, rfl, ht⟩ := hd.head
      refine ⟨t, us, rfl, ?_, fun _ => trivial⟩
      rintro rfl
      cases ht
    | method hf =>
      cases hf
      exact ⟨_, _, rfl, by simp, fun _ => trivial⟩
  · rw [List.length_append] at hl
    omega

theorem class_ {id : Identifier} {ms : List Member} (s : Span) (hms : Joined Member.Yields ms ts)
    (hc : ∀ m ∈ ms, m.Canonical) (hn : ts.length < n) :
    Reads g.limit g.class_ (fun s' => s'.bare = (Stmt.class_ id none ms s).bare)
      (.keyword .class_ :: .identifier id.name :: .symbol .leftBrace :: (ts ++ [.symbol .rightBrace]))
      rest := by
  refine .word fun _ => (identifier_reads id).bind fun id' hid => .takeWord_missed (by simp) ?_
  refine .sign fun _ => (h.members hms hc hn).bind fun ms' hms' => .sign fun _ => .pure ?_
  rw [Stmt.bare, Stmt.bare, hid, hms']

theorem subclass {id p : Identifier} {ms : List Member} (s : Span) (hms : Joined Member.Yields ms ts)
    (hc : ∀ m ∈ ms, m.Canonical) (hn : ts.length < n) :
    Reads g.limit g.class_ (fun s' => s'.bare = (Stmt.class_ id (some p) ms s).bare)
      (.keyword .class_ :: .identifier id.name :: .keyword .extends_ :: .identifier p.name ::
        .symbol .leftBrace :: (ts ++ [.symbol .rightBrace])) rest := by
  have hparent : Reads g.limit (some <$> identifier)
      (fun p' => p'.map Identifier.bare = some p.bare) [.identifier p.name]
        ((.symbol .leftBrace :: (ts ++ [.symbol .rightBrace])) ++ rest) :=
    (identifier_reads p).map fun p' hp' => congrArg some hp'
  refine .word fun _ => (identifier_reads id).bind fun id' hid => .takeWord_found ?_
  refine hparent.bind fun p' hp' => .sign fun _ => (h.members hms hc hn).bind fun ms' hms' =>
    .sign fun _ => .pure ?_
  rw [Stmt.bare, Stmt.bare, hid, hms', hp']
  rfl

/-- An expression between square brackets, with what comes behind it. -/
theorem bracketed {α : Type} {B : α → Prop} {next : Expr → Rule α} {us : List Token} {e : Expr}
    (hy : Bracketed e ts) (hc : e.Canonical) (hn : ts.length ≤ n)
    (hnext : ∀ e', e'.bare = e.bare → Reads g.limit (next e') B us rest) :
    Reads g.limit (g.bracketed >>= next) B (ts ++ us) rest := by
  cases hy with
  | @mk vs he =>
    simp only [List.length_cons, List.length_append] at hn
    refine Reads.bind ?_ hnext
    exact .sign fun _ => (h.anyExpression he hc (by omega) rfl).bind fun e' he' => .sign fun _ =>
      .pure he'

theorem conditional {c : Expr} {r : Stmt} {us : List Token} (s : Span) (hc : Bracketed c ts)
    (hcc : c.Canonical) (hr : r.Yields us) (hcr : r.Canonical) (hn : ts.length + us.length < n)
    (hrest : (Stmt.conditional c r none s).StopsAt rest) :
    Reads g.limit g.conditional (fun s' => s'.bare = (Stmt.conditional c r none s).bare)
      (.keyword .if_ :: (ts ++ us)) rest := by
  have hresolution : r.StopsAt rest := ⟨fun _ => hrest.nearest rfl, hrest.cleanup⟩
  refine .word fun _ => h.bracketed hc hcc (by omega) fun c' hc' =>
    (h.statement hr hcr (by omega) hresolution).last fun r' hr' =>
      .takeWord_missed (hrest.nearest rfl) (.pure ?_)
  rw [Stmt.bare, Stmt.bare, hc', hr']

theorem alternative {c : Expr} {r a : Stmt} {us vs : List Token} (s : Span) (hc : Bracketed c ts)
    (hcc : c.Canonical) (hr : r.Yields us) (hcr : r.Canonical) (hnearest : r.isDangling = false)
    (ha : a.Yields vs) (hca : a.Canonical) (hn : ts.length + us.length + vs.length < n)
    (hrest : (Stmt.conditional c r (some a) s).StopsAt rest) :
    Reads g.limit g.conditional (fun s' => s'.bare = (Stmt.conditional c r (some a) s).bare)
      (.keyword .if_ :: (ts ++ (us ++ .keyword .else_ :: vs))) rest := by
  have hresolution : r.StopsAt (.keyword .else_ :: vs ++ rest) := by
    constructor
    · intro hd
      rw [hnearest] at hd
      cases hd
    · simp
  have halternative : a.StopsAt rest := ⟨hrest.nearest, hrest.cleanup⟩
  refine .word fun _ => h.bracketed hc hcc (by omega) fun c' hc' =>
    (h.statement hr hcr (by omega) hresolution).bind fun r' hr' =>
      .takeWord_found ((h.statement ha hca (by omega) halternative).last fun a' ha' => .pure ?_)
  rw [Stmt.bare, Stmt.bare, hc', hr', ha']

theorem whileLoop {c : Expr} {b : Stmt} {us : List Token} (s : Span) (hc : Bracketed c ts)
    (hcc : c.Canonical) (hb : b.Yields us) (hcb : b.Canonical) (hn : ts.length + us.length < n)
    (hrest : (Stmt.whileLoop c b s).StopsAt rest) :
    Reads g.limit g.whileLoop (fun s' => s'.bare = (Stmt.whileLoop c b s).bare)
      (.keyword .while_ :: (ts ++ us)) rest := by
  have hbody : b.StopsAt rest := ⟨hrest.nearest, hrest.cleanup⟩
  refine .word fun _ => h.bracketed hc hcc (by omega) fun c' hc' =>
    (h.statement hb hcb (by omega) hbody).last fun b' hb' => .pure ?_
  rw [Stmt.bare, Stmt.bare, hc', hb']

theorem expressionStatement {e : Expr} (hy : e.Yields ts) (hc : e.Canonical) (hn : ts.length < n) :
    Reads g.limit g.expressionStatement (fun p => p.1.bare = e.bare) (ts ++ [.symbol .semicolon])
      rest :=
  (h.anyExpression hy hc hn rfl).bind fun _ he' => .semicolon fun _ => .pure he'

theorem initializer {i : Option Initializer} (hy : Initializer.Yields i ts)
    (hc : ∀ x ∈ i, x.Canonical) (hn : ts.length ≤ n) :
    Reads g.limit g.initializer (fun i' => i'.map Initializer.bare = i.map Initializer.bare)
      ts rest := by
  cases hy with
  | none => exact .here fun _ _ => .take fun _ _ => .pure rfl
  | @declare d _ hd =>
    cases hc _ rfl with
    | declare hcd =>
      obtain ⟨t, us, rfl, ht⟩ := hd.head
      have hsemicolon : t.isSymbol .semicolon = false := by
        cases t with
        | symbol _ => cases ht
        | _ => rfl
      refine .here fun _ _ => ?_
      dsimp only
      rw [hsemicolon, ht]
      refine (h.declaration hd hcd hn).last fun d' hd' => .pure ?_
      rw [Option.map_some, Option.map_some, Initializer.bare, Initializer.bare, hd']
  | @expression e us s he =>
    cases hc _ rfl with
    | expression _ hce =>
      simp only [List.length_append, List.length_cons] at hn
      have hread : Reads g.limit g.expressionStatement (fun p => p.1.bare = e.bare)
          (us ++ [.symbol .semicolon]) rest := h.expressionStatement he hce (by omega)
      obtain ⟨t, vs, rfl, ht⟩ := he.head
      refine .here fun _ _ => ?_
      dsimp only
      rw [Token.isSymbol_of_startsExpression ht rfl, Token.isDeclaration_of_startsExpression ht]
      refine hread.last fun p hp => .pure ?_
      rw [Option.map_some, Option.map_some, Initializer.bare, Initializer.bare, hp]

theorem forLoop {i : LoopHeader} {b : Stmt} {us : List Token} (s : Span) (hi : i.Yields ts)
    (hci : i.Canonical) (hb : b.Yields us) (hcb : b.Canonical) (hn : ts.length + us.length < n)
    (hrest : (Stmt.forLoop i b s).StopsAt rest) :
    Reads g.limit g.forLoop (fun s' => s'.bare = (Stmt.forLoop i b s).bare)
      (.keyword .for_ :: .symbol .leftBracket :: (ts ++ .symbol .rightBracket :: us)) rest := by
  have hbody : b.StopsAt rest := ⟨hrest.nearest, hrest.cleanup⟩
  cases hi with
  | @mk i c u ts' us' vs' hi hc hu =>
    simp only [List.length_append, List.length_cons] at hn
    rw [List.append_assoc, List.append_assoc, List.cons_append]
    refine .word fun _ => .sign fun _ => (h.initializer hi hci.initializer (by omega)).bind
      fun i' hi' => h.maybe rfl rfl hc hci.condition (by omega) fun c' hc' => .semicolon fun _ =>
        h.maybe rfl rfl hu hci.update (by omega) fun u' hu' => .sign fun _ =>
          (h.statement hb hcb (by omega) hbody).last fun b' hb' => .pure ?_
    rw [Stmt.bare, Stmt.bare, LoopHeader.bare, LoopHeader.bare, hi', hc', hu', hb']

theorem case {k : Case} (hy : k.Yields ts) (hc : k.Canonical) (hn : ts.length ≤ n)
    (hrest : ∀ s : Stmt, s.StopsAt rest) :
    Reads g.limit g.case (fun k' => k'.bare = k.bare) ts rest := by
  cases hy with
  | @value e b us vs s he hb =>
    cases hc with
    | mk _ hce hcb =>
      simp only [List.length_cons, List.length_append] at hn
      have hvalue : Reads g.limit g.caseValue (fun e' => e'.map Expr.bare = some e.bare)
          (.keyword .case :: us) ((.symbol .colon :: vs) ++ rest) := by
        refine .takeWord_found ((h.anyExpression he (hce e rfl) (by omega) rfl).map fun e' he' => ?_)
        rw [Option.map_some, he']
      refine .here fun _ _ => hvalue.bind fun e' he' => .sign fun _ =>
        (h.statement hb hcb (by omega) (hrest b)).last fun b' hb' => .pure ?_
      rw [Case.bare, Case.bare, he', hb', Option.map_some]
  | @default b us s hb =>
    cases hc with
    | mk _ hce hcb =>
      simp only [List.length_cons] at hn
      have hvalue : Reads g.limit g.caseValue (fun e' => e' = none) [.keyword .default]
          ((.symbol .colon :: us) ++ rest) :=
        .takeWord_missed (by simp) (.takeWord_found (.pure rfl))
      refine .here fun _ _ => hvalue.bind fun e' he' => .sign fun _ =>
        (h.statement hb hcb (by omega) (hrest b)).last fun b' hb' => .pure ?_
      rw [Case.bare, Case.bare, he', hb']

theorem switch {e : Expr} {ks : List Case} {us : List Token} (s : Span) (he : Bracketed e ts)
    (hce : e.Canonical) (hks : Joined Case.Yields ks us) (hcks : ∀ k ∈ ks, k.Canonical)
    (hn : ts.length + us.length < n) :
    Reads g.limit g.switch (fun s' => s'.bare = (Stmt.switch e ks s).bare)
      (.keyword .switch :: (ts ++ .symbol .leftBrace :: (us ++ [.symbol .rightBrace]))) rest := by
  have hcases : Reads g.limit (repeated g.case .rightBrace g.limit)
      (fun ks' => ks'.map Case.bare = ks.map Case.bare) us (.symbol .rightBrace :: rest) := by
    refine .short fun hl => repeated_reads (F := fun rest => ∀ s : Stmt, s.StopsAt rest) ?_ ?_ ?_ hks
      (by omega : us.length < n) g.limit ?_
    · intro k vs rest' hk hy hm hF
      exact h.case hy (hcks k hk) (Nat.le_of_lt hm) hF
    · intro k vs hy
      cases hy
      · exact ⟨_, _, rfl, by simp, fun _ _ => Stmt.stopsAt_cons (by simp) (by simp)⟩
      · exact ⟨_, _, rfl, by simp, fun _ _ => Stmt.stopsAt_cons (by simp) (by simp)⟩
    · exact fun _ _ => Stmt.stopsAt_cons (by simp) (by simp)
    · rw [List.length_append] at hl
      omega
  refine .word fun _ => h.bracketed he hce (by omega) fun e' he' => .sign fun _ =>
    hcases.bind fun ks' hks' => .sign fun _ => .pure ?_
  rw [Stmt.bare, Stmt.bare, he', bareCases_eq, bareCases_eq, hks']

theorem return_ {e : Option Expr} (s : Span) (he : Maybe Expr.Yields e ts)
    (hc : ∀ x ∈ e, x.Canonical) (hn : ts.length < n) :
    Reads g.limit g.return_ (fun s' => s'.bare = (Stmt.return_ e s).bare)
      (.keyword .return_ :: (ts ++ [.symbol .semicolon])) rest := by
  refine .word fun _ => h.maybe rfl rfl he hc hn fun e' he' => .semicolon fun _ => .pure ?_
  rw [Stmt.bare, Stmt.bare, he']

omit h in
theorem single {word : Keyword} {make : Span → Stmt} {s : Stmt} (hmake : ∀ s', (make s').bare = s.bare) :
    Reads g.limit (single word make) (fun s' => s'.bare = s.bare)
      [.keyword word, .symbol .semicolon] rest :=
  .word fun _ => .semicolon fun _ => .pure (hmake _)

theorem throw_ {e : Expr} (s : Span) (he : e.Yields ts) (hc : e.Canonical) (hn : ts.length < n) :
    Reads g.limit g.throw_ (fun s' => s'.bare = (Stmt.throw e s).bare)
      (.keyword .throw :: (ts ++ [.symbol .semicolon])) rest := by
  refine .word fun _ => (h.anyExpression he hc hn rfl).bind fun e' he' => .semicolon fun _ => .pure ?_
  rw [Stmt.bare, Stmt.bare, he']

/-- What stands behind the word that opens a handler. -/
theorem handler {k : Handler} (hy : k.Yields ts) (hc : k.Canonical) (hn : ts.length ≤ n) :
    ∃ us, ts = .keyword .catch_ :: us ∧
      Reads g.limit g.handler (fun k' => bareHandler (some k') = bareHandler (some k)) us rest := by
  cases hy with
  | @plain b us hb =>
    cases hc with
    | mk _ hcb =>
      simp only [List.length_cons] at hn
      refine ⟨us, rfl, .takeSign_missed ?_ ?_⟩
      · cases hb
        simp
      · refine (h.block hb hcb (by omega)).last fun b' hb' => .pure ?_
        rw [bareHandler, bareHandler, hb']
  | @named id b us hb =>
    cases hc with
    | mk _ hcb =>
      simp only [List.length_cons] at hn
      refine ⟨_, rfl, .takeSign_found ((identifier_reads id).bind fun id' hid => .sign fun _ => ?_)⟩
      refine (h.block hb hcb (by omega)).last fun b' hb' => .pure ?_
      rw [bareHandler, bareHandler, hb', Option.map_some, Option.map_some, hid]

theorem cleanup {b : Block} (hy : b.YieldsCleanup ts) (hc : b.Canonical) (hn : ts.length ≤ n) :
    ∃ us, ts = .keyword .finally_ :: us ∧
      Reads g.limit g.block (fun b' => bareCleanup (some b') = bareCleanup (some b)) us rest := by
  cases hy with
  | mk hb =>
    simp only [List.length_cons] at hn
    refine ⟨_, rfl, (h.block hb hc (by omega)).mono fun b' hb' => ?_⟩
    rw [bareCleanup, bareCleanup, hb']

omit h in
theorem bareHandler_isSome (k : Option Handler) : (bareHandler k).isSome = k.isSome := by
  cases k with
  | none => rfl
  | some k => cases k; rfl

omit h in
theorem bareCleanup_isSome (b : Option Block) : (bareCleanup b).isSome = b.isSome := by
  cases b <;> rfl

theorem try_ {b : Block} {k : Option Handler} {f : Option Block} {us vs : List Token} (s : Span)
    (hb : b.Yields ts) (hcb : b.Canonical) (hk : Maybe Handler.Yields k us)
    (hck : ∀ x ∈ k, x.Canonical) (hf : Maybe Block.YieldsCleanup f vs) (hcf : ∀ x ∈ f, x.Canonical)
    (hend : k.isSome = true ∨ f.isSome = true) (hn : ts.length + us.length + vs.length ≤ n)
    (hrest : (Stmt.try_ b k f s).StopsAt rest) :
    Reads g.limit g.try_ (fun s' => s'.bare = (Stmt.try_ b k f s).bare)
      (.keyword .try_ :: (ts ++ (us ++ vs))) rest := by
  have hcatch : k = none → (vs ++ rest).head? ≠ some (.keyword .catch_) := by
    rintro rfl
    cases hf with
    | none => rcases hend with hend | hend <;> cases hend
    | some hf =>
      cases hf
      simp
  refine .word fun _ => (h.block hb hcb (by omega)).bind fun b' hb' => ?_
  refine Reads.optional (P := fun k' => bareHandler k' = bareHandler k) hk ?_ ?_ fun k' hk' => ?_
  · rintro x rfl hy
    exact h.handler hy (hck x rfl) (by omega)
  · rintro rfl
    exact ⟨rfl, hcatch rfl⟩
  · rw [← List.append_nil vs]
    refine Reads.optional (P := fun f' => bareCleanup f' = bareCleanup f) hf ?_ ?_ fun f' hf' => ?_
    · rintro x rfl hy
      exact h.cleanup hy (hcf x rfl) (by omega)
    · rintro rfl
      exact ⟨rfl, hrest.cleanup⟩
    · have hk'' := bareHandler_isSome k
      rw [← hk', bareHandler_isSome] at hk''
      have hf'' := bareCleanup_isSome f
      rw [← hf', bareCleanup_isSome] at hf''
      dsimp only
      split
      · rw [← hk'', ← hf''] at hend
        rcases hend with hend | hend <;> cases hend
      · refine .pure ?_
        rw [Stmt.bare, Stmt.bare, hb', hk', hf']
      · refine .pure ?_
        rw [Stmt.bare, Stmt.bare, hb', hk', hf']

omit h in
theorem import_ {target : String} {t : Token} (s : Span) (ht : t.name? = some target) :
    Reads g.limit import_ (fun s' => s'.bare = (Stmt.import_ target s).bare)
      [.keyword .import_, t, .symbol .semicolon] rest := by
  refine .word fun _ => .take fun here hhere => ?_
  rw [hhere, ht]
  refine .semicolon fun _ => .pure ?_
  rw [Stmt.bare, Stmt.bare]

theorem print {es : List Expr} (s : Span) (hes : Listed Expr.Yields es ts)
    (hc : ∀ e ∈ es, e.Canonical) (hn : ts.length < n) :
    Reads g.limit g.print (fun s' => s'.bare = (Stmt.print es s).bare)
      (.keyword .print :: .symbol .leftParen :: (ts ++ [.symbol .rightParen, .symbol .semicolon]))
      rest := by
  have hvalues : Reads g.limit (g.expressions .rightParen)
      (fun p => Expr.bareList p.1 = Expr.bareList es) (ts ++ [.symbol .rightParen])
        ([.symbol .semicolon] ++ rest) := h.expressions (.inr rfl) hes hc hn
  have hall : Reads g.limit g.print (fun s' => s'.bare = (Stmt.print es s).bare)
      (.keyword .print :: .symbol .leftParen :: ((ts ++ [.symbol .rightParen]) ++ [.symbol .semicolon]))
      rest := by
    refine .word fun _ => .sign fun _ => hvalues.bind fun p hp => .semicolon fun _ => .pure ?_
    rw [Stmt.bare, Stmt.bare, hp]
  rwa [List.append_assoc] at hall

theorem statement_declare {d : Declaration} (hy : d.Yields ts) (hc : d.Canonical) (hn : ts.length ≤ n) :
    Reads g.limit g.statementRule (fun s' => s'.bare = (Stmt.declare d).bare) ts rest := by
  have hread : Reads g.limit (do return Stmt.declare (← g.declaration))
      (fun s' => s'.bare = (Stmt.declare d).bare) ts rest := by
    refine (h.declaration hy hc hn).last fun d' hd' => .pure ?_
    rw [Stmt.bare, Stmt.bare, hd']
  obtain ⟨t, us, rfl, ht⟩ := hy.head
  refine .here fun _ _ => ?_
  cases t with
  | keyword word => cases word <;> first | exact hread | cases ht
  | _ => cases ht

theorem statement_expression {e : Expr} (s : Span) (hy : e.Yields ts) (hc : e.Canonical)
    (hstart : e.startsWithMap = false) (hn : ts.length < n) :
    Reads g.limit g.statementRule (fun s' => s'.bare = (Stmt.expression e s).bare)
      (ts ++ [.symbol .semicolon]) rest := by
  have hread : Reads g.limit (g.expressionStatement >>= fun p => pure (Stmt.expression p.1 p.2))
      (fun s' => s'.bare = (Stmt.expression e s).bare) (ts ++ [.symbol .semicolon]) rest := by
    refine (h.expressionStatement hy hc hn).last fun p hp => .pure ?_
    rw [Stmt.bare, Stmt.bare, hp]
  have hbrace := hy.head_brace
  obtain ⟨t, us, rfl, ht⟩ := hy.head
  have ht' : t ≠ .symbol .leftBrace := by
    rintro rfl
    rw [hbrace.1 rfl] at hstart
    cases hstart
  refine .here fun _ _ => ?_
  cases t with
  | symbol sign => cases sign <;> first | exact hread | exact (ht' rfl).elim
  | keyword word => cases word <;> first | exact hread | cases ht
  | _ => exact hread

theorem statementRule {s : Stmt} (hy : s.Yields ts) (hc : s.Canonical) (hn : ts.length ≤ n)
    (hrest : s.StopsAt rest) :
    Reads g.limit g.statementRule (fun s' => s'.bare = s.bare) ts rest := by
  cases hy with
  | declare hd =>
    cases hc with
    | declare hcd => exact h.statement_declare hd hcd hn
  | function hf =>
    cases hc with
    | function hcf =>
      have hread : Reads g.limit g.function (fun f' => f'.bare = _) _ rest := h.function hf hcf hn
      cases hf
      refine .here fun _ _ => hread.last fun f' hf' => .pure ?_
      rw [Stmt.bare, Stmt.bare, hf']
  | class_ id s hms =>
    cases hc with
    | class_ _ _ _ hcms =>
      simp only [List.length_cons, List.length_append] at hn
      exact .here fun _ _ => h.class_ s hms hcms (by omega)
  | subclass id p s hms =>
    cases hc with
    | class_ _ _ _ hcms =>
      simp only [List.length_cons, List.length_append] at hn
      exact .here fun _ _ => h.subclass s hms hcms (by omega)
  | block hb =>
    cases hc with
    | block hcb =>
      have hread : Reads g.limit g.block (fun b' => b'.bare = _) _ rest := h.block hb hcb hn
      cases hb
      refine .here fun _ _ => hread.last fun b' hb' => .pure ?_
      rw [Stmt.bare, Stmt.bare, hb']
  | conditional s hyc hyr =>
    cases hc with
    | conditional _ hcc hcr =>
      simp only [List.length_cons, List.length_append] at hn
      exact .here fun _ _ => h.conditional s hyc hcc hyr hcr (by omega) hrest
  | alternative s hyc hyr hya =>
    cases hc with
    | alternative _ hcc hcr hca hnearest =>
      simp only [List.length_cons, List.length_append] at hn
      exact .here fun _ _ => h.alternative s hyc hcc hyr hcr hnearest hya hca (by omega) hrest
  | whileLoop s hyc hyb =>
    cases hc with
    | whileLoop _ hcc hcb =>
      simp only [List.length_cons, List.length_append] at hn
      exact .here fun _ _ => h.whileLoop s hyc hcc hyb hcb (by omega) hrest
  | forLoop s hyh hyb =>
    cases hc with
    | forLoop _ hch hcb =>
      simp only [List.length_cons, List.length_append] at hn
      exact .here fun _ _ => h.forLoop s hyh hch hyb hcb (by omega) hrest
  | switch s hye hyks =>
    cases hc with
    | switch _ hce hcks =>
      simp only [List.length_cons, List.length_append] at hn
      exact .here fun _ _ => h.switch s hye hce hyks hcks (by omega)
  | return_ s hye =>
    cases hc with
    | return_ _ hce =>
      simp only [List.length_cons, List.length_append] at hn
      exact .here fun _ _ => h.return_ s hye hce (by omega)
  | break_ s => exact .here fun _ _ => single fun _ => rfl
  | continue_ s => exact .here fun _ _ => single fun _ => rfl
  | throw s hye =>
    cases hc with
    | throw _ hce =>
      simp only [List.length_cons, List.length_append] at hn
      exact .here fun _ _ => h.throw_ s hye hce (by omega)
  | try_ s hyb hyk hyf =>
    cases hc with
    | try_ _ hcb hck hcf hend =>
      simp only [List.length_cons, List.length_append] at hn
      exact .here fun _ _ => h.try_ s hyb hcb hyk hck hyf hcf hend (by omega) hrest
  | import_ s ht => exact .here fun _ _ => import_ s ht
  | print s hyes =>
    cases hc with
    | print _ hces =>
      simp only [List.length_cons, List.length_append] at hn
      exact .here fun _ _ => h.print s hyes hces (by omega)
  | pass s => exact .here fun _ _ => single fun _ => rfl
  | expression s hye =>
    cases hc with
    | expression _ hce hstart =>
      simp only [List.length_cons, List.length_append] at hn
      exact h.statement_expression s hye hce hstart (by omega)

end Complete

/-- Every phrase inside another is written with fewer tokens, so as many levels of nesting as there are
tokens suffice. -/
theorem complete_upTo (limit depth : Nat) : (upTo limit depth).Complete depth := by
  induction depth with
  | zero =>
    constructor
    · intro e ts rest bound _ _ hn
      exact (Nat.not_lt_zero _ hn).elim
    · intro s ts rest _ _ hn
      exact (Nat.not_lt_zero _ hn).elim
  | succ depth ih =>
    constructor
    · intro e ts rest bound hy hc hn hfits hstop hreach
      exact ih.expressionRule bound hy hc (Nat.le_of_lt_succ hn) hfits hstop hreach
    · intro s ts rest hy hc hn hrest
      exact ih.statementRule hy hc (Nat.le_of_lt_succ hn) hrest

end Grammar
end Scriptlet
