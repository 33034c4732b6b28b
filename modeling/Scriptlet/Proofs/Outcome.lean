import Scriptlet.Proofs.Simulation

/-! The outcome of a run: it comes to one end, whatever levels it is given beyond those it needs, or it
runs forever. What is proved of runs that follow one another through all levels is stated here of their
outcomes, in both directions. -/
namespace Scriptlet
namespace Likeness

variable {L : Likeness}

def flip (L : Likeness) : Likeness where
  span a b := L.span b a
  expr a b := L.expr b a
  stmt a b := L.stmt b a
  notices a b := L.notices b a
  input a b := L.input b a
  nextLine a b h := ⟨(L.nextLine b a h).1.symm, (L.nextLine b a h).2⟩

theorem rel_flip {α : Type} {R S : α → α → Prop} (h : ∀ {a b}, R a b → S b a) {x y : Option α}
    (hr : Option.Rel R x y) : Option.Rel S y x := by
  cases hr with
  | none => exact .none
  | some hr => exact .some (h hr)

theorem forall₂_flip {α : Type} {R S : α → α → Prop} (h : ∀ {a b}, R a b → S b a) {xs ys : List α}
    (hr : List.Forall₂ R xs ys) : List.Forall₂ S ys xs :=
  List.Forall₂.flip (hr.imp fun _ _ => h)

theorem identifier.flip {a b : Identifier} (h : L.identifier a b) : L.flip.identifier b a :=
  ⟨h.1.symm, h.2⟩

theorem declaration.flip {a b : Declaration} (h : L.declaration a b) : L.flip.declaration b a :=
  ⟨h.1.symm, forall₂_flip (fun hb => ⟨hb.1.symm, rel_flip id hb.2⟩) h.2⟩

theorem block.flip {a b : Block} (h : L.block a b) : L.flip.block b a := forall₂_flip id h

theorem function.flip {a b : FunctionDecl} (h : L.function a b) : L.flip.function b a :=
  ⟨h.1.symm, h.2.1.symm, h.2.2.flip⟩

theorem member.flip {a b : Member} (h : L.member a b) : L.flip.member b a := by
  cases h with
  | field hd => exact .field hd.flip
  | method hf => exact .method hf.flip

theorem initializer.flip {a b : Initializer} (h : L.initializer a b) : L.flip.initializer b a := by
  cases h with
  | declare hd => exact .declare hd.flip
  | expression he => exact .expression he

theorem header.flip {a b : LoopHeader} (h : L.header a b) : L.flip.header b a :=
  ⟨rel_flip initializer.flip h.initializer, rel_flip id h.condition, rel_flip id h.update⟩

theorem ExprMatch.flip {e e' : Expr} (h : L.ExprMatch e e') : L.flip.ExprMatch e' e := by
  cases h with
  | identifier hab => exact .identifier hab.flip
  | literal value s t => exact .literal value t s
  | binary op hl hr hs => exact .binary op hl hr hs
  | unary op he hs => exact .unary op he hs
  | step op hab hs => exact .step op hab.flip hs
  | ternary hc hr ha => exact .ternary hc hr ha
  | assign op hab he hs => exact .assign op hab.flip he hs
  | call hf hes hs => exact .call hf (forall₂_flip id hes) hs
  | member he hab hs => exact .member he hab.flip hs
  | index he hk hs => exact .index he hk hs
  | list hes => exact .list (forall₂_flip id hes)
  | map hes => exact .map (forall₂_flip (fun he => ⟨he.1.symm, he.2⟩) hes)
  | lambda hp he => exact .lambda hp.symm he
  | input hp hs => exact .input (rel_flip id hp) hs
  | nested he => exact .nested he
  | constant he he' hn hn' => exact .constant he' he hn' hn

theorem StmtMatch.flip {s s' : Stmt} (h : L.StmtMatch s s') : L.flip.StmtMatch s' s := by
  cases h with
  | declare hd => exact .declare hd.flip
  | function hf => exact .function hf.flip
  | class_ ha hp hm => exact .class_ ha.symm (rel_flip identifier.flip hp) (forall₂_flip member.flip hm)
  | block hb => exact .block hb.flip
  | conditional hc hr ha => exact .conditional hc hr (rel_flip id ha)
  | whileLoop hc hb => exact .whileLoop hc hb
  | forLoop hh hb => exact .forLoop hh.flip hb
  | switch he hc => exact .switch he (forall₂_flip (fun hk => ⟨rel_flip id hk.1, hk.2⟩) hc)
  | return_ he => exact .return_ (rel_flip id he)
  | break_ hs => exact .break_ hs
  | continue_ hs => exact .continue_ hs
  | throw he hs => exact .throw he hs
  | try_ hb hk hf =>
    exact .try_ hb.flip (rel_flip (fun hk => ⟨hk.1.symm, hk.2.flip⟩) hk) (rel_flip block.flip hf)
  | import_ target hs => exact .import_ target hs
  | print hes => exact .print (forall₂_flip id hes)
  | pass => exact .pass
  | expression he => exact .expression he

theorem Simulation.flip (h : L.Simulation) : L.flip.Simulation :=
  ⟨fun he => (h.expr he).flip, fun hs => (h.stmt hs).flip⟩

/-- Spans, expressions and statements may stand in their own places. -/
structure Reflexive (L : Likeness) : Prop where
  span : ∀ s, L.span s s
  expr : ∀ e, L.expr e e
  stmt : ∀ s, L.stmt s s
  notices : ∀ a, L.notices a a

namespace Reflexive

variable (hL : L.Reflexive)
include hL

omit hL in
theorem forall₂_self {α : Type} {R : α → α → Prop} (h : ∀ a, R a a) (xs : List α) :
    List.Forall₂ R xs xs := List.forall₂_same.2 fun x _ => h x

omit hL in
theorem rel_self {α : Type} {R : α → α → Prop} (h : ∀ a, R a a) (x : Option α) : Option.Rel R x x := by
  cases x with
  | none => exact .none
  | some a => exact .some (h a)

theorem identifier (a : Identifier) : L.identifier a a := ⟨rfl, hL.span a.span⟩

theorem declaration (d : Declaration) : L.declaration d d :=
  ⟨rfl, forall₂_self (fun b => ⟨rfl, rel_self hL.expr b.value⟩) d.bindings⟩

theorem block (b : Block) : L.block b b := forall₂_self hL.stmt b.statements

theorem function (f : FunctionDecl) : L.function f f := ⟨rfl, rfl, hL.block f.body⟩

theorem member (m : Member) : L.member m m := by
  cases m with
  | field d => exact .field (hL.declaration d)
  | method f => exact .method (hL.function f)

theorem initializer (i : Initializer) : L.initializer i i := by
  cases i with
  | declare d => exact .declare (hL.declaration d)
  | expression e s => exact .expression (hL.expr e)

theorem header (h : LoopHeader) : L.header h h :=
  ⟨rel_self hL.initializer h.initializer, rel_self hL.expr h.condition, rel_self hL.expr h.update⟩

theorem exprMatch (e : Expr) : L.ExprMatch e e := by
  cases e with
  | identifier id => exact .identifier (hL.identifier id)
  | literal value s => exact .literal value s s
  | binary op l r s => exact .binary op (hL.expr l) (hL.expr r) (hL.span s)
  | unary op e s => exact .unary op (hL.expr e) (hL.span s)
  | step op id s => exact .step op (hL.identifier id) (hL.span s)
  | ternary c r a s => exact .ternary (hL.expr c) (hL.expr r) (hL.expr a)
  | assign id op e s => exact .assign op (hL.identifier id) (hL.expr e) (hL.span s)
  | call f es s => exact .call (hL.expr f) (forall₂_self hL.expr es) (hL.span s)
  | member e id s => exact .member (hL.expr e) (hL.identifier id) (hL.span s)
  | index e k s => exact .index (hL.expr e) (hL.expr k) (hL.span s)
  | list es s => exact .list (forall₂_self hL.expr es)
  | map es s => exact .map (forall₂_self (fun e => ⟨rfl, hL.expr e.value⟩) es)
  | lambda ps e s => exact .lambda rfl (hL.expr e)
  | input p s => exact .input (rel_self hL.expr p) (hL.span s)
  | nested e s => exact .nested (hL.expr e)

theorem stmtMatch (s : Stmt) : L.StmtMatch s s := by
  cases s with
  | declare d => exact .declare (hL.declaration d)
  | function f => exact .function (hL.function f)
  | class_ id p ms s =>
    exact .class_ rfl (rel_self hL.identifier p) (forall₂_self hL.member ms)
  | block b => exact .block (hL.block b)
  | conditional c r a s => exact .conditional (hL.expr c) (hL.stmt r) (rel_self hL.stmt a)
  | whileLoop c b s => exact .whileLoop (hL.expr c) (hL.stmt b)
  | forLoop h b s => exact .forLoop (hL.header h) (hL.stmt b)
  | switch e cs s =>
    exact .switch (hL.expr e) (forall₂_self (fun k => ⟨rel_self hL.expr k.value, hL.stmt k.body⟩) cs)
  | return_ e s => exact .return_ (rel_self hL.expr e)
  | break_ s => exact .break_ (hL.span s)
  | continue_ s => exact .continue_ (hL.span s)
  | throw e s => exact .throw (hL.expr e) (hL.span s)
  | try_ b h f s =>
    exact .try_ (hL.block b) (rel_self (fun k => ⟨rfl, hL.block k.body⟩) h) (rel_self hL.block f)
  | import_ target s => exact .import_ target (hL.span s)
  | print es s => exact .print (forall₂_self hL.expr es)
  | pass s => exact .pass
  | expression e s => exact .expression (hL.expr e)

theorem body (b : FunctionBody) : L.body b b := by
  cases b with
  | block b => exact .block (hL.block b)
  | expression e => exact .expression (hL.expr e)

theorem machine (m : Machine) (hinput : L.input m.input m.input) : L.machine m m where
  store := {
    frames := rfl
    arrays := rfl
    maps := rfl
    instances := rfl
    functions := forall₂_self (fun f => ⟨rfl, rfl, rfl, hL.body f.body⟩) _
    classes := forall₂_self (fun k => ⟨rfl, rfl, rfl, forall₂_self hL.member k.members⟩) _ }
  depth := rfl
  input := hinput
  output := rfl
  notices := hL.notices m.notices
  importing := rfl
  clock := rfl

end Reflexive

theorem Reflexive.flip (hL : L.Reflexive) : L.flip.Reflexive := ⟨hL.span, hL.expr, hL.stmt, hL.notices⟩

def same : Likeness where
  span := Eq
  expr := Eq
  stmt := Eq

theorem same_reflexive : same.Reflexive := ⟨fun _ => rfl, fun _ => rfl, fun _ => rfl, fun _ => rfl⟩

theorem same_simulation : same.Simulation := by
  constructor
  · intro e e' he
    cases he
    exact same_reflexive.exprMatch e
  · intro s s' hs
    cases hs
    exact same_reflexive.stmtMatch s

end Likeness

namespace Program

variable {c : Context} {env : Env} {p : Program} {m m' : Machine} {r : Except RuntimeError Value}

/-- The program runs to this end, however many more levels it is given. -/
def Ends (c : Context) (env : Env) (p : Program) (m : Machine) (r : Except RuntimeError Value)
    (m' : Machine) : Prop :=
  EndsAs (fun n => (evaluator n).run c env p) m (.ok r m')

/-- The program runs out of levels, however many it is given. -/
def Diverges (c : Context) (env : Env) (p : Program) (m : Machine) : Prop :=
  ∀ n, ∃ m', (evaluator n).run c env p m = .error .exhausted m'

theorem Ends.unique {r' : Except RuntimeError Value} {m'' : Machine} (h : p.Ends c env m r m')
    (h' : p.Ends c env m r' m'') : r = r' ∧ m' = m'' := by
  have he := EndsAs.unique h h'
  cases he
  exact ⟨rfl, rfl⟩

theorem Ends.not_diverges (h : p.Ends c env m r m') : ¬p.Diverges c env m := by
  obtain ⟨k, hk⟩ := h
  intro hd
  obtain ⟨m'', hm⟩ := hd k
  have he := (hk k (Nat.le_refl k)).symm.trans hm
  cases he

/-- A run gives its result unless it runs out of levels. -/
theorem run_ok_or_exhausted (ev : Evaluator) (c : Context) (env : Env) (p : Program) (m : Machine) :
    (∃ r m', ev.run c env p m = .ok r m') ∨ ∃ m', ev.run c env p m = .error .exhausted m' := by
  unfold Evaluator.run
  cases he : ev.executeAll c env .undefined p.statements m with
  | ok value m' =>
    rw [bind_ok (Action.attempt_ok he)]
    exact .inl ⟨.ok value, m', rfl⟩
  | error signal m' =>
    by_cases hs : signal = .exhausted
    · subst hs
      right
      exact ⟨m', bind_error (attempt_exhausted he) _⟩
    · left
      rw [bind_ok (attempt_error he hs)]
      cases signal with
      | exhausted => exact (hs rfl).elim
      | return_ value => exact ⟨_, m', rfl⟩
      | break_ s => exact ⟨_, m', rfl⟩
      | continue_ s => exact ⟨_, m', rfl⟩
      | throw value s => exact ⟨_, m', rfl⟩
      | error e => exact ⟨_, m', rfl⟩

end Program

namespace Likeness

variable {L : Likeness} {c : Context} {env : Env} {p q : Program} {m n : Machine}

/-- A run through any number of levels that gives its result is followed to an end. -/
theorem Simulation.ends_served (hL : L.Simulation) (hc : L.Serves c)
    (hp : List.Forall₂ L.stmt p.statements q.statements) (hm : L.machine m n)
    {k : Nat} {r : Except RuntimeError Value} {m' : Machine}
    (h : (evaluator k).run c env p m = .ok r m') :
    ∃ r' n', q.Ends c env n r' n' ∧ L.outcome r r' ∧ L.machine m' n' := by
  have hf : Finished ((evaluator k).run c env p m) := by
    rw [h]
    trivial
  obtain ⟨e, he, hend⟩ := (hL.leads hc k c.natives).run env hp m n hm hf
  rw [h] at he
  cases he with
  | ok hr hm' => exact ⟨_, _, hend, hr, hm'⟩

/-- What follows a run that comes to an end does not run forever. -/
theorem Simulation.diverges_served (hL : L.Simulation) (hc : L.Serves c)
    (hp : List.Forall₂ L.stmt p.statements q.statements) (hm : L.machine m n)
    (h : q.Diverges c env n) : p.Diverges c env m := by
  intro k
  rcases Program.run_ok_or_exhausted (evaluator k) c env p m with ⟨r, m', hr⟩ | hx
  · obtain ⟨r', n', hend, -, -⟩ := hL.ends_served hc hp hm hr
    exact (hend.not_diverges h).elim
  · exact hx

theorem Simulation.ends (hL : L.Simulation) (hc : c.host = .plain)
    (hp : List.Forall₂ L.stmt p.statements q.statements) (hm : L.machine m n)
    {k : Nat} {r : Except RuntimeError Value} {m' : Machine}
    (h : (evaluator k).run c env p m = .ok r m') :
    ∃ r' n', q.Ends c env n r' n' ∧ L.outcome r r' ∧ L.machine m' n' :=
  hL.ends_served (serves_plain hc) hp hm h

theorem Simulation.diverges (hL : L.Simulation) (hc : c.host = .plain)
    (hp : List.Forall₂ L.stmt p.statements q.statements) (hm : L.machine m n)
    (h : q.Diverges c env n) : p.Diverges c env m :=
  hL.diverges_served (serves_plain hc) hp hm h

end Likeness

theorem Likeness.same_outcome {r r' : Except RuntimeError Value} (h : Likeness.same.outcome r r') :
    r = r' := by
  cases h with
  | ok value => rfl
  | error cause hs =>
    cases hs
    rfl

/-- At the limit, a call of a function fails before it counts itself. -/
theorem Evaluator.callFunction_at_limit (ev : Evaluator) {c : Context} {f : Function}
    {arguments : List Value} {m : Machine} (harity : f.parameters.length = arguments.length)
    (hlimit : c.options.maxCallDepth ≤ m.depth) (span : Span) :
    ev.callFunction c f arguments span m =
      .error (.error ⟨.stackOverflow c.options.maxCallDepth, span⟩) m := by
  unfold Evaluator.callFunction
  dsimp only
  rw [if_neg (not_not_intro harity)]
  have hget : (get : Action Machine) m = .ok m m := rfl
  refine (bind_ok hget _).trans ?_
  rw [if_pos hlimit]
  rfl

/-- More levels do not change the result of a run. -/
theorem Program.ends_of_run {c : Context} (hc : Likeness.same.Serves c) {env : Env} {p : Program} {m m' : Machine}
    {k : Nat} {r : Except RuntimeError Value} (h : (evaluator k).run c env p m = .ok r m') :
    ∃ m'', p.Ends c env m r m'' := by
  obtain ⟨r', m'', hend, hr, -⟩ := Likeness.same_simulation.ends_served hc
    (Likeness.Reflexive.forall₂_self Likeness.same_reflexive.stmt p.statements)
    (Likeness.same_reflexive.machine m rfl) h
  cases Likeness.same_outcome hr
  exact ⟨m'', hend⟩

theorem Value.eq_int_of_identical {i : Int64} {v : Value} (h : (Value.int i).identical v = true) :
    v = .int i := by
  cases v with
  | int j => rw [of_decide_eq_true h]
  | _ => cases h

/-- A run through some levels that gives an integer ends with it. -/
theorem Program.ends_of_int {c : Context} (hc : c.host = .plain) {env : Env} {p : Program} {m : Machine}
    {k : Nat} {i : Int64} (h : (((evaluator k).run c env p).run' m).any
      (fun r => r.toOption.any (Value.int i).identical) = true) : ∃ m', p.Ends c env m (.ok (.int i)) m' := by
  delta EStateM.run' EStateM.run at h
  cases hrun : (evaluator k).run c env p m with
  | error signal m' =>
    rw [hrun] at h
    cases h
  | ok r m' =>
    rw [hrun] at h
    cases r with
    | error e => cases h
    | ok v =>
      rw [Value.eq_int_of_identical h] at hrun
      exact Program.ends_of_run (Likeness.serves_plain hc) hrun

theorem Program.ends_or_diverges_served {c : Context} (hc : Likeness.same.Serves c) (env : Env) (p : Program)
    (m : Machine) : p.Diverges c env m ∨ ∃ r m', p.Ends c env m r m' := by
  by_cases hd : p.Diverges c env m
  · exact .inl hd
  · right
    obtain ⟨k, hk⟩ := Classical.not_forall.1 hd
    rcases Program.run_ok_or_exhausted (evaluator k) c env p m with ⟨r, m', hr⟩ | hx
    · exact ⟨r, Program.ends_of_run hc hr⟩
    · exact (hk hx).elim

theorem Program.ends_or_diverges {c : Context} (hc : c.host = .plain) (env : Env) (p : Program)
    (m : Machine) : p.Diverges c env m ∨ ∃ r m', p.Ends c env m r m' :=
  ends_or_diverges_served (Likeness.serves_plain hc) env p m

end Scriptlet
