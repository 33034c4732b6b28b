import Scriptlet.Proofs.Following

/-! Programs of like code have like runs. A likeness is a simulation when like phrases have the same form
and like parts, or are constants of the same value; then evaluation of the one follows evaluation of the
other through every construct, also through the functions and classes that outlive the phrase that made
them. -/
namespace Scriptlet

/-- The expression does nothing but yield a value, in whatever state. -/
structure Expr.Settles (e : Expr) (v : Value) : Prop where
  only : ∀ (n : Nat) (c : Context) (env : Env) (m : Machine),
    Finished ((evaluator n).evaluate c env e m) → (evaluator n).evaluate c env e m = .ok v m
  reached : ∃ k, ∀ j, k ≤ j → ∀ (c : Context) (env : Env) (m : Machine),
    (evaluator j).evaluate c env e m = .ok v m

namespace Likeness

variable (L : Likeness)

/-- Expressions of one form with like parts, or constants of one value. -/
inductive ExprMatch : Expr → Expr → Prop
  | identifier {a b : Identifier} (h : L.identifier a b) : ExprMatch (.identifier a) (.identifier b)
  | literal (value : Literal) (s t : Span) : ExprMatch (.literal value s) (.literal value t)
  | binary (op : BinaryOp) {l l' r r' : Expr} {s t : Span} (hl : L.expr l l') (hr : L.expr r r')
    (hs : L.span s t) : ExprMatch (.binary op l r s) (.binary op l' r' t)
  | unary (op : UnaryOp) {e e' : Expr} {s t : Span} (he : L.expr e e') (hs : L.span s t) :
    ExprMatch (.unary op e s) (.unary op e' t)
  | step (op : StepOp) {a b : Identifier} {s t : Span} (ha : L.identifier a b) (hs : L.span s t) :
    ExprMatch (.step op a s) (.step op b t)
  | ternary {c c' r r' a a' : Expr} {s t : Span} (hc : L.expr c c') (hr : L.expr r r')
    (ha : L.expr a a') : ExprMatch (.ternary c r a s) (.ternary c' r' a' t)
  | assign {a b : Identifier} (op : Option ComputeOp) {e e' : Expr} {s t : Span}
    (ha : L.identifier a b) (he : L.expr e e') (hs : L.span s t) :
    ExprMatch (.assign a op e s) (.assign b op e' t)
  | call {f f' : Expr} {es es' : List Expr} {s t : Span} (hf : L.expr f f')
    (hes : List.Forall₂ L.expr es es') (hs : L.span s t) : ExprMatch (.call f es s) (.call f' es' t)
  | member {e e' : Expr} {a b : Identifier} {s t : Span} (he : L.expr e e') (ha : L.identifier a b)
    (hs : L.span s t) : ExprMatch (.member e a s) (.member e' b t)
  | index {e e' k k' : Expr} {s t : Span} (he : L.expr e e') (hk : L.expr k k') (hs : L.span s t) :
    ExprMatch (.index e k s) (.index e' k' t)
  | list {es es' : List Expr} {s t : Span} (hes : List.Forall₂ L.expr es es') :
    ExprMatch (.list es s) (.list es' t)
  | map {es es' : List (Entry Expr)} {s t : Span} (hes : List.Forall₂ L.entry es es') :
    ExprMatch (.map es s) (.map es' t)
  | lambda {ps ps' : List Identifier} {e e' : Expr} {s t : Span}
    (hp : ps.map (·.name) = ps'.map (·.name)) (he : L.expr e e') :
    ExprMatch (.lambda ps e s) (.lambda ps' e' t)
  | input {p p' : Option Expr} {s t : Span} (hp : Option.Rel L.expr p p') (hs : L.span s t) :
    ExprMatch (.input p s) (.input p' t)
  | nested {e e' : Expr} {s t : Span} (he : L.expr e e') : ExprMatch (.nested e s) (.nested e' t)
  | constant {e e' : Expr} {v : Value} (he : e.Settles v) (he' : e'.Settles v)
    (hn : e.isIdentifier = false) (hn' : e'.isIdentifier = false) : ExprMatch e e'

inductive StmtMatch : Stmt → Stmt → Prop
  | declare {a b : Declaration} (h : L.declaration a b) : StmtMatch (.declare a) (.declare b)
  | function {a b : FunctionDecl} (h : L.function a b) : StmtMatch (.function a) (.function b)
  | class_ {a b : Identifier} {p q : Option Identifier} {ms ms' : List Member} {s t : Span}
    (ha : a.name = b.name) (hp : Option.Rel L.identifier p q) (hm : List.Forall₂ L.member ms ms') :
    StmtMatch (.class_ a p ms s) (.class_ b q ms' t)
  | block {a b : Block} (h : L.block a b) : StmtMatch (.block a) (.block b)
  | conditional {c c' : Expr} {r r' : Stmt} {a a' : Option Stmt} {s t : Span} (hc : L.expr c c')
    (hr : L.stmt r r') (ha : Option.Rel L.stmt a a') :
    StmtMatch (.conditional c r a s) (.conditional c' r' a' t)
  | whileLoop {c c' : Expr} {b b' : Stmt} {s t : Span} (hc : L.expr c c') (hb : L.stmt b b') :
    StmtMatch (.whileLoop c b s) (.whileLoop c' b' t)
  | forLoop {h h' : LoopHeader} {b b' : Stmt} {s t : Span} (hh : L.header h h') (hb : L.stmt b b') :
    StmtMatch (.forLoop h b s) (.forLoop h' b' t)
  | switch {e e' : Expr} {cs cs' : List Case} {s t : Span} (he : L.expr e e')
    (hc : List.Forall₂ L.case cs cs') : StmtMatch (.switch e cs s) (.switch e' cs' t)
  | return_ {e e' : Option Expr} {s t : Span} (he : Option.Rel L.expr e e') :
    StmtMatch (.return_ e s) (.return_ e' t)
  | break_ {s t : Span} (hs : L.span s t) : StmtMatch (.break_ s) (.break_ t)
  | continue_ {s t : Span} (hs : L.span s t) : StmtMatch (.continue_ s) (.continue_ t)
  | throw {e e' : Expr} {s t : Span} (he : L.expr e e') (hs : L.span s t) :
    StmtMatch (.throw e s) (.throw e' t)
  | try_ {b b' : Block} {h h' : Option Handler} {f f' : Option Block} {s t : Span} (hb : L.block b b')
    (hh : Option.Rel L.handler h h') (hf : Option.Rel L.block f f') :
    StmtMatch (.try_ b h f s) (.try_ b' h' f' t)
  | import_ (target : String) {s t : Span} (hs : L.span s t) :
    StmtMatch (.import_ target s) (.import_ target t)
  | print {es es' : List Expr} {s t : Span} (hes : List.Forall₂ L.expr es es') :
    StmtMatch (.print es s) (.print es' t)
  | pass {s t : Span} : StmtMatch (.pass s) (.pass t)
  | expression {e e' : Expr} {s t : Span} (he : L.expr e e') :
    StmtMatch (.expression e s) (.expression e' t)

structure Simulation : Prop where
  expr : ∀ {e e'}, L.expr e e' → L.ExprMatch e e'
  stmt : ∀ {s s'}, L.stmt s s' → L.StmtMatch s s'

/-- Evaluation through `n` levels is followed by evaluation of like code through enough levels. -/
structure Leads (c : Context) (n : Nat) : Prop where
  evaluate : ∀ env {e e'}, L.expr e e' →
    L.Follows Eq ((evaluator n).evaluate c env e) fun j => (evaluator j).evaluate c env e'
  execute : ∀ env {s s'}, L.stmt s s' →
    L.Follows Eq ((evaluator n).execute c env s) fun j => (evaluator j).execute c env s'
  call : ∀ env callee arguments {s t}, L.span s t →
    L.Follows Eq ((evaluator n).call c env callee arguments s)
      fun j => (evaluator j).call c env callee arguments t

/-- The natives of the host do alike while the programs that they run do. -/
def Serves (c : Context) : Prop :=
  ∀ n, (∀ natives, L.Leads { c with natives } n) → ∀ id arguments env,
    L.Follows Eq (c.host.respond id ((evaluator n).runner c) arguments env)
      fun j => c.host.respond id ((evaluator j).runner c) arguments env

variable {L} {α β : Type} {R : α → β → Prop}

/-- A host serves whatever natives the program knows. -/
theorem Serves.withNatives {c : Context} (h : L.Serves c) (natives : Dictionary Native) :
    L.Serves { c with natives } := h

/-- A family may take one more level. -/
theorem Follows.later {action : Action α} {family family' : Nat → Action β}
    (he : ∀ j, family' (j + 1) = family j) (h : L.Follows R action family) :
    L.Follows R action family' := by
  intro m n hmn hf
  obtain ⟨r, hr, k, hk⟩ := h m n hmn hf
  refine ⟨r, hr, k + 1, fun j hj => ?_⟩
  obtain ⟨i, rfl⟩ : ∃ i, j = i + 1 := ⟨j - 1, by omega⟩
  rw [he i]
  exact hk i (by omega)

theorem follows_lookup (c : Context) (env : Env) {a b : Identifier} (h : L.identifier a b) :
    L.Follows Eq (c.lookup env a) fun _ => c.lookup env b := by
  obtain ⟨hname, hspan⟩ := h
  unfold Context.lookup
  rw [hname]
  refine (Follows.look fun s t hst => hst.resembles.get?_eq env b.name).andThen fun found => ?_
  cases found with
  | some value => exact .pure rfl
  | none =>
    dsimp only
    split
    · exact .pure rfl
    · exact .fail _ hspan

theorem follows_lookupCallee (c : Context) (env : Env) (name : String) {s t : Span} (h : L.span s t) :
    L.Follows Eq (c.lookupCallee env name s) fun _ => c.lookupCallee env name t := by
  refine (Follows.look fun s t hst => hst.resembles.get?_eq env name).andThen fun found => ?_
  split
  · exact .pure rfl
  · exact .fail _ h

theorem follows_define (env : Env) (name : String) (value : Value) (constant : Bool) :
    L.Follows Eq (Action.define env name value constant)
      fun _ => Action.define env name value constant :=
  .update fun _ _ hst => ⟨rfl, hst.define env name value constant⟩

theorem follows_enclose (env : Env) : L.Follows Eq (Action.enclose env) fun _ => Action.enclose env :=
  .update fun _ _ hst => hst.enclose env

theorem follows_assign (c : Context) (env : Env) {a b : Identifier} (h : L.identifier a b)
    (value : Value) : L.Follows Eq (c.assign env a value) fun _ => c.assign env b value := by
  obtain ⟨hname, hspan⟩ := h
  unfold Context.assign
  rw [hname]
  refine (Follows.update fun s t hst => hst.assign env b.name value).andThen fun refusal => ?_
  split
  · exact .pure rfl
  · exact .fail _ hspan
  · split
    · exact (follows_define env _ value false).andThen fun _ => .pure rfl
    · exact .fail _ hspan

theorem follows_compute (op : ComputeOp) (x y : Value) {s t : Span} (h : L.span s t) :
    L.Follows Eq (compute op x y s) fun _ => compute op x y t :=
  (Follows.look fun _ _ hst => hst.resembles.compute_eq op x y).andThen fun result => .ofExcept h result

theorem follows_relate (op : RelateOp) (x y : Value) {s t : Span} (h : L.span s t) :
    L.Follows Eq (relate op x y s) fun _ => relate op x y t :=
  (Follows.look fun _ _ hst => hst.resembles.relate_eq op x y).andThen fun result => .ofExcept h result

theorem follows_member (object : Value) {a b : Identifier} {s t : Span} (ha : L.identifier a b)
    (hs : L.span s t) : L.Follows Eq (object.member a s) fun _ => object.member b t := by
  obtain ⟨hname, hspan⟩ := ha
  unfold Value.member
  rw [hname]
  split
  · next r =>
    refine (Follows.look fun s t hst => ?_).andThen fun found => .pure rfl
    rw [Store.map, Store.map, hst.maps]
  · next r =>
    refine (Follows.look fun s t hst => hst.resembles.member_eq r b.name).andThen fun found => ?_
    cases found with
    | some value => exact .pure rfl
    | none => exact .fail _ hspan
  · exact .fail _ hs

theorem follows_write (text : String) : L.Follows Eq (Action.write text) fun _ => Action.write text :=
  .modify fun m n hmn => { hmn with output := by rw [hmn.output] }

theorem follows_nextLine : L.Follows Eq Action.nextLine fun _ => Action.nextLine := by
  refine .of_result fun m n hmn => ?_
  obtain ⟨hline, hrest⟩ := L.nextLine _ _ hmn.input
  exact .ok hline { hmn with input := hrest }

theorem follows_tellTime (f : Builtin) : L.Follows Eq (Action.tellTime f) fun _ => Action.tellTime f := by
  refine .of_result fun m n hmn => ?_
  have hclock := hmn.clock
  exact .ok (by rw [hclock]) { hmn with clock := by rw [hclock] }

theorem follows_display (v : Value) :
    L.Follows Eq (Action.look fun s => s.display v) fun _ => Action.look fun s => s.display v :=
  .look fun _ _ hst => hst.resembles.display_eq v

theorem follows_readLine (prompt : Option Value) {s t : Span} (h : L.span s t) :
    L.Follows Eq (readLine prompt s) fun _ => readLine prompt t := by
  have hread : L.Follows Eq (readLine none s) fun _ => readLine none t := by
    refine follows_nextLine.andThen fun line => ?_
    split
    · exact .pure rfl
    · split
      · exact .pure rfl
      · exact .fail _ h
  cases prompt with
  | none => exact hread
  | some prompt =>
    exact (follows_display prompt).andThen fun text => (follows_write text).andThen fun _ => hread

theorem follows_depth (f : Nat → Nat) :
    L.Follows Eq (modify fun m => { m with depth := f m.depth } : Action Unit)
      fun _ => modify fun m => { m with depth := f m.depth } :=
  .modify fun _ _ hmn => { hmn with depth := by rw [hmn.depth] }

theorem follows_newFunction {f g : Function} (h : L.functionCell f g) :
    L.Follows Eq (newFunction f) fun _ => newFunction g := .update fun _ _ hst => hst.newFunction h

theorem follows_declareFunction (env : Env) {f g : FunctionDecl} (h : L.function f g) :
    L.Follows Eq (declareFunction env f) fun _ => declareFunction env g := by
  obtain ⟨hname, hparameters, hbody⟩ := h
  have hcell : L.functionCell ⟨some f.name.name, f.parameters.map (·.name), .block f.body, env⟩
      ⟨some g.name.name, g.parameters.map (·.name), .block g.body, env⟩ :=
    ⟨congrArg some hname, hparameters, rfl, .block hbody⟩
  unfold declareFunction
  refine (follows_newFunction hcell).andThen fun value => ?_
  rw [hname]
  exact follows_define env g.name.name value false

/-- Constants of one value do the same whatever levels there are. -/
theorem follows_constant {e e' : Expr} {v : Value} (he : e.Settles v) (he' : e'.Settles v)
    (c : Context) (env : Env) (n : Nat) :
    L.Follows Eq ((evaluator n).evaluateStep c env e)
      fun j => (evaluator j).evaluateStep c env e' := by
  intro m m' hm hf
  simp only [← evaluator_evaluate] at hf ⊢
  obtain ⟨k, hk⟩ := he'.reached
  refine ⟨.ok v m', ?_, k, fun j hj => hk (j + 1) (by omega) c env m'⟩
  rw [he.only (n + 1) c env m hf]
  exact .ok rfl hm

theorem serves_plain {c : Context} (h : c.host = .plain) : L.Serves c := by
  intro n _ id arguments env
  rw [h]
  exact .pure rfl

namespace Leads

variable {c : Context} {n : Nat} (h : L.Leads c n)
include h

theorem evaluateAll (env : Env) {es es' : List Expr} (hes : List.Forall₂ L.expr es es') :
    L.Follows Eq ((evaluator n).evaluateAll c env es) fun j => (evaluator j).evaluateAll c env es' := by
  induction hes with
  | nil => exact .pure rfl
  | cons he _ ih => exact (h.evaluate env he).andThen fun _ => ih.andThen fun _ => .pure rfl

theorem evaluateEntries (env : Env) (entries : Dictionary Value) {es es' : List (Entry Expr)}
    (hes : List.Forall₂ L.entry es es') :
    L.Follows Eq ((evaluator n).evaluateEntries c env entries es)
      fun j => (evaluator j).evaluateEntries c env entries es' := by
  induction hes generalizing entries with
  | nil => exact .pure rfl
  | cons he _ ih =>
    obtain ⟨hkey, hvalue⟩ := he
    unfold Evaluator.evaluateEntries
    rw [hkey]
    exact (h.evaluate env hvalue).andThen fun _ => ih _

theorem evaluateTexts (env : Env) {es es' : List Expr} (hes : List.Forall₂ L.expr es es') :
    L.Follows Eq ((evaluator n).evaluateTexts c env es)
      fun j => (evaluator j).evaluateTexts c env es' := by
  induction hes with
  | nil => exact .pure rfl
  | cons he _ ih =>
    exact (h.evaluate env he).andThen fun value => (follows_display value).andThen fun _ =>
      ih.andThen fun _ => .pure rfl

theorem evaluateOption (env : Env) {e e' : Option Expr} (he : Option.Rel L.expr e e') :
    L.Follows Eq ((evaluator n).evaluateOption c env e)
      fun j => (evaluator j).evaluateOption c env e' := by
  cases he with
  | none => exact .pure rfl
  | some he => exact h.evaluate env he

omit h in
theorem evaluateCallee_eq {ev : Evaluator} {env : Env} {e : Expr} (hn : e.isIdentifier = false) :
    ev.evaluateCallee c env e = ev.evaluate c env e := by
  cases e <;> first | rfl | cases hn

theorem evaluateCallee (hL : L.Simulation) (env : Env) {e e' : Expr} (hlike : L.expr e e') :
    L.Follows Eq ((evaluator n).evaluateCallee c env e)
      fun j => (evaluator j).evaluateCallee c env e' := by
  have hother : e.isIdentifier = false → e'.isIdentifier = false →
      L.Follows Eq ((evaluator n).evaluateCallee c env e)
        fun j => (evaluator j).evaluateCallee c env e' := by
    intro hn hn'
    simp only [evaluateCallee_eq hn, evaluateCallee_eq hn']
    exact h.evaluate env hlike
  cases hL.expr hlike with
  | @identifier a b hab =>
    obtain ⟨hname, hspan⟩ := hab
    show L.Follows Eq (c.lookupCallee env a.name a.span) fun _ => c.lookupCallee env b.name b.span
    rw [hname]
    exact follows_lookupCallee c env b.name hspan
  | constant _ _ hn hn' => exact hother hn hn'
  | _ => exact hother rfl rfl

theorem evaluateStep (hL : L.Simulation) (env : Env) {e e' : Expr} (hlike : L.expr e e') :
    L.Follows Eq ((evaluator n).evaluateStep c env e)
      fun j => (evaluator j).evaluateStep c env e' := by
  cases hL.expr hlike with
  | identifier hab => exact follows_lookup c env hab
  | literal value s t => exact .pure rfl
  | binary op hl hr hs =>
    cases op with
    | compute op =>
      exact (h.evaluate env hl).andThen fun _ => (h.evaluate env hr).andThen fun _ =>
        follows_compute op _ _ hs
    | relate op =>
      exact (h.evaluate env hl).andThen fun _ => (h.evaluate env hr).andThen fun _ =>
        follows_relate op _ _ hs
    | logic op =>
      cases op with
      | and =>
        refine (h.evaluate env hl).andThen fun value => ?_
        split
        · exact h.evaluate env hr
        · exact .pure rfl
      | or =>
        refine (h.evaluate env hl).andThen fun value => ?_
        split
        · exact .pure rfl
        · exact h.evaluate env hr
  | unary op he hs => exact (h.evaluate env he).andThen fun _ => .ofExcept hs _
  | step op hab hs =>
    refine (follows_lookup c env hab).andThen fun current => ?_
    cases op with
    | increment =>
      exact (follows_compute .add current _ hs).andThen fun value => follows_assign c env hab value
    | decrement =>
      exact (follows_compute .subtract current _ hs).andThen fun value => follows_assign c env hab value
  | ternary hc hr ha =>
    refine (h.evaluate env hc).andThen fun value => ?_
    split
    · exact h.evaluate env hr
    · exact h.evaluate env ha
  | assign op hab he hs =>
    cases op with
    | none => exact (h.evaluate env he).andThen fun value => follows_assign c env hab value
    | some op =>
      exact (h.evaluate env he).andThen fun value => (follows_lookup c env hab).andThen fun current =>
        (follows_compute op current value hs).andThen fun value => follows_assign c env hab value
  | call hf hes hs =>
    exact (h.evaluateCallee hL env hf).andThen fun callee =>
      (h.evaluateAll env hes).andThen fun arguments => h.call env callee arguments hs
  | member he hab hs => exact (h.evaluate env he).andThen fun object => follows_member object hab hs
  | index he hk hs =>
    exact (h.evaluate env he).andThen fun object => (h.evaluate env hk).andThen fun key =>
      (Follows.look fun _ _ hst => hst.resembles.at_eq object key).andThen fun _ => .ofExcept hs _
  | list hes =>
    exact (h.evaluateAll env hes).andThen fun items => .update fun _ _ hst => hst.newArray items.toArray
  | map hes =>
    exact (h.evaluateEntries env .empty hes).andThen fun entries =>
      .update fun _ _ hst => hst.newMap entries
  | lambda hp he => exact follows_newFunction ⟨rfl, hp, rfl, .expression he⟩
  | input hp hs =>
    cases hp with
    | none => exact follows_readLine none hs
    | some hp => exact (h.evaluate env hp).andThen fun prompt => follows_readLine (some prompt) hs
  | nested he => exact h.evaluate env he
  | constant he he' _ _ => exact follows_constant he he' c env n

theorem executeAll (env : Env) (last : Value) {ss ss' : List Stmt} (hss : List.Forall₂ L.stmt ss ss') :
    L.Follows Eq ((evaluator n).executeAll c env last ss)
      fun j => (evaluator j).executeAll c env last ss' := by
  induction hss generalizing last with
  | nil => exact .pure rfl
  | cons hs _ ih => exact (h.execute env hs).andThen fun value => ih value

theorem executeBlock (env : Env) {b b' : Block} (hb : L.block b b') :
    L.Follows Eq ((evaluator n).executeBlock c env b) fun j => (evaluator j).executeBlock c env b' :=
  h.executeAll env .undefined hb

theorem executeEnclosed (env : Env) {b b' : Block} (hb : L.block b b') :
    L.Follows Eq ((evaluator n).executeEnclosed c env b)
      fun j => (evaluator j).executeEnclosed c env b' :=
  (follows_enclose env).andThen fun inner => h.executeBlock inner hb

theorem declareBindings (env : Env) (constant : Bool) {bs bs' : List Binding}
    (hbs : List.Forall₂ L.binding bs bs') :
    L.Follows Eq ((evaluator n).declareBindings c env constant bs)
      fun j => (evaluator j).declareBindings c env constant bs' := by
  induction hbs with
  | nil => exact .pure rfl
  | cons hb _ ih =>
    obtain ⟨hname, hvalue⟩ := hb
    unfold Evaluator.declareBindings
    rw [hname]
    exact (h.evaluateOption env hvalue).andThen fun value =>
      (follows_define env _ value constant).andThen fun _ => ih

theorem declare (env : Env) {d d' : Declaration} (hd : L.declaration d d') :
    L.Follows Eq ((evaluator n).declare c env d) fun j => (evaluator j).declare c env d' := by
  obtain ⟨hkind, hbindings⟩ := hd
  unfold Evaluator.declare
  rw [hkind]
  exact h.declareBindings env _ hbindings

omit h in
theorem declareClass (env : Env) {a b : Identifier} {p q : Option Identifier} {ms ms' : List Member}
    (ha : a.name = b.name) (hp : Option.Rel L.identifier p q) (hm : List.Forall₂ L.member ms ms') :
    L.Follows Eq (Evaluator.declareClass c env a p ms)
      fun _ => Evaluator.declareClass c env b q ms' := by
  have hrest : ∀ parent : Option Nat, L.Follows Eq
      (Action.update (fun s => s.newClass ⟨a.name, parent, ms, env⟩) >>= fun value =>
        Action.define env a.name value false)
      fun _ => Action.update (fun s => s.newClass ⟨b.name, parent, ms', env⟩) >>= fun value =>
        Action.define env b.name value false := by
    intro parent
    have hcell : L.classCell ⟨a.name, parent, ms, env⟩ ⟨b.name, parent, ms', env⟩ :=
      ⟨ha, rfl, rfl, hm⟩
    refine (Follows.update fun _ _ hst => hst.newClass hcell).andThen fun value => ?_
    rw [ha]
    exact follows_define env b.name value false
  cases hp with
  | none => exact (Follows.pure rfl).andThen hrest
  | @some i i' hi =>
    refine (follows_lookup c env hi).andThen fun value => ?_
    split
    · exact (Follows.pure rfl).andThen hrest
    · rw [hi.1]
      exact .failThen _ hi.2 _ _

theorem holds (env : Env) {e e' : Option Expr} (he : Option.Rel L.expr e e') :
    L.Follows Eq ((evaluator n).holds c env e) fun j => (evaluator j).holds c env e' := by
  cases he with
  | none => exact .pure rfl
  | some he => exact (h.evaluate env he).andThen fun _ => .pure rfl

theorem executeRound (env : Env) {s s' : Stmt} (hs : L.stmt s s') :
    L.Follows Eq ((evaluator n).executeRound c env s) fun j => (evaluator j).executeRound c env s' := by
  refine (h.execute env hs).attempt.bind fun result result' hr => ?_
  cases hr with
  | ok _ => exact .pure rfl
  | error hs =>
    cases hs with
    | continue_ _ => exact .pure rfl
    | break_ _ => exact .pure rfl
    | return_ value => exact .throw (.return_ value)
    | throw value hs => exact .throw (.throw value hs)
    | error cause hs => exact .throw (.error cause hs)

/-- The follower of a loop has other rounds to spend, but enough of them at enough levels. -/
theorem loop (env : Env) {e e' u u' : Option Expr} {s s' : Stmt} (he : Option.Rel L.expr e e')
    (hu : Option.Rel L.expr u u') (hs : L.stmt s s') (rounds : Nat) (rounds' : Nat → Nat)
    (hr : ∀ r, ∃ k, ∀ j, k ≤ j → r ≤ rounds' j) :
    L.Follows Eq ((evaluator n).loop c env e u s rounds)
      fun j => (evaluator j).loop c env e' u' s' (rounds' j) := by
  induction rounds generalizing rounds' with
  | zero => exact .exhausted _
  | succ rounds ih =>
    have hfirst : ∃ k, ∀ j, k ≤ j → (evaluator j).loop c env e' u' s' (rounds' j) =
        (evaluator j).loop c env e' u' s' (rounds' j - 1 + 1) := by
      obtain ⟨k, hk⟩ := hr 1
      exact ⟨k, fun j hj => by rw [Nat.sub_add_cancel (hk j hj)]⟩
    have hrest : ∀ r, ∃ k, ∀ j, k ≤ j → r ≤ rounds' j - 1 := by
      intro r
      obtain ⟨k, hk⟩ := hr (r + 1)
      exact ⟨k, fun j hj => Nat.le_sub_of_add_le (hk j hj)⟩
    refine .congr hfirst ?_
    refine (h.holds env he).andThen fun goes => ?_
    cases goes with
    | false => exact .pure rfl
    | true =>
      refine (h.executeRound env hs).andThen fun goes => ?_
      cases goes with
      | false => exact .pure rfl
      | true => exact (h.evaluateOption env hu).discard.andThen fun _ => ih _ hrest

omit h in
theorem limit_grows (r : Nat) : ∃ k, ∀ j, k ≤ j → r ≤ (evaluator j).limit := by
  refine ⟨r + 1, fun j hj => ?_⟩
  obtain ⟨i, rfl⟩ : ∃ i, j = i + 1 := ⟨j - 1, by omega⟩
  rw [evaluator_limit]
  omega

theorem startLoop (env : Env) {i i' : Option Initializer} (hi : Option.Rel L.initializer i i') :
    L.Follows Eq ((evaluator n).startLoop c env i) fun j => (evaluator j).startLoop c env i' := by
  cases hi with
  | none => exact .pure rfl
  | some hi =>
    cases hi with
    | declare hd => exact h.declare env hd
    | expression he => exact (h.evaluate env he).discard

theorem executeCases (env : Env) (subject : Value) {cs cs' : List Case}
    (hcs : List.Forall₂ L.case cs cs') :
    L.Follows Eq ((evaluator n).executeCases c env subject cs)
      fun j => (evaluator j).executeCases c env subject cs' := by
  induction hcs with
  | nil => exact .pure rfl
  | @cons k k' ks ks' hk _ ih =>
    obtain ⟨value, body, span⟩ := k
    obtain ⟨value', body', span'⟩ := k'
    obtain ⟨hvalue, hbody⟩ := hk
    have hrest : ∀ taken : Bool, L.Follows Eq
        (if taken then discard ((evaluator n).execute c env body)
          else (evaluator n).executeCases c env subject ks)
        fun j => if taken then discard ((evaluator j).execute c env body')
          else (evaluator j).executeCases c env subject ks' := by
      intro taken
      cases taken with
      | true => exact (h.execute env hbody).discard
      | false => exact ih
    cases hvalue with
    | none => exact (Follows.pure rfl).andThen hrest
    | some he =>
      exact (h.evaluate env he).andThen fun value =>
        (Follows.look fun _ _ hst => hst.resembles.equal_eq value subject).andThen hrest

theorem executeHandled (env : Env) {b b' : Block} {k k' : Option Handler} (hb : L.block b b')
    (hk : Option.Rel L.handler k k') :
    L.Follows Eq ((evaluator n).executeHandled c env b k)
      fun j => (evaluator j).executeHandled c env b' k' := by
  refine (h.executeEnclosed env hb).attempt.bind fun result result' hr => ?_
  cases hr with
  | ok he =>
    subst he
    exact .pure rfl
  | error hs =>
    cases hk with
    | none => cases hs <;> exact .throw (by constructor <;> assumption)
    | @some k k' hk =>
      cases hs with
      | throw value _ =>
        refine (follows_enclose env).andThen fun inner => ?_
        obtain ⟨parameter, body, span⟩ := k
        obtain ⟨parameter', body', span'⟩ := k'
        obtain ⟨hparameter, hbody⟩ := hk
        have hlast := h.executeBlock inner hbody
        cases parameter with
        | none =>
          cases parameter' with
          | none => exact hlast
          | some p' => cases hparameter
        | some p =>
          cases parameter' with
          | none => cases hparameter
          | some p' =>
            have hdefine : L.Follows Eq (Action.define inner p.name value false)
                fun _ => Action.define inner p'.name value false := by
              have hname : p.name = p'.name := Option.some.inj hparameter
              rw [hname]
              exact follows_define inner p'.name value false
            exact hdefine.andThen fun _ => hlast
      | return_ value => exact .throw (.return_ value)
      | break_ hs => exact .throw (.break_ hs)
      | continue_ hs => exact .throw (.continue_ hs)
      | error cause hs => exact .throw (.error cause hs)

theorem executeTry (env : Env) {b b' : Block} {k k' : Option Handler} {f f' : Option Block}
    (hb : L.block b b') (hk : Option.Rel L.handler k k') (hf : Option.Rel L.block f f') :
    L.Follows Eq ((evaluator n).executeTry c env b k f)
      fun j => (evaluator j).executeTry c env b' k' f' := by
  refine (h.executeHandled env hb hk).attempt.bind fun result result' hr => ?_
  cases hr with
  | ok _ =>
    cases hf with
    | none => exact .pure rfl
    | some hf => exact (h.executeEnclosed env hf).discard.andThen fun _ => .pure rfl
  | error hs =>
    cases hf with
    | none => exact .throw hs
    | some hf => exact (h.executeEnclosed env hf).discard.andThen fun _ => .throw hs

theorem executeStep (hL : L.Simulation) (env : Env) {s s' : Stmt} (hlike : L.stmt s s') :
    L.Follows Eq ((evaluator n).executeStep c env s) fun j => (evaluator j).executeStep c env s' := by
  cases hL.stmt hlike with
  | expression he => exact h.evaluate env he
  | block hb => exact h.executeEnclosed env hb
  | return_ he => exact (h.evaluateOption env he).andThen fun value => .throw (.return_ value)
  | break_ hs => exact .throw (.break_ hs)
  | continue_ hs => exact .throw (.continue_ hs)
  | throw he hs => exact (h.evaluate env he).andThen fun value => .throw (.throw value hs)
  | declare hd => exact (h.declare env hd).andThen fun _ => .pure rfl
  | function hf => exact (follows_declareFunction env hf).andThen fun _ => .pure rfl
  | class_ ha hp hm => exact (declareClass env ha hp hm).andThen fun _ => .pure rfl
  | conditional hc hr ha =>
    refine (h.evaluate env hc).andThen fun value => ?_
    split
    · exact (h.execute env hr).discard.andThen fun _ => .pure rfl
    · cases ha with
      | none => exact .pure rfl
      | some ha => exact (h.execute env ha).discard.andThen fun _ => .pure rfl
  | whileLoop hc hb =>
    exact (h.loop env (.some hc) .none hb _ _ limit_grows).andThen fun _ => .pure rfl
  | forLoop hh hb =>
    exact (follows_enclose env).andThen fun inner => (h.startLoop inner hh.initializer).andThen fun _ =>
      (h.loop inner hh.condition hh.update hb _ _ limit_grows).andThen fun _ => .pure rfl
  | switch he hc =>
    exact (h.evaluate env he).andThen fun subject =>
      (h.executeCases env subject hc).andThen fun _ => .pure rfl
  | try_ hb hk hf => exact (h.executeTry env hb hk hf).andThen fun _ => .pure rfl
  | import_ target hs =>
    exact (follows_lookupCallee c env "import" hs).andThen fun native =>
      (h.call env native [.string target] hs).discard.andThen fun _ => .pure rfl
  | print hes =>
    exact (h.evaluateTexts env hes).andThen fun texts => (follows_write _).andThen fun _ => .pure rfl
  | pass => exact .pure rfl

omit h in
theorem finishCall {r r' : Except Signal Value} (hr : Caught (L := L) Eq r r') :
    L.Follows Eq (Evaluator.finishCall r) fun _ => Evaluator.finishCall r' := by
  cases hr with
  | ok he =>
    subst he
    exact .pure rfl
  | error hs =>
    cases hs with
    | return_ value => exact .pure rfl
    | break_ hs => exact .fail _ hs
    | continue_ hs => exact .fail _ hs
    | throw value hs => exact .throw (.throw value hs)
    | error cause hs => exact .throw (.error cause hs)

omit h in
theorem bindParameters (env : Env) (names : List String) (values : List Value) :
    L.Follows Eq (Evaluator.bindParameters env names values)
      fun _ => Evaluator.bindParameters env names values := by
  induction names generalizing values with
  | nil => exact .pure rfl
  | cons name names ih =>
    cases values with
    | nil => exact .pure rfl
    | cons value values => exact (follows_define env name value false).andThen fun _ => ih values

theorem executeBody (env : Env) {b b' : FunctionBody} (hb : L.body b b') :
    L.Follows Eq ((evaluator n).executeBody c env b) fun j => (evaluator j).executeBody c env b' := by
  cases hb with
  | block hb => exact (h.executeBlock env hb).discard.andThen fun _ => .pure rfl
  | expression he => exact h.evaluate env he

theorem callFunction {f g : Function} (hf : L.functionCell f g) (arguments : List Value) {s t : Span}
    (hs : L.span s t) :
    L.Follows Eq ((evaluator n).callFunction c f arguments s)
      fun j => (evaluator j).callFunction c g arguments t := by
  obtain ⟨name, parameters, body, closure⟩ := f
  obtain ⟨name', parameters', body', closure'⟩ := g
  obtain ⟨rfl, rfl, rfl, hbody⟩ := hf
  have hbody := fun env => (h.executeBody env hbody).attempt
  unfold Evaluator.callFunction
  split
  · exact .failThen _ hs _ _
  · refine Follows.get.bind fun m m' hm => ?_
    rw [hm.depth]
    split
    · exact .failThen _ hs _ _
    · refine (follows_enclose closure).andThen fun env => ?_
      refine (bindParameters env parameters arguments).andThen fun _ => ?_
      refine (follows_depth (· + 1)).andThen fun _ => ?_
      refine (hbody env).bind fun result result' hr => ?_
      refine (follows_depth (· - 1)).andThen fun _ => ?_
      exact finishCall hr

theorem declareMembers (env : Env) {ms ms' : List Member} (hms : List.Forall₂ L.member ms ms') :
    L.Follows Eq ((evaluator n).declareMembers c env ms)
      fun j => (evaluator j).declareMembers c env ms' := by
  induction hms with
  | nil => exact .pure rfl
  | cons hm _ ih =>
    cases hm with
    | field hd => exact (h.declare env hd).andThen fun _ => ih
    | method hf => exact (follows_declareFunction env hf).andThen fun _ => ih

theorem declareLineage (env : Env) {ks ks' : List Class} (hks : List.Forall₂ L.classCell ks ks') :
    L.Follows Eq ((evaluator n).declareLineage c env ks)
      fun j => (evaluator j).declareLineage c env ks' := by
  induction hks with
  | nil => exact .pure rfl
  | cons hk _ ih => exact (h.declareMembers env hk.members).andThen fun _ => ih

theorem instantiate (r : Nat) {k l : Class} (hk : L.classCell k l) (arguments : List Value)
    {s t : Span} (hs : L.span s t) :
    L.Follows Eq ((evaluator n).instantiate c r k arguments s)
      fun j => (evaluator j).instantiate c r l arguments t := by
  obtain ⟨name, parent, members, closure⟩ := k
  obtain ⟨name', parent', members', closure'⟩ := l
  obtain ⟨rfl, rfl, rfl, -⟩ := hk
  refine (follows_enclose closure).andThen fun env => ?_
  refine (Follows.look fun _ _ hst => hst.lineage_alike r).bind fun ks ks' hks => ?_
  refine (h.declareLineage env hks).andThen fun _ => ?_
  refine (Follows.look fun _ _ hst => hst.resembles.getLocal?_eq env "init").andThen fun init => ?_
  have hnew : L.Follows Eq (Action.update fun s => s.newInstance ⟨r, env⟩)
      fun _ => Action.update fun s => s.newInstance ⟨r, env⟩ :=
    .update fun _ _ hst => hst.newInstance ⟨r, env⟩
  cases init with
  | some init => exact (h.call env init arguments hs).discard.andThen fun _ => hnew
  | none =>
    dsimp only
    split
    · exact .failThen _ hs _ _
    · exact hnew

omit h in
theorem callNative (hc : L.Serves c) (h : ∀ natives, L.Leads { c with natives } n) (env : Env) (f : Native)
    (arguments : List Value) :
    L.Follows Eq ((evaluator n).callNative c env f arguments)
      fun j => (evaluator j).callNative c env f arguments := by
  cases f with
  | builtin f =>
    refine (follows_tellTime f).andThen fun now => ?_
    exact .update fun _ _ hst => hst.builtin f now arguments
  | host id name arity => exact hc n h id arguments env

omit h in
theorem callStep (hc : L.Serves c) (h : ∀ natives, L.Leads { c with natives } n) (env : Env) (callee : Value)
    (arguments : List Value) {s t : Span} (hs : L.span s t) :
    L.Follows Eq ((evaluator n).callStep c env callee arguments s)
      fun j => (evaluator j).callStep c env callee arguments t := by
  cases callee with
  | function r =>
    refine (Follows.look fun _ _ hst => hst.get_function r).bind fun f g hfg => ?_
    cases hfg with
    | none => exact .fail _ hs
    | some hf => exact (h c.natives).callFunction hf arguments hs
  | class_ r =>
    refine (Follows.look fun _ _ hst => hst.get_class r).bind fun k l hkl => ?_
    cases hkl with
    | none => exact .fail _ hs
    | some hk => exact (h c.natives).instantiate r hk arguments hs
  | native f =>
    unfold Evaluator.callStep
    dsimp only
    split
    · split
      · exact .failThen _ hs _ _
      · refine (callNative hc h env f arguments).andThen fun answer => ?_
        cases answer with
        | ok value => exact .pure rfl
        | error message => exact .fail _ hs
    · refine (callNative hc h env f arguments).andThen fun answer => ?_
      cases answer with
      | ok value => exact .pure rfl
      | error message => exact .fail _ hs
  | _ => exact .fail _ hs

end Leads

/-- Evaluation of code is followed by evaluation of like code, whatever levels it takes. -/
theorem Simulation.leads (hL : L.Simulation) {c : Context} (hc : L.Serves c) (n : Nat) (natives : Dictionary Native) :
    L.Leads { c with natives } n := by
  induction n generalizing natives with
  | zero =>
    constructor
    · intro env e e' _
      exact .exhausted _
    · intro env s s' _
      exact .exhausted _
    · intro env callee arguments s t _
      exact .exhausted _
  | succ n ih =>
    constructor
    · intro env e e' he
      rw [evaluator_evaluate]
      exact .later (fun j => evaluator_evaluate j _ env e') ((ih natives).evaluateStep hL env he)
    · intro env s s' hs
      rw [evaluator_execute]
      exact .later (fun j => evaluator_execute j _ env s') ((ih natives).executeStep hL env hs)
    · intro env callee arguments s t hs
      rw [evaluator_call]
      exact .later (fun j => evaluator_call j _ env callee arguments t)
        (Leads.callStep (hc.withNatives natives) ih env callee arguments hs)

/-- How two runs end alike: with one value, or with errors of one cause. -/
inductive outcome (L : Likeness) : Except RuntimeError Value → Except RuntimeError Value → Prop
  | ok (value : Value) : outcome L (.ok value) (.ok value)
  | error (cause : RuntimeCause) {s t : Span} (h : L.span s t) :
    outcome L (.error ⟨cause, s⟩) (.error ⟨cause, t⟩)

/-- Programs of like code have like runs. -/
theorem Leads.run {c : Context} {n : Nat} (h : L.Leads c n) (env : Env) {p q : Program}
    (hp : List.Forall₂ L.stmt p.statements q.statements) :
    L.Follows L.outcome ((evaluator n).run c env p) fun j => (evaluator j).run c env q := by
  refine (h.executeAll env .undefined hp).attempt.bind fun r r' hr => ?_
  cases hr with
  | @ok value _ he =>
    subst he
    exact .pure (.ok value)
  | error hs =>
    cases hs with
    | return_ value => exact .pure (.ok value)
    | break_ hs => exact .pure (.error _ hs)
    | continue_ hs => exact .pure (.error _ hs)
    | throw value hs => exact (follows_display value).andThen fun text => .pure (.error _ hs)
    | error cause hs => exact .pure (.error cause hs)

end Likeness
end Scriptlet
