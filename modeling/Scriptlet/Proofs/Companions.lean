import Scriptlet.Proofs.Lockstep

/-! The rules of evaluation in lockstep: where two evaluators keep step with each other on the parts of a
phrase, the rules keep step on the phrase. Their contexts may differ in the options, if a difference shows
only after an error that releases the second. -/
namespace Scriptlet

abbrev Context.under (c : Context) (o : Options) : Context := { c with options := o }

namespace Discipline

variable {D : Discipline} {c : Context} {o : Options} {d : Nat}

theorem checked_error {operator : String} {result : Option Int64} {cause : RuntimeCause}
    (h : checked operator result = .error cause) : cause.isStrayJump = false := by
  unfold checked at h
  split at h
  · cases h
  · cases h
    rfl

theorem invalidOperands_error {operator : String} {x y : Value} {cause : RuntimeCause}
    (h : invalidOperands operator x y = .error cause) : cause.isStrayJump = false := by
  cases h
  rfl

theorem onInts_error {op : ComputeOp} {a b : Int64} {cause : RuntimeCause}
    (h : op.onInts a b = .error cause) : cause.isStrayJump = false := by
  cases op with
  | add => exact checked_error h
  | subtract => exact checked_error h
  | multiply => exact checked_error h
  | divide =>
    simp only [ComputeOp.onInts, intQuotient] at h
    split at h
    · cases h
    · split at h
      · exact checked_error h
      · cases h
  | remainder =>
    simp only [ComputeOp.onInts] at h
    split at h <;> cases h
  | power =>
    simp only [ComputeOp.onInts] at h
    split at h
    · cases h
    · exact checked_error h
  | _ => cases h

theorem compute_error {op : ComputeOp} {s : Store} {x y : Value} {cause : RuntimeCause}
    (h : op.apply s x y = .error cause) : cause.isStrayJump = false := by
  unfold ComputeOp.apply at h
  split at h
  · cases h
  · exact onInts_error h
  · split at h
    · split at h
      · cases h
      · exact invalidOperands_error h
    · exact invalidOperands_error h

theorem relate_error {op : RelateOp} {s : Store} {x y : Value} {cause : RuntimeCause}
    (h : op.apply s x y = .error cause) : cause.isStrayJump = false := by
  unfold RelateOp.apply at h
  split at h
  iterate 4
    · cases h
  · split at h
    · cases h
    · cases h
    · exact invalidOperands_error h

theorem unary_error {op : UnaryOp} {x : Value} {cause : RuntimeCause} (h : op.apply x = .error cause) :
    cause.isStrayJump = false := by
  unfold UnaryOp.apply at h
  split at h
  · cases h
  · exact checked_error h
  · cases h
  · cases h
  · cases h
    rfl

theorem at_error {s : Store} {object key : Value} {cause : RuntimeCause}
    (h : object.at s key = .error cause) : cause.isStrayJump = false := by
  unfold Value.at at h
  split at h
  iterate 3
    · cases h
  iterate 4
    · cases h
      rfl

namespace InStep

variable {S : Signal → Prop} (env : Env)

theorem lookup (id : Identifier) :
    D.InStep d D.Raises (c.lookup env id) ((c.under o).lookup env id) := by
  refine .lookThen fun s _ => ?_
  split
  · exact .pure _
  · dsimp only
    split
    · exact .pure _
    · exact .fail rfl id.span

theorem lookupCallee (name : String) (span : Span) :
    D.InStep d D.Raises (c.lookupCallee env name span) ((c.under o).lookupCallee env name span) := by
  refine .lookThen fun s _ => ?_
  have hcallee : (c.under o).callee? (s.get? env name) name = c.callee? (s.get? env name) name := rfl
  rw [hcallee]
  split
  · exact .pure _
  · exact .fail rfl span

theorem enclose : D.InStep d S (Action.enclose env) (Action.enclose env) :=
  .update fun _ hs => hs.of_same_code rfl rfl

theorem define (name : String) (value : Value) (constant : Bool) :
    D.InStep d S (Action.define env name value constant) (Action.define env name value constant) :=
  .update fun _ hs => hs.of_same_code rfl rfl

theorem compute (op : ComputeOp) (x y : Value) (span : Span) :
    D.InStep d D.Raises (compute op x y span) (compute op x y span) :=
  .lookThen fun _ _ => .ofExcept span fun _ => compute_error

theorem relate (op : RelateOp) (x y : Value) (span : Span) :
    D.InStep d D.Raises (relate op x y span) (relate op x y span) :=
  .lookThen fun _ _ => .ofExcept span fun _ => relate_error

theorem member (object : Value) (name : Identifier) (span : Span) :
    D.InStep d D.Raises (object.member name span) (object.member name span) := by
  cases object with
  | map r => exact (look _).bind fun _ => .pure _
  | instance_ r =>
    refine (look _).bind fun found => ?_
    split
    · exact .pure _
    · exact .fail rfl name.span
  | _ => exact .fail rfl span

theorem write (text : String) : D.InStep d S (Action.write text) (Action.write text) :=
  .modifyRest (fun _ => rfl) fun _ => rfl

theorem notify (notices : List Notice) : D.InStep d S (Action.notify notices) (Action.notify notices) :=
  .modifyRest (fun _ => rfl) fun _ => rfl

theorem readLine (prompt : Option Value) (span : Span) :
    D.InStep d D.Raises (readLine prompt span) (readLine prompt span) := by
  have hline : D.InStep d D.Raises Action.nextLine Action.nextLine := fun _ hm => .ok ⟨hm.code, hm.depth⟩
  have hread : D.InStep d D.Raises (Scriptlet.readLine none span) (Scriptlet.readLine none span) := by
    refine hline.bind fun line => ?_
    split
    · exact .pure _
    · split
      · exact .pure _
      · exact .fail rfl span
  cases prompt with
  | none => exact hread
  | some prompt => exact (look _).bind fun text => (write text).bind fun _ => hread

theorem newFunction {f : Function} (hf : f.body.Holds D.Body) :
    D.InStep d S (newFunction f) (newFunction f) := .update fun _ hs => hs.newFunction hf

theorem declareFunction {f : FunctionDecl} (hf : D.Body f.body) :
    D.InStep d S (declareFunction env f) (declareFunction env f) := by
  have hbody : (FunctionBody.block f.body).Holds D.Body := hf
  exact (newFunction hbody).bind fun value => define env f.name.name value false

theorem declareClass (name : Identifier) (parent : Option Identifier) {members : List Member}
    (hm : ∀ f, .method f ∈ members → D.Body f.body) :
    D.InStep d D.Raises (Evaluator.declareClass c env name parent members)
      (Evaluator.declareClass (c.under o) env name parent members) := by
  have hnew (r : Option Nat) : D.InStep d D.Raises
      (do
        let value ← Action.update fun s => s.newClass ⟨name.name, r, members, env⟩
        Action.define env name.name value false)
      (do
        let value ← Action.update fun s => s.newClass ⟨name.name, r, members, env⟩
        Action.define env name.name value false) := by
    refine (InStep.update fun s hs => hs.newClass ?_).bind fun value => define env name.name value false
    exact hm
  cases parent with
  | none => exact hnew none
  | some id =>
    refine (lookup env id).bind fun value => ?_
    cases value with
    | class_ r => exact hnew (some r)
    | _ => exact .failThen rfl id.span _ _

theorem bindParameters (names : List String) (values : List Value) :
    D.InStep d S (Evaluator.bindParameters env names values)
      (Evaluator.bindParameters env names values) := by
  induction names generalizing values with
  | nil => exact .pure _
  | cons name names ih =>
    cases values with
    | nil => exact .pure _
    | cons value values => exact (define env name value false).bind fun _ => ih values

end InStep

/-- Options that make a difference only where the first evaluation is stopped by an error that releases the
second. -/
structure Admits (D : Discipline) (o o' : Options) : Prop where
  optimize : o'.optimize = o.optimize
  declares : o'.implicitDeclarations = o.implicitDeclarations ∨
    o.implicitDeclarations = false ∧ ∀ name, D.releases (.undefinedVariable name)
  depth : o'.maxCallDepth = o.maxCallDepth ∨
    o.maxCallDepth ≤ o'.maxCallDepth ∧ ∀ limit, D.releases (.stackOverflow limit)

theorem Admits.refl (D : Discipline) (o : Options) : D.Admits o o := ⟨rfl, .inl rfl, .inl rfl⟩

theorem Admits.maxCallDepth_le {o' : Options} (h : D.Admits o o') : o.maxCallDepth ≤ o'.maxCallDepth := by
  rcases h.depth with hsame | ⟨hle, _⟩
  · exact Nat.le_of_eq hsame.symm
  · exact hle

theorem InStep.assign (ho : D.Admits c.options o) (env : Env) (target : Identifier) (value : Value) :
    D.InStep d D.Raises (c.assign env target value) ((c.under o).assign env target value) := by
  refine (InStep.update fun _ hs => hs.assign env target.name value).bind fun refusal => ?_
  split
  · exact .pure _
  · exact .fail rfl target.span
  · next name =>
    rcases ho.declares with hsame | ⟨hfalse, hreleases⟩
    · dsimp only
      rw [hsame]
      split
      · exact (define env name value false).bind fun _ => .pure _
      · exact .fail rfl target.span
    · simp only [hfalse, Bool.false_eq_true, if_false]
      exact fun _ _ => .released (hreleases name) _

structure Companions (D : Discipline) (c : Context) (o : Options) (d : Nat) (ev ev' : Evaluator) :
    Prop where
  limit : ev'.limit = ev.limit
  evaluate : ∀ env e, D.InStep d D.Raises (ev.evaluate c env e) (ev'.evaluate (c.under o) env e)
  execute : ∀ inLoop env s, D.code inLoop s →
    D.InStep d (D.Leaves inLoop) (ev.execute c env s) (ev'.execute (c.under o) env s)
  call : ∀ env callee arguments span, D.InStep d D.Raises (ev.call c env callee arguments span)
    (ev'.call (c.under o) env callee arguments span)

namespace Companions

variable {ev ev' : Evaluator} (h : D.Companions c o d ev ev')
include h

theorem evaluateAll (env : Env) (es : List Expr) :
    D.InStep d D.Raises (ev.evaluateAll c env es) (ev'.evaluateAll (c.under o) env es) := by
  induction es with
  | nil => exact .pure _
  | cons e es ih => exact (h.evaluate env e).bind fun value => ih.bind fun values => .pure _

theorem evaluateEntries (env : Env) (entries : Dictionary Value) (es : List (Entry Expr)) :
    D.InStep d D.Raises (ev.evaluateEntries c env entries es)
      (ev'.evaluateEntries (c.under o) env entries es) := by
  induction es generalizing entries with
  | nil => exact .pure _
  | cons e es ih => exact (h.evaluate env e.value).bind fun value => ih _

theorem evaluateTexts (env : Env) (es : List Expr) :
    D.InStep d D.Raises (ev.evaluateTexts c env es) (ev'.evaluateTexts (c.under o) env es) := by
  induction es with
  | nil => exact .pure _
  | cons e es ih =>
    exact (h.evaluate env e).bind fun value => (InStep.look _).bind fun text =>
      ih.bind fun texts => .pure _

theorem evaluateOption (env : Env) (e : Option Expr) :
    D.InStep d D.Raises (ev.evaluateOption c env e) (ev'.evaluateOption (c.under o) env e) := by
  cases e with
  | none => exact .pure _
  | some e => exact h.evaluate env e

theorem evaluateCallee (env : Env) (e : Expr) :
    D.InStep d D.Raises (ev.evaluateCallee c env e) (ev'.evaluateCallee (c.under o) env e) := by
  have hvalue := h.evaluate env e
  cases e with
  | identifier id => exact .lookupCallee env id.name id.span
  | _ => exact hvalue

theorem evaluateStep (ho : D.Admits c.options o) (env : Env) (e : Expr) :
    D.InStep d D.Raises (ev.evaluateStep c env e) (ev'.evaluateStep (c.under o) env e) := by
  cases e with
  | identifier id => exact .lookup env id
  | literal value span => exact .pure _
  | binary op left right span =>
    have hleft := h.evaluate env left
    have hright := h.evaluate env right
    cases op with
    | logic op =>
      cases op with
      | and =>
        refine hleft.bind fun value => ?_
        split
        · exact hright
        · exact .pure _
      | or =>
        refine hleft.bind fun value => ?_
        split
        · exact .pure _
        · exact hright
    | compute op => exact hleft.bind fun x => hright.bind fun y => .compute op x y span
    | relate op => exact hleft.bind fun x => hright.bind fun y => .relate op x y span
  | unary op operand span =>
    exact (h.evaluate env operand).bind fun value => .ofExcept span fun _ => unary_error
  | step op target span =>
    refine (InStep.lookup env target).bind fun current => ?_
    cases op with
    | increment => exact (InStep.compute _ _ _ span).bind fun value => .assign ho env target value
    | decrement => exact (InStep.compute _ _ _ span).bind fun value => .assign ho env target value
  | ternary condition resolution alternative span =>
    refine (h.evaluate env condition).bind fun value => ?_
    split
    · exact h.evaluate env resolution
    · exact h.evaluate env alternative
  | assign target op value span =>
    have hvalue := h.evaluate env value
    cases op with
    | none => exact hvalue.bind fun value => .assign ho env target value
    | some op =>
      exact hvalue.bind fun value => (InStep.lookup env target).bind fun current =>
        (InStep.compute op current value span).bind fun value => .assign ho env target value
  | call callee arguments span =>
    exact (h.evaluateCallee env callee).bind fun callee =>
      (h.evaluateAll env arguments).bind fun arguments => h.call env callee arguments span
  | member object name span => exact (h.evaluate env object).bind fun object => .member object name span
  | index object key span =>
    exact (h.evaluate env object).bind fun object => (h.evaluate env key).bind fun key =>
      .lookThen fun _ _ => .ofExcept span fun _ => at_error
  | list items span =>
    exact (h.evaluateAll env items).bind fun items => .update fun _ hs => hs.of_same_code rfl rfl
  | map entries span =>
    exact (h.evaluateEntries env .empty entries).bind fun entries =>
      .update fun _ hs => hs.of_same_code rfl rfl
  | lambda parameters body span => exact .newFunction trivial
  | input prompt span =>
    cases prompt with
    | none => exact .readLine none span
    | some prompt => exact (h.evaluate env prompt).bind fun prompt => .readLine (some prompt) span
  | nested inner span => exact h.evaluate env inner

variable {inLoop : Bool}

theorem executeAll (env : Env) (last : Value) {ss : List Stmt} (hss : ∀ s ∈ ss, D.code inLoop s) :
    D.InStep d (D.Leaves inLoop) (ev.executeAll c env last ss)
      (ev'.executeAll (c.under o) env last ss) := by
  induction ss generalizing last with
  | nil => exact .pure _
  | cons s ss ih =>
    obtain ⟨hs, hss⟩ := List.forall_mem_cons.1 hss
    exact (h.execute inLoop env s hs).bind fun value => ih value hss

theorem executeEnclosed (env : Env) {b : Block} (hb : ∀ s ∈ b.statements, D.code inLoop s) :
    D.InStep d (D.Leaves inLoop) (ev.executeEnclosed c env b) (ev'.executeEnclosed (c.under o) env b) :=
  (InStep.enclose env).bind fun inner => h.executeAll inner .undefined hb

theorem declare (env : Env) (declaration : Declaration) :
    D.InStep d D.Raises (ev.declare c env declaration) (ev'.declare (c.under o) env declaration) := by
  obtain ⟨kind, bindings, span⟩ := declaration
  induction bindings with
  | nil => exact .pure _
  | cons b bs ih =>
    exact (h.evaluateOption env b.value).bind fun value =>
      (InStep.define env b.name.name value _).bind fun _ => ih

theorem holds (env : Env) (condition : Option Expr) :
    D.InStep d D.Raises (ev.holds c env condition) (ev'.holds (c.under o) env condition) := by
  cases condition with
  | none => exact .pure _
  | some e => exact (h.evaluate env e).bind fun value => .pure _

/-- A loop takes the breaks and continues of its body, so none leaves a round of it. -/
theorem executeRound (env : Env) {body : Stmt} (hbody : D.code true body) :
    D.InStep d (D.Leaves inLoop) (ev.executeRound c env body)
      (ev'.executeRound (c.under o) env body) := by
  refine (h.execute true env body hbody).attemptThen (fun value => .pure _) (fun signal hs _ => ?_)
    fun _ _ _ _ => rfl
  cases signal with
  | break_ span => exact .pure _
  | continue_ span => exact .pure _
  | _ => exact .throw (hs.of_not_jump rfl)

theorem loop (inLoop : Bool) (env : Env) (condition update : Option Expr) {body : Stmt}
    (hbody : D.code true body) (rounds : Nat) :
    D.InStep d (D.Leaves inLoop) (ev.loop c env condition update body rounds)
      (ev'.loop (c.under o) env condition update body rounds) := by
  induction rounds with
  | zero => exact .exhausted
  | succ rounds ih =>
    refine (h.holds env condition).leaves.bind fun goesOn => ?_
    split
    · refine (h.executeRound env hbody).bind fun again => ?_
      split
      · exact (h.evaluateOption env update).leaves.discard.bind fun _ => ih
      · exact .pure _
    · exact .pure _

theorem startLoop (env : Env) (initializer : Option Initializer) :
    D.InStep d D.Raises (ev.startLoop c env initializer) (ev'.startLoop (c.under o) env initializer) := by
  cases initializer with
  | none => exact .pure _
  | some first =>
    cases first with
    | declare declaration => exact h.declare env declaration
    | expression e span => exact (h.evaluate env e).discard

theorem executeCases (env : Env) (subject : Value) {cs : List Case}
    (hcs : ∀ k ∈ cs, D.code inLoop k.body) :
    D.InStep d (D.Leaves inLoop) (ev.executeCases c env subject cs)
      (ev'.executeCases (c.under o) env subject cs) := by
  induction cs with
  | nil => exact .pure _
  | cons k cs ih =>
    obtain ⟨hk, hrest⟩ := List.forall_mem_cons.1 hcs
    obtain ⟨value, body, span⟩ := k
    have hhere := h.execute inLoop env body hk
    cases value with
    | none => exact hhere.discard
    | some e =>
      refine (h.evaluate env e).leaves.bind fun value => (InStep.look _).bind fun taken => ?_
      cases taken with
      | true => exact hhere.discard
      | false => exact ih hrest

theorem executeHandled (env : Env) {body : Block} {handler : Option Handler}
    (hbody : ∀ s ∈ body.statements, D.code inLoop s)
    (hhandler : ∀ k ∈ handler, ∀ s ∈ k.body.statements, D.code inLoop s) :
    D.InStep d (D.Leaves inLoop) (ev.executeHandled c env body handler)
      (ev'.executeHandled (c.under o) env body handler) := by
  refine (h.executeEnclosed env hbody).attemptThen (fun value => .pure _) (fun signal hs _ => ?_)
    fun _ _ _ _ => ?_
  · cases handler with
    | none => cases signal <;> exact .throw hs
    | some handler =>
      have hcaught (inner : Env) := h.executeAll inner .undefined (hhandler handler rfl)
      cases signal with
      | throw value span =>
        refine (InStep.enclose env).bind fun inner => ?_
        obtain ⟨parameter, body⟩ := handler
        cases parameter with
        | none => exact hcaught inner
        | some parameter =>
          exact (InStep.define inner parameter.name value false).bind fun _ => hcaught inner
      | _ => exact .throw hs
  · cases handler <;> rfl

theorem executeTry (env : Env) {body : Block} {handler : Option Handler} {cleanup : Option Block}
    (hbody : ∀ s ∈ body.statements, D.code inLoop s)
    (hhandler : ∀ k ∈ handler, ∀ s ∈ k.body.statements, D.code inLoop s)
    (hcleanup : ∀ b ∈ cleanup, (∀ s ∈ b.statements, D.code inLoop s) ∧ ∀ cause, ¬D.releases cause) :
    D.InStep d (D.Leaves inLoop) (ev.executeTry c env body handler cleanup)
      (ev'.executeTry (c.under o) env body handler cleanup) := by
  have hfirst := h.executeHandled env hbody hhandler
  cases cleanup with
  | none =>
    exact hfirst.attemptThen (fun value => .pure _) (fun signal hs _ => .throw hs) fun _ _ _ _ => rfl
  | some cleanup =>
    obtain ⟨hcode, hnone⟩ := hcleanup cleanup rfl
    have hlast := (h.executeEnclosed env hcode).discard
    exact hfirst.attemptThen (fun value => hlast.bind fun _ => .pure _)
      (fun signal hs _ => hlast.bind fun _ => .throw hs) fun cause _ _ hc => (hnone cause hc).elim

theorem executeStep (env : Env) {s : Stmt} (hs : D.code inLoop s) :
    D.InStep d (D.Leaves inLoop) (ev.executeStep c env s) (ev'.executeStep (c.under o) env s) := by
  cases s with
  | expression e span => exact (h.evaluate env e).leaves
  | block body => exact h.executeEnclosed env fun _ ht => D.part hs (.block ht)
  | return_ value span =>
    exact (h.evaluateOption env value).leaves.bind fun value => .throw ⟨nofun, fun _ => rfl⟩
  | break_ span => exact .throw ⟨fun _ => D.jump hs rfl, fun _ => rfl⟩
  | continue_ span => exact .throw ⟨fun _ => D.jump hs rfl, fun _ => rfl⟩
  | throw value span =>
    exact (h.evaluate env value).leaves.bind fun value => .throw (raises_throw value span).leaves
  | declare declaration => exact (h.declare env declaration).leaves.bind fun _ => .pure _
  | function f =>
    exact (InStep.declareFunction env fun _ ht => D.part hs (.function ht)).bind fun _ => .pure _
  | class_ name parent members span =>
    exact (InStep.declareClass env name parent fun _ hf _ ht =>
      D.part hs (.method hf ht)).leaves.bind fun _ => .pure _
  | conditional condition resolution alternative span =>
    refine (h.evaluate env condition).leaves.bind fun value => ?_
    split
    · exact (h.execute inLoop env resolution (D.part hs .resolution)).discard.bind fun _ => .pure _
    · cases alternative with
      | none => exact .pure _
      | some alternative =>
        exact (h.execute inLoop env alternative (D.part hs .alternative)).discard.bind fun _ => .pure _
  | whileLoop condition body span =>
    have hloop := h.loop inLoop env (some condition) none (D.part hs .whileLoop) ev.limit
    unfold Evaluator.executeStep
    rw [h.limit]
    exact hloop.bind fun _ => .pure _
  | forLoop header body span =>
    have hloop (inner : Env) :=
      h.loop inLoop inner header.condition header.update (D.part hs .forLoop) ev.limit
    unfold Evaluator.executeStep
    rw [h.limit]
    exact (InStep.enclose env).bind fun inner =>
      (h.startLoop inner header.initializer).leaves.bind fun _ => (hloop inner).bind fun _ => .pure _
  | switch subject cases span =>
    exact (h.evaluate env subject).leaves.bind fun subject =>
      (h.executeCases env subject fun _ hk => D.part hs (.switch hk)).bind fun _ => .pure _
  | try_ body handler cleanup span =>
    refine (h.executeTry env (fun _ ht => D.part hs (.try_ ht)) ?_ ?_).bind fun _ => .pure _
    · rintro k rfl
      exact fun _ ht => D.part hs (.handler ht)
    · rintro b rfl
      exact ⟨fun _ ht => D.part hs (.cleanup ht), D.cleanup hs⟩
  | import_ target span =>
    exact (InStep.lookupCallee env "import" span).leaves.bind fun native =>
      (h.call env native [.string target] span).leaves.discard.bind fun _ => .pure _
  | print values span =>
    exact (h.evaluateTexts env values).leaves.bind fun texts => (InStep.write _).bind fun _ => .pure _
  | pass span => exact .pure _

theorem executeBody (env : Env) {body : FunctionBody} (hbody : body.Holds D.Body) :
    D.InStep d (D.Leaves D.bodies) (ev.executeBody c env body) (ev'.executeBody (c.under o) env body) := by
  cases body with
  | block body => exact (h.executeAll env .undefined hbody).discard.bind fun _ => .pure _
  | expression body => exact (h.evaluate env body).leaves

theorem declareMembers (env : Env) {ms : List Member} (hms : ∀ f, .method f ∈ ms → D.Body f.body) :
    D.InStep d D.Raises (ev.declareMembers c env ms) (ev'.declareMembers (c.under o) env ms) := by
  induction ms with
  | nil => exact .pure _
  | cons member ms ih =>
    have hrest := ih fun f hf => hms f (List.mem_cons_of_mem _ hf)
    cases member with
    | field declaration => exact (h.declare env declaration).bind fun _ => hrest
    | method f => exact (InStep.declareFunction env (hms f List.mem_cons_self)).bind fun _ => hrest

theorem declareLineage (env : Env) {ks : List Class} (hks : ∀ k ∈ ks, k.Holds D.Body) :
    D.InStep d D.Raises (ev.declareLineage c env ks) (ev'.declareLineage (c.under o) env ks) := by
  induction ks with
  | nil => exact .pure _
  | cons k ks ih =>
    obtain ⟨hk, hks⟩ := List.forall_mem_cons.1 hks
    exact (h.declareMembers env hk).bind fun _ => ih hks

theorem instantiate (r : Nat) (k : Class) (arguments : List Value) (span : Span) :
    D.InStep d D.Raises (ev.instantiate c r k arguments span)
      (ev'.instantiate (c.under o) r k arguments span) := by
  refine (InStep.enclose k.closure).bind fun env => .lookThen fun s hs => ?_
  refine (h.declareLineage env (hs.lineage r)).bind fun _ => (InStep.look _).bind fun init => ?_
  have hnew : D.InStep d D.Raises (Action.update fun s => s.newInstance ⟨r, env⟩)
      (Action.update fun s => s.newInstance ⟨r, env⟩) := .update fun _ hs => hs.of_same_code rfl rfl
  cases init with
  | some init => exact (h.call env init arguments span).discard.bind fun _ => hnew
  | none =>
    dsimp only
    split
    · exact .failThen rfl span _ _
    · exact hnew

omit h in
/-- What leaves the body of a function is taken by the call, or is no jump. -/
theorem finishCall {signal : Signal} (hs : D.Leaves D.bodies signal) :
    D.InStep d D.Raises (Evaluator.finishCall (.error signal)) (Evaluator.finishCall (.error signal)) := by
  have hstray (cause : RuntimeCause) (span : Span) (hjump : signal.isLoopJump = true) :
      D.InStep d D.Raises (Action.fail cause span : Action Value) (Action.fail cause span) :=
    .throw ⟨⟨nofun, fun hb => absurd (hs.jump hjump) (by simp [hb])⟩, rfl⟩
  cases signal with
  | return_ value => exact .pure _
  | break_ span => exact hstray _ _ rfl
  | continue_ span => exact hstray _ _ rfl
  | _ => exact .throw ⟨hs.of_not_jump rfl, rfl⟩

omit h in
/-- A body that is run one call deeper, and back. -/
theorem inCall {α β : Type} {body body' : Action α} {finish : Except Signal α → Action β}
    {S T : Signal → Prop} (hbody : D.InStep (d + 1) S body body')
    (hok : ∀ a, D.InStep d T (finish (.ok a)) (finish (.ok a)))
    (herror : ∀ signal, S signal → signal ≠ .exhausted →
      D.InStep d T (finish (.error signal)) (finish (.error signal)))
    (hpass : ∀ cause span m, D.releases cause →
      finish (.error (.error ⟨cause, span⟩)) m = .error (.error ⟨cause, span⟩) m) :
    D.InStep d T
      (do
        modify fun m => { m with depth := m.depth + 1 }
        let result ← Action.attempt body
        modify fun m => { m with depth := m.depth - 1 }
        finish result)
      (do
        modify fun m => { m with depth := m.depth + 1 }
        let result ← Action.attempt body'
        modify fun m => { m with depth := m.depth - 1 }
        finish result) := by
  intro m hm
  -- the depth is not the same throughout, so the parts cannot be chained by `bind`
  have hdeep : D.Ready (d + 1) { m with depth := m.depth + 1 } := ⟨hm.code, by simp [hm.depth]⟩
  have hback {m : Machine} (hm : D.Ready (d + 1) m) : D.Ready d { m with depth := m.depth - 1 } :=
    ⟨hm.code, by simp [hm.depth]⟩
  exact InStep.attemptAt (hbody _ hdeep) (fun a m hm => hok a _ (hback hm))
    (fun signal m hs hx hm => herror signal hs hx _ (hback hm))
    fun cause span m hc => ⟨_, hpass cause span _ hc⟩

omit h in
theorem callFunction (ho : D.Admits c.options o)
    (hdeeper : d < c.options.maxCallDepth → D.Companions c o (d + 1) ev ev') {f : Function}
    (hf : f.body.Holds D.Body) (arguments : List Value) (span : Span) :
    D.InStep d D.Raises (ev.callFunction c f arguments span)
      (ev'.callFunction (c.under o) f arguments span) := by
  have hrun (hd : d < c.options.maxCallDepth) : D.InStep d D.Raises
      (do
        let env ← Action.enclose f.closure
        Evaluator.bindParameters env f.parameters arguments
        modify fun m => { m with depth := m.depth + 1 }
        let result ← Action.attempt (ev.executeBody c env f.body)
        modify fun m => { m with depth := m.depth - 1 }
        Evaluator.finishCall result)
      (do
        let env ← Action.enclose f.closure
        Evaluator.bindParameters env f.parameters arguments
        modify fun m => { m with depth := m.depth + 1 }
        let result ← Action.attempt (ev'.executeBody (c.under o) env f.body)
        modify fun m => { m with depth := m.depth - 1 }
        Evaluator.finishCall result) :=
    (InStep.enclose f.closure).bind fun env =>
      (InStep.bindParameters env f.parameters arguments).bind fun _ =>
        inCall ((hdeeper hd).executeBody env hf) (fun value => .pure _)
          (fun signal hs _ => finishCall hs) fun _ _ _ _ => rfl
  unfold Evaluator.callFunction
  split
  · exact .failThen rfl span _ _
  · refine .getThen fun m hm => ?_
    rw [hm.depth]
    -- below the first limit both go on; at it, a second limit that is higher needs the release
    by_cases hd : c.options.maxCallDepth ≤ d
    · simp only [hd, if_true]
      rcases ho.depth with hsame | ⟨_, hreleases⟩
      · simp only [hsame, hd, if_true]
        exact .failThen rfl span _ _
      · exact .releases (hreleases _) span _ _
    · have hd' : ¬o.maxCallDepth ≤ d := by
        have hle := ho.maxCallDepth_le
        omega
      simp only [hd, hd', if_false]
      exact hrun (Nat.lt_of_not_le hd)

/-- `hrespond` is about the natives that the host adds, which may run programs of their own. -/
theorem callStep (ho : D.Admits c.options o)
    (hdeeper : d < c.options.maxCallDepth → D.Companions c o (d + 1) ev ev')
    (hrespond : ∀ id arguments env, D.InStep d D.Raises (c.host.respond id (ev.runner c) arguments env)
      (c.host.respond id (ev'.runner (c.under o)) arguments env))
    (env : Env) (callee : Value) (arguments : List Value) (span : Span) :
    D.InStep d D.Raises (ev.callStep c env callee arguments span)
      (ev'.callStep (c.under o) env callee arguments span) := by
  cases callee with
  | function r =>
    refine .lookThen fun s hs => ?_
    split
    · next f hf => exact callFunction ho hdeeper (hs.functions f (Array.mem_of_getElem? hf)) arguments span
    · exact .fail rfl span
  | class_ r =>
    refine (InStep.look _).bind fun found => ?_
    split
    · next k => exact h.instantiate r k arguments span
    · exact .fail rfl span
  | native f =>
    have hnative : D.InStep d D.Raises (ev.callNative c env f arguments)
        (ev'.callNative (c.under o) env f arguments) := by
      cases f with
      | builtin f =>
        have htime : D.InStep d D.Raises (Action.tellTime f) (Action.tellTime f) :=
          fun _ hm => .ok ⟨hm.code, hm.depth⟩
        exact htime.bind fun now => .update fun _ hs => hs.builtin f now arguments
      | host id name arity => exact hrespond id arguments env
    have hanswer (next : Except String Value → Action Value) (hok : ∀ value, next (.ok value) = pure value)
        (herror : ∀ message, next (.error message) = Action.fail (.native f.name message) span) :
        D.InStep d D.Raises (ev.callNative c env f arguments >>= next)
          (ev'.callNative (c.under o) env f arguments >>= next) := by
      refine hnative.bind fun answer => ?_
      cases answer with
      | ok value =>
        rw [hok]
        exact .pure _
      | error message =>
        rw [herror]
        exact .fail rfl span
    unfold Evaluator.callStep
    dsimp only
    split
    · split
      · exact .failThen rfl span _ _
      · exact hanswer _ (fun _ => rfl) fun _ => rfl
    · exact hanswer _ (fun _ => rfl) fun _ => rfl
  | _ => exact .fail rfl span

/-- Runs come to the same end as well, unless the first one ends with an error that releases the second. -/
theorem run (env : Env) {p : Program} (hp : ∀ s ∈ p.statements, D.code inLoop s) {m : Machine}
    (hm : D.Ready d m) :
    (∃ r m', ev.run c env p m = .ok r m' ∧ ev'.run (c.under o) env p m = .ok r m' ∧ D.Ready d m' ∧
      ∀ e, r = .error e → inLoop = false → D.bodies = false → e.cause.isStrayJump = false) ∨
    (∃ m', ev.run c env p m = .error .exhausted m' ∧
      ev'.run (c.under o) env p m = .error .exhausted m') ∨
    ∃ e m', D.releases e.cause ∧ ev.run c env p m = .ok (.error e) m' := by
  have hall := h.executeAll env .undefined hp m hm
  unfold Evaluator.run
  generalize he : ev.executeAll c env .undefined p.statements m = first at hall
  generalize he' : ev'.executeAll (c.under o) env .undefined p.statements m = first' at hall
  cases hall with
  | ok hm' =>
    rw [bind_ok (Action.attempt_ok he), bind_ok (Action.attempt_ok he')]
    exact .inl ⟨_, _, rfl, rfl, hm', nofun⟩
  | exhausted =>
    rw [bind_error (attempt_exhausted he), bind_error (attempt_exhausted he')]
    exact .inr (.inl ⟨_, rfl, rfl⟩)
  | released hc =>
    rw [bind_ok (attempt_error he nofun)]
    exact .inr (.inr ⟨_, _, hc, rfl⟩)
  | @error signal m' hs hm' =>
    have hjump (hj : signal.isLoopJump = true) (hl : inLoop = false) : False :=
      absurd (hs.jump hj) (by simp [hl])
    by_cases hx : signal = .exhausted
    · subst hx
      rw [bind_error (attempt_exhausted he), bind_error (attempt_exhausted he')]
      exact .inr (.inl ⟨_, rfl, rfl⟩)
    · rw [bind_ok (attempt_error he hx), bind_ok (attempt_error he' hx)]
      left
      cases signal with
      | return_ value => exact ⟨_, _, rfl, rfl, hm', nofun⟩
      | break_ span => exact ⟨_, _, rfl, rfl, hm', fun _ _ hl => (hjump rfl hl).elim⟩
      | continue_ span => exact ⟨_, _, rfl, rfl, hm', fun _ _ hl => (hjump rfl hl).elim⟩
      | throw value span =>
        refine ⟨_, _, rfl, rfl, hm', ?_⟩
        rintro _ ⟨⟩ _ _
        rfl
      | error e =>
        refine ⟨_, _, rfl, rfl, hm', ?_⟩
        rintro _ ⟨⟩ _ hb
        exact hs.stray hb
      | exhausted => exact (hx rfl).elim

/-- Programs are run in step where all code is allowed and no error releases. -/
theorem runAny (hcode : ∀ s, D.code true s) (hnone : ∀ cause, ¬D.releases cause) (env : Env) (p : Program)
    {S : Signal → Prop} : D.InStep d S (ev.run c env p) (ev'.run (c.under o) env p) := by
  intro m hm
  rcases h.run env (fun s (_ : s ∈ p.statements) => hcode s) hm with
    ⟨r, m', hr, hr', hm', _⟩ | ⟨m', hr, hr'⟩ | ⟨e, _, hc, _⟩
  · rw [hr, hr']
    exact .ok hm'
  · rw [hr, hr']
    exact .exhausted
  · exact (hnone _ hc).elim

theorem runSource (ho : D.Admits c.options o) (hcode : ∀ s, D.code true s)
    (hnone : ∀ cause, ¬D.releases cause) (env : Env) (path source : String) {S : Signal → Prop} :
    D.InStep d S (ev.runSource c env path source) (ev'.runSource (c.under o) env path source) := by
  unfold Evaluator.runSource
  rw [ho.optimize]
  split
  · exact .pure _
  · refine (InStep.notify _).bind fun _ => (h.runAny hcode hnone env _).bind fun r => ?_
    cases r with
    | ok value => exact .pure _
    | error e => exact .pure _

end Companions

end Discipline

/-- The evaluator that looks, before it evaluates anything, how deep calls nest. -/
def watched (stop : Nat → Bool) : Signal → Nat → Evaluator := overseen fun m => stop m.depth

namespace Discipline

variable {D : Discipline} {c : Context} {o : Options} {d : Nat}

theorem InStep.heeding {α : Type} {S : Signal → Prop} {stop : Nat → Bool} (hd : stop d = false)
    (alarm : Signal) {action action' : Action α} (h : D.InStep d S action action') :
    D.InStep d S action (action'.heeding (fun m => stop m.depth) alarm) := by
  intro m hm
  have hquiet : action'.heeding (fun m => stop m.depth) alarm m = action' m := by
    simp [Action.heeding, hm.depth, hd]
  rw [hquiet]
  exact h m hm

def Serves (D : Discipline) (c : Context) (o : Options) : Prop :=
  ∀ {d : Nat} {ev ev' : Evaluator}, (∀ natives, D.Companions { c with natives } o d ev ev') →
    ∀ id arguments env, D.InStep d D.Raises (c.host.respond id (ev.runner c) arguments env)
      (c.host.respond id (ev'.runner (c.under o)) arguments env)

theorem serves_plain (h : c.host = .plain) : D.Serves c o := by
  intro d ev ev' _ id arguments env
  rw [h]
  exact .pure _

/-- Every evaluator keeps step with a watched one, at every depth that calls get to without an alarm. -/
theorem companions (ho : D.Admits c.options o) (hhost : D.Serves c o) {stop : Nat → Bool}
    (hstop : ∀ d, stop d = false → d < c.options.maxCallDepth → stop (d + 1) = false) (alarm : Signal)
    (n : Nat) (hd : stop d = false) (natives : Dictionary Native) :
    D.Companions { c with natives } o d (evaluator n) (watched stop alarm n) := by
  induction n generalizing d natives with
  | zero => exact ⟨rfl, fun _ _ => .exhausted, fun _ _ _ _ => .exhausted, fun _ _ _ _ => .exhausted⟩
  | succ n ih =>
    -- natives may run programs with names of their own, so the hypothesis is for all natives; a call
    -- needs it one deeper, where there is no alarm either
    have here := ih hd natives
    refine ⟨rfl, fun env e => ?_, fun inLoop env s hs => ?_, fun env callee arguments span => ?_⟩
    · rw [evaluator_evaluate]
      exact (here.evaluateStep ho env e).heeding hd alarm
    · rw [evaluator_execute]
      exact (here.executeStep env hs).heeding hd alarm
    · rw [evaluator_call]
      have hdeeper (hlt : d < c.options.maxCallDepth) := ih (hstop d hd hlt) natives
      exact (here.callStep ho hdeeper (hhost fun natives => ih hd natives) env callee arguments
        span).heeding hd alarm

/-- Every evaluator keeps step with itself. -/
theorem companions_self (ho : D.Admits c.options o) (hhost : D.Serves c o) (d n : Nat) :
    D.Companions c o d (evaluator n) (evaluator n) := by
  have hnever (d : Nat) (_ : false = false) (_ : d < c.options.maxCallDepth) : false = false := rfl
  have h : D.Companions c o d (evaluator n) (watched (fun _ => false) .exhausted n) :=
    companions ho hhost hnever .exhausted n rfl c.natives
  rwa [watched, overseen_never] at h

end Discipline
end Scriptlet
