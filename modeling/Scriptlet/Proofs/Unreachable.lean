import Scriptlet.Proofs.Outcome
import Scriptlet.Proofs.Pruning

/-! Warnings are sound. What they call unreachable can be left out of a program, and out of the functions
and classes that it makes, without a difference to any run of it; and a division that they call one by zero
has no other value than undefined. -/
namespace Scriptlet

open Scriptlet.Action (Prunes)

section rules

variable (c : Context) (env : Env)

theorem prunes_define (name : String) (value : Value) (constant : Bool) :
    Prunes (Action.define env name value constant) (Action.define env name value constant) :=
  .update fun _ => rfl

theorem prunes_enclose : Prunes (Action.enclose env) (Action.enclose env) := .update fun _ => rfl

theorem prunes_lookup (id : Identifier) : Prunes (c.lookup env id) (c.lookup env id) := by
  refine .look (fun found => found) (fun s => s.resembles_prune.get?_eq env id.name) fun found => ?_
  cases found with
  | some value => exact .pure value
  | none =>
    dsimp only
    split
    · exact .pure _
    · exact .fail _ _

theorem prunes_lookupCallee (name : String) (span : Span) :
    Prunes (c.lookupCallee env name span) (c.lookupCallee env name span) := by
  refine .look (fun found => found) (fun s => s.resembles_prune.get?_eq env name) fun found => ?_
  split
  · exact .pure _
  · exact .fail _ _

theorem prunes_assign (target : Identifier) (value : Value) :
    Prunes (c.assign env target value) (c.assign env target value) := by
  refine Prunes.bind (.update fun s => s.prune_assign env target.name value) fun refusal => ?_
  split
  · exact .pure _
  · exact .fail _ _
  · split
    · exact (prunes_define env _ value false).bind fun _ => .pure _
    · exact .fail _ _

theorem prunes_compute (op : ComputeOp) (x y : Value) (span : Span) :
    Prunes (compute op x y span) (compute op x y span) :=
  .look (fun result => result) (fun s => s.resembles_prune.compute_eq op x y) fun result =>
    .ofExcept span result

theorem prunes_relate (op : RelateOp) (x y : Value) (span : Span) :
    Prunes (relate op x y span) (relate op x y span) :=
  .look (fun result => result) (fun s => s.resembles_prune.relate_eq op x y) fun result =>
    .ofExcept span result

theorem prunes_member (object : Value) (name : Identifier) (span : Span) :
    Prunes (object.member name span) (object.member name span) := by
  unfold Value.member
  split
  · exact .look (fun found => found) (fun _ => rfl) fun _ => .pure _
  · next r =>
    refine .look (fun found => found) (fun s => s.resembles_prune.member_eq r name.name) fun found => ?_
    cases found with
    | some value => exact .pure value
    | none => exact .fail _ _
  · exact .fail _ _

theorem prunes_write (text : String) : Prunes (Action.write text) (Action.write text) :=
  .modify fun _ => rfl

theorem prunes_readLine (prompt : Option Value) (span : Span) :
    Prunes (readLine prompt span) (readLine prompt span) := by
  have hline : Prunes Action.nextLine Action.nextLine := fun _ => rfl
  have hread : Prunes (readLine none span) (readLine none span) := by
    refine hline.bind fun line => ?_
    split
    · exact .pure _
    · split
      · exact .pure _
      · exact .fail _ _
  cases prompt with
  | none => exact hread
  | some prompt =>
    exact .look (fun text => text) (fun s => s.resembles_prune.display_eq prompt) fun text =>
      (prunes_write text).bind fun _ => hread

theorem prunes_newFunction (f : Function) : Prunes (newFunction f) (newFunction f.prune) :=
  .update fun s => s.prune_newFunction f

theorem prunes_declareFunction (f : FunctionDecl) :
    Prunes (declareFunction env f) (declareFunction env f.prune) := by
  obtain ⟨name, parameters, body, span⟩ := f
  rw [FunctionDecl.prune]
  exact (prunes_newFunction _).bind fun value => prunes_define env _ value false

theorem prunes_declareClass (name : Identifier) (parent : Option Identifier) (members : List Member) :
    Prunes (Evaluator.declareClass c env name parent members)
      (Evaluator.declareClass c env name parent (pruneMembers members)) := by
  have hrest (r : Option Nat) :
      Prunes (Action.update (fun s => s.newClass ⟨name.name, r, members, env⟩) >>= fun value =>
          Action.define env name.name value false)
        (Action.update (fun s => s.newClass ⟨name.name, r, pruneMembers members, env⟩) >>= fun value =>
          Action.define env name.name value false) :=
    Prunes.bind (.update fun s => s.prune_newClass ⟨name.name, r, members, env⟩) fun value =>
      prunes_define env name.name value false
  cases parent with
  | none => exact (Prunes.pure none).bind hrest
  | some id =>
    refine (prunes_lookup c env id).bind fun value => ?_
    split
    · exact (Prunes.pure _).bind hrest
    · exact .failThen _ _

end rules

/-- What an evaluator does on a pruned machine with pruned code is what it does without pruning; jumps
give no result, and literals give no other than their value. -/
structure Evaluator.Commutes (ev : Evaluator) (c : Context) : Prop where
  evaluate : ∀ env e, Prunes (ev.evaluate c env e) (ev.evaluate c env e)
  execute : ∀ env s, Prunes (ev.execute c env s) (ev.execute c env s.prune)
  call : ∀ env callee arguments span,
    Prunes (ev.call c env callee arguments span) (ev.call c env callee arguments span)
  jump : ∀ env s, s.isJump = true → ∀ m v m', ev.execute c env s m ≠ .ok v m'
  literal : ∀ env value span m v m', ev.evaluate c env (.literal value span) m = .ok v m' →
    v = .ofLiteral value

/-- A jump ends with a signal, or with that of the expression it has. -/
theorem Evaluator.executeStep_jump {ev : Evaluator} {c : Context} {env : Env} {s : Stmt}
    (hs : s.isJump = true) (m : Machine) (v : Value) (m' : Machine) :
    ev.executeStep c env s m ≠ .ok v m' := by
  have hthen {α : Type} (action : Action α) (signal : α → Signal) :
      (action >>= fun a => (throw (signal a) : Action Value)) m ≠ .ok v m' := by
    intro he
    cases ha : action m with
    | ok a m₁ =>
      rw [bind_ok ha] at he
      cases he
    | error signal m₁ =>
      simp only [Bind.bind, EStateM.bind, ha] at he
      cases he
  cases s with
  | return_ value span => exact hthen _ _
  | break_ span => exact fun he => by cases he
  | continue_ span => exact fun he => by cases he
  | throw value span => exact hthen _ _
  | _ => cases hs

namespace Evaluator.Commutes

variable {ev : Evaluator} {c : Context} (h : ev.Commutes c)
include h

theorem evaluateAll (env : Env) (es : List Expr) :
    Prunes (ev.evaluateAll c env es) (ev.evaluateAll c env es) := by
  induction es with
  | nil => exact .pure _
  | cons e es ih => exact (h.evaluate env e).bind fun _ => ih.bind fun _ => .pure _

theorem evaluateEntries (env : Env) (entries : Dictionary Value) (es : List (Entry Expr)) :
    Prunes (ev.evaluateEntries c env entries es) (ev.evaluateEntries c env entries es) := by
  induction es generalizing entries with
  | nil => exact .pure _
  | cons e es ih => exact (h.evaluate env e.value).bind fun _ => ih _

theorem evaluateTexts (env : Env) (es : List Expr) :
    Prunes (ev.evaluateTexts c env es) (ev.evaluateTexts c env es) := by
  induction es with
  | nil => exact .pure _
  | cons e es ih =>
    exact (h.evaluate env e).bind fun value =>
      .look (fun text => text) (fun s => s.resembles_prune.display_eq value) fun _ =>
        ih.bind fun _ => .pure _

theorem evaluateOption (env : Env) (e : Option Expr) :
    Prunes (ev.evaluateOption c env e) (ev.evaluateOption c env e) := by
  cases e with
  | none => exact .pure _
  | some e => exact h.evaluate env e

theorem evaluateCallee (env : Env) (e : Expr) :
    Prunes (ev.evaluateCallee c env e) (ev.evaluateCallee c env e) := by
  cases e with
  | identifier id => exact prunes_lookupCallee c env id.name id.span
  | _ => exact h.evaluate env _

theorem evaluateStep (env : Env) (e : Expr) :
    Prunes (ev.evaluateStep c env e) (ev.evaluateStep c env e) := by
  cases e with
  | identifier id => exact prunes_lookup c env id
  | literal value span => exact .pure _
  | binary op left right span =>
    cases op with
    | compute op =>
      exact (h.evaluate env left).bind fun x => (h.evaluate env right).bind fun y =>
        prunes_compute op x y span
    | relate op =>
      exact (h.evaluate env left).bind fun x => (h.evaluate env right).bind fun y =>
        prunes_relate op x y span
    | logic op =>
      cases op with
      | and =>
        refine (h.evaluate env left).bind fun value => ?_
        split
        · exact h.evaluate env right
        · exact .pure _
      | or =>
        refine (h.evaluate env left).bind fun value => ?_
        split
        · exact .pure _
        · exact h.evaluate env right
  | unary op operand span => exact (h.evaluate env operand).bind fun _ => .ofExcept span _
  | step op target span =>
    refine (prunes_lookup c env target).bind fun current => ?_
    cases op with
    | increment =>
      exact (prunes_compute .add current _ span).bind fun value => prunes_assign c env target value
    | decrement =>
      exact (prunes_compute .subtract current _ span).bind fun value => prunes_assign c env target value
  | ternary condition resolution alternative span =>
    refine (h.evaluate env condition).bind fun value => ?_
    split
    · exact h.evaluate env resolution
    · exact h.evaluate env alternative
  | assign target op value span =>
    cases op with
    | none => exact (h.evaluate env value).bind fun value => prunes_assign c env target value
    | some op =>
      exact (h.evaluate env value).bind fun value => (prunes_lookup c env target).bind fun current =>
        (prunes_compute op current value span).bind fun value => prunes_assign c env target value
  | call callee arguments span =>
    exact (h.evaluateCallee env callee).bind fun callee =>
      (h.evaluateAll env arguments).bind fun arguments => h.call env callee arguments span
  | member object name span =>
    exact (h.evaluate env object).bind fun object => prunes_member object name span
  | index object key span =>
    exact (h.evaluate env object).bind fun object => (h.evaluate env key).bind fun key =>
      .look (fun result => result) (fun s => s.resembles_prune.at_eq object key) fun result =>
        .ofExcept span result
  | list items span =>
    exact (h.evaluateAll env items).bind fun items => .update fun _ => rfl
  | map entries span =>
    exact (h.evaluateEntries env .empty entries).bind fun entries => .update fun _ => rfl
  | lambda parameters body span => exact prunes_newFunction _
  | input prompt span =>
    cases prompt with
    | none => exact prunes_readLine none span
    | some prompt => exact (h.evaluate env prompt).bind fun prompt => prunes_readLine (some prompt) span
  | nested inner span => exact h.evaluate env inner

/-- What comes after a jump is never reached. -/
theorem executeAll (env : Env) (last : Value) (ss : List Stmt) :
    Prunes (ev.executeAll c env last ss) (ev.executeAll c env last (Stmt.pruneList ss)) := by
  induction ss generalizing last with
  | nil => exact .pure _
  | cons s ss ih =>
    have hs := h.execute env s
    rw [Stmt.pruneList]
    by_cases hjump : s.isJump = true
    · rw [if_pos hjump]
      exact hs.bindStopped (h.jump env s hjump)
    · rw [if_neg hjump]
      exact hs.bind fun value => ih value

theorem executeBlock (env : Env) (b : Block) :
    Prunes (ev.executeBlock c env b) (ev.executeBlock c env b.prune) := by
  obtain ⟨ss, span⟩ := b
  rw [Block.prune]
  exact h.executeAll env .undefined ss

theorem executeEnclosed (env : Env) (b : Block) :
    Prunes (ev.executeEnclosed c env b) (ev.executeEnclosed c env b.prune) :=
  (prunes_enclose env).bind fun inner => h.executeBlock inner b

theorem declareBindings (env : Env) (constant : Bool) (bs : List Binding) :
    Prunes (ev.declareBindings c env constant bs) (ev.declareBindings c env constant bs) := by
  induction bs with
  | nil => exact .pure _
  | cons b bs ih =>
    exact (h.evaluateOption env b.value).bind fun value =>
      (prunes_define env b.name.name value constant).bind fun _ => ih

theorem declare (env : Env) (d : Declaration) :
    Prunes (ev.declare c env d) (ev.declare c env d) := h.declareBindings env _ d.bindings

theorem holds (env : Env) (e : Option Expr) : Prunes (ev.holds c env e) (ev.holds c env e) := by
  cases e with
  | none => exact .pure _
  | some e => exact (h.evaluate env e).bind fun _ => .pure _

theorem executeRound (env : Env) (body : Stmt) :
    Prunes (ev.executeRound c env body) (ev.executeRound c env body.prune) := by
  refine (h.execute env body).attempt.bind fun result => ?_
  split
  · exact .pure _
  · exact .pure _
  · exact .pure _
  · exact .throw _

theorem loop (env : Env) (condition update : Option Expr) (body : Stmt) (rounds : Nat) :
    Prunes (ev.loop c env condition update body rounds)
      (ev.loop c env condition update body.prune rounds) := by
  induction rounds with
  | zero => exact .throw _
  | succ rounds ih =>
    refine (h.holds env condition).bind fun goes => ?_
    cases goes with
    | false => exact .pure _
    | true =>
      refine (h.executeRound env body).bind fun goes => ?_
      cases goes with
      | false => exact .pure _
      | true => exact (h.evaluateOption env update).discard.bind fun _ => ih

theorem startLoop (env : Env) (first : Option Initializer) :
    Prunes (ev.startLoop c env first) (ev.startLoop c env first) := by
  cases first with
  | none => exact .pure _
  | some first =>
    cases first with
    | declare d => exact h.declare env d
    | expression e span => exact (h.evaluate env e).discard

theorem executeCases (env : Env) (subject : Value) (cs : List Case) :
    Prunes (ev.executeCases c env subject cs) (ev.executeCases c env subject (pruneCases cs)) := by
  induction cs with
  | nil => exact .pure _
  | cons k cs ih =>
    obtain ⟨value, body, span⟩ := k
    have hrest (taken : Bool) :
        Prunes (if taken then discard (ev.execute c env body) else ev.executeCases c env subject cs)
          (if taken then discard (ev.execute c env body.prune)
            else ev.executeCases c env subject (pruneCases cs)) := by
      cases taken with
      | true => exact (h.execute env body).discard
      | false => exact ih
    cases value with
    | none => exact (Prunes.pure true).bind hrest
    | some e =>
      exact (h.evaluate env e).bind fun value =>
        .look (fun equal => equal) (fun s => s.resembles_prune.equal_eq value subject) hrest

theorem executeHandled (env : Env) (body : Block) (handler : Option Handler) :
    Prunes (ev.executeHandled c env body handler)
      (ev.executeHandled c env body.prune (pruneHandler handler)) := by
  refine (h.executeEnclosed env body).attempt.bind fun result => ?_
  cases result with
  | ok value => exact .pure value
  | error signal =>
    cases handler with
    | none => cases signal <;> exact .throw _
    | some handler =>
      obtain ⟨parameter, inner⟩ := handler
      cases signal with
      | throw value span =>
        refine (prunes_enclose env).bind fun env => ?_
        have hinner := h.executeBlock env inner
        cases parameter with
        | none => exact hinner
        | some parameter => exact (prunes_define env parameter.name value false).bind fun _ => hinner
      | _ => exact .throw _

theorem executeTry (env : Env) (body : Block) (handler : Option Handler) (cleanup : Option Block) :
    Prunes (ev.executeTry c env body handler cleanup)
      (ev.executeTry c env body.prune (pruneHandler handler) (pruneCleanup cleanup)) := by
  refine (h.executeHandled env body handler).attempt.bind fun result => ?_
  cases cleanup with
  | none =>
    cases result with
    | ok value => exact .pure _
    | error signal => exact .throw signal
  | some cleanup =>
    refine (h.executeEnclosed env cleanup).discard.bind fun _ => ?_
    cases result with
    | ok value => exact .pure _
    | error signal => exact .throw signal

omit h in
theorem ofLiteral_of_isLiteral {e : Expr} {value : Bool} (he : e.isLiteral value = true) :
    ∃ span, e = .literal (.bool value) span := by
  unfold Expr.isLiteral at he
  split at he
  · next b span => exact ⟨span, by rw [of_decide_eq_true he]⟩
  · cases he

/-- A literal condition takes one branch only, and the other one may be anything. -/
theorem conditional (env : Env) (condition : Expr) (resolution : Stmt) (alternative : Option Stmt)
    (span : Span) : Prunes (ev.executeStep c env (.conditional condition resolution alternative span))
      (ev.executeStep c env (Stmt.prune (.conditional condition resolution alternative span))) := by
  have hresolution := (h.execute env resolution).discard
  have halternative (s : Stmt) := (h.execute env s).discard
  rw [Stmt.prune]
  by_cases hfalse : condition.isLiteral false = true
  · obtain ⟨at_, rfl⟩ := ofLiteral_of_isLiteral hfalse
    refine (h.evaluate env _).bindKnown (h.literal env (.bool false) at_) fun value hvalue => ?_
    subst hvalue
    cases alternative with
    | none => exact .pure _
    | some s => exact (halternative s).bind fun _ => .pure _
  · rw [if_neg hfalse]
    by_cases htrue : condition.isLiteral true = true
    · obtain ⟨at_, rfl⟩ := ofLiteral_of_isLiteral htrue
      refine (h.evaluate env _).bindKnown (h.literal env (.bool true) at_) fun value hvalue => ?_
      subst hvalue
      exact hresolution.bind fun _ => .pure _
    · rw [if_neg htrue]
      refine (h.evaluate env condition).bind fun value => ?_
      by_cases hvalue : value.isTruthy = true
      · simp only [hvalue, if_true]
        exact hresolution.bind fun _ => .pure _
      · simp only [hvalue]
        cases alternative with
        | none => exact .pure _
        | some s => exact (halternative s).bind fun _ => .pure _

theorem executeStep (env : Env) (s : Stmt) :
    Prunes (ev.executeStep c env s) (ev.executeStep c env s.prune) := by
  cases s with
  | conditional condition resolution alternative span =>
    exact h.conditional env condition resolution alternative span
  | expression e span =>
    rw [Stmt.prune]
    exact h.evaluate env e
  | block body =>
    rw [Stmt.prune]
    exact h.executeEnclosed env body
  | return_ value span =>
    rw [Stmt.prune]
    exact (h.evaluateOption env value).bind fun _ => .throw _
  | break_ span =>
    rw [Stmt.prune]
    exact .throw _
  | continue_ span =>
    rw [Stmt.prune]
    exact .throw _
  | throw value span =>
    rw [Stmt.prune]
    exact (h.evaluate env value).bind fun _ => .throw _
  | declare d =>
    rw [Stmt.prune]
    exact (h.declare env d).bind fun _ => .pure _
  | function f =>
    rw [Stmt.prune]
    exact (prunes_declareFunction env f).bind fun _ => .pure _
  | class_ name parent members span =>
    rw [Stmt.prune]
    exact (prunes_declareClass c env name parent members).bind fun _ => .pure _
  | whileLoop condition body span =>
    rw [Stmt.prune]
    exact (h.loop env (some condition) none body ev.limit).bind fun _ => .pure _
  | forLoop header body span =>
    rw [Stmt.prune]
    exact (prunes_enclose env).bind fun inner => (h.startLoop inner header.initializer).bind fun _ =>
      (h.loop inner header.condition header.update body ev.limit).bind fun _ => .pure _
  | switch subject cases span =>
    rw [Stmt.prune]
    exact (h.evaluate env subject).bind fun subject =>
      (h.executeCases env subject cases).bind fun _ => .pure _
  | try_ body handler cleanup span =>
    rw [Stmt.prune]
    exact (h.executeTry env body handler cleanup).bind fun _ => .pure _
  | import_ target span =>
    rw [Stmt.prune]
    exact (prunes_lookupCallee c env "import" span).bind fun native =>
      (h.call env native [.string target] span).discard.bind fun _ => .pure _
  | print values span =>
    rw [Stmt.prune]
    exact (h.evaluateTexts env values).bind fun _ => (prunes_write _).bind fun _ => .pure _
  | pass span =>
    rw [Stmt.prune]
    exact .pure _

omit h in
theorem finishCall (result : Except Signal Value) :
    Prunes (Evaluator.finishCall result) (Evaluator.finishCall result) := by
  unfold Evaluator.finishCall
  split
  · exact .pure _
  · exact .pure _
  · exact .fail _ _
  · exact .fail _ _
  · exact .throw _

omit h in
theorem bindParameters (env : Env) (names : List String) (values : List Value) :
    Prunes (Evaluator.bindParameters env names values) (Evaluator.bindParameters env names values) := by
  induction names generalizing values with
  | nil => exact .pure _
  | cons name names ih =>
    cases values with
    | nil => exact .pure _
    | cons value values => exact (prunes_define env name value false).bind fun _ => ih values

theorem executeBody (env : Env) (body : FunctionBody) :
    Prunes (ev.executeBody c env body) (ev.executeBody c env body.prune) := by
  cases body with
  | block body => exact (h.executeBlock env body).discard.bind fun _ => .pure _
  | expression body => exact h.evaluate env body

theorem callFunction (f : Function) (arguments : List Value) (span : Span) :
    Prunes (ev.callFunction c f arguments span) (ev.callFunction c f.prune arguments span) := by
  have hdepth (change : Nat → Nat) :
      Prunes (modify fun m => { m with depth := change m.depth } : Action Unit)
        (modify fun m => { m with depth := change m.depth }) := .modify fun _ => rfl
  unfold Evaluator.callFunction
  have hparameters : f.prune.parameters = f.parameters := rfl
  rw [hparameters]
  by_cases harity : f.parameters.length ≠ arguments.length
  · rw [if_pos harity, if_pos harity]
    exact .failThen _ _
  · rw [if_neg harity, if_neg harity]
    refine .get fun m => ?_
    have hdepths : m.prune.depth = m.depth := rfl
    rw [hdepths]
    by_cases hover : c.options.maxCallDepth ≤ m.depth
    · rw [if_pos hover, if_pos hover]
      exact .failThen _ _
    · rw [if_neg hover, if_neg hover]
      refine (prunes_enclose f.closure).bind fun env => ?_
      refine (bindParameters env f.parameters arguments).bind fun _ => ?_
      refine (hdepth (· + 1)).bind fun _ => ?_
      refine (h.executeBody env f.body).attempt.bind fun result => ?_
      exact (hdepth (· - 1)).bind fun _ => finishCall result

theorem declareMembers (env : Env) (ms : List Member) :
    Prunes (ev.declareMembers c env ms) (ev.declareMembers c env (pruneMembers ms)) := by
  induction ms with
  | nil => exact .pure _
  | cons m ms ih =>
    cases m with
    | field d => exact (h.declare env d).bind fun _ => ih
    | method f => exact (prunes_declareFunction env f).bind fun _ => ih

theorem declareLineage (env : Env) (ks : List Class) :
    Prunes (ev.declareLineage c env ks) (ev.declareLineage c env (ks.map Class.prune)) := by
  induction ks with
  | nil => exact .pure _
  | cons k ks ih => exact (h.declareMembers env k.members).bind fun _ => ih

theorem instantiate (r : Nat) (k : Class) (arguments : List Value) (span : Span) :
    Prunes (ev.instantiate c r k arguments span) (ev.instantiate c r k.prune arguments span) := by
  refine (prunes_enclose k.closure).bind fun env => ?_
  refine .look (List.map Class.prune) (fun s => s.prune_lineage r) fun ks => ?_
  refine (h.declareLineage env ks).bind fun _ => ?_
  refine .look (fun init => init) (fun s => s.resembles_prune.getLocal?_eq env "init") fun init => ?_
  have hnew : Prunes (Action.update fun s => s.newInstance ⟨r, env⟩)
      (Action.update fun s => s.newInstance ⟨r, env⟩) := .update fun _ => rfl
  cases init with
  | some init => exact (h.call env init arguments span).discard.bind fun _ => hnew
  | none =>
    dsimp only
    split
    · exact .failThen _ _
    · exact hnew

omit h in
theorem callNative (hc : c.host = .plain) (env : Env) (f : Native) (arguments : List Value) :
    Prunes (ev.callNative c env f arguments) (ev.callNative c env f arguments) := by
  cases f with
  | builtin f =>
    have htime : Prunes (Action.tellTime f) (Action.tellTime f) := fun _ => rfl
    exact htime.bind fun now => .update fun s => s.prune_builtin f now arguments
  | host id name arity =>
    unfold Evaluator.callNative
    rw [hc]
    exact .pure _

theorem callStep (hc : c.host = .plain) (env : Env) (callee : Value) (arguments : List Value)
    (span : Span) : Prunes (ev.callStep c env callee arguments span)
      (ev.callStep c env callee arguments span) := by
  cases callee with
  | function r =>
    refine .look (Option.map Function.prune) (fun s => s.prune_function r) fun f => ?_
    cases f with
    | none => exact .fail _ _
    | some f => exact h.callFunction f arguments span
  | class_ r =>
    refine .look (Option.map Class.prune) (fun s => s.prune_class r) fun k => ?_
    cases k with
    | none => exact .fail _ _
    | some k => exact h.instantiate r k arguments span
  | native f =>
    unfold Evaluator.callStep
    dsimp only
    split
    · split
      · exact .failThen _ _
      · refine (callNative hc env f arguments).bind fun answer => ?_
        cases answer with
        | ok value => exact .pure _
        | error message => exact .fail _ _
    · refine (callNative hc env f arguments).bind fun answer => ?_
      cases answer with
      | ok value => exact .pure _
      | error message => exact .fail _ _
  | _ => exact .fail _ _

end Evaluator.Commutes

/-- At every number of levels. -/
theorem evaluator_commutes {c : Context} (hc : c.host = .plain) (n : Nat) :
    (evaluator n).Commutes c := by
  induction n with
  | zero =>
    constructor
    · intro env e
      exact .throw _
    · intro env s
      exact .throw _
    · intro env callee arguments span
      exact .throw _
    · intro env s hs m v m' he
      cases he
    · intro env value span m v m' he
      cases he
  | succ n ih =>
    constructor
    · intro env e
      rw [evaluator_evaluate]
      exact ih.evaluateStep env e
    · intro env s
      rw [evaluator_execute, evaluator_execute]
      exact ih.executeStep env s
    · intro env callee arguments span
      rw [evaluator_call]
      exact ih.callStep hc env callee arguments span
    · intro env s hs
      rw [evaluator_execute]
      exact Evaluator.executeStep_jump hs
    · intro env value span m v m' he
      rw [evaluator_evaluate] at he
      cases he
      rfl

theorem prunes_run {c : Context} (hc : c.host = .plain) (n : Nat) (env : Env) (p : Program) :
    Prunes ((evaluator n).run c env p) ((evaluator n).run c env p.prune) := by
  have hall := (evaluator_commutes hc n).executeAll env .undefined p.statements
  refine hall.attempt.bind fun result => ?_
  split
  · exact .pure _
  · exact .pure _
  · exact .pure _
  · exact .pure _
  · next value span =>
    exact .look (fun text => text) (fun s => s.resembles_prune.display_eq value) fun _ => .pure _
  · exact .pure _
  · exact .throw _

/-- With the same levels a program and its pruned form end in the same way, on machines that are the same
once they are pruned. -/
theorem run_prune {c : Context} (hc : c.host = .plain) (n : Nat) (env : Env) (p : Program) (m : Machine) :
    Action.pruneEnd ((evaluator n).run c env p m) =
      Action.pruneEnd ((evaluator n).run c env p.prune m) := by
  have hplain := prunes_run hc n env p m
  have hpruned := prunes_run hc n env p.prune m
  rw [Program.prune_prune] at hpruned
  rw [← hplain, ← hpruned]

theorem ofExcept_eq_ok {α : Type} {span : Span} {result : Except RuntimeCause α} {m m' : Machine} {a : α}
    (h : Action.ofExcept span result m = .ok a m') : result = .ok a := by
  cases result with
  | ok b =>
    cases h
    rfl
  | error cause => cases h

def Value.IsZero : Value → Prop
  | .int value => value = 0
  | .float value => (value == 0.0) = true
  | _ => False

theorem Expr.isZero_literal {e : Expr} (h : e.isZero = true) :
    ∃ value span, e = .literal value span ∧ (Value.ofLiteral value).IsZero := by
  unfold Expr.isZero at h
  split at h
  · next value span =>
    have hvalue : value = 0 := of_decide_eq_true h
    exact ⟨_, span, rfl, hvalue⟩
  · next value span => exact ⟨_, span, rfl, h⟩
  · cases h

theorem Expr.divisionWarning_ne_nil {op : BinaryOp} {right : Expr} (h : divisionWarning op right ≠ []) :
    (op = .compute .divide ∨ op = .compute .remainder) ∧ right.isZero = true := by
  unfold divisionWarning at h
  split at h
  · next hop => simpa using hop
  · exact (h rfl).elim

theorem Value.IsZero.number {v : Value} (h : v.IsZero) : ∃ x, v.number? = some x ∧ (x == 0.0) = true := by
  cases v with
  | int value =>
    have hvalue : value = 0 := h
    have hzero : (nearestFloat 0 == 0.0) = true := by decide
    exact ⟨nearestFloat value, rfl, hvalue ▸ hzero⟩
  | float value => exact ⟨value, rfl, h⟩
  | _ => exact h.elim

/-- The operators that divide are undefined at a zero, for all that they can be applied to. -/
theorem ComputeOp.apply_zero {op : ComputeOp} (hop : op = .divide ∨ op = .remainder) {s : Store}
    {x y v : Value} (hy : y.IsZero) (h : op.apply s x y = .ok v) : v = .undefined := by
  obtain ⟨z, hnumber, hz⟩ := hy.number
  have hints (a : Int64) : op.onInts a 0 = .ok .undefined := by
    rcases hop with rfl | rfl <;> rfl
  have hfloats (a : Float) : op.onFloats a z = some .undefined := by
    rcases hop with rfl | rfl <;> simp [onFloats, hz]
  have hconcat : op ≠ .concat := by
    rcases hop with rfl | rfl <;> simp
  unfold apply at h
  split at h
  · exact (hconcat rfl).elim
  · next a b _ =>
    have hb : b = 0 := hy
    rw [hb, hints] at h
    cases h
    rfl
  · rw [hnumber] at h
    cases hx : x.number? with
    | none =>
      rw [hx] at h
      cases h
    | some a =>
      rw [hx] at h
      simp only [hfloats] at h
      cases h
      rfl

/-- An operation that is warned of as a division by zero has no value but undefined. -/
theorem divisionWarning_undefined {op : BinaryOp} {left right : Expr} {span : Span} {n : Nat}
    {c : Context} {env : Env} {m m' : Machine} {v : Value} (hwarning : Expr.divisionWarning op right ≠ [])
    (h : (evaluator n).evaluate c env (.binary op left right span) m = .ok v m') : v = .undefined := by
  obtain ⟨hop, hright⟩ := Expr.divisionWarning_ne_nil hwarning
  obtain ⟨value, at_, rfl, hzero⟩ := Expr.isZero_literal hright
  obtain ⟨o, rfl, ho⟩ : ∃ o, op = .compute o ∧ (o = .divide ∨ o = .remainder) := by
    rcases hop with rfl | rfl
    · exact ⟨_, rfl, .inl rfl⟩
    · exact ⟨_, rfl, .inr rfl⟩
  cases n with
  | zero => cases h
  | succ n =>
    rw [evaluator_evaluate] at h
    obtain ⟨x, m₁, -, hrest⟩ := bind_eq_ok h
    obtain ⟨y, m₂, hy, hcompute⟩ := bind_eq_ok hrest
    have hyvalue : y = .ofLiteral value := by
      cases n with
      | zero => cases hy
      | succ n =>
        rw [evaluator_evaluate] at hy
        cases hy
        rfl
    subst hyvalue
    have happly : Action.ofExcept span (o.apply m₂.store x (.ofLiteral value)) m₂ = .ok v m' := hcompute
    exact ComputeOp.apply_zero ho hzero (ofExcept_eq_ok happly)

end Scriptlet
