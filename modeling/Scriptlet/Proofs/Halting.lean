import Scriptlet.Proofs.LoopFree

/-! The rules of evaluation, followed through more and more levels, come to an end on code without loops
wherever calls come to an end. -/
namespace Scriptlet

variable {c : Context} {d : Nat} {env : Env}

namespace Halts

theorem lookup (id : Identifier) : Halts d fun _ => c.lookup env id := by
  refine .lookThen fun s _ => ?_
  split
  · exact .pure _
  · split
    · exact .pure _
    · exact .fail _ _

theorem lookupCallee (name : String) (span : Span) : Halts d fun _ => c.lookupCallee env name span := by
  refine .lookThen fun s _ => ?_
  split
  · exact .pure _
  · exact .fail _ _

theorem enclose : Halts d fun _ => Action.enclose env :=
  .update fun _ hs => hs.of_same_code rfl rfl

theorem define (name : String) (value : Value) (constant : Bool) :
    Halts d fun _ => Action.define env name value constant :=
  .update fun _ hs => hs.of_same_code rfl rfl

theorem assign (target : Identifier) (value : Value) : Halts d fun _ => c.assign env target value := by
  refine (Halts.update fun _ hs => hs.assign env target.name value).bind fun refusal => ?_
  split
  · exact .pure _
  · exact .fail _ _
  · split
    · exact (define _ _ _).bind fun _ => .pure _
    · exact .fail _ _

theorem compute (op : ComputeOp) (left right : Value) (span : Span) :
    Halts d fun _ => compute op left right span := (look _).bind fun result => .ofExcept span result

theorem relate (op : RelateOp) (left right : Value) (span : Span) :
    Halts d fun _ => relate op left right span := (look _).bind fun result => .ofExcept span result

theorem member (object : Value) (name : Identifier) (span : Span) :
    Halts d fun _ => object.member name span := by
  cases object with
  | map r => exact (look _).bind fun _ => .pure _
  | instance_ r =>
    refine (look _).bind fun value => ?_
    split
    · exact .pure _
    · exact .fail _ _
  | _ => exact .fail _ _

theorem write (text : String) : Halts d fun _ => Action.write text :=
  .modifyRest (fun _ => rfl) fun _ => rfl

theorem readLine (prompt : Option Value) (span : Span) : Halts d fun _ => readLine prompt span := by
  have hline : Halts d fun _ => Action.nextLine := .of_settled fun _ hm => .ok ⟨hm.loopFree, hm.depth⟩
  have hread : Halts d fun _ => Scriptlet.readLine none span := by
    refine hline.bind fun line => ?_
    split
    · exact .pure _
    · split
      · exact .pure _
      · exact .fail _ _
  cases prompt with
  | none => exact hread
  | some prompt => exact (look _).bind fun text => (write text).bind fun _ => hread

theorem newFunction {f : Function} (hf : f.body.LoopFree) : Halts d fun _ => newFunction f :=
  .update fun _ hs => hs.newFunction hf

theorem declareFunction {f : FunctionDecl} (hf : f.body.LoopFree) :
    Halts d fun _ => declareFunction env f := by
  have hbody : (FunctionBody.block f.body).LoopFree := hf
  exact (newFunction hbody).bind fun value => define f.name.name value false

end Halts

/-- Evaluators that follow the rules, each with the one before it, and whose calls come to an end at a
depth. -/
structure Halting (c : Context) (d : Nat) (family : Nat → Evaluator) : Prop where
  evaluateZero : ∀ env e m, ¬Finished ((family 0).evaluate c env e m)
  evaluateSucc : ∀ j env e, (family (j + 1)).evaluate c env e = (family j).evaluateStep c env e
  executeZero : ∀ env s m, ¬Finished ((family 0).execute c env s m)
  executeSucc : ∀ j env s, (family (j + 1)).execute c env s = (family j).executeStep c env s
  call : ∀ env callee arguments span, Halts d fun j => (family j).call c env callee arguments span

namespace Halting

variable {family : Nat → Evaluator}

mutual

theorem evaluate (h : Halting c d family) (env : Env) (e : Expr) :
    Halts d fun j => (family j).evaluate c env e := by
  refine .later (h.evaluateZero env e) (fun j => h.evaluateSucc j env e) ?_
  cases e with
  | identifier id => exact .lookup id
  | literal value span => exact .pure _
  | binary op left right span =>
    have hleft := h.evaluate env left
    have hright := h.evaluate env right
    cases op with
    | logic op =>
      cases op with
      | and =>
        refine hleft.bind fun value => ?_
        split
        · exact hright
        · exact .pure _
      | or =>
        refine hleft.bind fun value => ?_
        split
        · exact .pure _
        · exact hright
    | compute op => exact hleft.bind fun x => hright.bind fun y => .compute op x y span
    | relate op => exact hleft.bind fun x => hright.bind fun y => .relate op x y span
  | unary op operand span => exact (h.evaluate env operand).bind fun value => .ofExcept span _
  | step op target span =>
    refine (Halts.lookup target).bind fun current => ?_
    cases op with
    | increment => exact (Halts.compute _ _ _ span).bind fun value => .assign target value
    | decrement => exact (Halts.compute _ _ _ span).bind fun value => .assign target value
  | ternary condition resolution alternative span =>
    have hresolution := h.evaluate env resolution
    have halternative := h.evaluate env alternative
    refine (h.evaluate env condition).bind fun value => ?_
    split
    · exact hresolution
    · exact halternative
  | assign target op value span =>
    have hvalue := h.evaluate env value
    cases op with
    | none => exact hvalue.bind fun value => .assign target value
    | some op =>
      exact hvalue.bind fun value => (Halts.lookup target).bind fun current =>
        (Halts.compute op current value span).bind fun value => .assign target value
  | call callee arguments span =>
    have hcallee : Halts d fun j => (family j).evaluateCallee c env callee := by
      have hvalue := h.evaluate env callee
      cases callee with
      | identifier id => exact .lookupCallee id.name id.span
      | _ => exact hvalue
    exact hcallee.bind fun callee => (h.evaluateAll env arguments).bind fun arguments =>
      h.call env callee arguments span
  | member object name span => exact (h.evaluate env object).bind fun object => .member object name span
  | index object key span =>
    exact (h.evaluate env object).bind fun object => (h.evaluate env key).bind fun key =>
      (Halts.look _).bind fun result => .ofExcept span result
  | list items span =>
    exact (h.evaluateAll env items).bind fun items => .update fun _ hs => hs.of_same_code rfl rfl
  | map entries span =>
    exact (h.evaluateEntries env .empty entries).bind fun entries =>
      .update fun _ hs => hs.of_same_code rfl rfl
  | lambda parameters body span => exact .newFunction trivial
  | input prompt span =>
    cases prompt with
    | none => exact .readLine none span
    | some prompt => exact (h.evaluate env prompt).bind fun prompt => .readLine (some prompt) span
  | nested inner span => exact h.evaluate env inner

theorem evaluateAll (h : Halting c d family) (env : Env) (es : List Expr) :
    Halts d fun j => (family j).evaluateAll c env es := by
  cases es with
  | nil => exact .pure _
  | cons e es =>
    exact (h.evaluate env e).bind fun value => (h.evaluateAll env es).bind fun values => .pure _

theorem evaluateEntries (h : Halting c d family) (env : Env) (entries : Dictionary Value)
    (es : List (Entry Expr)) : Halts d fun j => (family j).evaluateEntries c env entries es := by
  cases es with
  | nil => exact .pure _
  | cons e es =>
    obtain ⟨key, value, span⟩ := e
    exact (h.evaluate env value).bind fun value => h.evaluateEntries env _ es

end

variable (h : Halting c d family)
include h

theorem evaluateOption (env : Env) (e : Option Expr) :
    Halts d fun j => (family j).evaluateOption c env e := by
  cases e with
  | none => exact .pure _
  | some e => exact h.evaluate env e

theorem evaluateTexts (env : Env) (es : List Expr) :
    Halts d fun j => (family j).evaluateTexts c env es := by
  induction es with
  | nil => exact .pure _
  | cons e es ih =>
    exact (h.evaluate env e).bind fun value => (Halts.look _).bind fun text =>
      ih.bind fun texts => .pure _

/-! Statements, given that their parts come to an end in every environment. -/

omit h in
theorem executeAll {ss : List Stmt}
    (hss : ∀ s ∈ ss, ∀ env, Halts d fun j => (family j).execute c env s) (env : Env) (last : Value) :
    Halts d fun j => (family j).executeAll c env last ss := by
  induction ss generalizing last with
  | nil => exact .pure _
  | cons s ss ih =>
    obtain ⟨hs, hss⟩ := List.forall_mem_cons.1 hss
    exact (hs env).bind fun value => ih hss value

omit h in
theorem executeEnclosed {b : Block}
    (hb : ∀ s ∈ b.statements, ∀ env, Halts d fun j => (family j).execute c env s) (env : Env) :
    Halts d fun j => (family j).executeEnclosed c env b :=
  Halts.enclose.bind fun inner => executeAll hb inner .undefined

theorem declare (env : Env) (declaration : Declaration) :
    Halts d fun j => (family j).declare c env declaration := by
  obtain ⟨kind, bindings, span⟩ := declaration
  induction bindings with
  | nil => exact .pure _
  | cons b bs ih =>
    exact (h.evaluateOption env b.value).bind fun value => (Halts.define _ value _).bind fun _ => ih

omit h in
theorem declareClass (env : Env) (name : Identifier) (parent : Option Identifier) {members : List Member}
    (hm : ∀ f, .method f ∈ members → f.body.LoopFree) :
    Halts d fun _ => Evaluator.declareClass c env name parent members := by
  have hnew (parent : Option Nat) : Halts d fun _ =>
      (do
        let value ← Action.update fun s => s.newClass ⟨name.name, parent, members, env⟩
        Action.define env name.name value false) := by
    refine (Halts.update fun s hs => hs.newClass ?_).bind fun value => .define name.name value false
    exact hm
  cases parent with
  | none => exact hnew none
  | some id =>
    refine (Halts.lookup id).bind fun value => ?_
    cases value with
    | class_ r => exact hnew (some r)
    | _ => exact .failThen _ _

theorem executeCases {cs : List Case}
    (hcs : ∀ k ∈ cs, ∀ env, Halts d fun j => (family j).execute c env k.body) (env : Env)
    (subject : Value) : Halts d fun j => (family j).executeCases c env subject cs := by
  induction cs with
  | nil => exact .pure _
  | cons k cs ih =>
    obtain ⟨hk, hrest⟩ := List.forall_mem_cons.1 hcs
    obtain ⟨value, body, span⟩ := k
    cases value with
    | none => exact (hk env).discard
    | some e =>
      refine (h.evaluate env e).bind fun value => (Halts.look _).bind fun taken => ?_
      cases taken with
      | true => exact (hk env).discard
      | false => exact ih hrest

omit h in
theorem executeHandled {b : Block} {handler : Option Handler}
    (hb : ∀ s ∈ b.statements, ∀ env, Halts d fun j => (family j).execute c env s)
    (hk : ∀ k ∈ handler, ∀ s ∈ k.body.statements, ∀ env, Halts d fun j => (family j).execute c env s)
    (env : Env) : Halts d fun j => (family j).executeHandled c env b handler := by
  refine (executeEnclosed hb env).attemptThen fun result hresult => ?_
  cases result with
  | ok value => exact .pure value
  | error signal =>
    have hs : signal ≠ .exhausted := fun he => hresult (congrArg _ he)
    cases handler with
    | none => cases signal <;> exact .throw hs
    | some handler =>
      have hbody := executeAll (hk handler rfl)
      cases signal with
      | throw value span =>
        refine Halts.enclose.bind fun inner => ?_
        obtain ⟨parameter, body⟩ := handler
        cases parameter with
        | none => exact hbody inner .undefined
        | some parameter =>
          exact (Halts.define parameter.name value false).bind fun _ => hbody inner .undefined
      | _ => exact .throw hs

omit h in
theorem executeTry {b : Block} {handler : Option Handler} {cleanup : Option Block}
    (hb : ∀ s ∈ b.statements, ∀ env, Halts d fun j => (family j).execute c env s)
    (hk : ∀ k ∈ handler, ∀ s ∈ k.body.statements, ∀ env, Halts d fun j => (family j).execute c env s)
    (hf : ∀ f ∈ cleanup, ∀ s ∈ f.statements, ∀ env, Halts d fun j => (family j).execute c env s)
    (env : Env) : Halts d fun j => (family j).executeTry c env b handler cleanup := by
  refine (executeHandled hb hk env).attemptThen fun result hresult => ?_
  cases result with
  | ok value =>
    cases cleanup with
    | none => exact .pure ()
    | some cleanup => exact (executeEnclosed (hf cleanup rfl) env).discard.bind fun _ => .pure ()
  | error signal =>
    have hs : signal ≠ .exhausted := fun he => hresult (congrArg _ he)
    cases cleanup with
    | none => exact .throw hs
    | some cleanup => exact (executeEnclosed (hf cleanup rfl) env).discard.bind fun _ => .throw hs

/-- Induction on the statement: each rule but those for loops executes parts of it, once. -/
theorem execute {s : Stmt} (hs : s.LoopFree) (env : Env) : Halts d fun j => (family j).execute c env s := by
  induction hs generalizing env with
    refine .later (h.executeZero env _) (fun j => h.executeSucc j env _) ?_
  | declare declaration =>
    exact (h.declare env declaration).bind fun _ => .pure _
  | function hf =>
    exact (Halts.declareFunction hf).bind fun _ => .pure _
  | class_ name parent span hm =>
    exact (declareClass env name parent hm).bind fun _ => .pure _
  | block _ ih =>
    exact executeEnclosed ih env
  | @conditional condition resolution alternative span _ _ ihr iha =>
    refine (h.evaluate env condition).bind fun value => ?_
    split
    · exact (ihr env).discard.bind fun _ => .pure _
    · cases alternative with
      | none => exact .pure _
      | some alternative => exact (iha alternative rfl env).discard.bind fun _ => .pure _
  | switch subject span _ ih =>
    exact (h.evaluate env subject).bind fun subject => (h.executeCases ih env subject).bind fun _ => .pure _
  | return_ value span =>
    exact (h.evaluateOption env value).bind fun value => .throw nofun
  | break_ span =>
    exact .throw nofun
  | continue_ span =>
    exact .throw nofun
  | throw value span =>
    exact (h.evaluate env value).bind fun value => .throw nofun
  | try_ span _ _ _ ihb ihk ihf =>
    exact (executeTry ihb ihk ihf env).bind fun _ => .pure _
  | import_ target span =>
    exact (Halts.lookupCallee "import" span).bind fun native =>
      (h.call env native [.string target] span).discard.bind fun _ => .pure _
  | print values span =>
    exact (h.evaluateTexts env values).bind fun texts => (Halts.write _).bind fun _ => .pure _
  | pass span =>
    exact .pure _
  | expression e span =>
    exact h.evaluate env e

theorem executeBody {body : FunctionBody} (hbody : body.LoopFree) (env : Env) :
    Halts d fun j => (family j).executeBody c env body := by
  cases body with
  | block body =>
    have hall := executeAll (fun s hs env => h.execute (hbody s hs) env) env .undefined
    exact hall.discard.bind fun _ => .pure _
  | expression body => exact h.evaluate env body

theorem declareMembers {ms : List Member} (hms : ∀ f, .method f ∈ ms → f.body.LoopFree) (env : Env) :
    Halts d fun j => (family j).declareMembers c env ms := by
  induction ms with
  | nil => exact .pure _
  | cons member ms ih =>
    have hrest := ih fun f hf => hms f (List.mem_cons_of_mem _ hf)
    cases member with
    | field declaration => exact (h.declare env declaration).bind fun _ => hrest
    | method f =>
      exact (Halts.declareFunction (hms f List.mem_cons_self)).bind fun _ => hrest

theorem declareLineage {ks : List Class} (hks : ∀ k ∈ ks, k.LoopFree) (env : Env) :
    Halts d fun j => (family j).declareLineage c env ks := by
  induction ks with
  | nil => exact .pure _
  | cons k ks ih =>
    obtain ⟨hk, hks⟩ := List.forall_mem_cons.1 hks
    exact (h.declareMembers hk env).bind fun _ => ih hks

/-- The members of an instance are declared, and `init` is called, at the depth of the call. -/
theorem instantiate (r : Nat) (k : Class) (arguments : List Value) (span : Span) :
    Halts d fun j => (family j).instantiate c r k arguments span := by
  refine Halts.enclose.bind fun env => .lookThen fun s hs => ?_
  refine (h.declareLineage (hs.lineage r) env).bind fun _ => (Halts.look _).bind fun init => ?_
  have hnew : Halts d fun _ => Action.update fun s => s.newInstance ⟨r, env⟩ :=
    .update fun _ hs => hs.of_same_code rfl rfl
  cases init with
  | some init => exact (h.call env init arguments span).discard.bind fun _ => hnew
  | none =>
    dsimp only
    split
    · exact .failThen _ _
    · exact hnew

omit h in
theorem bindParameters (env : Env) (names : List String) (values : List Value) :
    Halts d fun _ => Evaluator.bindParameters env names values := by
  induction names generalizing values with
  | nil => exact .pure _
  | cons name names ih =>
    cases values with
    | nil => exact .pure _
    | cons value values => exact (Halts.define name value false).bind fun _ => ih values

omit h in
theorem finishCall {result : Except Signal Value} (hresult : result ≠ .error .exhausted) :
    Halts d fun _ => Evaluator.finishCall result := by
  cases result with
  | ok value => exact .pure _
  | error signal =>
    have hs : signal ≠ .exhausted := fun he => hresult (congrArg _ he)
    cases signal with
    | return_ value => exact .pure _
    | break_ span => exact .fail _ _
    | continue_ span => exact .fail _ _
    | _ => exact .throw hs

omit h in
/-- The body of a function runs one call deeper, and only below the limit. -/
theorem callFunction (hdeeper : d < c.options.maxCallDepth → Halting c (d + 1) family) {f : Function}
    (hf : f.body.LoopFree) (arguments : List Value) (span : Span) :
    Halts d fun j => (family j).callFunction c f arguments span := by
  unfold Evaluator.callFunction
  split
  · exact .failThen _ _
  · refine .getThen fun m hm => ?_
    split
    · exact .failThen _ _
    · next hbelow =>
      have hbody := (hdeeper (hm.depth ▸ Nat.lt_of_not_le hbelow)).executeBody hf
      refine Halts.enclose.bind fun env => (bindParameters env f.parameters arguments).bind fun _ => ?_
      exact (hbody env).inCall fun result hresult => finishCall hresult

omit h in
theorem callNative (hc : c.host = .plain) (env : Env) (f : Native) (arguments : List Value) :
    Halts d fun j => (family j).callNative c env f arguments := by
  cases f with
  | builtin f =>
    have htime : Halts d fun _ => Action.tellTime f := .of_settled fun _ hm => .ok ⟨hm.loopFree, hm.depth⟩
    exact htime.bind fun now => .update fun _ hs => hs.builtin f now arguments
  | host id name arity =>
    unfold Evaluator.callNative
    rw [hc]
    exact .pure _

omit h in
/-- A call comes to an end when calls at the same depth do, in the case of a class, and when calls one
deeper do, in the case of a function and below the limit. -/
theorem callStep (hc : c.host = .plain) {callee : Value}
    (hclass : ∀ r, callee = .class_ r → Halting c d family)
    (hfunction : ∀ r, callee = .function r → d < c.options.maxCallDepth → Halting c (d + 1) family)
    (env : Env) (arguments : List Value) (span : Span) :
    Halts d fun j => (family j).callStep c env callee arguments span := by
  cases callee with
  | function r =>
    refine .lookThen fun s hs => ?_
    cases hf : s.functions[r]? with
    | none => exact .fail _ _
    | some f =>
      have hbody := hs.functions f (Array.mem_of_getElem? hf)
      exact callFunction (hfunction r rfl) hbody arguments span
  | class_ r =>
    refine .lookThen fun s hs => ?_
    cases s.classes[r]? with
    | none => exact .fail _ _
    | some k => exact (hclass r rfl).instantiate r k arguments span
  | native f =>
    unfold Evaluator.callStep
    dsimp only
    split
    · split
      · exact .failThen _ _
      · refine (callNative hc env f arguments).bind fun answer => ?_
        cases answer with
        | ok value => exact .pure _
        | error message => exact .fail _ _
    · refine (callNative hc env f arguments).bind fun answer => ?_
      cases answer with
      | ok value => exact .pure _
      | error message => exact .fail _ _
  | _ => exact .fail _ _

theorem run {p : Program} (hp : p.LoopFree) (env : Env) : Halts d fun j => (family j).run c env p := by
  have hall := executeAll (fun s hs env => h.execute (hp s hs) env) env .undefined
  refine hall.attemptThen fun result hresult => ?_
  cases result with
  | ok value => exact .pure _
  | error signal =>
    cases signal with
    | exhausted => exact (hresult rfl).elim
    | throw value span => exact (Halts.look _).bind fun text => .pure _
    | _ => exact .pure _

end Halting
end Scriptlet
