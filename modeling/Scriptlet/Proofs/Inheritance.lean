import Scriptlet.Proofs.ErrorPlaces
import Scriptlet.Proofs.FrameTree
import Scriptlet.Proofs.Scopes

/-! What members refer to. The members of a class and of all its ancestors are declared in one frame, that of the
instance, and its only way out leads to the frame where the class was declared that the instance is made of. So it
does not matter where an ancestor was declared: the names of its members that are no members themselves are looked
up from the class of the instance. -/
namespace Scriptlet

/-- Code in the environment stands in scopes of its own and then in the frame. A name that none of these binds is
looked up from the closure, whatever is stored. -/
def Env.LooksOut (env : Env) (frame : Nat) (closure : Env) : Prop :=
  ∃ own, env.chain = own ++ frame :: closure.chain ∧
    ∀ (s : Store) (name : String), (∀ r ∈ own ++ [frame], name ∉ (s.frame r).keys) →
      s.binder? env name = s.binder? closure name ∧ s.slot? env name = s.slot? closure name

theorem Env.looksOut_of_chain {env closure : Env} {own : List Nat} {frame : Nat}
    (h : env.chain = own ++ frame :: closure.chain) : env.LooksOut frame closure := by
  refine ⟨own, h, fun s name hname => ?_⟩
  have hchain : env.chain = (own ++ [frame]) ++ closure.chain := by rw [h, List.append_cons]
  have hnone : ∀ r ∈ own ++ [frame], (s.frame r).get? name = none := fun r hr =>
    (Dictionary.get?_eq_none_iff _ name).2 (hname r hr)
  constructor
  · have hfind : (own ++ [frame]).find? (fun r => (s.frame r).contains name) = none :=
      List.find?_eq_none.2 fun r hr => by simp [Dictionary.contains, hnone r hr]
    rw [Store.binder?, hchain, List.find?_append, hfind, Option.none_or]
    rfl
  · have hfind : (own ++ [frame]).findSome? (fun r => (s.frame r).get? name) = none :=
      List.findSome?_eq_none_iff.2 hnone
    rw [Store.slot?, hchain, List.findSome?_append, hfind, Option.none_or]
    rfl

theorem Instance.Placed.looksOut {i : Instance} {s : Store} {k : Class} (h : i.Placed s k) {tree : FrameTree}
    (hs : s.Arranged tree) (hi : i.env.Along tree) {env : Env} (henv : env.Along tree)
    (hthrough : i.env.frame ∈ env.chain) : env.LooksOut i.env.frame k.closure := by
  obtain ⟨own, hown⟩ := hs.goes_on henv hi hthrough
  have hinner : i.env.chain = i.env.frame :: k.closure.chain := by rw [Env.chain, h.outer]
  rw [hinner] at hown
  exact Env.looksOut_of_chain hown

def Member.initializers : Member → List Expr
  | .field d => d.bindings.filterMap (·.value)
  | .method _ => []

def Class.initializers (k : Class) : List Expr := k.members.flatMap Member.initializers

def Member.names : Member → List String
  | .field d => d.bindings.map (·.name.name)
  | .method f => [f.name.name]

/-- The name of the method leads in the frame to the function of its declaration. -/
def Store.Binds (s : Store) (env : Env) (f : FunctionDecl) : Prop :=
  ∃ n, s.getLocal? env f.name.name = some (.function n) ∧ s.functions[n]? = some (f.closedIn env)

namespace Store.Binds

variable {s : Store} {env : Env} {f : FunctionDecl}

theorem define (h : s.Binds env f) {name : String} (hname : f.name.name ≠ name) (value : Value)
    (constant : Bool) : (s.define env name value constant).Binds env f := by
  obtain ⟨n, hget, hfunction⟩ := h
  have hkey : f.name.name ∈ (s.frame env.frame).keys := by
    refine not_not.1 fun hnot => ?_
    rw [getLocal?, (Dictionary.get?_eq_none_iff _ _).2 hnot] at hget
    cases hget
  have hrebound := s.rebound_insert (s.lt_of_mem_keys hkey) name ⟨value, constant⟩
  have hother := hrebound.others env.frame f.name.name fun h => hname h.2
  refine ⟨n, ?_, hfunction⟩
  rw [← hget]
  exact congrArg (Option.map _) hother

theorem newFunction (h : s.Binds env f) (g : Function) : (s.newFunction g).2.Binds env f := by
  obtain ⟨n, hget, hfunction⟩ := h
  refine ⟨n, hget, ?_⟩
  have hlt : n < s.functions.size := (Array.getElem?_eq_some_iff.1 hfunction).1
  simpa [Store.newFunction, Array.getElem?_push, Nat.ne_of_lt hlt] using hfunction

end Store.Binds

theorem binds_declareFunction {env : Env} {f : FunctionDecl} {m m' : Machine}
    (hframe : env.frame < m.store.frames.size) (h : declareFunction env f m = .ok () m') : m'.store.Binds env f := by
  cases h
  have hbound := ((m.store.newFunction (f.closedIn env)).2.rebound_insert hframe f.name.name
    ⟨.function m.store.functions.size, false⟩).bound
  exact ⟨m.store.functions.size, congrArg (Option.map _) hbound, Array.getElem?_push_size⟩

namespace Evaluator

variable {ev ev' : Evaluator} {c : Context} {env : Env}

theorem executeAll_congr {ss : List Stmt} (h : ∀ s ∈ ss, ev'.execute c env s = ev.execute c env s) (last : Value) :
    ev'.executeAll c env last ss = ev.executeAll c env last ss := by
  induction ss generalizing last with
  | nil => rfl
  | cons s ss ih =>
    obtain ⟨hs, hss⟩ := List.forall_mem_cons.1 h
    simp only [executeAll, hs, ih hss]

theorem callFunction_congr {g : Function} {m : Machine}
    (h : ev'.executeBody c (m.store.enclose g.closure).1 g.body =
      ev.executeBody c (m.store.enclose g.closure).1 g.body)
    (arguments : List Value) (span : Span) :
    ev'.callFunction c g arguments span m = ev.callFunction c g arguments span m := by
  have hget : (get : Action Machine) m = .ok m m := rfl
  have henter : Action.enclose g.closure m =
    .ok (m.store.enclose g.closure).1 { m with store := (m.store.enclose g.closure).2 } := rfl
  unfold callFunction
  dsimp only
  by_cases hcount : g.parameters.length ≠ arguments.length
  · rw [if_pos hcount, if_pos hcount]
    rfl
  · rw [if_neg hcount, if_neg hcount, bind_ok hget, bind_ok hget]
    by_cases hdepth : c.options.maxCallDepth ≤ m.depth
    · rw [if_pos hdepth, if_pos hdepth]
      rfl
    · rw [if_neg hdepth, if_neg hdepth, bind_ok henter, bind_ok henter, h]

theorem declareBindings_congr {bindings : List Binding}
    (h : ∀ e ∈ bindings.filterMap (·.value), ev'.evaluate c env e = ev.evaluate c env e) (constant : Bool) :
    ev'.declareBindings c env constant bindings = ev.declareBindings c env constant bindings := by
  induction bindings with
  | nil => rfl
  | cons b bs ih =>
    obtain ⟨name, value⟩ := b
    cases value with
    | none => simp only [declareBindings, evaluateOption, ih h]
    | some e =>
      have hrest := ih fun e' he' => h e' (List.mem_cons_of_mem e he')
      simp only [declareBindings, evaluateOption, h e List.mem_cons_self, hrest]

theorem declareMembers_congr {members : List Member}
    (h : ∀ e ∈ members.flatMap Member.initializers, ev'.evaluate c env e = ev.evaluate c env e) :
    ev'.declareMembers c env members = ev.declareMembers c env members := by
  induction members with
  | nil => rfl
  | cons member members ih =>
    have hrest := ih fun e he => h e (List.mem_append_right _ he)
    cases member with
    | field d =>
      have hfirst := declareBindings_congr (fun e he => h e (List.mem_append_left _ he)) d.kind.isConstant
      simp only [declareMembers, declare, hfirst, hrest]
    | method f => simp only [declareMembers, hrest]

theorem declareLineage_congr {classes : List Class}
    (h : ∀ a ∈ classes, ∀ e ∈ a.initializers, ev'.evaluate c env e = ev.evaluate c env e) :
    ev'.declareLineage c env classes = ev.declareLineage c env classes := by
  rw [ev'.declareLineage_eq, ev.declareLineage_eq]
  refine declareMembers_congr fun e he => ?_
  obtain ⟨member, hmember, he⟩ := List.mem_flatMap.1 he
  obtain ⟨a, ha, hmember⟩ := List.mem_flatMap.1 hmember
  exact h a ha e (List.mem_flatMap.2 ⟨member, hmember, he⟩)

theorem declareBindings_evaluates {bindings : List Binding} {constant : Bool} {m m' : Machine}
    (h : ev.declareBindings c env constant bindings m = .ok () m') {e : Expr}
    (he : e ∈ bindings.filterMap (·.value)) : ∃ m₁ v m₂, ev.evaluate c env e m₁ = .ok v m₂ := by
  induction bindings generalizing m with
  | nil => cases he
  | cons b bs ih =>
    obtain ⟨name, value⟩ := b
    obtain ⟨v, m₁, hvalue, hrest⟩ := bind_eq_ok h
    obtain ⟨_, m₂, -, hrest⟩ := bind_eq_ok hrest
    cases value with
    | none => exact ih hrest he
    | some first =>
      rcases List.mem_cons.1 he with rfl | he
      · exact ⟨m, v, m₁, hvalue⟩
      · exact ih hrest he

theorem declareMembers_evaluates {members : List Member} {m m' : Machine}
    (h : ev.declareMembers c env members m = .ok () m') {e : Expr}
    (he : e ∈ members.flatMap Member.initializers) : ∃ m₁ v m₂, ev.evaluate c env e m₁ = .ok v m₂ := by
  induction members generalizing m with
  | nil => cases he
  | cons member members ih =>
    cases member with
    | field d =>
      obtain ⟨_, m₁, hd, hrest⟩ := bind_eq_ok h
      rcases List.mem_append.1 he with he | he
      · exact declareBindings_evaluates hd he
      · exact ih hrest he
    | method f =>
      obtain ⟨_, m₁, -, hrest⟩ := bind_eq_ok h
      exact ih hrest he

theorem declareLineage_evaluates {classes : List Class} {m m' : Machine}
    (h : ev.declareLineage c env classes m = .ok () m') {a : Class} (ha : a ∈ classes) {e : Expr}
    (he : e ∈ a.initializers) : ∃ m₁ v m₂, ev.evaluate c env e m₁ = .ok v m₂ := by
  rw [ev.declareLineage_eq] at h
  obtain ⟨member, hmember, he⟩ := List.mem_flatMap.1 he
  exact declareMembers_evaluates h (List.mem_flatMap.2 ⟨member, List.mem_flatMap.2 ⟨a, ha, hmember⟩, he⟩)

theorem declareBindings_binds {f : FunctionDecl} {bindings : List Binding} {constant : Bool} {m m' : Machine}
    (hnames : f.name.name ∉ bindings.map (·.name.name)) (hvalues : bindings.filterMap (·.value) = [])
    (h : ev.declareBindings c env constant bindings m = .ok () m') (hm : m.store.Binds env f) :
    m'.store.Binds env f := by
  induction bindings generalizing m with
  | nil =>
    cases h
    exact hm
  | cons b bs ih =>
    obtain ⟨name, value⟩ := b
    obtain ⟨hname, hrest⟩ := not_or.1 (mt List.mem_cons.2 hnames)
    cases value with
    | some e => cases hvalues
    | none => exact ih hrest hvalues h (hm.define hname .undefined constant)

theorem declareMembers_binds {f : FunctionDecl} {members : List Member} {m m' : Machine}
    (hmembers : ∀ member ∈ members, f.name.name ∉ member.names ∧ member.initializers = [])
    (h : ev.declareMembers c env members m = .ok () m') (hm : m.store.Binds env f) : m'.store.Binds env f := by
  induction members generalizing m with
  | nil =>
    cases h
    exact hm
  | cons member members ih =>
    obtain ⟨⟨hnames, hvalues⟩, hrests⟩ := List.forall_mem_cons.1 hmembers
    cases member with
    | field d =>
      obtain ⟨_, m₁, hd, hrest⟩ := bind_eq_ok h
      exact ih hrests hrest (declareBindings_binds hnames hvalues hd hm)
    | method g =>
      have hname : f.name.name ≠ g.name.name := fun he => hnames (he ▸ List.mem_singleton_self _)
      exact ih hrests h ((hm.newFunction (g.closedIn env)).define hname _ false)

/-- The members of all ancestors of a class have been declared in the frame of an instance. Then the name of a
method that no later member has leads to that method, if no initializer comes after it, which could assign to it. -/
def BindsMethods (ev : Evaluator) (c : Context) (r : Nat) (k : Class) (m : Machine) : Prop :=
  ∀ earlier f later m', (m.store.lineage r).flatMap (·.members) = earlier ++ .method f :: later →
    (∀ member ∈ later, f.name.name ∉ member.names ∧ member.initializers = []) →
    ev.declareLineage c (m.store.enclose k.closure).1 (m.store.lineage r)
      { m with store := (m.store.enclose k.closure).2 } = .ok () m' →
    m'.store.Binds (m.store.enclose k.closure).1 f

theorem Tidy.bindsMethods (ht : ev.Tidy c) (r : Nat) (k : Class) (m : Machine) : ev.BindsMethods c r k m := by
  intro earlier f later m' hmembers hlater h
  rw [ev.declareLineage_eq, hmembers, ev.declareMembers_append] at h
  obtain ⟨_, m₁, hearlier, h⟩ := bind_eq_ok h
  obtain ⟨_, m₂, hf, h⟩ := bind_eq_ok h
  have hframes := ((ht.declareMembers _ earlier).of_ok hearlier).extends_.frames
  have hframe : (m.store.enclose k.closure).1.frame < m₁.store.frames.size :=
    Nat.lt_of_lt_of_le (by simp [Store.enclose]) hframes
  exact declareMembers_binds hlater h (binds_declareFunction hframe hf)

/-- An instance with the environment is made by evaluating the initializers of all ancestors there: what they come
to elsewhere makes no difference, and all of them have come to a value. -/
structure MakesIn (ev : Evaluator) (c : Context) (r : Nat) (k : Class) (m : Machine) (env : Env) : Prop where
  only : ∀ (ev' : Evaluator) arguments span,
    (∀ a ∈ m.store.lineage r, ∀ e ∈ a.initializers, ev'.evaluate c env e = ev.evaluate c env e) →
    ev'.call c env = ev.call c env →
    ev'.instantiate c r k arguments span m = ev.instantiate c r k arguments span m
  all : ∀ arguments span v m', ev.instantiate c r k arguments span m = .ok v m' →
    ∀ a ∈ m.store.lineage r, ∀ e ∈ a.initializers, ∃ m₁ x m₂, ev.evaluate c env e m₁ = .ok x m₂
  made : ∀ arguments span v m', ev.instantiate c r k arguments span m = .ok v m' →
    ∃ n, v = .instance_ n ∧ m'.store.instances[n]? = some ⟨r, env⟩

theorem makesIn (ev : Evaluator) (c : Context) {r : Nat} {k : Class} {m : Machine}
    (hk : m.store.classes[r]? = some k) : ev.MakesIn c r k m (m.store.enclose k.closure).1 := by
  have henter : Action.enclose k.closure m =
    .ok (m.store.enclose k.closure).1 { m with store := (m.store.enclose k.closure).2 } := rfl
  have hlineage : (m.store.enclose k.closure).2.lineage r = m.store.lineage r :=
    (m.store.extends_enclose k.closure).lineage_eq hk
  refine ⟨fun ev' arguments span hevaluate hcall => ?_, fun arguments span v m' h a ha e he => ?_,
    fun arguments span v m' h => ?_⟩
  · have hmembers := declareLineage_congr hevaluate
    unfold instantiate
    rw [bind_ok henter, bind_ok henter, bind_ok (Action.look_apply _ _), bind_ok (Action.look_apply _ _), hlineage,
      hmembers, hcall]
  · unfold instantiate at h
    rw [bind_ok henter, bind_ok (Action.look_apply _ _), hlineage] at h
    obtain ⟨_, m₁, hmembers, -⟩ := bind_eq_ok h
    exact declareLineage_evaluates hmembers ha he
  · unfold instantiate at h
    rw [bind_ok henter, bind_ok (Action.look_apply _ _)] at h
    obtain ⟨_, m₁, -, h⟩ := bind_eq_ok h
    rw [bind_ok (Action.look_apply _ _)] at h
    have hnew {m₂ : Machine} {env : Env} (hnew : Action.update (fun s => s.newInstance ⟨r, env⟩) m₂ = .ok v m') :
        ∃ n, v = .instance_ n ∧ m'.store.instances[n]? = some ⟨r, env⟩ := by
      cases hnew
      exact ⟨m₂.store.instances.size, rfl, Array.getElem?_push_size⟩
    generalize m₁.store.getLocal? (m.store.enclose k.closure).1 "init" = init at h
    cases init with
    | some init =>
      obtain ⟨_, m₂, -, h⟩ := bind_eq_ok h
      exact hnew h
    | none =>
      by_cases hempty : (!arguments.isEmpty) = true
      · simp only [if_pos hempty] at h
        obtain ⟨_, m₂, hfail, -⟩ := bind_eq_ok h
        cases hfail
      · simp only [if_neg hempty] at h
        exact hnew h

end Evaluator

/-- A call of the function executes its body in a new frame inside the environment: what the statements do
elsewhere makes no difference. -/
def FunctionDecl.RunsInside (f : FunctionDecl) (env : Env) : Prop :=
  ∀ (ev ev' : Evaluator) (c : Context) (m : Machine) arguments span,
    (∀ s ∈ f.body.statements,
      ev'.execute c (m.store.enclose env).1 s = ev.execute c (m.store.enclose env).1 s) →
    ev'.callFunction c (f.closedIn env) arguments span m = ev.callFunction c (f.closedIn env) arguments span m

theorem FunctionDecl.runsInside (f : FunctionDecl) (env : Env) : f.RunsInside env := by
  intro ev ev' c m arguments span h
  have hbody : ev'.executeBody c (m.store.enclose env).1 (.block f.body) =
      ev.executeBody c (m.store.enclose env).1 (.block f.body) := by
    simp only [Evaluator.executeBody, Evaluator.executeBlock, Evaluator.executeAll_congr h]
  exact Evaluator.callFunction_congr (g := f.closedIn env) hbody arguments span

namespace Session

theorem run_machine (s : Session) (path source : String) :
    (s.run path source).2.env = s.env ∧ (s.run path source).2.machine =
      ((evaluator enough).runSource s.context s.env path source).after s.machine := by
  unfold run perform Action.after
  dsimp only
  cases (evaluator enough).runSource s.context s.env path source s.machine with
  | ok r m => cases r <;> exact ⟨rfl, rfl⟩
  | error signal m => exact ⟨rfl, rfl⟩

/-- The stores that come about in a session: its own, and those that a run is stopped at, wherever that is. -/
inductive Moment (s : Session) : Store → Prop
  | rest : Moment s s.store
  | inRun (stop : Machine → Bool) (n : Nat) (path source : String) :
    Moment s (((overseen stop .exhausted n).runSource s.context s.env path source).after s.machine).store

theorem Moment.arranged {s : Session} {files : Files} (hhost : s.context.host = Module.host files)
    (hs : ∃ tree, s.env.Along tree ∧ s.store.Arranged tree) {t : Store} (h : s.Moment t) :
    ∃ tree, s.env.Along tree ∧ t.Arranged tree := by
  cases h with
  | rest => exact hs
  | inRun stop n path source =>
    obtain ⟨tree, henv, ht⟩ := hs
    have htidy := overseen_tidy stop .exhausted (hhost ▸ Module.host_tidy files) n
    obtain ⟨tree', hgrown, ht'⟩ := (htidy.runSource s.env path source s.machine).arranged tree henv ht
    exact ⟨tree', henv.mono hgrown, ht'⟩

theorem Reached.arranged {options : Options} {files : Files} {input : Stdin} {clock : Clock}
    {earlier : List (String × String)} {s : Session}
    (h : Reached (Session.start (Module.context options files) input clock) earlier s) :
    s.context = Module.context options files ∧ ∃ tree, s.env.Along tree ∧ s.store.Arranged tree := by
  induction h with
  | start =>
    refine ⟨rfl, [[]], rfl, rfl, fun r around hr => ?_, ?_, ?_, ?_⟩
    · cases r with
      | zero =>
        cases hr
        exact .inl rfl
      | succ r => cases hr
    · exact fun f hf => (Array.not_mem_empty f hf).elim
    · exact fun k hk => (Array.not_mem_empty k hk).elim
    · exact fun i hi => (Array.not_mem_empty i hi).elim
  | @run earlier t _ path source hend ih =>
    obtain ⟨hcontext, ht⟩ := ih
    have hmoment : t.Moment (t.run path source).2.store := by
      rw [store, (t.run_machine path source).2, ← overseen_never .exhausted]
      exact .inRun _ _ _ _
    have hhost : t.context.host = Module.host files := by rw [hcontext]; rfl
    refine ⟨(run_context t path source).trans hcontext, ?_⟩
    rw [(t.run_machine path source).1]
    exact hmoment.arranged hhost ht
  | drain _ ih => exact ih

end Session

/-- What the members of all ancestors of a class refer to. At every moment of a session each instance has a class
`k`; the methods of its ancestors are functions in the frame of the instance, their bodies run inside it, and
whatever was declared there looks out to the frame of `k`. Whenever an instance is made, so do the initializers of
its fields, and the names of its methods are bound to their functions. -/
theorem members_look_out_from_class_of_instance {options : Options} {files : Files} {input : Stdin}
    {clock : Clock} {earlier : List (String × String)} {s : Session}
    (hs : Session.Reached (.start (Module.context options files) input clock) earlier s) :
    (∀ t, s.Moment t → ∀ i ∈ t.instances, ∃ k, t.classes[i.class_]? = some k ∧
      (∀ a ∈ t.lineage i.class_, ∀ f, .method f ∈ a.members →
        f.closedIn i.env ∈ t.functions ∧ f.RunsInside i.env) ∧
      (∀ m : Machine, (m.store.enclose i.env).1.LooksOut i.env.frame k.closure) ∧
      ∀ g ∈ t.functions, i.env.frame ∈ g.closure.chain → g.closure.LooksOut i.env.frame k.closure) ∧
    (∀ (ev : Evaluator) (c : Context) (m : Machine) (r : Nat) (k : Class), m.store.classes[r]? = some k →
      ∃ env, ev.MakesIn c r k m env ∧ env.frame = m.store.frames.size ∧ env.LooksOut env.frame k.closure) ∧
    ∀ n r k m, (evaluator n).BindsMethods s.context r k m := by
  obtain ⟨hcontext, htree⟩ := hs.arranged
  have hhost : s.context.host = Module.host files := by rw [hcontext]; rfl
  refine ⟨fun t ht i hi => ?_, fun ev c m r k hk => ?_, fun n r k m => ?_⟩
  · obtain ⟨tree, -, harranged⟩ := ht.arranged hhost htree
    obtain ⟨halong, k, hk⟩ := harranged.instances i hi
    refine ⟨k, hk.class_, fun a ha f hf => ⟨hk.methods a ha f hf, f.runsInside i.env⟩, fun m => ?_, fun g hg => ?_⟩
    · have hchain : (m.store.enclose i.env).1.chain = [m.store.frames.size] ++ i.env.frame :: k.closure.chain := by
        rw [← hk.outer]
        rfl
      exact Env.looksOut_of_chain hchain
    · exact hk.looksOut harranged halong (harranged.functions g hg)
  · exact ⟨_, ev.makesIn c hk, rfl, Env.looksOut_of_chain (List.nil_append _).symm⟩
  · rw [← overseen_never .exhausted]
    exact (overseen_tidy _ _ (hhost ▸ Module.host_tidy files) n).bindsMethods r k m

/-- A class declared in a function that hides a variable of the same name from it, after its parent was declared
outside of the function. -/
def shadowed : String :=
  "var x = 1; class A \x7b func get() \x7b return x; \x7d \x7d " ++
    "func f() \x7b var x = 2; class B extends A \x7b\x7d return B().get(); \x7d f();"

def Session.shadowing : Session := (alone.run "<repl>" shadowed).2

def Value.int? : Value → Option Int64
  | int value => some value
  | _ => none

def Outcome.value? : Outcome → Option Value
  | value content => some content
  | _ => none

def Member.isMethod : Member → Bool
  | method _ => true
  | field _ => false

theorem Session.shadowed_value : (alone.run "<repl>" shadowed).1.value?.bind Value.int? = some 2 := by
  decide +kernel

theorem Session.reached_shadowing : Reached .alone [("<repl>", shadowed)] .shadowing := by
  refine .run .start _ _ fun h => ?_
  have hvalue := shadowed_value
  rw [h] at hvalue
  cases hvalue

/-- An instance of `B`, with a method of `A`. The name `x`, which is no member, leads to one variable from the
instance and to another one from `A`. -/
def Instance.Shadows (i : Instance) (s : Store) : Prop :=
  s.className i.class_ = "B" ∧ "x" ∉ (s.frame i.env.frame).keys ∧ (s.get? i.env "x").bind Value.int? = some 2 ∧
    ∃ a ∈ s.lineage i.class_, a.name = "A" ∧ (s.get? a.closure "x").bind Value.int? = some 1 ∧
      ∃ member ∈ a.members, member.isMethod = true

instance (i : Instance) (s : Store) : Decidable (i.Shadows s) := inferInstanceAs (Decidable (_ ∧ _))

theorem Session.exists_shadows : ∃ i ∈ shadowing.store.instances, i.Shadows shadowing.store := by
  have hlist : ∃ i ∈ shadowing.store.instances.toList, i.Shadows shadowing.store := by decide +kernel
  obtain ⟨i, hi, hshadows⟩ := hlist
  exact ⟨i, Array.mem_toList_iff.1 hi, hshadows⟩

/-- The method of the parent is a function in the frame of the instance, and looks out to the frame of the child. -/
theorem members_look_out_from_class_of_instance_shadowed :
    Session.Reached .alone [("<repl>", shadowed)] .shadowing ∧
    ∃ i ∈ Session.shadowing.store.instances, ∃ k, Session.shadowing.store.classes[i.class_]? = some k ∧
      k.name = "B" ∧ ∃ a ∈ Session.shadowing.store.lineage i.class_, a.name = "A" ∧
        ∃ f, .method f ∈ a.members ∧ f.closedIn i.env ∈ Session.shadowing.store.functions ∧
          i.env.LooksOut i.env.frame k.closure := by
  obtain ⟨i, hi, hname, -, -, a, ha, hparent, -, member, hmember, hmethod⟩ := Session.exists_shadows
  obtain ⟨k, hk, hmethods, -, hlooks⟩ :=
    (members_look_out_from_class_of_instance Session.reached_shadowing).1 _ .rest i hi
  rw [Store.className, hk] at hname
  cases member with
  | field d => cases hmethod
  | method f =>
    have hstored := (hmethods a ha f hmember).1
    refine ⟨Session.reached_shadowing, i, hi, k, hk, hname, a, ha, hparent, f, hmember, hstored, ?_⟩
    exact hlooks _ hstored List.mem_cons_self

/-- A method that is inherited does not keep to the frame of its class: it returns the variable of the function
where the child was declared, and from its own class the name leads to the other one. -/
theorem inherited_method_leaves_frame_of_its_class :
    (Session.alone.run "<repl>" shadowed).1.value?.bind Value.int? = some 2 ∧
    ∃ i ∈ Session.shadowing.store.instances, ∃ a ∈ Session.shadowing.store.lineage i.class_,
      ∃ f, .method f ∈ a.members ∧ "x" ∉ (Session.shadowing.store.frame i.env.frame).keys ∧
        (Session.shadowing.store.get? i.env "x").bind Value.int? = some 2 ∧
        (Session.shadowing.store.get? a.closure "x").bind Value.int? = some 1 := by
  obtain ⟨i, hi, -, hnot, hinstance, a, ha, -, hclass, member, hmember, hmethod⟩ := Session.exists_shadows
  refine ⟨Session.shadowed_value, i, hi, a, ha, ?_⟩
  cases member with
  | field d => cases hmethod
  | method f => exact ⟨f, hmember, hnot, hinstance, hclass⟩

end Scriptlet
