import Scriptlet.Proofs.Following
import Scriptlet.Shell.Module

/-! Frames inside frames. A new frame is made in an environment that is there, so the frames of a run form a tree,
and an environment that goes through a frame goes on along the frames around it. The frame of an instance is right
inside the one where its class was declared, and the methods of all its ancestors are functions of that frame. -/
namespace Scriptlet

open Scriptlet.Action

/-- For each frame the frames around it, the nearest first. -/
abbrev FrameTree := List (List Nat)

def Env.Along (env : Env) (tree : FrameTree) : Prop := tree[env.frame]? = some env.outer

def FunctionDecl.closedIn (f : FunctionDecl) (env : Env) : Function :=
  ⟨some f.name.name, f.parameters.map (·.name), .block f.body, env⟩

/-- An instance right inside the frame of its class. The methods that the class and its ancestors declare are
functions of the instance. -/
structure Instance.Placed (i : Instance) (s : Store) (k : Class) : Prop where
  class_ : s.classes[i.class_]? = some k
  outer : i.env.outer = k.closure.chain
  methods : ∀ a ∈ s.lineage i.class_, ∀ f, .method f ∈ a.members → f.closedIn i.env ∈ s.functions

/-- The store has the frames of the tree, and its environments go along it. -/
structure Store.Arranged (s : Store) (tree : FrameTree) : Prop where
  size : tree.length = s.frames.size
  nested : ∀ (r : Nat) (around : List Nat), tree[r]? = some around →
    around = [] ∨ ∃ env : Env, env.Along tree ∧ env.frame < r ∧ around = env.chain
  functions : ∀ f ∈ s.functions, f.closure.Along tree
  classes : ∀ k ∈ s.classes, k.closure.Along tree
  instances : ∀ i ∈ s.instances, i.env.Along tree ∧ ∃ k, i.Placed s k

theorem Env.Along.mono {env : Env} {tree tree' : FrameTree} (h : env.Along tree) (ht : tree <+: tree') :
    env.Along tree' := by
  obtain ⟨more, rfl⟩ := ht
  have hlt : env.frame < tree.length := (List.getElem?_eq_some_iff.1 h).1
  exact (List.getElem?_append_left hlt).trans h

/-- An environment that goes through a frame goes on along the frames around it. -/
theorem Store.Arranged.goes_on {s : Store} {tree : FrameTree} (h : s.Arranged tree) {env inner : Env}
    (hinner : inner.Along tree) (henv : env.Along tree) (hmem : env.frame ∈ inner.chain) :
    ∃ own, inner.chain = own ++ env.chain := by
  obtain ⟨r, around⟩ := inner
  induction r using Nat.strongRecOn generalizing around with
  | ind r ih =>
    rcases List.mem_cons.1 hmem with heq | hmem
    · -- it stands in the frame itself
      have houter : some around = some env.outer := hinner.symm.trans (heq ▸ henv)
      cases houter
      exact ⟨[], by simp [Env.chain, heq]⟩
    · rcases h.nested r around hinner with hnil | ⟨outer, houter, hlt, hchain⟩
      · rw [hnil] at hmem
        cases hmem
      · obtain ⟨own, hown⟩ := ih outer.frame hlt outer.outer houter (hchain ▸ hmem)
        exact ⟨r :: own, by rw [Env.chain, hchain, List.cons_append, ← hown]⟩

structure Store.Extends (s s' : Store) : Prop where
  functions : s.functions.toList <+: s'.functions.toList
  classes : s.classes.toList <+: s'.classes.toList
  frames : s.frames.size ≤ s'.frames.size

namespace Store

variable {s s' s'' : Store} {tree : FrameTree}

theorem Extends.refl (s : Store) : s.Extends s := ⟨List.prefix_refl _, List.prefix_refl _, Nat.le_refl _⟩

theorem Extends.trans (h : s.Extends s') (h' : s'.Extends s'') : s.Extends s'' :=
  ⟨h.functions.trans h'.functions, h.classes.trans h'.classes, Nat.le_trans h.frames h'.frames⟩

theorem Extends.function_mem (h : s.Extends s') {f : Function} (hf : f ∈ s.functions) : f ∈ s'.functions :=
  Array.mem_toList_iff.1 (h.functions.subset (Array.mem_toList_iff.2 hf))

theorem Extends.class_eq (h : s.Extends s') {r : Nat} {k : Class} (hk : s.classes[r]? = some k) :
    s'.classes[r]? = some k := by
  obtain ⟨more, hmore⟩ := h.classes
  rw [← Array.getElem?_toList] at hk ⊢
  rw [← hmore, List.getElem?_append_left (List.getElem?_eq_some_iff.1 hk).1, hk]

/-- The ancestors of a class stay the same. -/
theorem Extends.lineage_eq (h : s.Extends s') {r : Nat} {k : Class} (hk : s.classes[r]? = some k) :
    s'.lineage r = s.lineage r := by
  induction r using Nat.strongRecOn generalizing k with
  | ind r ih =>
    rw [lineage, lineage, hk, h.class_eq hk]
    dsimp only
    split
    · rfl
    · next p hp =>
      split
      · next hlt =>
        have hsize : p < s.classes.size := Nat.lt_trans hlt (Array.getElem?_eq_some_iff.1 hk).1
        rw [ih p hlt (Array.getElem?_eq_getElem hsize)]
      · rfl

/-- Nothing but the contents of frames and containers differs. -/
structure Same (s s' : Store) : Prop where
  frames : s'.frames.size = s.frames.size
  functions : s'.functions = s.functions
  classes : s'.classes = s.classes
  instances : s'.instances = s.instances

theorem Same.refl (s : Store) : s.Same s := ⟨rfl, rfl, rfl, rfl⟩

theorem Same.modify (s : Store) (r : Nat) (f : Frame → Frame) :
    s.Same { s with frames := s.frames.modify r f } := ⟨Array.size_modify, rfl, rfl, rfl⟩

theorem same_assign (s : Store) (env : Env) (name : String) (value : Value) :
    s.Same (s.assign env name value).2 := by
  unfold assign
  split
  · exact .refl s
  · exact .modify s _ _

theorem Same.extends (h : s.Same s') : s.Extends s' :=
  ⟨h.functions ▸ List.prefix_refl _, h.classes ▸ List.prefix_refl _, Nat.le_of_eq h.frames.symm⟩

theorem extends_enclose (s : Store) (env : Env) : s.Extends (s.enclose env).2 :=
  ⟨List.prefix_refl _, List.prefix_refl _, by simp [enclose]⟩

theorem extends_newFunction (s : Store) (f : Function) : s.Extends (s.newFunction f).2 where
  functions := by simp [newFunction]
  classes := List.prefix_refl _
  frames := Nat.le_refl _

theorem extends_newClass (s : Store) (k : Class) : s.Extends (s.newClass k).2 where
  functions := List.prefix_refl _
  classes := by simp [newClass]
  frames := Nat.le_refl _

theorem extends_newInstance (s : Store) (i : Instance) : s.Extends (s.newInstance i).2 :=
  ⟨List.prefix_refl _, List.prefix_refl _, Nat.le_refl _⟩

end Store

theorem Instance.Placed.mono {i : Instance} {s s' : Store} {k : Class} (hi : i.Placed s k) (h : s.Extends s') :
    i.Placed s' k where
  class_ := h.class_eq hi.class_
  outer := hi.outer
  methods a ha f hf := h.function_mem (hi.methods a (h.lineage_eq hi.class_ ▸ ha) f hf)

namespace Store.Arranged

variable {s s' : Store} {tree : FrameTree} {env : Env}

theorem placed_mono (h : s.Arranged tree) (hs : s.Extends s') {tree' : FrameTree} (ht : tree <+: tree') :
    ∀ i ∈ s.instances, i.env.Along tree' ∧ ∃ k, i.Placed s' k := fun i hi =>
  have ⟨halong, k, hk⟩ := h.instances i hi
  ⟨halong.mono ht, k, hk.mono hs⟩

theorem same (h : s.Arranged tree) (hs : s.Same s') : s'.Arranged tree where
  size := h.size.trans hs.frames.symm
  nested := h.nested
  functions := hs.functions ▸ h.functions
  classes := hs.classes ▸ h.classes
  instances := hs.instances ▸ h.placed_mono hs.extends (List.prefix_refl tree)

/-- A new frame stands inside an environment of the tree. -/
theorem enclose (h : s.Arranged tree) (henv : env.Along tree) :
    (s.enclose env).2.Arranged (tree ++ [env.chain]) ∧ (s.enclose env).1.Along (tree ++ [env.chain]) := by
  have ht : tree <+: tree ++ [env.chain] := List.prefix_append _ _
  refine ⟨⟨?_, fun r around hr => ?_, ?_, ?_, h.placed_mono (s.extends_enclose env) ht⟩, ?_⟩
  · simp [Store.enclose, h.size]
  · rcases Nat.lt_trichotomy r tree.length with hlt | rfl | hlt
    · rw [List.getElem?_append_left hlt] at hr
      refine (h.nested r around hr).imp_right ?_
      rintro ⟨outer, houter, hbelow⟩
      exact ⟨outer, houter.mono ht, hbelow⟩
    · rw [List.getElem?_concat_length] at hr
      cases hr
      exact .inr ⟨env, henv.mono ht, (List.getElem?_eq_some_iff.1 henv).1, rfl⟩
    · rw [List.getElem?_eq_none (by simp; omega)] at hr
      cases hr
  · exact fun f hf => (h.functions f hf).mono ht
  · exact fun k hk => (h.classes k hk).mono ht
  · simp [Env.Along, Store.enclose, ← h.size]

theorem newFunction (h : s.Arranged tree) {f : Function} (hf : f.closure.Along tree) :
    (s.newFunction f).2.Arranged tree where
  size := h.size
  nested := h.nested
  functions g hg := (Array.mem_push.1 hg).elim (h.functions g) fun heq => heq ▸ hf
  classes := h.classes
  instances := h.placed_mono (s.extends_newFunction f) (List.prefix_refl tree)

theorem newClass (h : s.Arranged tree) {k : Class} (hk : k.closure.Along tree) :
    (s.newClass k).2.Arranged tree where
  size := h.size
  nested := h.nested
  functions := h.functions
  classes l hl := (Array.mem_push.1 hl).elim (h.classes l) fun heq => heq ▸ hk
  instances := h.placed_mono (s.extends_newClass k) (List.prefix_refl tree)

theorem newInstance (h : s.Arranged tree) {i : Instance} (hi : i.env.Along tree) {k : Class}
    (hk : i.Placed s k) : (s.newInstance i).2.Arranged tree where
  size := h.size
  nested := h.nested
  functions := h.functions
  classes := h.classes
  instances j hj := by
    rcases Array.mem_push.1 hj with hj | rfl
    · exact h.placed_mono (s.extends_newInstance i) (List.prefix_refl tree) j hj
    · exact ⟨hi, k, hk.mono (s.extends_newInstance j)⟩

end Store.Arranged

/-- What an action in an environment does to a store that is arranged. -/
structure Grows (env : Env) (m m' : Machine) : Prop where
  extends_ : m.store.Extends m'.store
  arranged : ∀ tree, env.Along tree → m.store.Arranged tree → ∃ tree', tree <+: tree' ∧ m'.store.Arranged tree'

instance (env : Env) : Storewise (Grows env) where
  refl _ := ⟨.refl _, fun tree _ h => ⟨tree, List.prefix_refl tree, h⟩⟩
  trans h h' := ⟨h.extends_.trans h'.extends_, fun tree henv hm =>
    have ⟨tree', ht, hm'⟩ := h.arranged tree henv hm
    have ⟨tree'', ht', hm''⟩ := h'.arranged tree' (henv.mono ht) hm'
    ⟨tree'', ht.trans ht', hm''⟩⟩
  store h := ⟨h ▸ .refl _, fun tree _ hm => ⟨tree, List.prefix_refl tree, h ▸ hm⟩⟩

namespace Grows

variable {env : Env} {m m' : Machine}

theorem of_same (h : m.store.Same m'.store) : Grows env m m' :=
  ⟨h.extends, fun tree _ hm => ⟨tree, List.prefix_refl tree, hm.same h⟩⟩

/-- What is done in the environment of a stored function or class is done in the tree as well. -/
theorem of_closure {closure : Env} (h : Grows closure m m')
    (hclosure : ∀ tree, m.store.Arranged tree → closure.Along tree) : Grows env m m' :=
  ⟨h.extends_, fun tree _ hm => h.arranged tree (hclosure tree hm) hm⟩

theorem enclose {α : Type} {next : Env → Action α}
    (h : Grows (m.store.enclose env).1 { m with store := (m.store.enclose env).2 }
      ((next (m.store.enclose env).1).after { m with store := (m.store.enclose env).2 })) :
    Grows env m ((Action.enclose env >>= next).after m) := by
  refine ⟨(m.store.extends_enclose env).trans h.extends_, fun tree henv hm => ?_⟩
  obtain ⟨hnew, hinner⟩ := hm.enclose henv
  obtain ⟨tree', ht, hm'⟩ := h.arranged _ hinner hnew
  exact ⟨tree', (List.prefix_append _ _).trans ht, hm'⟩

end Grows

namespace Action

variable {α : Type} {env : Env}

theorem grows_update {f : Store → α × Store} (h : ∀ s : Store, s.Same (f s).2) : Keeps (Grows env) (update f) :=
  Keeps.update fun m => .of_same (h m.store)

theorem grows_define (inner : Env) (name : String) (value : Value) (constant : Bool) :
    Keeps (Grows env) (define inner name value constant) := grows_update fun s => .modify s _ _

theorem grows_enclose {next : Env → Action α} (h : ∀ inner, Keeps (Grows inner) (next inner)) :
    Keeps (Grows env) (enclose env >>= next) := fun _ => .enclose (h _ _)

end Action

structure Evaluator.Tidy (ev : Evaluator) (c : Context) : Prop where
  evaluate : ∀ env e, Keeps (Grows env) (ev.evaluate c env e)
  execute : ∀ env s, Keeps (Grows env) (ev.execute c env s)
  call : ∀ env callee arguments span, Keeps (Grows env) (ev.call c env callee arguments span)

/-- Natives that do nothing to the store but by running programs. -/
def Host.Tidy (h : Host) : Prop :=
  ∀ run : Runner, (∀ natives env path source, Keeps (Grows env) (run natives env path source)) →
    ∀ id arguments env, Keeps (Grows env) (h.respond id run arguments env)

section Rules

variable {env : Env}

theorem Context.grows_assign (c : Context) (inner : Env) (target : Identifier) (value : Value) :
    Keeps (Grows env) (c.assign inner target value) := by
  refine (grows_update fun s => s.same_assign inner target.name value).bind fun refusal => ?_
  split
  · exact .pure value
  · exact .fail _ _
  · split
    · exact (grows_define _ _ _ _).bind fun _ => .pure _
    · exact .fail _ _

theorem grows_newFunction (f : Function) : Keeps (Grows f.closure) (newFunction f) := fun m =>
  ⟨m.store.extends_newFunction f, fun tree hf hm => ⟨tree, List.prefix_refl tree, hm.newFunction hf⟩⟩

theorem grows_declareFunction (f : FunctionDecl) : Keeps (Grows env) (declareFunction env f) :=
  (grows_newFunction (f.closedIn env)).bind fun value => grows_define env f.name.name value false

theorem Context.grows_declareClass (c : Context) (name : Identifier) (parent : Option Identifier)
    (members : List Member) : Keeps (Grows env) (Evaluator.declareClass c env name parent members) := by
  have hmake (r : Option Nat) : Keeps (Grows env) (do
      let value ← update fun s => s.newClass ⟨name.name, r, members, env⟩
      define env name.name value false) := by
    have hnew : Keeps (Grows env) (update fun s => s.newClass ⟨name.name, r, members, env⟩) := fun m =>
      ⟨m.store.extends_newClass _, fun tree henv hm => ⟨tree, List.prefix_refl tree, hm.newClass henv⟩⟩
    exact hnew.bind fun value => grows_define env name.name value false
  cases parent with
  | none => exact hmake none
  | some id =>
    refine (c.keeps_lookup env id).bind fun value => ?_
    split
    · exact hmake _
    · exact (Keeps.fail _ _).bind hmake

theorem grows_bindParameters (inner : Env) (names : List String) (values : List Value) :
    Keeps (Grows env) (Evaluator.bindParameters inner names values) := by
  induction names generalizing values with
  | nil => exact .pure _
  | cons name names ih =>
    cases values with
    | nil => exact .pure _
    | cons value values => exact (grows_define inner name value false).bind fun _ => ih values

theorem grows_apply (f : Builtin) (arguments : List Value) :
    Keeps (Grows env) (do
      let now ← tellTime f
      update (f.apply now arguments)) := by
  refine (keeps_tellTime f).bind fun now => grows_update fun s => ?_
  unfold Builtin.apply
  split <;> exact ⟨rfl, rfl, rfl, rfl⟩

end Rules

theorem Evaluator.declareMembers_append (ev : Evaluator) (c : Context) (env : Env) (xs ys : List Member) :
    ev.declareMembers c env (xs ++ ys) = (do ev.declareMembers c env xs; ev.declareMembers c env ys) := by
  induction xs with
  | nil => simp [declareMembers]
  | cons member xs ih => cases member <;> simp [declareMembers, ih]

/-- The members of all classes of a lineage are declared one after another. -/
theorem Evaluator.declareLineage_eq (ev : Evaluator) (c : Context) (env : Env) (ks : List Class) :
    ev.declareLineage c env ks = ev.declareMembers c env (ks.flatMap (·.members)) := by
  induction ks with
  | nil => rfl
  | cons k ks ih => rw [declareLineage, List.flatMap_cons, ev.declareMembers_append, ih]

namespace Evaluator.Tidy

variable {ev : Evaluator} {c : Context} (h : ev.Tidy c) (env : Env)
include h

theorem evaluateAll (es : List Expr) : Keeps (Grows env) (ev.evaluateAll c env es) := by
  induction es with
  | nil => exact .pure _
  | cons e es ih => exact (h.evaluate env e).bind fun _ => ih.bind fun _ => .pure _

theorem evaluateEntries (entries : Dictionary Value) (es : List (Entry Expr)) :
    Keeps (Grows env) (ev.evaluateEntries c env entries es) := by
  induction es generalizing entries with
  | nil => exact .pure _
  | cons e es ih => exact (h.evaluate env e.value).bind fun _ => ih _

theorem evaluateTexts (es : List Expr) : Keeps (Grows env) (ev.evaluateTexts c env es) := by
  induction es with
  | nil => exact .pure _
  | cons e es ih =>
    exact (h.evaluate env e).bind fun _ => (Keeps.look _).bind fun _ => ih.bind fun _ => .pure _

theorem evaluateCallee (e : Expr) : Keeps (Grows env) (ev.evaluateCallee c env e) := by
  unfold Evaluator.evaluateCallee
  split
  · exact c.keeps_lookupCallee env _ _
  · exact h.evaluate env e

theorem evaluateOption (e : Option Expr) : Keeps (Grows env) (ev.evaluateOption c env e) := by
  cases e with
  | none => exact .pure _
  | some e => exact h.evaluate env e

theorem evaluateStep (e : Expr) : Keeps (Grows env) (ev.evaluateStep c env e) := by
  cases e with
  | identifier id => exact c.keeps_lookup env id
  | literal value span => exact .pure _
  | binary op left right span =>
    cases op with
    | compute op =>
      exact (h.evaluate env left).bind fun _ => (h.evaluate env right).bind fun _ => keeps_compute op _ _ span
    | relate op =>
      exact (h.evaluate env left).bind fun _ => (h.evaluate env right).bind fun _ => keeps_relate op _ _ span
    | logic op =>
      cases op with
      | and =>
        refine (h.evaluate env left).bind fun value => ?_
        split
        · exact h.evaluate env right
        · exact .pure value
      | or =>
        refine (h.evaluate env left).bind fun value => ?_
        split
        · exact .pure value
        · exact h.evaluate env right
  | unary op operand span => exact (h.evaluate env operand).bind fun _ => .ofExcept span _
  | step op target span =>
    refine (c.keeps_lookup env target).bind fun current => ?_
    cases op with
    | increment => exact (keeps_compute _ _ _ span).bind fun value => c.grows_assign env target value
    | decrement => exact (keeps_compute _ _ _ span).bind fun value => c.grows_assign env target value
  | ternary condition resolution alternative span =>
    refine (h.evaluate env condition).bind fun value => ?_
    split
    · exact h.evaluate env resolution
    · exact h.evaluate env alternative
  | assign target op value span =>
    cases op with
    | none => exact (h.evaluate env value).bind fun value => c.grows_assign env target value
    | some op =>
      exact (h.evaluate env value).bind fun _ => (c.keeps_lookup env target).bind fun _ =>
        (keeps_compute op _ _ span).bind fun value => c.grows_assign env target value
  | call callee arguments span =>
    exact (h.evaluateCallee env callee).bind fun callee =>
      (h.evaluateAll env arguments).bind fun arguments => h.call env callee arguments span
  | member object name span => exact (h.evaluate env object).bind fun object => object.keeps_member name span
  | index object key span =>
    exact (h.evaluate env object).bind fun _ => (h.evaluate env key).bind fun _ =>
      (Keeps.look _).bind fun _ => .ofExcept span _
  | list items span => exact (h.evaluateAll env items).bind fun _ => grows_update fun _ => ⟨rfl, rfl, rfl, rfl⟩
  | map entries span =>
    exact (h.evaluateEntries env .empty entries).bind fun _ => grows_update fun _ => ⟨rfl, rfl, rfl, rfl⟩
  | lambda parameters body span => exact grows_newFunction ⟨none, parameters.map (·.name), .expression body, env⟩
  | input prompt span =>
    cases prompt with
    | none => exact keeps_readLine none span
    | some prompt => exact (h.evaluate env prompt).bind fun _ => keeps_readLine _ span
  | nested inner span => exact h.evaluate env inner

theorem executeAll (last : Value) (ss : List Stmt) : Keeps (Grows env) (ev.executeAll c env last ss) := by
  induction ss generalizing last with
  | nil => exact .pure _
  | cons s ss ih => exact (h.execute env s).bind fun value => ih value

theorem executeEnclosed (b : Block) : Keeps (Grows env) (ev.executeEnclosed c env b) :=
  grows_enclose fun inner => h.executeAll inner .undefined b.statements

theorem declareBindings (constant : Bool) (bindings : List Binding) :
    Keeps (Grows env) (ev.declareBindings c env constant bindings) := by
  induction bindings with
  | nil => exact .pure _
  | cons b bs ih =>
    exact (h.evaluateOption env b.value).bind fun value =>
      (grows_define env b.name.name value constant).bind fun _ => ih

theorem declare (d : Declaration) : Keeps (Grows env) (ev.declare c env d) :=
  h.declareBindings env d.kind.isConstant d.bindings

theorem loop (condition update : Option Expr) (body : Stmt) (rounds : Nat) :
    Keeps (Grows env) (ev.loop c env condition update body rounds) := by
  have hholds : Keeps (Grows env) (ev.holds c env condition) := by
    cases condition with
    | none => exact .pure _
    | some e => exact (h.evaluate env e).bind fun _ => .pure _
  have hround : Keeps (Grows env) (ev.executeRound c env body) := by
    refine (h.execute env body).attempt.bind fun result => ?_
    split
    · exact .pure _
    · exact .pure _
    · exact .pure _
    · exact .throw _
  induction rounds with
  | zero => exact .throw _
  | succ rounds ih =>
    refine hholds.bind fun goesOn => ?_
    split
    · refine hround.bind fun again => ?_
      split
      · exact (h.evaluateOption env update).discard.bind fun _ => ih
      · exact .pure _
    · exact .pure _

theorem startLoop (initializer : Option Initializer) : Keeps (Grows env) (ev.startLoop c env initializer) := by
  cases initializer with
  | none => exact .pure _
  | some first =>
    cases first with
    | declare d => exact h.declare env d
    | expression e span => exact (h.evaluate env e).discard

theorem executeCases (subject : Value) (cases : List Case) :
    Keeps (Grows env) (ev.executeCases c env subject cases) := by
  induction cases with
  | nil => exact .pure _
  | cons case cases ih =>
    obtain ⟨value, body, span⟩ := case
    have htaken (taken : Bool) : Keeps (Grows env)
        (if taken then discard (ev.execute c env body) else ev.executeCases c env subject cases) := by
      split
      · exact (h.execute env body).discard
      · exact ih
    cases value with
    | none => exact htaken true
    | some e => exact (h.evaluate env e).bind fun _ => (Keeps.look _).bind htaken

theorem executeHandled (body : Block) (handler : Option Handler) :
    Keeps (Grows env) (ev.executeHandled c env body handler) := by
  refine (h.executeEnclosed env body).attempt.bind fun result => ?_
  split
  · exact .pure _
  · next value _ handler =>
    refine grows_enclose fun inner => ?_
    have hbody := h.executeAll inner .undefined handler.body.statements
    split
    · exact (grows_define inner _ value false).bind fun _ => hbody
    · exact hbody
  · exact .throw _

theorem executeTry (body : Block) (handler : Option Handler) (cleanup : Option Block) :
    Keeps (Grows env) (ev.executeTry c env body handler cleanup) := by
  refine (h.executeHandled env body handler).attempt.bind fun result => ?_
  cases cleanup with
  | none =>
    cases result with
    | ok value => exact .pure _
    | error signal => exact .throw _
  | some cleanup =>
    refine (h.executeEnclosed env cleanup).discard.bind fun _ => ?_
    cases result with
    | ok value => exact .pure _
    | error signal => exact .throw _

theorem executeStep (s : Stmt) : Keeps (Grows env) (ev.executeStep c env s) := by
  cases s with
  | expression e span => exact h.evaluate env e
  | block body => exact h.executeEnclosed env body
  | return_ value span => exact (h.evaluateOption env value).bind fun _ => .throw _
  | break_ span => exact .throw _
  | continue_ span => exact .throw _
  | throw value span => exact (h.evaluate env value).bind fun _ => .throw _
  | declare d => exact (h.declare env d).bind fun _ => .pure _
  | function f => exact (grows_declareFunction f).bind fun _ => .pure _
  | class_ name parent members span => exact (c.grows_declareClass name parent members).bind fun _ => .pure _
  | conditional condition resolution alternative span =>
    refine (h.evaluate env condition).bind fun value => ?_
    split
    · exact (h.execute env resolution).discard.bind fun _ => .pure _
    · cases alternative with
      | none => exact .pure _
      | some alternative => exact (h.execute env alternative).discard.bind fun _ => .pure _
  | whileLoop condition body span =>
    exact (h.loop env (some condition) none body ev.limit).bind fun _ => .pure _
  | forLoop header body span =>
    exact grows_enclose fun inner => (h.startLoop inner header.initializer).bind fun _ =>
      (h.loop inner header.condition header.update body ev.limit).bind fun _ => .pure _
  | switch subject cases span =>
    exact (h.evaluate env subject).bind fun value => (h.executeCases env value cases).bind fun _ => .pure _
  | try_ body handler cleanup span => exact (h.executeTry env body handler cleanup).bind fun _ => .pure _
  | import_ target span =>
    exact (c.keeps_lookupCallee env "import" span).bind fun native =>
      (h.call env native _ span).discard.bind fun _ => .pure _
  | print values span =>
    exact (h.evaluateTexts env values).bind fun _ => (keeps_write _).bind fun _ => .pure _
  | pass span => exact .pure _

theorem runSource (path source : String) : Keeps (Grows env) (ev.runSource c env path source) := by
  have hrun (p : Program) : Keeps (Grows env) (ev.run c env p) := by
    refine (h.executeAll env .undefined p.statements).attempt.bind fun result => ?_
    split
    · exact .pure _
    · exact .pure _
    · exact .pure _
    · exact .pure _
    · exact (Keeps.look _).bind fun _ => .pure _
    · exact .pure _
    · exact .throw _
  unfold Evaluator.runSource
  split
  · exact .pure _
  · refine (keeps_notify _).bind fun _ => (hrun _).bind fun result => ?_
    cases result with
    | ok value => exact .pure _
    | error e => exact .pure _

theorem callFunction (f : Function) (arguments : List Value) (span : Span) :
    Keeps (Grows f.closure) (ev.callFunction c f arguments span) := by
  have hbody (inner : Env) : Keeps (Grows inner) (ev.executeBody c inner f.body) := by
    cases f.body with
    | block body => exact (h.executeAll inner .undefined body.statements).discard.bind fun _ => .pure _
    | expression body => exact h.evaluate inner body
  exact Evaluator.keeps_callFunction grows_enclose (fun inner => grows_bindParameters inner _ _) hbody span

theorem declareMembers (members : List Member) : Keeps (Grows env) (ev.declareMembers c env members) := by
  induction members with
  | nil => exact .pure _
  | cons member members ih =>
    cases member with
    | field d => exact (h.declare env d).bind fun _ => ih
    | method f => exact (grows_declareFunction f).bind fun _ => ih

theorem declareLineage (classes : List Class) : Keeps (Grows env) (ev.declareLineage c env classes) := by
  rw [ev.declareLineage_eq]
  exact h.declareMembers env _

/-- The methods of a list of members are made functions of the frame. -/
theorem declareMembers_methods {members : List Member} {m m' : Machine}
    (hend : ev.declareMembers c env members m = .ok () m') {f : FunctionDecl} (hf : .method f ∈ members) :
    f.closedIn env ∈ m'.store.functions := by
  induction members generalizing m with
  | nil => cases hf
  | cons member members ih =>
    cases member with
    | field d =>
      obtain ⟨-, m₁, -, hrest⟩ := bind_eq_ok hend
      exact ih hrest (by simpa using hf)
    | method g =>
      obtain ⟨_, m₁, hg, hrest⟩ := bind_eq_ok hend
      rcases List.mem_cons.1 hf with heq | hf
      · cases heq
        have hmem : f.closedIn env ∈ m₁.store.functions := by
          cases hg
          exact Array.mem_push_self
        exact ((h.declareMembers env members).of_ok hrest).extends_.function_mem hmem
      · exact ih hrest hf

theorem declareLineage_methods {classes : List Class} {m m' : Machine}
    (hend : ev.declareLineage c env classes m = .ok () m') {a : Class} (ha : a ∈ classes) {f : FunctionDecl}
    (hf : .method f ∈ a.members) : f.closedIn env ∈ m'.store.functions := by
  rw [ev.declareLineage_eq] at hend
  exact h.declareMembers_methods env hend (List.mem_flatMap.2 ⟨a, ha, hf⟩)

/-- A new instance is placed in its frame, once the members of its ancestors are declared there. -/
theorem instantiate {r : Nat} {k : Class} {m : Machine} (hk : m.store.classes[r]? = some k)
    (arguments : List Value) (span : Span) :
    Grows k.closure m ((ev.instantiate c r k arguments span).after m) := by
  refine .enclose (Keeps.after_bind (Keeps.look _ _) fun ks m₁ hlook => ?_)
  cases hlook
  generalize hinner : (m.store.enclose k.closure).1 = inner
  have houter : inner.outer = k.closure.chain := hinner ▸ rfl
  have hk₁ : (m.store.enclose k.closure).2.classes[r]? = some k := hk
  generalize (m.store.enclose k.closure).2 = s at hk₁ ⊢
  refine Keeps.after_bind (h.declareLineage inner (s.lineage r) _) fun _ m₂ hmembers => ?_
  have hextends : s.Extends m₂.store := ((h.declareLineage inner (s.lineage r)).of_ok hmembers).extends_
  -- whatever comes between, the instance is made with the methods in place
  have hnew : ∀ m₃ : Machine, m₂.store.Extends m₃.store →
      Grows inner m₃ ((update fun s => s.newInstance ⟨r, inner⟩).after m₃) := by
    intro m₃ hextends'
    have hplaced : (⟨r, inner⟩ : Instance).Placed m₃.store k := by
      have hall := hextends.trans hextends'
      refine ⟨hall.class_eq hk₁, houter, fun a ha f hf => ?_⟩
      rw [hall.lineage_eq hk₁] at ha
      exact hextends'.function_mem (h.declareLineage_methods inner hmembers ha hf)
    exact ⟨m₃.store.extends_newInstance _, fun tree hinner hm =>
      ⟨tree, List.prefix_refl tree, hm.newInstance hinner hplaced⟩⟩
  refine Keeps.after_bind (Keeps.look _ _) fun init m₃ hlook => ?_
  cases hlook
  split
  · next init _ =>
    have hcall := (h.call inner init arguments span).discard
    exact Keeps.after_bind (hcall m₂) fun _ m₃ hok => hnew m₃ (hcall.of_ok hok).extends_
  · split
    · exact Keeps.after_bind (Keeps.fail _ _ _) fun _ _ hok => by cases hok
    · exact hnew m₂ (.refl _)

end Evaluator.Tidy

section

variable {ev : Evaluator} {c : Context} (hev : ∀ natives, ev.Tidy { c with natives }) (hhost : c.host.Tidy)
include hev hhost

theorem grows_callNative (env : Env) (f : Native) (arguments : List Value) :
    Keeps (Grows env) (ev.callNative c env f arguments) := by
  cases f with
  | builtin f => exact grows_apply f arguments
  | host id name arity => exact hhost _ (fun natives env => (hev natives).runSource env) id arguments env

theorem grows_callStep (env : Env) (callee : Value) (arguments : List Value) (span : Span) :
    Keeps (Grows env) (ev.callStep c env callee arguments span) := by
  intro m
  unfold Evaluator.callStep
  split
  · next r =>
    refine Keeps.after_bind (Keeps.look _ _) fun found m' hlook => ?_
    cases hlook
    split
    · next f hf =>
      have hcall := (hev c.natives).callFunction f arguments span m
      exact hcall.of_closure fun tree hm => hm.functions f (Array.mem_of_getElem? hf)
    · exact Keeps.fail _ _ _
  · next r =>
    refine Keeps.after_bind (Keeps.look _ _) fun found m' hlook => ?_
    cases hlook
    split
    · next k hk =>
      have hmake := (hev c.natives).instantiate hk arguments span
      exact hmake.of_closure fun tree hm => hm.classes k (Array.mem_of_getElem? hk)
    · exact Keeps.fail _ _ _
  · next f =>
    have hrun (answer : Except String Value → Action Value) (hok : ∀ value, answer (.ok value) = pure value)
        (herror : ∀ message, answer (.error message) = fail (.native f.name message) span) :
        Keeps (Grows env) (ev.callNative c env f arguments >>= answer) := by
      refine (grows_callNative hev hhost env f arguments).bind fun result => ?_
      cases result with
      | ok value =>
        rw [hok]
        exact .pure _
      | error message =>
        rw [herror]
        exact .fail _ _
    revert m
    split
    · split
      · exact (Keeps.fail _ _).bind fun _ => hrun _ (fun _ => rfl) fun _ => rfl
      · exact hrun _ (fun _ => rfl) fun _ => rfl
    · exact hrun _ (fun _ => rfl) fun _ => rfl
  · exact Keeps.fail _ _ _

end

theorem overseen_tidy (stop : Machine → Bool) (alarm : Signal) {c : Context} (hhost : c.host.Tidy) (n : Nat) :
    (overseen stop alarm n).Tidy c := by
  induction n generalizing c with
  | zero => exact ⟨fun _ _ => .throw _, fun _ _ => .throw _, fun _ _ _ _ => .throw _⟩
  | succ n ih =>
    have hn := ih hhost
    refine ⟨fun env e => ?_, fun env s => ?_, fun env callee arguments span => ?_⟩
    · exact (hn.evaluateStep env e).heeding stop alarm
    · exact (hn.executeStep env s).heeding stop alarm
    · exact (grows_callStep (fun natives => @ih { c with natives } hhost) hhost env callee arguments
        span).heeding stop alarm

theorem Module.host_tidy (files : Files) : (Module.host files).Tidy := by
  intro run hrun id arguments env
  refine (Keeps.look _).bind fun target => Keeps.get.bind fun m => ?_
  dsimp only
  split
  · exact .pure _
  · split
    · exact .pure _
    · split
      · exact .pure _
      · refine (keeps_importing _).bind fun _ => (hrun _ _ _ _).bind fun result => ?_
        refine (keeps_importing (·.importing.dropLast)).bind fun _ => ?_
        cases result with
        | ok value => exact .pure _
        | error f => exact (keeps_notify _).bind fun _ => .pure _

end Scriptlet
