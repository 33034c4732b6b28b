import Scriptlet.Proofs.Keeping

/-! Scope frames change only where a program says so. Evaluating an expression adds no name to a frame
that was there before, and changes no constant; executing a statement declares names in its own frame
only, and only those that it declares outside every scope nested in it. -/
namespace Scriptlet

open Scriptlet.Action

/-- The frame keeps its names in their order, and may get some of the `allowed` ones at the end. A name
that is not allowed stays unbound or bound, constant or not, and if constant to the same value. -/
structure Frame.GrowsTo (f : Frame) (allowed : String → Prop) (f' : Frame) : Prop where
  names : ∃ added, f'.keys = f.keys ++ added ∧ ∀ name ∈ added, allowed name
  flags : ∀ name, ¬ allowed name →
    (f'.get? name).map (·.constant) = (f.get? name).map (·.constant)
  constants : ∀ name value, ¬ allowed name → f.get? name = some ⟨value, true⟩ →
    f'.get? name = some ⟨value, true⟩

namespace Frame.GrowsTo

variable {allowed wider : String → Prop} {f f' f'' : Frame}

theorem refl (f : Frame) : f.GrowsTo allowed f where
  names := ⟨[], by simp⟩
  flags _ _ := rfl
  constants _ _ _ h := h

theorem trans (h : f.GrowsTo allowed f') (h' : f'.GrowsTo allowed f'') : f.GrowsTo allowed f'' where
  names := by
    obtain ⟨added, he, ha⟩ := h.names
    obtain ⟨more, he', ha'⟩ := h'.names
    refine ⟨added ++ more, by rw [he', he, List.append_assoc], ?_⟩
    intro name hm
    rcases List.mem_append.mp hm with hm | hm
    · exact ha name hm
    · exact ha' name hm
  flags name hn := (h'.flags name hn).trans (h.flags name hn)
  constants name value hn hv := h'.constants name value hn (h.constants name value hn hv)

theorem mono (hw : ∀ name, allowed name → wider name) (h : f.GrowsTo allowed f') :
    f.GrowsTo wider f' where
  names := by
    obtain ⟨added, he, ha⟩ := h.names
    exact ⟨added, he, fun name hm => hw name (ha name hm)⟩
  flags name hn := h.flags name fun ha => hn (hw name ha)
  constants name value hn hv := h.constants name value (fun ha => hn (hw name ha)) hv

/-- A declaration of an allowed name, new or not. -/
theorem insert {name : String} (hn : allowed name) (slot : Slot) :
    f.GrowsTo allowed (f.insert name slot) where
  names := by
    rw [Dictionary.keys_insert]
    split
    · exact ⟨[], by simp⟩
    · exact ⟨[name], rfl, by simpa using hn⟩
  flags other ho := by
    have hne : other ≠ name := fun he => ho (he ▸ hn)
    rw [Dictionary.get?_insert_other f hne]
  constants other value ho hv := by
    have hne : other ≠ name := fun he => ho (he ▸ hn)
    rw [Dictionary.get?_insert_other f hne, hv]

/-- A new value for a name that is bound and not constant. -/
theorem overwrite {name : String} {slot : Slot} (hs : f.get? name = some slot)
    (hc : slot.constant = false) (value : Value) :
    f.GrowsTo allowed (f.insert name ⟨value, false⟩) where
  names := by
    have hm : name ∈ f.keys := by
      obtain ⟨e, he, hk⟩ := List.lookup_isSome_iff.mp (Option.isSome_of_eq_some hs)
      have hk : name = e.1 := by simpa using hk
      exact List.mem_map.mpr ⟨e, he, hk.symm⟩
    rw [Dictionary.keys_insert, if_pos hm]
    exact ⟨[], by simp⟩
  flags other _ := by
    by_cases he : other = name
    · subst he
      simp [hs, hc]
    · rw [Dictionary.get?_insert_other f he]
  constants other old _ hv := by
    by_cases he : other = name
    · subst he
      rw [hs] at hv
      cases hv
      cases hc
    · rw [Dictionary.get?_insert_other f he, hv]

end Frame.GrowsTo

/-- Every frame that is there stays, and grows by the names allowed in it. -/
structure Store.GrowsTo (s : Store) (allowed : Nat → String → Prop) (s' : Store) : Prop where
  size : s.frames.size ≤ s'.frames.size
  frames : ∀ r < s.frames.size, (s.frame r).GrowsTo (allowed r) (s'.frame r)

def nowhere (_ : Nat) (_ : String) : Prop := False

def within (env : Env) (names : List String) (r : Nat) (name : String) : Prop :=
  r = env.frame ∧ name ∈ names

def inside (env : Env) (r : Nat) (_ : String) : Prop := r = env.frame

namespace Store.GrowsTo

variable {allowed wider : Nat → String → Prop} {s s' s'' : Store}

theorem refl (s : Store) : s.GrowsTo allowed s := ⟨Nat.le_refl _, fun r _ => .refl (s.frame r)⟩

theorem trans (h : s.GrowsTo allowed s') (h' : s'.GrowsTo allowed s'') : s.GrowsTo allowed s'' where
  size := Nat.le_trans h.size h'.size
  frames r hr := (h.frames r hr).trans (h'.frames r (Nat.lt_of_lt_of_le hr h.size))

theorem mono (hw : ∀ r name, allowed r name → wider r name) (h : s.GrowsTo allowed s') :
    s.GrowsTo wider s' := ⟨h.size, fun r hr => (h.frames r hr).mono (hw r)⟩

theorem of_frames_eq (h : s'.frames = s.frames) : s.GrowsTo allowed s' := by
  have he : ∀ r, s'.frame r = s.frame r := fun r => by rw [frame, frame, h]
  refine ⟨Nat.le_of_eq (by rw [h]), fun r _ => ?_⟩
  rw [he r]
  exact .refl _

/-- What happens in a frame that was not there before is not seen in those that were. -/
theorem of_fresh {env : Env} (h : s.GrowsTo nowhere s') (hf : s.frames.size ≤ env.frame)
    (h' : s'.GrowsTo (inside env) s'') : s.GrowsTo nowhere s'' where
  size := Nat.le_trans h.size h'.size
  frames r hr := by
    have hin := h'.frames r (Nat.lt_of_lt_of_le hr h.size)
    have hne : ∀ name, inside env r name → nowhere r name := by
      intro name he
      have : r = env.frame := he
      omega
    exact (h.frames r hr).trans (hin.mono hne)

end Store.GrowsTo

namespace Store

variable {allowed : Nat → String → Prop}

theorem frame_modify (s : Store) (r i : Nat) (f : Frame → Frame) (hi : i < s.frames.size) :
    ({ s with frames := s.frames.modify r f } : Store).frame i =
      if i = r then f (s.frame i) else s.frame i := by
  simp only [frame, Array.getD_eq_getD_getElem?, Array.getElem?_modify,
    Array.getElem?_eq_getElem hi]
  by_cases he : i = r
  · simp [he]
  · have hne : ¬ r = i := fun h => he h.symm
    simp [he, hne]

theorem growsTo_modify (s : Store) (r : Nat) (f : Frame → Frame)
    (h : r < s.frames.size → (s.frame r).GrowsTo (allowed r) (f (s.frame r))) :
    s.GrowsTo allowed { s with frames := s.frames.modify r f } where
  size := by simp
  frames i hi := by
    rw [frame_modify s r i f hi]
    split
    · next he =>
      subst he
      exact h hi
    · exact .refl _

theorem growsTo_define (s : Store) (env : Env) (name : String) (value : Value) (constant : Bool)
    (h : allowed env.frame name) : s.GrowsTo allowed (s.define env name value constant) :=
  s.growsTo_modify env.frame _ fun _ => .insert h ⟨value, constant⟩

theorem frame_enclose (s : Store) (env : Env) (r : Nat) : (s.enclose env).2.frame r = s.frame r := by
  simp only [enclose, frame, Array.getD_eq_getD_getElem?, Array.getElem?_push]
  split
  · next hr =>
    subst hr
    simp
  · rfl

theorem growsTo_enclose (s : Store) (env : Env) : s.GrowsTo allowed (s.enclose env).2 where
  size := by simp [enclose]
  frames r _ := by
    rw [s.frame_enclose]
    exact .refl _

/-- The frame that binds a name holds the nearest binding of it. -/
theorem binder?_of_slot? (s : Store) (env : Env) (name : String) {slot : Slot}
    (h : s.slot? env name = some slot) :
    ∃ r, s.binder? env name = some r ∧ (s.frame r).get? name = some slot := by
  unfold slot? at h
  unfold binder?
  generalize env.chain = chain at h ⊢
  induction chain with
  | nil => simp at h
  | cons r rs ih =>
    rw [List.findSome?_cons] at h
    cases hr : (s.frame r).get? name with
    | none =>
      rw [hr] at h
      obtain ⟨i, hi, hs⟩ := ih h
      have hn : (s.frame r).contains name = false := by simp [Dictionary.contains, hr]
      exact ⟨i, by rw [List.find?_cons, hn, hi], hs⟩
    | some found =>
      rw [hr] at h
      have hy : (s.frame r).contains name = true := by simp [Dictionary.contains, hr]
      exact ⟨r, by rw [List.find?_cons, hy], hr.trans h⟩

/-- An assignment, refused or not, declares nothing and changes no constant. -/
theorem growsTo_assign (s : Store) (env : Env) (name : String) (value : Value) :
    s.GrowsTo allowed (s.assign env name value).2 := by
  unfold assign refusal?
  cases hs : s.slot? env name with
  | none => exact .refl s
  | some slot =>
    obtain ⟨r, hr, hg⟩ := s.binder?_of_slot? env name hs
    cases hc : slot.constant with
    | true => simpa [hc] using .refl s
    | false =>
      simp only [hc, Bool.false_eq_true, if_false, hr, Option.getD_some]
      exact s.growsTo_modify r _ fun _ => .overwrite hg hc value

end Store

def Growing (allowed : Nat → String → Prop) (m m' : Machine) : Prop := m.store.GrowsTo allowed m'.store

instance (allowed : Nat → String → Prop) : Storewise (Growing allowed) where
  refl m := .refl m.store
  trans h h' := Store.GrowsTo.trans h h'
  store h := .of_frames_eq (congrArg Store.frames h)

namespace Action

variable {α : Type} {allowed : Nat → String → Prop}

theorem keeps_of_nowhere {action : Action α} (h : Keeps (Growing nowhere) action) :
    Keeps (Growing allowed) action := h.mono fun _ _ hg => hg.mono fun _ _ hn => hn.elim

/-- An update of anything but the frames. -/
theorem keeps_update {f : Store → α × Store} (h : ∀ s, (f s).2.frames = s.frames) :
    Keeps (Growing allowed) (update f) := Keeps.update fun m => .of_frames_eq (h m.store)

theorem keeps_define (env : Env) (name : String) (value : Value) (constant : Bool)
    (h : allowed env.frame name) : Keeps (Growing allowed) (define env name value constant) :=
  Keeps.update fun m => m.store.growsTo_define env name value constant h

/-- An action in a new frame is seen in no other frame, whatever it declares there. -/
theorem keeps_enclose {next : Env → Action α} (env : Env)
    (h : ∀ inner, Keeps (Growing (inside inner)) (next inner)) :
    Keeps (Growing nowhere) (enclose env >>= next) := by
  intro m
  have hn := h (m.store.enclose env).1 { m with store := (m.store.enclose env).2 }
  have hf : m.store.frames.size ≤ (m.store.enclose env).1.frame := Nat.le_refl _
  exact Store.GrowsTo.of_fresh (m.store.growsTo_enclose env) hf hn

end Action

/-! The names that a statement declares in the frame it is executed in: those of declarations,
functions and classes outside every block, `for` loop, `try`, function body and class body. -/

mutual

def Stmt.declared : Stmt → List String
  | .declare d => d.bindings.map (·.name.name)
  | .function f => [f.name.name]
  | .class_ name _ _ _ => [name.name]
  | .conditional _ resolution none _ => resolution.declared
  | .conditional _ resolution (some alternative) _ => resolution.declared ++ alternative.declared
  | .whileLoop _ body _ => body.declared
  | .switch _ cases _ => declaredInCases cases
  | _ => []

def declaredInCases : List Case → List String
  | [] => []
  | .mk _ body _ :: cases => body.declared ++ declaredInCases cases

end

/-- A context in which assigning declares nothing, and no host answers. -/
structure Context.Plain (c : Context) : Prop where
  explicit : c.options.implicitDeclarations = false
  alone : c.host = .plain

structure Evaluator.Disciplined (ev : Evaluator) (c : Context) : Prop where
  evaluate : ∀ env e, Keeps (Growing nowhere) (ev.evaluate c env e)
  execute : ∀ env s, Keeps (Growing (within env s.declared)) (ev.execute c env s)
  call : ∀ env callee arguments span, Keeps (Growing nowhere) (ev.call c env callee arguments span)

section Rules

variable {allowed : Nat → String → Prop}

theorem Context.Plain.keeps_assign {c : Context} (hc : c.Plain) (env : Env) (target : Identifier)
    (value : Value) : Keeps (Growing allowed) (c.assign env target value) := by
  have hu : Keeps (Growing allowed) (update fun s => s.assign env target.name value) :=
    Keeps.update fun m => m.store.growsTo_assign env target.name value
  refine hu.bind fun refusal => ?_
  split
  · exact .pure value
  · exact .fail _ _
  · rw [hc.explicit]
    exact .fail _ _

theorem keeps_newFunction (f : Function) : Keeps (Growing allowed) (newFunction f) :=
  keeps_update fun _ => rfl

theorem keeps_declareFunction (env : Env) (f : FunctionDecl) (h : allowed env.frame f.name.name) :
    Keeps (Growing allowed) (declareFunction env f) :=
  (keeps_newFunction _).bind fun value =>
    keeps_define env f.name.name value false h

theorem Context.keeps_declareClass (c : Context) (env : Env) (name : Identifier) (parent : Option Identifier)
    (members : List Member) :
    Keeps (Growing (within env [name.name])) (Evaluator.declareClass c env name parent members) := by
  have hmake : ∀ r : Option Nat, Keeps (Growing (within env [name.name])) (do
      let value ← update fun s => s.newClass ⟨name.name, r, members, env⟩
      define env name.name value false) := fun r =>
    (keeps_update fun _ => rfl).bind fun value =>
      keeps_define env name.name value false ⟨rfl, by simp⟩
  cases parent with
  | none => exact hmake none
  | some id =>
    refine (c.keeps_lookup env id).bind fun value => ?_
    split
    · exact hmake _
    · exact (Keeps.fail _ _).bind hmake

theorem keeps_bindParameters (env : Env) (names : List String) (values : List Value) :
    Keeps (Growing (inside env)) (Evaluator.bindParameters env names values) := by
  induction names generalizing values with
  | nil => exact .pure _
  | cons name names ih =>
    cases values with
    | nil => exact .pure _
    | cons value values => exact (keeps_define env name value false rfl).bind fun _ => ih values

theorem Context.Plain.keeps_callNative {c : Context} (hc : c.Plain) (ev : Evaluator) (env : Env)
    (f : Native) (arguments : List Value) :
    Keeps (Growing nowhere) (ev.callNative c env f arguments) := by
  cases f with
  | builtin f =>
    refine (keeps_tellTime f).bind fun now => keeps_update fun s => ?_
    unfold Builtin.apply
    split <;> rfl
  | host id name arity =>
    unfold Evaluator.callNative
    rw [hc.alone]
    exact .pure _

end Rules

namespace Evaluator.Disciplined

variable {ev : Evaluator} {c : Context} (h : ev.Disciplined c)
include h

theorem evaluateAll (env : Env) (es : List Expr) :
    Keeps (Growing nowhere) (ev.evaluateAll c env es) := by
  induction es with
  | nil => exact .pure _
  | cons e es ih => exact (h.evaluate env e).bind fun _ => ih.bind fun _ => .pure _

theorem evaluateEntries (env : Env) (entries : Dictionary Value) (es : List (Entry Expr)) :
    Keeps (Growing nowhere) (ev.evaluateEntries c env entries es) := by
  induction es generalizing entries with
  | nil => exact .pure _
  | cons e es ih => exact (h.evaluate env e.value).bind fun _ => ih _

theorem evaluateTexts (env : Env) (es : List Expr) :
    Keeps (Growing nowhere) (ev.evaluateTexts c env es) := by
  induction es with
  | nil => exact .pure _
  | cons e es ih =>
    exact (h.evaluate env e).bind fun _ => (Keeps.look _).bind fun _ => ih.bind fun _ => .pure _

theorem evaluateCallee (env : Env) (e : Expr) :
    Keeps (Growing nowhere) (ev.evaluateCallee c env e) := by
  unfold Evaluator.evaluateCallee
  split
  · exact c.keeps_lookupCallee env _ _
  · exact h.evaluate env e

theorem evaluateOption (env : Env) (e : Option Expr) :
    Keeps (Growing nowhere) (ev.evaluateOption c env e) := by
  cases e with
  | none => exact .pure _
  | some e => exact h.evaluate env e

theorem evaluateStep (hc : c.Plain) (env : Env) (e : Expr) :
    Keeps (Growing nowhere) (ev.evaluateStep c env e) := by
  cases e with
  | identifier id => exact c.keeps_lookup env id
  | literal value span => exact .pure _
  | binary op left right span =>
    cases op with
    | compute op =>
      exact (h.evaluate env left).bind fun _ => (h.evaluate env right).bind fun _ =>
        keeps_compute op _ _ span
    | relate op =>
      exact (h.evaluate env left).bind fun _ => (h.evaluate env right).bind fun _ =>
        keeps_relate op _ _ span
    | logic op =>
      cases op with
      | and =>
        refine (h.evaluate env left).bind fun value => ?_
        split
        · exact h.evaluate env right
        · exact .pure value
      | or =>
        refine (h.evaluate env left).bind fun value => ?_
        split
        · exact .pure value
        · exact h.evaluate env right
  | unary op operand span => exact (h.evaluate env operand).bind fun _ => .ofExcept span _
  | step op target span =>
    refine (c.keeps_lookup env target).bind fun current => ?_
    cases op with
    | increment => exact (keeps_compute _ _ _ span).bind fun value => hc.keeps_assign env target value
    | decrement => exact (keeps_compute _ _ _ span).bind fun value => hc.keeps_assign env target value
  | ternary condition resolution alternative span =>
    refine (h.evaluate env condition).bind fun value => ?_
    split
    · exact h.evaluate env resolution
    · exact h.evaluate env alternative
  | assign target op value span =>
    cases op with
    | none => exact (h.evaluate env value).bind fun value => hc.keeps_assign env target value
    | some op =>
      exact (h.evaluate env value).bind fun _ => (c.keeps_lookup env target).bind fun _ =>
        (keeps_compute op _ _ span).bind fun value => hc.keeps_assign env target value
  | call callee arguments span =>
    exact (h.evaluateCallee env callee).bind fun callee =>
      (h.evaluateAll env arguments).bind fun arguments => h.call env callee arguments span
  | member object name span =>
    exact (h.evaluate env object).bind fun object => object.keeps_member name span
  | index object key span =>
    exact (h.evaluate env object).bind fun _ => (h.evaluate env key).bind fun _ =>
      (Keeps.look _).bind fun _ => .ofExcept span _
  | list items span => exact (h.evaluateAll env items).bind fun _ => keeps_update fun _ => rfl
  | map entries span =>
    exact (h.evaluateEntries env .empty entries).bind fun _ => keeps_update fun _ => rfl
  | lambda parameters body span => exact keeps_newFunction _
  | input prompt span =>
    cases prompt with
    | none => exact keeps_readLine none span
    | some prompt => exact (h.evaluate env prompt).bind fun _ => keeps_readLine _ span
  | nested inner span => exact h.evaluate env inner

/-- A statement among others in a frame that may get any name. -/
theorem execute_inside (env : Env) (s : Stmt) : Keeps (Growing (inside env)) (ev.execute c env s) :=
  (h.execute env s).mono fun _ _ hg => hg.mono fun _ _ hw => hw.1

theorem executeAll (env : Env) (last : Value) (ss : List Stmt) :
    Keeps (Growing (inside env)) (ev.executeAll c env last ss) := by
  induction ss generalizing last with
  | nil => exact .pure _
  | cons s ss ih => exact (h.execute_inside env s).bind fun value => ih value

theorem executeEnclosed (env : Env) (b : Block) :
    Keeps (Growing nowhere) (ev.executeEnclosed c env b) :=
  keeps_enclose env fun inner => h.executeAll inner .undefined b.statements

theorem declareBindings {allowed : Nat → String → Prop} (env : Env) (constant : Bool)
    (bindings : List Binding) (ha : ∀ b ∈ bindings, allowed env.frame b.name.name) :
    Keeps (Growing allowed) (ev.declareBindings c env constant bindings) := by
  induction bindings with
  | nil => exact .pure _
  | cons b bs ih =>
    refine (keeps_of_nowhere (h.evaluateOption env b.value)).bind fun value => ?_
    refine (keeps_define env b.name.name value constant (ha b (by simp))).bind fun _ => ?_
    exact ih fun b' hb => ha b' (by simp [hb])

theorem declare {allowed : Nat → String → Prop} (env : Env) (d : Declaration)
    (ha : ∀ b ∈ d.bindings, allowed env.frame b.name.name) :
    Keeps (Growing allowed) (ev.declare c env d) :=
  h.declareBindings env d.kind.isConstant d.bindings ha

theorem holds (env : Env) (condition : Option Expr) :
    Keeps (Growing nowhere) (ev.holds c env condition) := by
  cases condition with
  | none => exact .pure _
  | some e => exact (h.evaluate env e).bind fun _ => .pure _

theorem executeRound (env : Env) (body : Stmt) :
    Keeps (Growing (within env body.declared)) (ev.executeRound c env body) := by
  refine (h.execute env body).attempt.bind fun result => ?_
  split
  · exact .pure _
  · exact .pure _
  · exact .pure _
  · exact .throw _

/-- The rounds of a loop declare what its body declares. -/
theorem loop (env : Env) (condition update : Option Expr) (body : Stmt) (rounds : Nat) :
    Keeps (Growing (within env body.declared)) (ev.loop c env condition update body rounds) := by
  induction rounds with
  | zero => exact .throw _
  | succ rounds ih =>
    refine (keeps_of_nowhere (h.holds env condition)).bind fun goesOn => ?_
    split
    · refine (h.executeRound env body).bind fun again => ?_
      split
      · exact (keeps_of_nowhere (h.evaluateOption env update)).discard.bind fun _ => ih
      · exact .pure _
    · exact .pure _

theorem startLoop (env : Env) (initializer : Option Initializer) :
    Keeps (Growing (inside env)) (ev.startLoop c env initializer) := by
  cases initializer with
  | none => exact .pure _
  | some first =>
    cases first with
    | declare d => exact h.declare env d fun _ _ => rfl
    | expression e span => exact (keeps_of_nowhere (h.evaluate env e)).discard

theorem executeCases (env : Env) (subject : Value) (cases : List Case) :
    Keeps (Growing (within env (declaredInCases cases))) (ev.executeCases c env subject cases) := by
  induction cases with
  | nil => exact .pure _
  | cons case cases ih =>
    obtain ⟨value, body, span⟩ := case
    have hhere : Keeps (Growing (within env (declaredInCases (.mk value body span :: cases))))
        (ev.execute c env body) := by
      refine (h.execute env body).mono fun _ _ hg => hg.mono fun r name hw => ?_
      exact ⟨hw.1, by simp [declaredInCases, hw.2]⟩
    have hlater : Keeps (Growing (within env (declaredInCases (.mk value body span :: cases))))
        (ev.executeCases c env subject cases) := by
      refine ih.mono fun _ _ hg => hg.mono fun r name hw => ?_
      exact ⟨hw.1, by simp [declaredInCases, hw.2]⟩
    have htaken : ∀ taken : Bool, Keeps (Growing (within env (declaredInCases
        (.mk value body span :: cases)))) (if taken then discard (ev.execute c env body)
          else ev.executeCases c env subject cases) := by
      intro taken
      split
      · exact hhere.discard
      · exact hlater
    cases value with
    | none => exact htaken true
    | some e =>
      exact (keeps_of_nowhere (h.evaluate env e)).bind fun _ => (Keeps.look _).bind htaken

theorem executeHandled (env : Env) (body : Block) (handler : Option Handler) :
    Keeps (Growing nowhere) (ev.executeHandled c env body handler) := by
  refine (h.executeEnclosed env body).attempt.bind fun result => ?_
  split
  · exact .pure _
  · next value _ handler =>
    refine keeps_enclose env fun inner => ?_
    have hbody := h.executeAll inner .undefined handler.body.statements
    split
    · exact (keeps_define inner _ value false rfl).bind fun _ => hbody
    · exact hbody
  · exact .throw _

theorem executeTry (env : Env) (body : Block) (handler : Option Handler) (cleanup : Option Block) :
    Keeps (Growing nowhere) (ev.executeTry c env body handler cleanup) := by
  refine (h.executeHandled env body handler).attempt.bind fun result => ?_
  cases cleanup with
  | none =>
    cases result with
    | ok value => exact .pure _
    | error signal => exact .throw _
  | some cleanup =>
    refine (h.executeEnclosed env cleanup).discard.bind fun _ => ?_
    cases result with
    | ok value => exact .pure _
    | error signal => exact .throw _

theorem executeStep (env : Env) (s : Stmt) :
    Keeps (Growing (within env s.declared)) (ev.executeStep c env s) := by
  cases s with
  | expression e span => exact keeps_of_nowhere (h.evaluate env e)
  | block body => exact keeps_of_nowhere (h.executeEnclosed env body)
  | return_ value span =>
    exact (keeps_of_nowhere (h.evaluateOption env value)).bind fun _ => .throw _
  | break_ span => exact .throw _
  | continue_ span => exact .throw _
  | throw value span => exact (keeps_of_nowhere (h.evaluate env value)).bind fun _ => .throw _
  | declare d =>
    refine (h.declare env d fun b hb => ?_).bind fun _ => .pure _
    exact ⟨rfl, by simpa [Stmt.declared] using ⟨b, hb, rfl⟩⟩
  | function f =>
    exact (keeps_declareFunction env f ⟨rfl, by simp [Stmt.declared]⟩).bind fun _ => .pure _
  | class_ name parent members span =>
    exact (c.keeps_declareClass env name parent members).bind fun _ => .pure _
  | conditional condition resolution alternative span =>
    refine (keeps_of_nowhere (h.evaluate env condition)).bind fun value => ?_
    cases alternative with
    | none =>
      split
      · exact (h.execute env resolution).discard.bind fun _ => .pure _
      · exact .pure _
    | some alternative =>
      split
      · refine Keeps.bind (.discard ?_) fun _ => .pure _
        refine (h.execute env resolution).mono fun _ _ hg => hg.mono fun r name hw => ?_
        exact ⟨hw.1, by simp [Stmt.declared, hw.2]⟩
      · refine Keeps.bind (.discard ?_) fun _ => .pure _
        refine (h.execute env alternative).mono fun _ _ hg => hg.mono fun r name hw => ?_
        exact ⟨hw.1, by simp [Stmt.declared, hw.2]⟩
  | whileLoop condition body span =>
    exact (h.loop env (some condition) none body ev.limit).bind fun _ => .pure _
  | forLoop header body span =>
    refine keeps_of_nowhere (keeps_enclose env fun inner => ?_)
    refine (h.startLoop inner header.initializer).bind fun _ => ?_
    refine Keeps.bind ?_ fun _ => .pure _
    exact (h.loop inner header.condition header.update body ev.limit).mono fun _ _ hg =>
      hg.mono fun _ _ hw => hw.1
  | switch subject cases span =>
    exact (keeps_of_nowhere (h.evaluate env subject)).bind fun value =>
      (h.executeCases env value cases).bind fun _ => .pure _
  | try_ body handler cleanup span =>
    exact (keeps_of_nowhere (h.executeTry env body handler cleanup)).bind fun _ => .pure _
  | import_ target span =>
    exact (c.keeps_lookupCallee env "import" span).bind fun native =>
      (keeps_of_nowhere (h.call env native _ span)).discard.bind fun _ => .pure _
  | print values span =>
    exact (keeps_of_nowhere (h.evaluateTexts env values)).bind fun _ =>
      (keeps_write _).bind fun _ => .pure _
  | pass span => exact .pure _

theorem executeBody (env : Env) (body : FunctionBody) :
    Keeps (Growing (inside env)) (ev.executeBody c env body) := by
  cases body with
  | block body => exact (h.executeAll env .undefined body.statements).discard.bind fun _ => .pure _
  | expression body => exact keeps_of_nowhere (h.evaluate env body)

theorem callFunction (f : Function) (arguments : List Value) (span : Span) :
    Keeps (Growing nowhere) (ev.callFunction c f arguments span) :=
  Evaluator.keeps_callFunction (keeps_enclose f.closure) (fun env => keeps_bindParameters env _ _)
    (fun env => h.executeBody env f.body) span

theorem declareMembers (env : Env) (members : List Member) :
    Keeps (Growing (inside env)) (ev.declareMembers c env members) := by
  induction members with
  | nil => exact .pure _
  | cons member members ih =>
    cases member with
    | field d => exact (h.declare env d fun _ _ => rfl).bind fun _ => ih
    | method f => exact (keeps_declareFunction env f rfl).bind fun _ => ih

theorem declareLineage (env : Env) (classes : List Class) :
    Keeps (Growing (inside env)) (ev.declareLineage c env classes) := by
  induction classes with
  | nil => exact .pure _
  | cons k ks ih => exact (h.declareMembers env k.members).bind fun _ => ih

theorem instantiate (r : Nat) (k : Class) (arguments : List Value) (span : Span) :
    Keeps (Growing nowhere) (ev.instantiate c r k arguments span) := by
  refine keeps_enclose k.closure fun env => ?_
  refine (Keeps.look _).bind fun classes => ?_
  refine (h.declareLineage env classes).bind fun _ => ?_
  refine (Keeps.look _).bind fun init => ?_
  have hmake : Keeps (Growing (inside env)) (update fun s => s.newInstance ⟨r, env⟩) :=
    keeps_update fun _ => rfl
  cases init with
  | some init => exact (keeps_of_nowhere (h.call env init arguments span)).discard.bind fun _ => hmake
  | none =>
    dsimp only
    split
    · exact (Keeps.fail _ _).bind fun _ => hmake
    · exact hmake

theorem callStep (hc : c.Plain) (env : Env) (callee : Value) (arguments : List Value) (span : Span) :
    Keeps (Growing nowhere) (ev.callStep c env callee arguments span) := by
  unfold Evaluator.callStep
  split
  · next r =>
    refine (Keeps.look _).bind fun found => ?_
    cases found with
    | some f => exact h.callFunction f arguments span
    | none => exact .fail _ _
  · next r =>
    refine (Keeps.look _).bind fun found => ?_
    cases found with
    | some k => exact h.instantiate r k arguments span
    | none => exact .fail _ _
  · next f =>
    have hrun : ∀ answer : Except String Value → Action Value,
        (∀ value, answer (.ok value) = pure value) →
        (∀ message, answer (.error message) = fail (.native f.name message) span) →
        Keeps (Growing nowhere) (ev.callNative c env f arguments >>= answer) := by
      intro answer hok herror
      refine (hc.keeps_callNative ev env f arguments).bind fun result => ?_
      cases result with
      | ok value =>
        rw [hok]
        exact .pure _
      | error message =>
        rw [herror]
        exact .fail _ _
    split
    · split
      · exact (Keeps.fail _ _).bind fun _ => hrun _ (fun _ => rfl) fun _ => rfl
      · exact hrun _ (fun _ => rfl) fun _ => rfl
    · exact hrun _ (fun _ => rfl) fun _ => rfl
  · exact .fail _ _

end Evaluator.Disciplined

/-- Every level of evaluation keeps to the frames. -/
theorem evaluator_disciplined {c : Context} (hc : c.Plain) (n : Nat) : (evaluator n).Disciplined c := by
  induction n with
  | zero => exact ⟨fun _ _ => .throw _, fun _ _ => .throw _, fun _ _ _ _ => .throw _⟩
  | succ n ih =>
    refine ⟨fun env e => ?_, fun env s => ?_, fun env callee arguments span => ?_⟩
    · rw [evaluator_evaluate]
      exact ih.evaluateStep hc env e
    · rw [evaluator_execute]
      exact ih.executeStep env s
    · rw [evaluator_call]
      exact ih.callStep hc env callee arguments span

/-- The same names in the same order, the same of them constant, and those bound to the same values. -/
structure Frame.Kept (f f' : Frame) : Prop where
  names : f'.keys = f.keys
  flags : ∀ name, (f'.get? name).map (·.constant) = (f.get? name).map (·.constant)
  constants : ∀ name value, f.get? name = some ⟨value, true⟩ → f'.get? name = some ⟨value, true⟩

theorem Frame.GrowsTo.kept {f f' : Frame} {allowed : String → Prop} (h : f.GrowsTo allowed f')
    (hn : ∀ name, ¬ allowed name) : f.Kept f' where
  names := by
    obtain ⟨added, he, ha⟩ := h.names
    have hnil : added = [] := List.eq_nil_iff_forall_not_mem.mpr fun name hm => hn name (ha name hm)
    rw [he, hnil, List.append_nil]
  flags name := h.flags name (hn name)
  constants name value hv := h.constants name value (hn name) hv

/-- Evaluation, however it ends and wherever it is cut off, keeps the names and constants of every frame
that was there; execution may declare in its own frame, and there only what the statement declares
outside every scope nested in it. -/
theorem frames_change_only_where_declared (o : Options) (n : Nat) (env : Env) (m : Machine) (r : Nat)
    (hr : r < m.store.frames.size) :
    let c : Context := { options := { o with implicitDeclarations := false } }
    (∀ e, (m.store.frame r).Kept ((((evaluator n).evaluate c env e).after m).store.frame r)) ∧
      ∀ s, (r ≠ env.frame →
          (m.store.frame r).Kept ((((evaluator n).execute c env s).after m).store.frame r)) ∧
        (r = env.frame → (m.store.frame r).GrowsTo (· ∈ s.declared)
          ((((evaluator n).execute c env s).after m).store.frame r)) := by
  intro c
  have hd : (evaluator n).Disciplined c := evaluator_disciplined ⟨rfl, rfl⟩ n
  refine ⟨fun e => ?_, fun s => ⟨fun hne => ?_, fun he => ?_⟩⟩
  · exact ((hd.evaluate env e m).frames r hr).kept fun _ hn => hn
  · exact ((hd.execute env s m).frames r hr).kept fun _ hw => hne hw.1
  · exact ((hd.execute env s m).frames r hr).mono fun _ hw => hw.2

/-- A frame with a constant `a`, in which `while [true] var x = a;` is executed. -/
theorem frames_change_only_where_declared_in_loop :
    let m : Machine := { store := { frames := #[⟨[("a", ⟨.int 1, true⟩)]⟩] } }
    let loop : Stmt := .whileLoop (.literal (.bool true) default)
      (.declare ⟨.var, [⟨⟨"x", default⟩, some (.identifier ⟨"a", default⟩)⟩], default⟩) default
    0 < m.store.frames.size ∧ loop.declared = ["x"] ∧ (m.store.frame 0).GrowsTo (· ∈ loop.declared)
      ((((evaluator 9).execute {} ⟨0, []⟩ loop).after m).store.frame 0) := by
  intro m loop
  have hr : 0 < m.store.frames.size := by decide
  exact ⟨hr, rfl, ((frames_change_only_where_declared {} 9 ⟨0, []⟩ m 0 hr).2 loop).2 rfl⟩

end Scriptlet
