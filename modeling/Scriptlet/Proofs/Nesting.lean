import Scriptlet.Proofs.FrameDiscipline
import Scriptlet.Proofs.Halting

/-! How deep instantiations nest. The limit on calls counts the bodies of functions; it does not count the
instances that are made inside one another while their members are declared. With those limited too, every
program without loops comes to an end, by induction on the calls that are left, on the instantiations that
are left and on the code. Without, it does so exactly if its instantiations keep within some limit. -/
namespace Scriptlet

/-- How many instantiations may nest inside a call. A class takes one of those that are left, and a function
starts anew. -/
def Value.room? (width room : Nat) : Value → Option Nat
  | .class_ _ => if room = 0 then none else some (room - 1)
  | .function _ => some width
  | _ => some room

/-- Evaluation through at most so many levels in which at most `width` instantiations nest between one
function call and the next; one more fails like a call beyond the limit. There is `room` for so many of
them. -/
def guarded (width : Nat) : (room levels : Nat) → Evaluator
  | _, 0 => evaluator 0
  | room, n + 1 =>
    { limit := n
      evaluate := fun c env e => (guarded width room n).evaluateStep c env e
      execute := fun c env s => (guarded width room n).executeStep c env s
      call := fun c env callee arguments span =>
        match callee.room? width room with
        | some inside => (guarded width inside n).callStep c env callee arguments span
        | none => Action.fail (.stackOverflow width) span }

/-- The program runs as if no more than so many instantiations could nest. -/
def Program.NestsWithin (width : Nat) (c : Context) (env : Env) (p : Program) (m : Machine) : Prop :=
  ∃ k, ∀ n, k ≤ n → (guarded width width n).run c env p m = (evaluator n).run c env p m

/-- Through few levels, no more instantiations can nest than there is room for. -/
theorem guarded_eq_evaluator {width room n : Nat} (hw : n ≤ width) (hr : n ≤ room) :
    guarded width room n = evaluator n := by
  induction n generalizing room with
  | zero => rfl
  | succ n ih =>
    have hsame := ih (Nat.le_of_succ_le hw) (Nat.le_of_succ_le hr)
    have hcall : ∀ (callee : Value), ∃ inside, callee.room? width room = some inside ∧
        guarded width inside n = evaluator n := by
      intro callee
      cases callee with
      | class_ r => exact ⟨room - 1, if_neg (by omega), ih (by omega) (by omega)⟩
      | function r => exact ⟨width, rfl, ih (by omega) (by omega)⟩
      | _ => exact ⟨room, rfl, hsame⟩
    simp only [guarded, evaluator, hsame, atLevel_eq]
    congr
    funext c env callee arguments span
    obtain ⟨inside, hroom, hinside⟩ := hcall callee
    simp only [hroom, hinside]

theorem Value.room?_class {width room inside r : Nat}
    (h : (Value.class_ r).room? width room = some inside) : inside + 1 = room := by
  simp only [Value.room?] at h
  split at h
  · cases h
  · cases h
    omega

variable {c : Context} {width d : Nat}

/-- A call comes to an end when what it calls does: a class with room for one less, a function one
deeper. -/
theorem guarded_call (hc : c.host = .plain) {room : Nat}
    (hfewer : ∀ inside, inside + 1 = room → Halting c d (guarded width inside))
    (hdeeper : d < c.options.maxCallDepth → Halting c (d + 1) (guarded width width))
    (env : Env) (callee : Value) (arguments : List Value) (span : Span) :
    Halts d fun j => (guarded width room j).call c env callee arguments span := by
  have hzero (m : Machine) : ¬Finished ((guarded width room 0).call c env callee arguments span m) :=
    fun hf => hf rfl
  cases hroom : callee.room? width room with
  | none =>
    refine .later hzero (fun j => ?_) (.fail (.stackOverflow width) span)
    simp only [guarded, hroom]
  | some inside =>
    have hstep : Halts d fun j => (guarded width inside j).callStep c env callee arguments span := by
      refine Halting.callStep hc ?_ ?_ env arguments span
      · rintro r rfl
        exact hfewer inside (Value.room?_class hroom)
      · rintro r rfl
        cases hroom
        exact hdeeper
    refine .later hzero (fun j => ?_) hstep
    simp only [guarded, hroom]

theorem guarded_of_calls {room : Nat} (hcall : ∀ env callee arguments span,
    Halts d fun j => (guarded width room j).call c env callee arguments span) :
    Halting c d (guarded width room) where
  evaluateZero _ _ _ := fun hf => hf rfl
  evaluateSucc _ _ _ := rfl
  executeZero _ _ _ := fun hf => hf rfl
  executeSucc _ _ _ := rfl
  call := hcall

/-- Induction on the room for instantiations. -/
theorem guarded_of_deeper (hc : c.host = .plain)
    (hdeeper : d < c.options.maxCallDepth → Halting c (d + 1) (guarded width width)) (room : Nat) :
    Halting c d (guarded width room) := by
  induction room with
  | zero => exact guarded_of_calls (guarded_call hc nofun hdeeper)
  | succ room ih =>
    refine guarded_of_calls (guarded_call hc (fun inside hinside => ?_) hdeeper)
    have hroom : inside = room := Nat.succ.inj hinside
    exact hroom ▸ ih

/-- Induction on the calls that are left below the limit. -/
theorem guarded_halting (hc : c.host = .plain) (width room d : Nat) :
    Halting c d (guarded width room) := by
  induction hleft : c.options.maxCallDepth - d generalizing d room with
  | zero => exact guarded_of_deeper hc (fun hbelow => absurd hbelow (by omega)) room
  | succ left ih => exact guarded_of_deeper hc (fun _ => ih width (d + 1) (by omega)) room

variable {p : Program} {m : Machine}

/-- With instantiations limited, every program without loops ends with a value or an error. -/
theorem guarded_run (hc : c.host = .plain) (hp : p.LoopFree) (hm : m.store.LoopFree) (env : Env)
    (width : Nat) : ∃ r m', m'.Ready m.depth ∧
      HaltsAs (fun n => (guarded width width n).run c env p) m (.ok r m') := by
  obtain ⟨r, hr, hend⟩ := (guarded_halting hc width width m.depth).run hp env m ⟨hm, rfl⟩
  cases hr with
  | @ok r m' hready => exact ⟨r, m', hready, hend⟩
  | @error signal m' hs _ =>
    obtain ⟨k, hk⟩ := hend.1
    have hk : (guarded width width k).run c env p m = .error signal m' := hk k (Nat.le_refl k)
    rcases Program.run_ok_or_exhausted (guarded width width k) c env p m with ⟨r, m'', hok⟩ | ⟨m'', hx⟩
    · cases hk.symm.trans hok
    · cases hk.symm.trans hx
      exact (hs rfl).elim

/-- A run that ends takes so many levels, and no more instantiations can nest in it. -/
theorem Program.Ends.guarded (hc : c.host = .plain) (hp : p.LoopFree) (hm : m.store.LoopFree)
    {env : Env} {r : Except RuntimeError Value} {m' : Machine} (h : p.Ends c env m r m') :
    m'.Ready m.depth ∧
      ∃ width, EndsAs (fun n => (guarded width width n).run c env p) m (.ok r m') := by
  obtain ⟨k, hk⟩ := h
  obtain ⟨r', m'', hready, hend, honly⟩ := guarded_run hc hp hm env k
  have hsame : (Scriptlet.guarded k k k).run c env p m = .ok r m' := by
    rw [guarded_eq_evaluator (Nat.le_refl k) (Nat.le_refl k)]
    exact hk k (Nat.le_refl k)
  have hfinished : Finished ((Scriptlet.guarded k k k).run c env p m) := by
    rw [hsame]
    trivial
  cases hsame.symm.trans (honly k hfinished)
  exact ⟨hready, k, hend⟩

theorem Store.get?_enclose_other (s : Store) (env other : Env) (name : String) :
    (s.enclose env).2.get? other name = s.get? other name := by
  simp only [get?, slot?, frame_enclose]

/-- A new frame hides nothing. -/
theorem Store.get?_enclose (s : Store) (env : Env) (name : String) :
    (s.enclose env).2.get? (s.enclose env).1 name = s.get? env name := by
  have hfresh : (s.frame s.frames.size).get? name = none := by
    simp [frame]
  rw [get?_enclose_other]
  simp only [get?, slot?, enclose, Env.chain, List.findSome?_cons, hfresh]

theorem Store.get?_define_self (s : Store) {env : Env} (henv : env.frame < s.frames.size) (name : String)
    (value : Value) (constant : Bool) : (s.define env name value constant).get? env name = some value := by
  have hframe : ((s.define env name value constant).frame env.frame).get? name = some ⟨value, constant⟩ := by
    simp [define, frame, henv, Array.getElem_modify]
  simp [get?, slot?, Env.chain, hframe]

theorem evaluateCallee_class {ev : Evaluator} {c : Context} {env : Env} {name : Identifier} {m : Machine}
    {r : Nat} (h : m.store.get? env name.name = some (.class_ r)) :
    ev.evaluateCallee c env (.identifier name) m = .ok (.class_ r) m := by
  have hbound : c.callee? (some (.class_ r)) name.name = some (.class_ r) := by
    simp only [Context.callee?]
    cases c.natives.get? name.name <;> rfl
  refine (bind_ok (Action.look_apply _ m) _).trans ?_
  rw [h, hbound]
  rfl

/-- What ends the initializer of its first field ends an instantiation. -/
theorem instantiate_error {ev : Evaluator} {c : Context} {r : Nat} {k : Class} {kind : DeclarationKind}
    {field : Identifier} {e : Expr} {bindings : List Binding} {s : Span} {members : List Member}
    {m m' : Machine} {signal : Signal} (hparent : k.parent = none)
    (hmembers : k.members = .field ⟨kind, ⟨field, some e⟩ :: bindings, s⟩ :: members)
    (hclass : m.store.classes[r]? = some k)
    (hfield : ev.evaluate c (m.store.enclose k.closure).1 e
      { m with store := (m.store.enclose k.closure).2 } = .error signal m')
    (arguments : List Value) (span : Span) :
    ev.instantiate c r k arguments span m = .error signal m' := by
  have hlineage : (m.store.enclose k.closure).2.lineage r = [k] := by
    have hk : (m.store.enclose k.closure).2.classes[r]? = some k := hclass
    rw [Store.lineage, hk]
    simp only [hparent]
  have henter : Action.enclose k.closure m =
      .ok (m.store.enclose k.closure).1 { m with store := (m.store.enclose k.closure).2 } := rfl
  refine (bind_ok henter _).trans ((bind_ok (Action.look_apply _ _) _).trans ?_)
  rw [hlineage]
  simp only [Evaluator.declareLineage, hmembers]
  exact bind_error (bind_error (bind_error (bind_error hfield _) _) _) _

/-- A class that is called by name to initialize its own first field. A call of it runs out of levels,
whatever the limit on calls: each instance takes levels before the one around it is made. -/
theorem own_call_exhausts {c : Context} {r : Nat} {k : Class} {kind : DeclarationKind}
    {name field : Identifier} {at_ s : Span} {bindings : List Binding} {members : List Member}
    (hparent : k.parent = none)
    (hmembers : k.members =
      .field ⟨kind, ⟨field, some (.call (.identifier name) [] at_)⟩ :: bindings, s⟩ :: members)
    (n : Nat) (env : Env) (m : Machine) (hclass : m.store.classes[r]? = some k)
    (hinside : m.store.get? k.closure name.name = some (.class_ r))
    (hname : m.store.get? env name.name = some (.class_ r)) :
    ∃ m', (evaluator n).evaluate c env (.call (.identifier name) [] at_) m = .error .exhausted m' := by
  -- from a call to the initializer in it are two levels
  induction n using Nat.strongRecOn generalizing env m with
  | ind n ih =>
    cases n with
    | zero => exact ⟨m, rfl⟩
    | succ n =>
      have hcall : ∃ m', (evaluator n).call c env (.class_ r) [] at_ m = .error .exhausted m' := by
        cases n with
        | zero => exact ⟨m, rfl⟩
        | succ n =>
          have hsame := m.store.get?_enclose_other k.closure k.closure name.name
          have hfresh := m.store.get?_enclose k.closure name.name
          obtain ⟨m', hfield⟩ := ih n (by omega) (m.store.enclose k.closure).1
            { m with store := (m.store.enclose k.closure).2 } hclass (hsame.trans hinside)
            (hfresh.trans hinside)
          refine ⟨m', ?_⟩
          rw [evaluator_call]
          refine (bind_ok (Action.look_apply _ m) _).trans ?_
          rw [hclass]
          exact instantiate_error hparent hmembers hclass hfield [] at_
      obtain ⟨m', hm'⟩ := hcall
      refine ⟨m', ?_⟩
      rw [evaluator_evaluate]
      exact (bind_ok (evaluateCallee_class hname) _).trans ((bind_ok rfl _).trans hm')

/-- `class A { var x = …; }` with an initializer in the place of the dots. -/
def Stmt.classA (initializer : Expr) : Stmt :=
  .class_ ⟨"A", default⟩ none [.field ⟨.var, [⟨⟨"x", default⟩, some initializer⟩], default⟩] default

/-- `A()` -/
def Expr.newA : Expr := .call (.identifier ⟨"A", default⟩) [] default

/-- `var n = 0; class A { var x = ++n < 10 ? A() : n; } A(); n;` -/
def Program.tenDeep : Program :=
  let n : Identifier := ⟨"n", default⟩
  let fewer : Expr := .binary (.relate .less) (.step .increment n default) (.literal (.int 10) default) default
  ⟨[.declare ⟨.var, [⟨n, some (.literal (.int 0) default)⟩], default⟩,
    .classA (.ternary fewer .newA (.identifier n) default), .expression .newA default,
    .expression (.identifier n) default], default⟩

/-- `class A { var x = A(); } A();` -/
def Program.endless : Program := ⟨[.classA .newA, .expression .newA default], default⟩

theorem Stmt.classA_loopFree (initializer : Expr) : (Stmt.classA initializer).LoopFree := by
  refine .class_ _ _ _ fun f hf => ?_
  simp at hf

theorem Program.tenDeep_loopFree : Program.tenDeep.LoopFree := by
  simp [Program.LoopFree, Program.tenDeep, Stmt.classA_loopFree, Stmt.LoopFree.declare,
    Stmt.LoopFree.expression]

theorem Program.endless_loopFree : Program.endless.LoopFree := by
  simp [Program.LoopFree, Program.endless, Stmt.classA_loopFree, Stmt.LoopFree.expression]

theorem Program.tenDeep_ends : ∃ m, Program.tenDeep.Ends { options := { maxCallDepth := 3 } }
    (Store.newGlobal {}).1 { store := (Store.newGlobal {}).2 } (.ok (.int 10)) m :=
  Program.ends_of_int (k := 50) rfl (by decide +kernel)

/-- Once the class is declared, a call of it runs out of levels. -/
theorem Program.endless_diverges (c : Context) {env : Env} {m : Machine}
    (henv : env.frame < m.store.frames.size) : Program.endless.Diverges c env m := by
  intro n
  cases n with
  | zero => exact ⟨m, rfl⟩
  | succ n =>
    let k : Class := ⟨"A", none, [.field ⟨.var, [⟨⟨"x", default⟩, some .newA⟩], default⟩], env⟩
    let r := m.store.classes.size
    let declared : Machine := { m with store := (m.store.newClass k).2.define env "A" (.class_ r) false }
    have hname : declared.store.get? env "A" = some (.class_ r) :=
      (m.store.newClass k).2.get?_define_self henv "A" (.class_ r) false
    have hclass : declared.store.classes[r]? = some k := by
      simp [declared, r, Store.newClass, Store.define]
    have hfirst : (evaluator (n + 1)).execute c env (.classA .newA) m =
        .ok .undefined declared := by
      rw [evaluator_execute]
      rfl
    have hmembers : k.members = [.field ⟨.var,
        [⟨⟨"x", default⟩, some (.call (.identifier ⟨"A", default⟩) [] default)⟩], default⟩] := rfl
    obtain ⟨m', hcall⟩ := own_call_exhausts (c := c) rfl hmembers n env declared hclass hname hname
    have hsecond : (evaluator (n + 1)).execute c env (.expression .newA default) declared =
        .error .exhausted m' := by
      rw [evaluator_execute]
      exact hcall
    have hall : (evaluator (n + 1)).executeAll c env .undefined Program.endless.statements m =
        .error .exhausted m' := (bind_ok hfirst _).trans (bind_error hsecond _)
    exact ⟨m', bind_error (attempt_exhausted hall) _⟩

/-- A function that is called at the limit is not entered. -/
theorem call_at_limit {n : Nat} {env : Env} {r : Nat} {f : Function} {arguments : List Value} {span : Span}
    (hf : m.store.functions[r]? = some f) (harity : f.parameters.length = arguments.length)
    (hlimit : c.options.maxCallDepth ≤ m.depth) :
    (evaluator (n + 1)).call c env (.function r) arguments span m =
      .error (.error ⟨.stackOverflow c.options.maxCallDepth, span⟩) m := by
  rw [evaluator_call]
  refine (bind_ok (Action.look_apply _ m) _).trans ?_
  rw [hf]
  exact (evaluator n).callFunction_at_limit harity hlimit span

/-- A program without loops comes to an end, with a value or an error, exactly if its instantiations nest
within some limit. It leaves a machine that holds no loops either, at the depth that it started from. And
a function that is called where calls nest as deep as allowed fails with a stack overflow. -/
theorem loop_free_run_ends_iff_nests_within (c : Context) (hc : c.host = .plain)
    (env : Env) (p : Program) (hp : p.LoopFree) (m : Machine) (hm : m.store.LoopFree) :
    ((∃ r m', p.Ends c env m r m') ↔ ∃ width, p.NestsWithin width c env m) ∧
    (∀ r m', p.Ends c env m r m' → m'.store.LoopFree ∧ m'.depth = m.depth) ∧
    ∀ n env r f arguments span m, m.store.functions[r]? = some f →
      f.parameters.length = arguments.length → c.options.maxCallDepth ≤ m.depth →
      (evaluator (n + 1)).call c env (.function r) arguments span m =
        .error (.error ⟨.stackOverflow c.options.maxCallDepth, span⟩) m := by
  refine ⟨⟨?_, ?_⟩, ?_, fun n env r f arguments span m => call_at_limit⟩
  · rintro ⟨r, m', hend⟩
    obtain ⟨-, width, k, hk⟩ := hend.guarded hc hp hm
    obtain ⟨k', hk'⟩ := hend
    refine ⟨width, max k k', fun n hn => ?_⟩
    exact (hk n (by omega)).trans (hk' n (by omega)).symm
  · rintro ⟨width, k, hk⟩
    obtain ⟨r, m', -, ⟨k', hk'⟩, -⟩ := guarded_run hc hp hm env width
    refine ⟨r, m', max k k', fun n hn => ?_⟩
    exact (hk n (by omega)).symm.trans (hk' n (by omega))
  · intro r m' hend
    have hready := (hend.guarded hc hp hm).1
    exact ⟨hready.loopFree, hready.depth⟩

/-- Ten instances inside one another are within a limit, and instances without end are not. -/
theorem loop_free_run_ends_iff_nests_within_ten :
    Program.tenDeep.LoopFree ∧ Program.endless.LoopFree ∧ (Store.newGlobal {}).2.LoopFree ∧
    (∃ width, Program.tenDeep.NestsWithin width { options := { maxCallDepth := 3 } }
      (Store.newGlobal {}).1 { store := (Store.newGlobal {}).2 }) ∧
    ¬∃ width, Program.endless.NestsWithin width { options := { maxCallDepth := 3 } }
      (Store.newGlobal {}).1 { store := (Store.newGlobal {}).2 } := by
  have hstore : (Store.newGlobal {}).2.LoopFree := ⟨by simp [Store.newGlobal], by simp [Store.newGlobal]⟩
  refine ⟨Program.tenDeep_loopFree, Program.endless_loopFree, hstore, ?_, ?_⟩
  · obtain ⟨m, hend⟩ := Program.tenDeep_ends
    have hiff := loop_free_run_ends_iff_nests_within { options := { maxCallDepth := 3 } } rfl
      (Store.newGlobal {}).1 _ Program.tenDeep_loopFree { store := (Store.newGlobal {}).2 } hstore
    exact hiff.1.1 ⟨_, m, hend⟩
  · intro hnests
    have hiff := loop_free_run_ends_iff_nests_within { options := { maxCallDepth := 3 } } rfl
      (Store.newGlobal {}).1 _ Program.endless_loopFree { store := (Store.newGlobal {}).2 } hstore
    obtain ⟨r, m, hend⟩ := hiff.1.2 hnests
    exact hend.not_diverges (Program.endless_diverges _ Nat.zero_lt_one)

/-- Field initializers escape the limit on calls. With a limit of three calls, a class that makes ten
instances inside one another is made without an error, and one that makes an instance inside each never
is. -/
theorem field_initializers_escape_the_call_depth_limit :
    Program.tenDeep.LoopFree ∧ Program.endless.LoopFree ∧
    (∃ m, Program.tenDeep.Ends { options := { maxCallDepth := 3 } }
      (Store.newGlobal {}).1 { store := (Store.newGlobal {}).2 } (.ok (.int 10)) m) ∧
    Program.endless.Diverges { options := { maxCallDepth := 3 } }
      (Store.newGlobal {}).1 { store := (Store.newGlobal {}).2 } :=
  ⟨Program.tenDeep_loopFree, Program.endless_loopFree, Program.tenDeep_ends,
    Program.endless_diverges _ Nat.zero_lt_one⟩

end Scriptlet
