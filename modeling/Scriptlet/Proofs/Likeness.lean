import Mathlib.Data.List.Forall2
import Scriptlet.Proofs.Resemblance

/-! Machines that differ in the code they hold and in nothing else. A likeness says which code may stand
in the place of which; two machines are alike under it when their functions and classes are, one by one,
and all else is the same. -/
namespace Scriptlet

theorem Stdin.nextLine_congr (a b : Stdin) (h : a = b) :
    a.nextLine.1 = b.nextLine.1 ∧ a.nextLine.2 = b.nextLine.2 := by
  subst h
  exact ⟨rfl, rfl⟩

/-- Which spans, expressions and statements may stand in the place of which. What the user is told about
modules is the same, unless the likeness says otherwise, and so is the input; whatever it says of the input,
the next line is the same. -/
structure Likeness where
  span : Span → Span → Prop
  expr : Expr → Expr → Prop
  stmt : Stmt → Stmt → Prop
  notices : Array Notice → Array Notice → Prop := Eq
  input : Stdin → Stdin → Prop := Eq
  nextLine : ∀ a b : Stdin, input a b → a.nextLine.1 = b.nextLine.1 ∧ input a.nextLine.2 b.nextLine.2 := by
    exact Stdin.nextLine_congr

namespace Likeness

variable (L : Likeness)

def identifier (a b : Identifier) : Prop := a.name = b.name ∧ L.span a.span b.span

def binding (a b : Binding) : Prop := a.name.name = b.name.name ∧ Option.Rel L.expr a.value b.value

def declaration (a b : Declaration) : Prop :=
  a.kind.isConstant = b.kind.isConstant ∧ List.Forall₂ L.binding a.bindings b.bindings

def block (a b : Block) : Prop := List.Forall₂ L.stmt a.statements b.statements

def function (a b : FunctionDecl) : Prop :=
  a.name.name = b.name.name ∧ a.parameters.map (·.name) = b.parameters.map (·.name) ∧
    L.block a.body b.body

inductive member : Member → Member → Prop
  | field {a b : Declaration} (h : L.declaration a b) : member (.field a) (.field b)
  | method {a b : FunctionDecl} (h : L.function a b) : member (.method a) (.method b)

inductive body : FunctionBody → FunctionBody → Prop
  | block {a b : Block} (h : L.block a b) : body (.block a) (.block b)
  | expression {a b : Expr} (h : L.expr a b) : body (.expression a) (.expression b)

def entry (a b : Entry Expr) : Prop := a.key = b.key ∧ L.expr a.value b.value

inductive initializer : Initializer → Initializer → Prop
  | declare {a b : Declaration} (h : L.declaration a b) : initializer (.declare a) (.declare b)
  | expression {a b : Expr} {s t : Span} (h : L.expr a b) :
    initializer (.expression a s) (.expression b t)

structure header (a b : LoopHeader) : Prop where
  initializer : Option.Rel L.initializer a.initializer b.initializer
  condition : Option.Rel L.expr a.condition b.condition
  update : Option.Rel L.expr a.update b.update

def case (a b : Case) : Prop := Option.Rel L.expr a.value b.value ∧ L.stmt a.body b.body

def handler (a b : Handler) : Prop :=
  a.parameter.map (·.name) = b.parameter.map (·.name) ∧ L.block a.body b.body

structure functionCell (f g : Function) : Prop where
  name : f.name = g.name
  parameters : f.parameters = g.parameters
  closure : f.closure = g.closure
  body : L.body f.body g.body

structure classCell (k l : Class) : Prop where
  name : k.name = l.name
  parent : k.parent = l.parent
  closure : k.closure = l.closure
  members : List.Forall₂ L.member k.members l.members

structure store (s t : Store) : Prop where
  frames : s.frames = t.frames
  arrays : s.arrays = t.arrays
  maps : s.maps = t.maps
  instances : s.instances = t.instances
  functions : List.Forall₂ L.functionCell s.functions.toList t.functions.toList
  classes : List.Forall₂ L.classCell s.classes.toList t.classes.toList

structure machine (m n : Machine) : Prop where
  store : L.store m.store n.store
  depth : m.depth = n.depth
  input : L.input m.input n.input
  output : m.output = n.output
  notices : L.notices m.notices n.notices
  importing : m.importing = n.importing
  clock : m.clock = n.clock

/-- Signals that differ in where they were raised only. None is like running out of levels. -/
inductive signal : Signal → Signal → Prop
  | return_ (value : Value) : signal (.return_ value) (.return_ value)
  | break_ {a b : Span} (h : L.span a b) : signal (.break_ a) (.break_ b)
  | continue_ {a b : Span} (h : L.span a b) : signal (.continue_ a) (.continue_ b)
  | throw (value : Value) {a b : Span} (h : L.span a b) : signal (.throw value a) (.throw value b)
  | error (cause : RuntimeCause) {a b : Span} (h : L.span a b) :
    signal (.error ⟨cause, a⟩) (.error ⟨cause, b⟩)

variable {L}

theorem alike_getElem? {α β : Type} {R : α → β → Prop} {xs : Array α} {ys : Array β}
    (h : List.Forall₂ R xs.toList ys.toList) (r : Nat) : Option.Rel R xs[r]? ys[r]? := by
  rw [← Array.getElem?_toList, ← Array.getElem?_toList]
  generalize xs.toList = as at h ⊢
  generalize ys.toList = bs at h ⊢
  induction h generalizing r with
  | nil => exact .none
  | cons hh _ ih =>
    cases r with
    | zero => exact .some hh
    | succ r => exact ih r

/-! What a store shows of its functions and classes is the same in stores that are alike. -/

namespace store

variable {s t : Store} (h : L.store s t)
include h

theorem functions_size : s.functions.size = t.functions.size := by
  simpa using h.functions.length_eq

theorem classes_size : s.classes.size = t.classes.size := by
  simpa using h.classes.length_eq

theorem get_function (r : Nat) : Option.Rel L.functionCell s.functions[r]? t.functions[r]? :=
  alike_getElem? h.functions r

theorem get_class (r : Nat) : Option.Rel L.classCell s.classes[r]? t.classes[r]? :=
  alike_getElem? h.classes r

theorem resembles : s.Resembles t where
  frames := h.frames
  arrays := h.arrays
  maps := h.maps
  instances := h.instances
  functionName r := by
    have hr := h.get_function r
    generalize s.functions[r]? = a at hr ⊢
    generalize t.functions[r]? = b at hr ⊢
    cases hr with
    | none => rfl
    | some hf => exact hf.name
  className r := by
    unfold Store.className
    have hr := h.get_class r
    generalize s.classes[r]? = a at hr ⊢
    generalize t.classes[r]? = b at hr ⊢
    cases hr with
    | none => rfl
    | some hk => exact hk.name

/-- The ancestors of a class are alike, one by one. -/
theorem lineage_alike (r : Nat) : List.Forall₂ L.classCell (s.lineage r) (t.lineage r) := by
  induction r using Nat.strongRecOn with
  | ind r ih =>
    have hr := h.get_class r
    rw [Store.lineage, Store.lineage]
    generalize s.classes[r]? = a at hr ⊢
    generalize t.classes[r]? = b at hr ⊢
    cases hr with
    | none => exact .nil
    | @some k l hk =>
      dsimp only
      rw [← hk.parent]
      cases k.parent with
      | none => exact .cons hk .nil
      | some p =>
        dsimp only
        split
        · next hp => exact List.rel_append (ih p hp) (.cons hk .nil)
        · exact .cons hk .nil

theorem define (env : Env) (name : String) (value : Value) (constant : Bool) :
    L.store (s.define env name value constant) (t.define env name value constant) where
  __ := h
  frames := by simp only [Store.define, h.frames]

theorem overwrite (r : Nat) (name : String) (value : Value) :
    L.store (s.overwrite r name value) (t.overwrite r name value) where
  __ := h
  frames := by simp only [Store.overwrite, h.frames]

theorem assign (env : Env) (name : String) (value : Value) :
    (s.assign env name value).1 = (t.assign env name value).1 ∧
      L.store (s.assign env name value).2 (t.assign env name value).2 := by
  have hb : s.binder? env name = t.binder? env name := by
    simp only [Store.binder?, Store.frame, h.frames]
  unfold Store.assign Store.refusal?
  rw [h.resembles.slot?_eq, hb]
  cases t.slot? env name with
  | none => exact ⟨rfl, h⟩
  | some slot =>
    dsimp only
    cases slot.constant with
    | true => exact ⟨rfl, h⟩
    | false => exact ⟨rfl, h.overwrite _ name value⟩

theorem enclose (env : Env) : (s.enclose env).1 = (t.enclose env).1 ∧
    L.store (s.enclose env).2 (t.enclose env).2 :=
  ⟨by simp only [Store.enclose, h.frames], { h with frames := by simp only [Store.enclose, h.frames] }⟩

theorem newArray (items : Array Value) : (s.newArray items).1 = (t.newArray items).1 ∧
    L.store (s.newArray items).2 (t.newArray items).2 :=
  ⟨by simp only [Store.newArray, h.arrays], { h with arrays := by simp only [Store.newArray, h.arrays] }⟩

theorem newMap (entries : Dictionary Value) : (s.newMap entries).1 = (t.newMap entries).1 ∧
    L.store (s.newMap entries).2 (t.newMap entries).2 :=
  ⟨by simp only [Store.newMap, h.maps], { h with maps := by simp only [Store.newMap, h.maps] }⟩

theorem push (r : Nat) (item : Value) : L.store (s.push r item) (t.push r item) where
  __ := h
  arrays := by simp only [Store.push, h.arrays]

theorem pop (r : Nat) : L.store (s.pop r) (t.pop r) where
  __ := h
  arrays := by simp only [Store.pop, h.arrays]

theorem newInstance (i : Instance) : (s.newInstance i).1 = (t.newInstance i).1 ∧
    L.store (s.newInstance i).2 (t.newInstance i).2 :=
  ⟨by simp only [Store.newInstance, h.instances],
    { h with instances := by simp only [Store.newInstance, h.instances] }⟩

theorem newFunction {f g : Function} (hf : L.functionCell f g) :
    (s.newFunction f).1 = (t.newFunction g).1 ∧ L.store (s.newFunction f).2 (t.newFunction g).2 := by
  refine ⟨by simp only [Store.newFunction, h.functions_size], { h with functions := ?_ }⟩
  simpa [Store.newFunction] using List.rel_append h.functions (.cons hf .nil)

theorem newClass {k l : Class} (hk : L.classCell k l) :
    (s.newClass k).1 = (t.newClass l).1 ∧ L.store (s.newClass k).2 (t.newClass l).2 := by
  refine ⟨by simp only [Store.newClass, h.classes_size], { h with classes := ?_ }⟩
  simpa [Store.newClass] using List.rel_append h.classes (.cons hk .nil)

theorem builtin (f : Builtin) (now : Except String Float) (arguments : List Value) :
    (f.apply now arguments s).1 = (f.apply now arguments t).1 ∧
      L.store (f.apply now arguments s).2 (f.apply now arguments t).2 :=
  h.resembles.builtin h h.push h.pop (fun items => (h.newArray items).2) f now arguments

end store

end Likeness
end Scriptlet
