import Scriptlet.Eval.Evaluator

/-! The code that stands in a statement, and the code that a store holds: the bodies of its functions and
of the methods of its classes. Evaluation adds to it when functions and classes are declared, and changes
nothing of what is there. -/
namespace Scriptlet

namespace Stmt

/-- A statement stands directly in another, which stands in a loop or not as `inLoop` says. The inner one
then stands in a loop or not as `inside` says, and in the body of a function as `bodies` says. -/
inductive Part (bodies inLoop : Bool) : Stmt → (inside : Bool) → Stmt → Prop
  | function {f : FunctionDecl} {s : Stmt} (h : s ∈ f.body.statements) :
    Part bodies inLoop (.function f) bodies s
  | method {name : Identifier} {parent : Option Identifier} {members : List Member} {span : Span}
    {f : FunctionDecl} {s : Stmt} (hf : .method f ∈ members) (h : s ∈ f.body.statements) :
    Part bodies inLoop (.class_ name parent members span) bodies s
  | block {b : Block} {s : Stmt} (h : s ∈ b.statements) : Part bodies inLoop (.block b) inLoop s
  | resolution {condition : Expr} {s : Stmt} {alternative : Option Stmt} {span : Span} :
    Part bodies inLoop (.conditional condition s alternative span) inLoop s
  | alternative {condition : Expr} {resolution s : Stmt} {span : Span} :
    Part bodies inLoop (.conditional condition resolution (some s) span) inLoop s
  | whileLoop {condition : Expr} {s : Stmt} {span : Span} :
    Part bodies inLoop (.whileLoop condition s span) true s
  | forLoop {header : LoopHeader} {s : Stmt} {span : Span} :
    Part bodies inLoop (.forLoop header s span) true s
  | switch {subject : Expr} {cases : List Case} {span : Span} {k : Case} (h : k ∈ cases) :
    Part bodies inLoop (.switch subject cases span) inLoop k.body
  | try_ {body : Block} {handler : Option Handler} {cleanup : Option Block} {span : Span} {s : Stmt}
    (h : s ∈ body.statements) : Part bodies inLoop (.try_ body handler cleanup span) inLoop s
  | handler {body : Block} {handler : Handler} {cleanup : Option Block} {span : Span} {s : Stmt}
    (h : s ∈ handler.body.statements) : Part bodies inLoop (.try_ body (some handler) cleanup span) inLoop s
  | cleanup {body : Block} {handler : Option Handler} {cleanup : Block} {span : Span} {s : Stmt}
    (h : s ∈ cleanup.statements) : Part bodies inLoop (.try_ body handler (some cleanup) span) inLoop s

/-- The statement and all that stand in it have the property. Whether one stands in a loop is reckoned from
the function that it stands in. -/
inductive Throughout (P : (inLoop : Bool) → Stmt → Prop) : (inLoop : Bool) → Stmt → Prop
  | mk {inLoop : Bool} {s : Stmt} (here : P inLoop s)
    (parts : ∀ {inside t}, Part false inLoop s inside t → Throughout P inside t) : Throughout P inLoop s

variable {P : Bool → Stmt → Prop} {inLoop : Bool} {s : Stmt}

theorem Throughout.here (h : Throughout P inLoop s) : P inLoop s := by
  cases h with
  | mk here _ => exact here

theorem Throughout.part {inside : Bool} {t : Stmt} (h : Throughout P inLoop s)
    (ht : Part false inLoop s inside t) : Throughout P inside t := by
  cases h with
  | mk _ parts => exact parts ht

/-- What stands in a statement stands in it wherever the statement stands. -/
theorem Part.elsewhere {bodies inside : Bool} {t : Stmt} (h : Part bodies inLoop s inside t)
    (bodies' inLoop' : Bool) : ∃ inside', Part bodies' inLoop' s inside' t := by
  cases h with
  | function h => exact ⟨_, .function h⟩
  | method hf h => exact ⟨_, .method hf h⟩
  | block h => exact ⟨_, .block h⟩
  | resolution => exact ⟨_, .resolution⟩
  | alternative => exact ⟨_, .alternative⟩
  | whileLoop => exact ⟨_, .whileLoop⟩
  | forLoop => exact ⟨_, .forLoop⟩
  | switch h => exact ⟨_, .switch h⟩
  | try_ h => exact ⟨_, .try_ h⟩
  | handler h => exact ⟨_, .handler h⟩
  | cleanup h => exact ⟨_, .cleanup h⟩

def isLoop : Stmt → Bool
  | .whileLoop .. | .forLoop .. => true
  | _ => false

/-- Only a loop puts a statement into a loop, and a function may count as one. -/
theorem Part.inside {bodies inside : Bool} {t : Stmt} (h : Part bodies inLoop s inside t) :
    inside = true ∨ inside = inLoop ∧ s.isLoop = false ∨ inside = bodies := by
  cases h <;> simp [isLoop]

def isLoopJump : Stmt → Bool
  | .break_ _ | .continue_ _ => true
  | _ => false

end Stmt

def FunctionBody.Holds (P : Block → Prop) : FunctionBody → Prop
  | .block body => P body
  | .expression _ => True

def Class.Holds (P : Block → Prop) (k : Class) : Prop := ∀ f, .method f ∈ k.members → P f.body

namespace Store

structure Holds (P : Block → Prop) (s : Store) : Prop where
  functions : ∀ f ∈ s.functions, f.body.Holds P
  classes : ∀ k ∈ s.classes, k.Holds P

namespace Holds

variable {P : Block → Prop} {s t : Store}

theorem of_all (h : ∀ b, P b) (s : Store) : s.Holds P where
  functions f _ := by
    cases f.body with
    | block body => exact h body
    | expression body => trivial
  classes _ _ f _ := h f.body

variable (h : s.Holds P)
include h

theorem of_same_code (hf : t.functions = s.functions) (hc : t.classes = s.classes) : t.Holds P :=
  ⟨hf ▸ h.functions, hc ▸ h.classes⟩

theorem lineage (r : Nat) : ∀ k ∈ s.lineage r, k.Holds P := by
  induction r using Nat.strongRecOn with
  | ind r ih =>
    intro k hk
    rw [Store.lineage] at hk
    split at hk
    · cases hk
    · next c hc =>
      have hown : c.Holds P := h.classes c (Array.mem_of_getElem? hc)
      have hlast (hk : k ∈ [c]) : k.Holds P := List.mem_singleton.1 hk ▸ hown
      split at hk
      · exact hlast hk
      · split at hk
        · next p _ hp =>
          rcases List.mem_append.1 hk with hk | hk
          · exact ih p hp k hk
          · exact hlast hk
        · exact hlast hk

theorem assign (env : Env) (name : String) (value : Value) : (s.assign env name value).2.Holds P := by
  unfold Store.assign
  split
  · exact h
  · exact h.of_same_code rfl rfl

theorem newFunction {f : Function} (hf : f.body.Holds P) : (s.newFunction f).2.Holds P where
  functions g hg := by
    rcases Array.mem_push.1 hg with hg | rfl
    · exact h.functions g hg
    · exact hf
  classes := h.classes

theorem newClass {k : Class} (hk : k.Holds P) : (s.newClass k).2.Holds P where
  functions := h.functions
  classes l hl := by
    rcases Array.mem_push.1 hl with hl | rfl
    · exact h.classes l hl
    · exact hk

theorem builtin (f : Builtin) (now : Except String Float) (arguments : List Value) :
    (f.apply now arguments s).2.Holds P := by
  unfold Builtin.apply
  split <;> exact h.of_same_code rfl rfl

end Holds

end Store

end Scriptlet
