import Scriptlet.Eval.World
import Scriptlet.Program.Load
import Scriptlet.Value.Store

/-! The state of a running program, and the actions on it. An action ends with a result or with a
signal that leaves the constructs around it, and the state is there in both cases. -/
namespace Scriptlet

structure Options where
  /-- Fold constants before running. -/
  optimize : Bool := true
  /-- Assigning to an undeclared name declares it in the current frame. -/
  implicitDeclarations : Bool := false
  /-- How deep calls may nest. -/
  maxCallDepth : Nat := 256
  deriving DecidableEq

/-- `importing` holds the modules that are being imported. -/
structure Machine where
  store : Store := {}
  depth : Nat := 0
  input : Stdin := {}
  output : String := ""
  notices : Array Notice := #[]
  importing : List (List String) := []
  clock : Clock := 0

instance : Inhabited Machine := ⟨{}⟩

/-- What ends an action early. Calls take `return_`, loops take `break_` and `continue_`, and handlers
take `throw`; nothing takes `exhausted`, which ends a run that takes more steps than it was given. -/
inductive Signal where
  | return_ (value : Value)
  | break_ (span : Span)
  | continue_ (span : Span)
  | throw (value : Value) (span : Span)
  | error (content : RuntimeError)
  | exhausted

abbrev Action := EStateM Signal Machine

namespace Action

def fail {α : Type} (cause : RuntimeCause) (span : Span) : Action α :=
  throw (.error ⟨cause, span⟩)

def ofExcept {α : Type} (span : Span) : Except RuntimeCause α → Action α
  | .ok a => pure a
  | .error cause => fail cause span

def attempt {α : Type} (action : Action α) : Action (Except Signal α) := fun m =>
  match action m with
  | .ok a m => .ok (.ok a) m
  | .error .exhausted m => .error .exhausted m
  | .error signal m => .ok (.error signal) m

def look {α : Type} (f : Store → α) : Action α := fun m => .ok (f m.store) m

def update {α : Type} (f : Store → α × Store) : Action α := fun m =>
  match m with
  | ⟨store, depth, input, output, notices, importing, clock⟩ =>
    let (a, store) := f store
    .ok a ⟨store, depth, input, output, notices, importing, clock⟩

@[simp] theorem attempt_ok {α : Type} {action : Action α} {m m' : Machine} {a : α}
    (h : action m = .ok a m') : attempt action m = .ok (.ok a) m' := by
  simp [attempt, h]

@[simp] theorem look_apply {α : Type} (f : Store → α) (m : Machine) :
    look f m = .ok (f m.store) m := rfl

@[simp] theorem update_apply {α : Type} (f : Store → α × Store) (m : Machine) :
    update f m = .ok (f m.store).1 { m with store := (f m.store).2 } := rfl

def enclose (env : Env) : Action Env := update fun s => s.enclose env

def define (env : Env) (name : String) (value : Value) (constant : Bool) : Action Unit :=
  update fun s => ((), s.define env name value constant)

def write (text : String) : Action Unit := modify fun m => { m with output := m.output ++ text }

def notify (notices : List Notice) : Action Unit :=
  modify fun m => { m with notices := m.notices ++ notices }

def nextLine : Action (List UInt8) := modifyGet fun m =>
  (m.input.nextLine.1, { m with input := m.input.nextLine.2 })

def tellTime (f : Builtin) : Action (Except String Float) := modifyGet fun m =>
  ((m.clock.tell f).1, { m with clock := (m.clock.tell f).2 })

end Action

def withoutBreaks (line : String) : String :=
  String.ofList (line.toList.reverse.dropWhile fun c => c = '\n' || c = '\r').reverse

end Scriptlet
