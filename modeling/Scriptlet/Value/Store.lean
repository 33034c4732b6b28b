import Scriptlet.Value.Basic
import Scriptlet.Value.Dictionary

/-! The store of a running program: scope frames, containers, functions, classes and instances, each
in a table of its own that only grows. -/
namespace Scriptlet

structure Slot where
  value : Value
  constant : Bool
  deriving Inhabited

/-- The bindings of one scope, in the order of their declaration. -/
abbrev Frame := Dictionary Slot

/-- Where a name is looked up: the frame of the innermost scope, then those around it. -/
structure Env where
  frame : Nat
  outer : List Nat := []
  deriving Inhabited

def Env.chain (env : Env) : List Nat := env.frame :: env.outer

inductive FunctionBody where
  | block (body : Block)
  | expression (body : Expr)

structure Function where
  name : Option String
  parameters : List String
  body : FunctionBody
  closure : Env

structure Class where
  name : String
  parent : Option Nat
  members : List Member
  closure : Env

structure Instance where
  class_ : Nat
  env : Env
  deriving Inhabited

structure Store where
  frames : Array Frame := #[]
  arrays : Array (Array Value) := #[]
  maps : Array (Dictionary Value) := #[]
  functions : Array Function := #[]
  classes : Array Class := #[]
  instances : Array Instance := #[]
  deriving Inhabited

inductive AssignError where
  | undefined (name : String)
  | constant (name : String)
  deriving DecidableEq

def AssignError.message : AssignError → String
  | undefined name => s!"variable `{name}` is not defined"
  | constant name => s!"cannot reassign constant `{name}`"

namespace Store

variable (s : Store)

def frame (r : Nat) : Frame := s.frames.getD r .empty

def newGlobal : Env × Store := (⟨s.frames.size, []⟩, { s with frames := s.frames.push .empty })

def enclose (env : Env) : Env × Store :=
  (⟨s.frames.size, env.chain⟩, { s with frames := s.frames.push .empty })

/-- Binds a name in the innermost frame; a binding that is there is replaced. -/
def define (env : Env) (name : String) (value : Value) (constant : Bool) : Store :=
  { s with frames := s.frames.modify env.frame fun f => f.insert name ⟨value, constant⟩ }

def getLocal? (env : Env) (name : String) : Option Value :=
  ((s.frame env.frame).get? name).map (·.value)

def binder? (env : Env) (name : String) : Option Nat :=
  env.chain.find? fun r => (s.frame r).contains name

def slot? (env : Env) (name : String) : Option Slot :=
  env.chain.findSome? fun r => (s.frame r).get? name

def get? (env : Env) (name : String) : Option Value := (s.slot? env name).map (·.value)

def exists_ (env : Env) (name : String) : Bool := (s.slot? env name).isSome

def isConstant (env : Env) (name : String) : Bool := (s.slot? env name).any (·.constant)

def refusal? (env : Env) (name : String) : Option AssignError :=
  match s.slot? env name with
  | none => some (.undefined name)
  | some slot => if slot.constant then some (.constant name) else none

def overwrite (r : Nat) (name : String) (value : Value) : Store :=
  { s with frames := s.frames.modify r fun f => f.insert name ⟨value, false⟩ }

/-- Changes the nearest binding of a name. An assignment that is refused changes nothing. -/
def assign (env : Env) (name : String) (value : Value) : Option AssignError × Store :=
  match s.refusal? env name with
  | some e => (some e, s)
  | none => (none, s.overwrite ((s.binder? env name).getD env.frame) name value)

def array (r : Nat) : Array Value := s.arrays.getD r #[]

def map (r : Nat) : Dictionary Value := s.maps.getD r .empty

def newArray (items : Array Value) : Value × Store :=
  (.array s.arrays.size, { s with arrays := s.arrays.push items })

def newMap (entries : Dictionary Value) : Value × Store :=
  (.map s.maps.size, { s with maps := s.maps.push entries })

def push (r : Nat) (item : Value) : Store :=
  { s with arrays := s.arrays.modify r fun items => items.push item }

def pop (r : Nat) : Store := { s with arrays := s.arrays.modify r Array.pop }

def newFunction (f : Function) : Value × Store :=
  (.function s.functions.size, { s with functions := s.functions.push f })

def newClass (c : Class) : Value × Store :=
  (.class_ s.classes.size, { s with classes := s.classes.push c })

def newInstance (i : Instance) : Value × Store :=
  (.instance_ s.instances.size, { s with instances := s.instances.push i })

def className (r : Nat) : String := (s.classes[r]?).elim "" (·.name)

/-- A class and its ancestors, the farthest first. A parent is older than its children. -/
def lineage (r : Nat) : List Class :=
  match s.classes[r]? with
  | none => []
  | some c =>
    match c.parent with
    | none => [c]
    | some p => if _h : p < r then lineage p ++ [c] else [c]
termination_by r

end Store

end Scriptlet
