import Scriptlet.Program.Basic

/-! The values of the language. Containers, functions, classes and instances live in a store, and a
value holds the number of their cell there: two values share a container when the numbers agree. -/
namespace Scriptlet

inductive Builtin where
  | len | type | str | int | float | push | pop | keys | values | has | error | clock | abs | min | max
  deriving DecidableEq

namespace Builtin

def all : List Builtin :=
  [len, type, str, int, float, push, pop, keys, values, has, error, clock, abs, min, max]

def name : Builtin → String
  | len => "len"
  | type => "type"
  | str => "str"
  | int => "int"
  | float => "float"
  | push => "push"
  | pop => "pop"
  | keys => "keys"
  | values => "values"
  | has => "has"
  | error => "error"
  | clock => "clock"
  | abs => "abs"
  | min => "min"
  | max => "max"

def arity : Builtin → Option Nat
  | len | type | str | int | float | pop | keys | values | abs => some 1
  | push | has => some 2
  | clock => some 0
  | error | min | max => none

end Builtin

/-- A function that is not written in the language: one of the language's own, or one that the host
adds and tells from its others by a number. -/
inductive Native where
  | builtin (function : Builtin)
  | host (id : Nat) (name : String) (arity : Option Nat)
  deriving DecidableEq

namespace Native

def name : Native → String
  | builtin f => f.name
  | host _ name _ => name

def arity : Native → Option Nat
  | builtin f => f.arity
  | host _ _ arity => arity

end Native

/-- The double nearest to an integer; the sign is put before the magnitude. -/
def nearestFloat (a : Int64) : Float :=
  if a < 0 then -a.toInt.natAbs.toUInt64.toFloat else a.toUInt64.toFloat

inductive Value where
  | null
  | undefined
  | bool (value : Bool)
  | int (value : Int64)
  | float (value : Float)
  | string (value : String)
  | array (cell : Nat)
  | map (cell : Nat)
  | function (cell : Nat)
  | native (function : Native)
  | error (message : String) (data : Option Value)
  | class_ (cell : Nat)
  | instance_ (cell : Nat)

namespace Value

instance : Inhabited Value := ⟨undefined⟩

def typeName : Value → String
  | null => "null"
  | undefined => "undefined"
  | bool _ => "boolean"
  | int _ => "int"
  | float _ => "float"
  | string _ => "string"
  | array _ => "array"
  | map _ => "map"
  | function _ => "function"
  | native _ => "native"
  | error _ _ => "error"
  | class_ _ => "class"
  | instance_ _ => "instance"

/-- Only null, undefined, false, zero and the empty string count as false. -/
def isTruthy : Value → Bool
  | null | undefined => false
  | bool value => value
  | int value => value ≠ 0
  | float value => value != 0.0
  | string value => !value.isEmpty
  | _ => true

def isCallable : Value → Bool
  | function _ | native _ | class_ _ => true
  | _ => false

/-- A number as a double; integers beyond 53 bits go to the nearest one. -/
def number? : Value → Option Float
  | int value => some (nearestFloat value)
  | float value => some value
  | _ => none

def ofLiteral : Literal → Value
  | .int value => int value
  | .float value => float value
  | .string value => string value
  | .bool value => bool value
  | .null => null
  | .undefined => undefined

def ofNat (n : Nat) : Value := int (Int64.ofNat n)

end Value

end Scriptlet
