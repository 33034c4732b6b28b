import Scriptlet.Eval.Operator
import Scriptlet.Text.Blank

/-! The functions that every program can call. One that fails changes nothing and says why. -/
namespace Scriptlet

def occursIn (part : List Char) : List Char → Bool
  | [] => part.isEmpty
  | c :: cs => part.isPrefixOf (c :: cs) || occursIn part cs

namespace Builtin

def expected (what : String) (got : Value) : String := s!"expected {what}, got `{got.typeName}`"

/-- The integer that is left of a finite number without its fraction, or the nearest in 64 bits. -/
def truncated? (x : Float) : Option Int64 := if x.isFinite then some x.toInt64 else none

def toInt (v : Value) : Except String Value :=
  match v with
  | .int a => .ok (.int a)
  | .bool b => .ok (.int (if b then 1 else 0))
  | .string s =>
    let cs := Text.trim s.toList
    match Decimal.int? cs with
    | some a => .ok (.int a)
    | none =>
      match (Decimal.float? cs).bind truncated? with
      | some a => .ok (.int a)
      | none => .error s!"cannot convert \"{s}\" to int"
  | .float x =>
    match truncated? x with
    | some a => .ok (.int a)
    | none => .error (expected "a number, boolean or string" v)
  | v => .error (expected "a number, boolean or string" v)

def toFloat (v : Value) : Except String Value :=
  match v with
  | .int a => .ok (.float (nearestFloat a))
  | .float x => .ok (.float x)
  | .bool b => .ok (.float (if b then 1.0 else 0.0))
  | .string s =>
    match Decimal.float? (Text.trim s.toList) with
    | some x => .ok (.float x)
    | none => .error s!"cannot convert \"{s}\" to float"
  | v => .error (expected "a number, boolean or string" v)

def length (s : Store) (v : Value) : Except String Value :=
  match v with
  | .string text => .ok (.ofNat text.length)
  | .array r => .ok (.ofNat (s.array r).size)
  | .map r => .ok (.ofNat (s.map r).size)
  | v => .error (expected "a string, array or map" v)

def contains (s : Store) (container item : Value) : Except String Value :=
  match container, item with
  | .map r, .string key => .ok (.bool ((s.map r).contains key))
  | .array r, item => .ok (.bool ((s.array r).toList.any fun v => s.equal v item))
  | .string text, .string part => .ok (.bool (occursIn part.toList text.toList))
  | container, _ => .error (expected "a map, array or string" container)

def magnitude (v : Value) : Except String Value :=
  match v with
  | .int a =>
    match Decimal.fit? a.toInt.natAbs with
    | some b => .ok (.int b)
    | none => .error "integer overflow"
  | .float x => .ok (.float x.abs)
  | v => .error (expected "a number" v)

/-- The first of the arguments, as doubles, that no later one beats. -/
def extremum (name : String) (beats : Float → Float → Bool) (arguments : List Value) :
    Except String Value := do
  let best ← arguments.foldlM (fun (best : Option (Value × Float)) v =>
    match v.number?, best with
    | none, _ => .error (expected "numbers" v)
    | some x, none => .ok (some (v, x))
    | some x, some (_, y) => .ok (if beats x y then some (v, x) else best)) none
  match best with
  | some (v, _) => .ok v
  | none => .error s!"`{name}` needs at least one argument"

/-- Runs a function on as many arguments as it takes. `now` is what it is told of the time. -/
def apply (f : Builtin) (now : Except String Float) (arguments : List Value) (s : Store) :
    Except String Value × Store :=
  match f, arguments with
  | len, [v] => (length s v, s)
  | type, [v] => (.ok (.string v.typeName), s)
  | str, [v] => (.ok (.string (s.display v)), s)
  | int, [v] => (toInt v, s)
  | float, [v] => (toFloat v, s)
  | push, [.array r, item] => (.ok (.ofNat ((s.array r).size + 1)), s.push r item)
  | push, [v, _] => (.error (expected "an array" v), s)
  | pop, [.array r] => (.ok ((s.array r).back?.getD .undefined), s.pop r)
  | pop, [v] => (.error (expected "an array" v), s)
  | keys, [.map r] =>
    let (v, s) := s.newArray ((s.map r).keys.map Value.string).toArray
    (.ok v, s)
  | keys, [v] => (.error (expected "a map" v), s)
  | values, [.map r] =>
    let (v, s) := s.newArray (s.map r).values.toArray
    (.ok v, s)
  | values, [v] => (.error (expected "a map" v), s)
  | has, [container, item] => (contains s container item, s)
  | error, [message] => (.ok (.error (s.display message) none), s)
  | error, [message, data] => (.ok (.error (s.display message) (some data)), s)
  | error, vs => (.error s!"expects 1 or 2 argument(s), got {vs.length}", s)
  | clock, _ => (now.map .float, s)
  | abs, [v] => (magnitude v, s)
  | min, vs => (extremum "min" (fun x y => x < y) vs, s)
  | max, vs => (extremum "max" (fun x y => x > y) vs, s)
  | _, _ => (.ok .undefined, s)

end Builtin

namespace Native

def standard : Dictionary Native := .ofList (Builtin.all.map fun f => (f.name, builtin f))

end Native

end Scriptlet
