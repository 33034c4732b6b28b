import Scriptlet.Decimal.Binary
import Scriptlet.Decimal.Reading
import Scriptlet.Eval.Error
import Scriptlet.Value.Equality

/-! What the operators do with values. Integer results that do not fit in 64 bits are errors; division
by zero is undefined. -/
namespace Scriptlet

/-- An integer result, or overflow of the operator. -/
def checked (operator : String) (result : Option Int64) : Except RuntimeCause Value :=
  match result with
  | some value => .ok (.int value)
  | none => .error (.integerOverflow operator)

def invalidOperands (operator : String) (left right : Value) : Except RuntimeCause Value :=
  .error (.invalidOperands operator left.typeName right.typeName)

/-- The power of an integer, if it fits. Of a base that is zero or one up to its sign only the parity
of a positive exponent matters; any other base overflows by its sixty-fourth power. -/
def exactPower (a : Int) (n : Nat) : Option Int64 :=
  if a.natAbs ≤ 1 then Decimal.fit? (Int.pow a (if n = 0 then 0 else 2 - n % 2))
  else if 64 ≤ n then none
  else Decimal.fit? (Int.pow a n)

/-- The power of an integer to an exponent that is not negative. Exponents beyond 32 bits are taken
only with the bases zero and one. -/
def intPower (a b : Int64) : Option Int64 :=
  if b.toInt < 0x100000000 then exactPower a.toInt b.toInt.toNat
  else if a = 0 || a = 1 then some a
  else none

/-- A quotient of integers: an integer when it is exact, and a float otherwise. -/
def intQuotient (a b : Int64) : Except RuntimeCause Value :=
  if b = 0 then .ok .undefined
  else if a.toInt.tmod b.toInt = 0 then checked "/" (Decimal.fit? (a.toInt.tdiv b.toInt))
  else .ok (.float (nearestFloat a / nearestFloat b))

namespace ComputeOp

def onInts (op : ComputeOp) (a b : Int64) : Except RuntimeCause Value :=
  match op with
  | add => checked "+" (Decimal.fit? (a.toInt + b.toInt))
  | subtract => checked "-" (Decimal.fit? (a.toInt - b.toInt))
  | multiply => checked "*" (Decimal.fit? (a.toInt * b.toInt))
  | divide => intQuotient a b
  | remainder =>
    if b = 0 then .ok .undefined else .ok (.int (Int64.ofInt (a.toInt.tmod b.toInt)))
  | power =>
    if b < 0 then .ok (.float (nearestFloat a ^ nearestFloat b)) else checked "**" (intPower a b)
  | bitAnd => .ok (.int (a &&& b))
  | bitOr => .ok (.int (a ||| b))
  | bitXor => .ok (.int (a ^^^ b))
  | shiftLeft => .ok (.int (a <<< b))
  | shiftRight => .ok (.int (a >>> b))
  | unsignedShiftRight => .ok (.int (a.toUInt64 >>> b.toUInt64).toInt64)
  | concat => .ok (.string (toString a.toInt ++ toString b.toInt))

def onFloats (op : ComputeOp) (a b : Float) : Option Value :=
  match op with
  | add => some (.float (a + b))
  | subtract => some (.float (a - b))
  | multiply => some (.float (a * b))
  | divide => some (if b == 0.0 then .undefined else .float (a / b))
  | remainder => some (if b == 0.0 then .undefined else .float (Decimal.remainder a b))
  | power => some (.float (a ^ b))
  | _ => none

/-- The operator on any two values. Arithmetic on an integer and a float is done on floats. -/
def apply (s : Store) (op : ComputeOp) (left right : Value) : Except RuntimeCause Value :=
  match op, left, right with
  | concat, _, _ => .ok (.string (s.display left ++ s.display right))
  | op, .int a, .int b => op.onInts a b
  | op, _, _ =>
    match left.number?, right.number? with
    | some a, some b =>
      match op.onFloats a b with
      | some value => .ok value
      | none => invalidOperands op.text left right
    | _, _ => invalidOperands op.text left right

end ComputeOp

/-- The order of two floats, unless one is not a number. -/
def compareFloats (a b : Float) : Option Ordering :=
  if a < b then some .lt else if a == b then some .eq else if b < a then some .gt else none

/-- The order of two integers, two strings or two numbers, for values that have one. -/
def Value.order? : Value → Value → Option (Option Ordering)
  | .int a, .int b => some (some (compare a.toInt b.toInt))
  | .string a, .string b => some (some (compare a b))
  | a, b =>
    match a.number?, b.number? with
    | some x, some y => some (compareFloats x y)
    | _, _ => none

namespace RelateOp

def ofOrder : RelateOp → Ordering → Bool
  | less, o => o = .lt
  | lessOrEqual, o => o ≠ .gt
  | greater, o => o = .gt
  | greaterOrEqual, o => o ≠ .lt
  | equal, o | strictEqual, o => o = .eq
  | notEqual, o | strictNotEqual, o => o ≠ .eq

/-- Values without a common order cannot be compared; what is not a number compares false. -/
def apply (s : Store) (op : RelateOp) (left right : Value) : Except RuntimeCause Value :=
  match op with
  | equal => .ok (.bool (s.equal left right))
  | notEqual => .ok (.bool (!s.equal left right))
  | strictEqual => .ok (.bool (left.identical right))
  | strictNotEqual => .ok (.bool (!left.identical right))
  | op =>
    match left.order? right with
    | some (some o) => .ok (.bool (op.ofOrder o))
    | some none => .ok (.bool false)
    | none => invalidOperands op.text left right

end RelateOp

/-- An operator on two values that are there already, which those of logic do not take. -/
def BinaryOp.apply (s : Store) (op : BinaryOp) (left right : Value) : Except RuntimeCause Value :=
  match op with
  | .compute op => op.apply s left right
  | .relate op => op.apply s left right
  | .logic op => invalidOperands op.text left right

def UnaryOp.text : UnaryOp → String
  | .not => "!"
  | .negate => "-"
  | .complement => "~"

def UnaryOp.apply (op : UnaryOp) (operand : Value) : Except RuntimeCause Value :=
  match op, operand with
  | .not, v => .ok (.bool !v.isTruthy)
  | .negate, .int a => checked "-" (Decimal.fit? (-a.toInt))
  | .negate, .float a => .ok (.float (-a))
  | .complement, .int a => .ok (.int (~~~a))
  | op, v => .error (.invalidOperand op.text v.typeName)

namespace Token

/-- The operator that a token stands for between two values; other tokens are no operators. -/
def applyBinary (s : Store) (t : Token) (left right : Value) : Except RuntimeCause Value :=
  match t with
  | symbol (.binary op) => op.apply s left right
  | t => invalidOperands t.text left right

def applyUnary (t : Token) (operand : Value) : Except RuntimeCause Value :=
  match t with
  | symbol .bang => UnaryOp.not.apply operand
  | symbol (.binary (.compute .subtract)) => UnaryOp.negate.apply operand
  | symbol .tilde => UnaryOp.complement.apply operand
  | t => .error (.invalidOperand t.text operand.typeName)

end Token

end Scriptlet
