import Scriptlet.Token.Basic

/-! How tightly operators bind. -/
namespace Scriptlet

/-- From the loosest to the tightest. -/
inductive Precedence where
  | lowest | assign | ternary | or | and | bitOr | bitXor | bitAnd | equals | lessGreater | shift
  | sum | product | power | prefixed | call
  deriving DecidableEq

namespace Precedence

def rank : Precedence → Nat
  | lowest => 0
  | assign => 1
  | ternary => 2
  | or => 3
  | and => 4
  | bitOr => 5
  | bitXor => 6
  | bitAnd => 7
  | equals => 8
  | lessGreater => 9
  | shift => 10
  | sum => 11
  | product => 12
  | power => 13
  | prefixed => 14
  | call => 15

instance : LT Precedence := ⟨fun a b => a.rank < b.rank⟩

instance (a b : Precedence) : Decidable (a < b) := inferInstanceAs (Decidable (a.rank < b.rank))

/-- One step looser. The right side of a right-associative operator is read with it. -/
def lower : Precedence → Precedence
  | lowest | assign => lowest
  | ternary => assign
  | or => ternary
  | and => or
  | bitOr => and
  | bitXor => bitOr
  | bitAnd => bitXor
  | equals => bitAnd
  | lessGreater => equals
  | shift => lessGreater
  | sum => shift
  | product => sum
  | power => product
  | prefixed => power
  | call => prefixed

def name : Precedence → String
  | lowest => "Lowest"
  | assign => "Assign"
  | ternary => "Ternary"
  | or => "Or"
  | and => "And"
  | bitOr => "BitOr"
  | bitXor => "BitXor"
  | bitAnd => "BitAnd"
  | equals => "Equals"
  | lessGreater => "LessGreater"
  | shift => "Shift"
  | sum => "Sum"
  | product => "Product"
  | power => "Power"
  | prefixed => "Prefix"
  | call => "Call"

def all : List Precedence :=
  [lowest, assign, ternary, or, and, bitOr, bitXor, bitAnd, equals, lessGreater, shift, sum, product,
    power, prefixed, call]

def ofName? (s : String) : Option Precedence := all.find? fun p => p.name = s

end Precedence

def ComputeOp.precedence : ComputeOp → Precedence
  | add | subtract | concat => .sum
  | multiply | divide | remainder => .product
  | power => .power
  | bitAnd => .bitAnd
  | bitOr => .bitOr
  | bitXor => .bitXor
  | shiftLeft | shiftRight | unsignedShiftRight => .shift

def RelateOp.precedence : RelateOp → Precedence
  | equal | notEqual | strictEqual | strictNotEqual => .equals
  | less | lessOrEqual | greater | greaterOrEqual => .lessGreater

def LogicOp.precedence : LogicOp → Precedence
  | and => .and
  | or => .or

def BinaryOp.precedence : BinaryOp → Precedence
  | compute op => op.precedence
  | relate op => op.precedence
  | logic op => op.precedence

/-- How tightly a token binds the expression before it to what follows. -/
def Token.precedence : Token → Precedence
  | symbol (.assign _) => .assign
  | symbol .question => .ternary
  | symbol (.binary op) => op.precedence
  | symbol .leftParen | symbol .leftBracket | symbol .dot => .call
  | _ => .lowest

end Scriptlet
