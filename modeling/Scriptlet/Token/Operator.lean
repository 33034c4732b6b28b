/-! The binary operators, grouped by what they do with their operands. -/
namespace Scriptlet

/-- Operators that compute a new value. Each has a form `op=` that assigns. -/
inductive ComputeOp where
  | add | subtract | concat | multiply | divide | remainder | power
  | bitAnd | bitOr | bitXor | shiftLeft | shiftRight | unsignedShiftRight
  deriving DecidableEq

/-- Operators that compare, with a boolean result. -/
inductive RelateOp where
  | equal | notEqual | strictEqual | strictNotEqual
  | less | lessOrEqual | greater | greaterOrEqual
  deriving DecidableEq

/-- Operators that evaluate their right side only when the left side does not decide. -/
inductive LogicOp where
  | and | or
  deriving DecidableEq

inductive BinaryOp where
  | compute (op : ComputeOp)
  | relate (op : RelateOp)
  | logic (op : LogicOp)
  deriving DecidableEq

def ComputeOp.text : ComputeOp → String
  | add => "+"
  | subtract => "-"
  | concat => ".."
  | multiply => "*"
  | divide => "/"
  | remainder => "%"
  | power => "**"
  | bitAnd => "&"
  | bitOr => "|"
  | bitXor => "^"
  | shiftLeft => "<<"
  | shiftRight => ">>"
  | unsignedShiftRight => ">>>"

def RelateOp.text : RelateOp → String
  | equal => "=="
  | notEqual => "!="
  | strictEqual => "==="
  | strictNotEqual => "!=="
  | less => "<"
  | lessOrEqual => "<="
  | greater => ">"
  | greaterOrEqual => ">="

def LogicOp.text : LogicOp → String
  | and => "&&"
  | or => "||"

def BinaryOp.text : BinaryOp → String
  | compute op => op.text
  | relate op => op.text
  | logic op => op.text

def ComputeOp.name : ComputeOp → String
  | add => "Plus"
  | subtract => "Minus"
  | concat => "DotDot"
  | multiply => "Star"
  | divide => "Slash"
  | remainder => "Percent"
  | power => "StarStar"
  | bitAnd => "Ampersand"
  | bitOr => "Pipe"
  | bitXor => "Caret"
  | shiftLeft => "ShiftLeft"
  | shiftRight => "ShiftRight"
  | unsignedShiftRight => "UnsignedShiftRight"

def RelateOp.name : RelateOp → String
  | equal => "Equal"
  | notEqual => "NotEqual"
  | strictEqual => "StrictEqual"
  | strictNotEqual => "StrictNotEqual"
  | less => "LessThan"
  | lessOrEqual => "LessThanOrEqual"
  | greater => "GreaterThan"
  | greaterOrEqual => "GreaterThanOrEqual"

def LogicOp.name : LogicOp → String
  | and => "AndAnd"
  | or => "OrOr"

def BinaryOp.name : BinaryOp → String
  | compute op => op.name
  | relate op => op.name
  | logic op => op.name

end Scriptlet
