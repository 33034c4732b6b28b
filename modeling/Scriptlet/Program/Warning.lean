import Scriptlet.Program.Basic

/-! What looks wrong in a program that can still be run. -/
namespace Scriptlet

inductive WarningKind where
  | divisionByZero
  | unreachableCode
  | unreachableIf
  | unreachableElse
  deriving DecidableEq

structure Warning where
  kind : WarningKind
  span : Span
  deriving DecidableEq

namespace WarningKind

def title : WarningKind → String
  | divisionByZero => "Division by zero"
  | unreachableCode => "Unreachable code"
  | unreachableIf => "Unreachable if clause"
  | unreachableElse => "Unreachable else clause"

def label? : WarningKind → Option String
  | divisionByZero => some "This always evaluates to `undefined`"
  | unreachableCode => some "This code is never executed"
  | _ => none

end WarningKind

namespace Expr

def isZero : Expr → Bool
  | literal (.int value) _ => value = 0
  | literal (.float value) _ => value == 0.0
  | _ => false

def divisionWarning (op : BinaryOp) (right : Expr) : List Warning :=
  if (op = .compute .divide || op = .compute .remainder) && right.isZero then
    [⟨.divisionByZero, right.span⟩]
  else []

end Expr

def afterJump : List Stmt → List Stmt
  | [] => []
  | s :: ss => if s.isJump then ss else afterJump ss

def unreachableWarning (statements : List Stmt) : List Warning :=
  let dead := afterJump statements
  match dead.head?, dead.getLast? with
  | some first, some last => [⟨.unreachableCode, first.span.merge last.span⟩]
  | _, _ => []

def branchWarning (condition : Expr) (resolution : Stmt) (alternative : Option Stmt) : List Warning :=
  match condition, alternative with
  | .literal (.bool true) _, some s => [⟨.unreachableElse, s.span⟩]
  | .literal (.bool false) _, _ => [⟨.unreachableIf, resolution.span⟩]
  | _, _ => []

end Scriptlet
