import Scriptlet.Decimal.Reading
import Scriptlet.Program.Warning

/-! The pass over a program that folds constants: arithmetic on two integer literals is replaced by its result where
that fits in 64 bits, and parentheses around a literal are dropped. It goes through the program once, counts the
operators that it computes, and looks for what is wrong in what it has already folded. -/
namespace Scriptlet

/-- The result of an operator on two integers, where folding computes it: sums, differences, products
and exact quotients that fit. -/
def foldInts (op : BinaryOp) (a b : Int64) : Option Int64 :=
  match op with
  | .compute .add => Decimal.fit? (a.toInt + b.toInt)
  | .compute .subtract => Decimal.fit? (a.toInt - b.toInt)
  | .compute .multiply => Decimal.fit? (a.toInt * b.toInt)
  | .compute .divide =>
    if b ≠ 0 ∧ a.toInt.tmod b.toInt = 0 then Decimal.fit? (a.toInt.tdiv b.toInt) else none
  | _ => none

def foldOperands (op : BinaryOp) : Expr → Expr → Option Int64
  | .literal (.int a) _, .literal (.int b) _ => foldInts op a b
  | _, _ => none

def Expr.foldedNested (inner : Expr) (span : Span) : Expr :=
  match inner with
  | .literal value at_ => .literal value at_
  | e => .nested e span

structure Findings where
  problems : List Warning := []
  folded : Nat := 0

abbrev Pass := StateM Findings

namespace Pass

def warn (warnings : List Warning) : Pass Unit :=
  modify fun f => { f with problems := f.problems ++ warnings }

def binary (op : BinaryOp) (left right : Expr) (span : Span) : Pass Expr :=
  let warnings := Expr.divisionWarning op right
  if warnings = [] then
    match foldOperands op left right with
    | some value => do
      modify fun f => { f with folded := f.folded + 1 }
      return .literal (.int value) span
    | none => return .binary op left right span
  else do
    warn warnings
    return .binary op left right span

end Pass

mutual

def Expr.optimize : Expr → Pass Expr
  | .identifier id => return .identifier id
  | .literal value span => return .literal value span
  | .binary op left right span => do
    let left ← left.optimize
    let right ← right.optimize
    Pass.binary op left right span
  | .unary op operand span => return .unary op (← operand.optimize) span
  | .step op target span => return .step op target span
  | .ternary condition resolution alternative span =>
    return .ternary (← condition.optimize) (← resolution.optimize) (← alternative.optimize) span
  | .assign target op value span => return .assign target op (← value.optimize) span
  | .call callee arguments span => return .call (← callee.optimize) (← Expr.optimizeList arguments) span
  | .member object name span => return .member (← object.optimize) name span
  | .index object key span => return .index (← object.optimize) (← key.optimize) span
  | .list items span => return .list (← Expr.optimizeList items) span
  | .map entries span => return .map (← Expr.optimizeEntries entries) span
  | .lambda parameters body span => return .lambda parameters (← body.optimize) span
  | .input none span => return .input none span
  | .input (some prompt) span => return .input (some (← prompt.optimize)) span
  | .nested inner span => return Expr.foldedNested (← inner.optimize) span

def Expr.optimizeList : List Expr → Pass (List Expr)
  | [] => return []
  | e :: es => return (← e.optimize) :: (← Expr.optimizeList es)

def Expr.optimizeEntries : List (Entry Expr) → Pass (List (Entry Expr))
  | [] => return []
  | ⟨key, value, span⟩ :: es => return ⟨key, ← value.optimize, span⟩ :: (← Expr.optimizeEntries es)

end

def Expr.optimizeOption : Option Expr → Pass (Option Expr)
  | none => return none
  | some e => return some (← e.optimize)

def Declaration.optimize (d : Declaration) : Pass Declaration :=
  return { d with bindings := ← go d.bindings }
where
  go : List Binding → Pass (List Binding)
    | [] => return []
    | b :: bs => return { b with value := ← Expr.optimizeOption b.value } :: (← go bs)

def Initializer.optimize : Initializer → Pass Initializer
  | .declare d => return .declare (← d.optimize)
  | .expression e span => return .expression (← e.optimize) span

def LoopHeader.optimize (h : LoopHeader) : Pass LoopHeader := do
  let initializer ← match h.initializer with
    | none => pure none
    | some i => some <$> i.optimize
  let condition ← Expr.optimizeOption h.condition
  let update ← Expr.optimizeOption h.update
  return { initializer, condition, update }

mutual

def Stmt.optimize : Stmt → Pass Stmt
  | .declare d => return .declare (← d.optimize)
  | .function f => return .function (← f.optimize)
  | .class_ name parent members span => return .class_ name parent (← optimizeMembers members) span
  | .block b => return .block (← b.optimize)
  | .conditional condition resolution none span => do
    let condition ← condition.optimize
    let resolution ← resolution.optimize
    Pass.warn (branchWarning condition resolution none)
    return .conditional condition resolution none span
  | .conditional condition resolution (some alternative) span => do
    let condition ← condition.optimize
    let resolution ← resolution.optimize
    let alternative ← alternative.optimize
    Pass.warn (branchWarning condition resolution (some alternative))
    return .conditional condition resolution (some alternative) span
  | .whileLoop condition body span => return .whileLoop (← condition.optimize) (← body.optimize) span
  | .forLoop header body span => return .forLoop (← header.optimize) (← body.optimize) span
  | .switch subject cases span => return .switch (← subject.optimize) (← optimizeCases cases) span
  | .return_ value span => return .return_ (← Expr.optimizeOption value) span
  | .break_ span => return .break_ span
  | .continue_ span => return .continue_ span
  | .throw value span => return .throw (← value.optimize) span
  | .try_ body handler cleanup span =>
    return .try_ (← body.optimize) (← optimizeHandler handler) (← optimizeCleanup cleanup) span
  | .import_ target span => return .import_ target span
  | .print values span => return .print (← Expr.optimizeList values) span
  | .pass span => return .pass span
  | .expression e span => return .expression (← e.optimize) span

def Block.optimize : Block → Pass Block
  | .mk statements span => do
    let statements ← Stmt.optimizeList statements
    Pass.warn (unreachableWarning statements)
    return .mk statements span

def FunctionDecl.optimize : FunctionDecl → Pass FunctionDecl
  | .mk name parameters body span => return .mk name parameters (← body.optimize) span

def Stmt.optimizeList : List Stmt → Pass (List Stmt)
  | [] => return []
  | s :: ss => return (← s.optimize) :: (← Stmt.optimizeList ss)

def optimizeMembers : List Member → Pass (List Member)
  | [] => return []
  | .field d :: ms => return .field (← d.optimize) :: (← optimizeMembers ms)
  | .method f :: ms => return .method (← f.optimize) :: (← optimizeMembers ms)

def optimizeCases : List Case → Pass (List Case)
  | [] => return []
  | .mk value body span :: cs =>
    return .mk (← Expr.optimizeOption value) (← body.optimize) span :: (← optimizeCases cs)

def optimizeHandler : Option Handler → Pass (Option Handler)
  | none => return none
  | some (.mk parameter body) => return some (.mk parameter (← body.optimize))

def optimizeCleanup : Option Block → Pass (Option Block)
  | none => return none
  | some body => return some (← body.optimize)

end

namespace Program

/-- A program after folding, with the number of operators computed and the warnings by where they start. -/
structure Optimized where
  program : Program
  folded : Nat
  warnings : List Warning

def pass (p : Program) : Pass Program := do
  let statements ← Stmt.optimizeList p.statements
  Pass.warn (unreachableWarning statements)
  return { p with statements }

def optimize (p : Program) : Optimized :=
  let (program, found) := p.pass.run {}
  ⟨program, found.folded, found.problems.mergeSort fun a b => a.span.start ≤ b.span.start⟩

end Program

end Scriptlet
