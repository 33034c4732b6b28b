import Scriptlet.Program.Reader

/-! The rules of the grammar. A rule for a phrase that holds other expressions or statements takes
them from a `Grammar`; the last section closes the circle, one level of nesting at a time. -/
namespace Scriptlet

/-- How the expressions and statements inside a phrase are read. -/
structure Grammar where
  /-- More than the number of tokens that can still be taken: no loop over phrases runs as often. -/
  limit : Nat
  expression : Precedence → Rule Expr
  statement : Rule Stmt

/-- An operator before an operand, as it stands in the source. -/
structure Prefixed where
  operator : Token
  operand : Expr
  span : Span

def Prefixed.expr (p : Prefixed) : Expr :=
  match p.operator, p.operand with
  | .symbol .plusPlus, .identifier id => .step .increment id p.span
  | .symbol .minusMinus, .identifier id => .step .decrement id p.span
  | .symbol .bang, e => .unary .not e p.span
  | .symbol .tilde, e => .unary .complement e p.span
  | _, e => .unary .negate e p.span

def Expr.isIdentifier : Expr → Bool
  | identifier _ => true
  | _ => false

def Token.literal? : Token → Option Literal
  | int value => some (.int value)
  | float value => some (.float value)
  | string value => some (.string value)
  | keyword .true_ => some (.bool true)
  | keyword .false_ => some (.bool false)
  | keyword .null => some .null
  | keyword .undefined => some .undefined
  | _ => none

def Keyword.declarationKind? : Keyword → Option DeclarationKind
  | var => some .var
  | let_ => some .let_
  | pub => some .pub
  | const => some .const
  | net => some .net
  | _ => none

def Token.declarationKind? : Token → Option DeclarationKind
  | keyword word => word.declarationKind?
  | _ => none

def Token.name? : Token → Option String
  | identifier name => some name
  | string value => some value
  | _ => none

namespace Grammar

open Rule

variable (g : Grammar)

def anyExpression : Rule Expr := g.expression .lowest

/-- Expressions with commas between them, up to and with the closing sign. -/
def expressions (close : Symbol) : Rule (List Expr × Span) := do
  let items ← separated g.anyExpression close g.limit
  return (items, ← expectSign close)

def literal : Rule Expr := do
  let token ← take
  match token.content.literal? with
  | some value => return .literal value token.span
  | none => throw ⟨.expectedExpression token.content, token.span, token.position⟩

def prefixed : Rule Prefixed := do
  let operator ← take
  let operand ← g.expression .prefixed
  let changes := operator.content.isSymbol .plusPlus || operator.content.isSymbol .minusMinus
  if changes && !operand.isIdentifier then
    throw ⟨.invalidIncrementTarget, operand.span, operator.position⟩
  return ⟨operator.content, operand, ⟨operator.span.start, operand.span.stop⟩⟩

def nested : Rule Expr := do
  let start ← expectSign .leftParen
  let inner ← g.anyExpression
  let stop ← expectSign .rightParen
  return .nested inner (start.merge stop)

def list : Rule Expr := do
  let start ← expectSign .leftBracket
  let (items, stop) ← g.expressions .rightBracket
  return .list items (start.merge stop)

def entry : Rule (Entry Expr) := do
  let key ← take
  match key.content.name? with
  | some name =>
    let _ ← expectSign .colon
    let value ← g.anyExpression
    return ⟨name, value, key.span.merge value.span⟩
  | none => throw ⟨.invalidMapKey, key.span, key.position⟩

def map : Rule Expr := do
  let start ← expectSign .leftBrace
  let entries ← separated g.entry .rightBrace g.limit
  let stop ← expectSign .rightBrace
  return .map entries (start.merge stop)

/-- The names of parameters, none of them among the `earlier` ones. -/
def parameterNames (earlier : List String) : (limit : Nat) → Rule (List Identifier)
  | 0 => return []
  | n + 1 => do
    if ← isSign .rightParen then return []
    let here ← current
    let name ← identifier
    if name.name ∈ earlier then
      throw ⟨.duplicateParameter name.name, name.span, here.position⟩
    if ← takeSign .comma then return name :: (← parameterNames (name.name :: earlier) n)
    else return [name]

def parameters : Rule (List Identifier) := do
  let _ ← expectSign .leftParen
  let names ← parameterNames [] g.limit
  let _ ← expectSign .rightParen
  return names

def lambda : Rule Expr := do
  let start ← expectWord .lambda
  let names ← g.parameters
  let _ ← expectSign .fatArrow
  let body ← g.anyExpression
  return .lambda names body (start.merge body.span)

def input : Rule Expr := do
  let start ← expectWord .input
  let _ ← expectSign .leftParen
  let prompt ← if ← isSign .rightParen then pure none else some <$> g.anyExpression
  let stop ← expectSign .rightParen
  return .input prompt (start.merge stop)

/-- The expression that the current token opens, without what may follow it. -/
def primary : Rule Expr := do
  let here ← current
  match here.content with
  | .identifier _ => return .identifier (← identifier)
  | .int _ | .float _ | .string _ | .keyword .true_ | .keyword .false_ | .keyword .null
  | .keyword .undefined => literal
  | .symbol .bang | .symbol (.binary (.compute .subtract)) | .symbol .tilde | .symbol .plusPlus
  | .symbol .minusMinus => return (← g.prefixed).expr
  | .symbol .leftParen => g.nested
  | .symbol .leftBracket => g.list
  | .symbol .leftBrace => g.map
  | .keyword .input => g.input
  | .keyword .lambda => g.lambda
  | .endOfFile => failHere .unexpectedEnd
  | token => failHere (.expectedExpression token)

def assignment (op : Option ComputeOp) : Expr → Rule Expr
  | .identifier target => do
    let _ ← take
    let value ← g.expression .lowest
    return .assign target op value (target.span.merge value.span)
  | left => do
    let here ← current
    throw ⟨.invalidAssignmentTarget, left.span, here.position⟩

/-- How tightly the right side of an operator binds: powers group to the right. -/
def rightPrecedence (op : BinaryOp) : Precedence :=
  if op = .compute .power then op.precedence.lower else op.precedence

def binary (op : BinaryOp) (left : Expr) : Rule Expr := do
  let _ ← take
  let right ← g.expression (rightPrecedence op)
  return .binary op left right ⟨left.span.start, right.span.stop⟩

def ternary (condition : Expr) : Rule Expr := do
  let _ ← expectSign .question
  let resolution ← g.anyExpression
  let _ ← expectSign .colon
  let alternative ← g.expression Precedence.ternary.lower
  return .ternary condition resolution alternative (condition.span.merge alternative.span)

def call (callee : Expr) : Rule Expr := do
  let _ ← expectSign .leftParen
  let (arguments, stop) ← g.expressions .rightParen
  return .call callee arguments (callee.span.merge stop)

def index (object : Expr) : Rule Expr := do
  let _ ← expectSign .leftBracket
  let key ← g.anyExpression
  let stop ← expectSign .rightBracket
  return .index object key (object.span.merge stop)

def member (object : Expr) : Rule Expr := do
  let _ ← expectSign .dot
  match ← attempt identifier with
  | .ok name => return .member object name (object.span.merge name.span)
  | .error e => throw { e with content := .expectedMember }

/-- Extends an expression by the operators that bind it tighter than `bound`. -/
def extend (bound : Precedence) : (limit : Nat) → Expr → Rule Expr
  | 0, left => return left
  | n + 1, left => do
    let here ← current
    if bound < here.content.precedence then
      match here.content with
      | .symbol (.assign op) => extend bound n (← g.assignment op left)
      | .symbol (.binary op) => extend bound n (← g.binary op left)
      | .symbol .question => extend bound n (← g.ternary left)
      | .symbol .leftParen => extend bound n (← g.call left)
      | .symbol .leftBracket => extend bound n (← g.index left)
      | .symbol .dot => extend bound n (← member left)
      | _ => return left
    else return left

def expressionRule (bound : Precedence) : Rule Expr := do
  let left ← g.primary
  g.extend bound g.limit left

def binding (kind : DeclarationKind) : Rule Binding := do
  let name ← identifier
  if ← takeSign (.assign none) then return ⟨name, some (← g.anyExpression)⟩
  else if kind.isConstant then failHere (.missingInitializer name.name)
  else return ⟨name, none⟩

def declaration : Rule Declaration := do
  let word ← take
  match word.content.declarationKind? with
  | some kind =>
    let bindings ← sequence (g.binding kind) g.limit
    let stop ← semicolon
    return ⟨kind, bindings, word.span.merge stop⟩
  | none => throw ⟨.unexpectedToken word.content ["a declaration"], word.span, word.position⟩

/-- Skips tokens until a semicolon was taken, or the current token can start a statement or close a
block. -/
def synchronize : (limit : Nat) → Rule Unit
  | 0 => return
  | n + 1 => do
    let r ← get
    let settled := r.current.content.isEnd ||
      (r.previous.any fun t => t.content.isSymbol .semicolon) ||
      r.current.content.startsStatement || r.current.content.isSymbol .rightBrace
    if settled then return
    else
      let _ ← take
      synchronize n

/-- Notes an error, unless one was noted since the statement started. -/
def report (e : ParseError) : Rule Unit := modify fun r =>
  if r.recovering then r else { r with recovering := true, latestErrors := e :: r.latestErrors }

/-- Goes on after a statement that started at `start` and failed. -/
def recover (start : Span) (e : ParseError) : Rule Unit := do
  report e
  synchronize g.limit
  let r ← get
  if r.current.span = start && !r.current.content.isEnd then
    let _ ← take
    synchronize g.limit

/-- Statements up to a token that is left, or the end of the file. One that fails is left out. -/
def statements (stop : Token → Bool) : (limit : Nat) → Rule (List Stmt)
  | 0 => return []
  | n + 1 => do
    let here ← current
    if stop here.content || here.content.isEnd then return []
    modify fun r => { r with recovering := false }
    match ← attempt g.statement with
    | .ok s => return s :: (← statements stop n)
    | .error e =>
      g.recover here.span e
      statements stop n

def block : Rule Block := do
  let start ← expectSign .leftBrace
  let body ← g.statements (Token.isSymbol .rightBrace) g.limit
  let stop ← expectSign .rightBrace
  return .mk body (start.merge stop)

def function : Rule FunctionDecl := do
  let start ← expectWord .func
  let name ← identifier
  let names ← g.parameters
  let body ← g.block
  return .mk name names body (start.merge body.span)

def classMember : Rule Member := do
  let here ← current
  if here.content.isDeclaration then return .field (← g.declaration)
  else if here.content.isKeyword .func then return .method (← g.function)
  else failExpecting ["a field declaration", "func"]

def class_ : Rule Stmt := do
  let start ← expectWord .class_
  let name ← identifier
  let parent ← if ← takeWord .extends_ then some <$> identifier else pure none
  let _ ← expectSign .leftBrace
  let members ← repeated g.classMember .rightBrace g.limit
  let stop ← expectSign .rightBrace
  return .class_ name parent members (start.merge stop)

def bracketed : Rule Expr := do
  let _ ← expectSign .leftBracket
  let e ← g.anyExpression
  let _ ← expectSign .rightBracket
  return e

def conditional : Rule Stmt := do
  let start ← expectWord .if_
  let condition ← g.bracketed
  let resolution ← g.statement
  if ← takeWord .else_ then
    let alternative ← g.statement
    return .conditional condition resolution (some alternative) (start.merge alternative.span)
  else return .conditional condition resolution none (start.merge resolution.span)

def whileLoop : Rule Stmt := do
  let start ← expectWord .while_
  let condition ← g.bracketed
  let body ← g.statement
  return .whileLoop condition body (start.merge body.span)

def expressionStatement : Rule (Expr × Span) := do
  let e ← g.anyExpression
  let stop ← semicolon
  return (e, e.span.merge stop)

/-- What a `for` loop runs first, with its semicolon. -/
def initializer : Rule (Option Initializer) := do
  let here ← current
  if here.content.isSymbol .semicolon then
    let _ ← take
    return none
  else if here.content.isDeclaration then return some (.declare (← g.declaration))
  else
    let (e, span) ← g.expressionStatement
    return some (.expression e span)

def forLoop : Rule Stmt := do
  let start ← expectWord .for_
  let _ ← expectSign .leftBracket
  let first ← g.initializer
  let condition ← if ← isSign .semicolon then pure none else some <$> g.anyExpression
  let _ ← semicolon
  let update ← if ← isSign .rightBracket then pure none else some <$> g.anyExpression
  let _ ← expectSign .rightBracket
  let body ← g.statement
  return .forLoop ⟨first, condition, update⟩ body (start.merge body.span)

def defaultWord : Rule (Option Expr) := do
  if ← takeWord .default then return none else failExpecting ["case", "default"]

def caseValue : Rule (Option Expr) := do
  if ← takeWord .case then some <$> g.anyExpression else defaultWord

def case : Rule Case := do
  let here ← current
  let value ← g.caseValue
  let _ ← expectSign .colon
  let body ← g.statement
  return .mk value body (here.span.merge body.span)

def switch : Rule Stmt := do
  let start ← expectWord .switch
  let subject ← g.bracketed
  let _ ← expectSign .leftBrace
  let cases ← repeated g.case .rightBrace g.limit
  let stop ← expectSign .rightBrace
  return .switch subject cases (start.merge stop)

def return_ : Rule Stmt := do
  let start ← expectWord .return_
  let value ← if ← isSign .semicolon then pure none else some <$> g.anyExpression
  let stop ← semicolon
  return .return_ value (start.merge stop)

def single (word : Keyword) (make : Span → Stmt) : Rule Stmt := do
  let start ← expectWord word
  let stop ← semicolon
  return make (start.merge stop)

def throw_ : Rule Stmt := do
  let start ← expectWord .throw
  let value ← g.anyExpression
  let stop ← semicolon
  return .throw value (start.merge stop)

def handler : Rule Handler := do
  let parameter ←
    if ← takeSign .leftParen then
      let name ← identifier
      let _ ← expectSign .rightParen
      pure (some name)
    else pure none
  return .mk parameter (← g.block)

def try_ : Rule Stmt := do
  let start ← expectWord .try_
  let body ← g.block
  let caught ← if ← takeWord .catch_ then some <$> g.handler else pure none
  let cleanup ← if ← takeWord .finally_ then some <$> g.block else pure none
  match caught, cleanup with
  | none, none => failHere .missingCatchOrFinally
  | some h, none => return .try_ body caught none (start.merge h.body.span)
  | _, some b => return .try_ body caught cleanup (start.merge b.span)

def import_ : Rule Stmt := do
  let start ← expectWord .import_
  let target ← take
  match target.content.name? with
  | some name =>
    let stop ← semicolon
    return .import_ name (start.merge stop)
  | none =>
    throw ⟨.unexpectedToken target.content ["a module name", "a path string"], target.span,
      target.position⟩

def print : Rule Stmt := do
  let start ← expectWord .print
  let _ ← expectSign .leftParen
  let (values, _) ← g.expressions .rightParen
  let stop ← semicolon
  return .print values (start.merge stop)

def statementRule : Rule Stmt := do
  let here ← current
  match here.content with
  | .keyword .var | .keyword .let_ | .keyword .const | .keyword .net | .keyword .pub =>
    return .declare (← g.declaration)
  | .keyword .func => return .function (← g.function)
  | .keyword .class_ => g.class_
  | .symbol .leftBrace => return .block (← g.block)
  | .keyword .if_ => g.conditional
  | .keyword .while_ => g.whileLoop
  | .keyword .for_ => g.forLoop
  | .keyword .switch => g.switch
  | .keyword .return_ => g.return_
  | .keyword .break_ => single .break_ .break_
  | .keyword .continue_ => single .continue_ .continue_
  | .keyword .throw => g.throw_
  | .keyword .try_ => g.try_
  | .keyword .import_ => import_
  | .keyword .print => g.print
  | .keyword .pass => single .pass .pass
  | _ =>
    let (e, span) ← g.expressionStatement
    return .expression e span

/-! The circle. Between a phrase and an expression or statement directly inside it a token is taken,
except between a statement and the expression it starts with; so twice the number of tokens bounds the
depth of nesting. -/

mutual

def expressionAt (limit : Nat) : (depth : Nat) → Precedence → Rule Expr
  | 0, _ => failHere .unexpectedEnd
  | n + 1, bound => expressionRule ⟨limit, expressionAt limit n, statementAt limit n⟩ bound

def statementAt (limit : Nat) : (depth : Nat) → Rule Stmt
  | 0 => failHere .unexpectedEnd
  | n + 1 => statementRule ⟨limit, expressionAt limit n, statementAt limit n⟩

end

def upTo (limit depth : Nat) : Grammar := ⟨limit, expressionAt limit depth, statementAt limit depth⟩

def for_ (r : Reader) : Grammar := upTo r.remaining (2 * r.remaining)

end Grammar

end Scriptlet
