import Scriptlet.Span
import Scriptlet.Token.Operator

/-! Programs as trees. Every node carries the range of the source that it was read from. -/
namespace Scriptlet

structure Identifier where
  name : String
  span : Span
  deriving DecidableEq, Inhabited

inductive Literal where
  | int (value : Int64)
  | float (value : Float)
  | string (value : String)
  | bool (value : Bool)
  | null
  | undefined

inductive UnaryOp where
  | not | negate | complement
  deriving DecidableEq

inductive StepOp where
  | increment | decrement
  deriving DecidableEq

/-- A key of a map literal with what stands after its colon. -/
structure Entry (α : Type) where
  key : String
  value : α
  span : Span

inductive Expr where
  | identifier (id : Identifier)
  | literal (value : Literal) (span : Span)
  | binary (op : BinaryOp) (left right : Expr) (span : Span)
  | unary (op : UnaryOp) (operand : Expr) (span : Span)
  | step (op : StepOp) (target : Identifier) (span : Span)
  | ternary (condition resolution alternative : Expr) (span : Span)
  | assign (target : Identifier) (op : Option ComputeOp) (value : Expr) (span : Span)
  | call (callee : Expr) (arguments : List Expr) (span : Span)
  | member (object : Expr) (name : Identifier) (span : Span)
  | index (object key : Expr) (span : Span)
  | list (items : List Expr) (span : Span)
  | map (entries : List (Entry Expr)) (span : Span)
  | lambda (parameters : List Identifier) (body : Expr) (span : Span)
  | input (prompt : Option Expr) (span : Span)
  | nested (inner : Expr) (span : Span)

instance : Inhabited Expr := ⟨.literal .undefined default⟩

def Expr.span : Expr → Span
  | identifier id => id.span
  | literal _ s | binary _ _ _ s | unary _ _ s | step _ _ s | ternary _ _ _ s | assign _ _ _ s
  | call _ _ s | member _ _ s | index _ _ s | list _ s | map _ s | lambda _ _ s | input _ s
  | nested _ s => s

/-- The words that declare variables, the last two for constants. -/
inductive DeclarationKind where
  | var | let_ | pub | const | net
  deriving DecidableEq

def DeclarationKind.isConstant : DeclarationKind → Bool
  | const | net => true
  | _ => false

structure Binding where
  name : Identifier
  value : Option Expr

structure Declaration where
  kind : DeclarationKind
  bindings : List Binding
  span : Span

inductive Initializer where
  | declare (declaration : Declaration)
  | expression (value : Expr) (span : Span)

structure LoopHeader where
  initializer : Option Initializer
  condition : Option Expr
  update : Option Expr

mutual

inductive Stmt where
  | declare (declaration : Declaration)
  | function (declaration : FunctionDecl)
  | class_ (name : Identifier) (parent : Option Identifier) (members : List Member) (span : Span)
  | block (body : Block)
  | conditional (condition : Expr) (resolution : Stmt) (alternative : Option Stmt) (span : Span)
  | whileLoop (condition : Expr) (body : Stmt) (span : Span)
  | forLoop (header : LoopHeader) (body : Stmt) (span : Span)
  | switch (subject : Expr) (cases : List Case) (span : Span)
  | return_ (value : Option Expr) (span : Span)
  | break_ (span : Span)
  | continue_ (span : Span)
  | throw (value : Expr) (span : Span)
  | try_ (body : Block) (handler : Option Handler) (cleanup : Option Block) (span : Span)
  | import_ (target : String) (span : Span)
  | print (values : List Expr) (span : Span)
  | pass (span : Span)
  | expression (value : Expr) (span : Span)

inductive Block where
  | mk (statements : List Stmt) (span : Span)

inductive FunctionDecl where
  | mk (name : Identifier) (parameters : List Identifier) (body : Block) (span : Span)

inductive Member where
  | field (declaration : Declaration)
  | method (declaration : FunctionDecl)

/-- A branch of a `switch`; the one without a value is the default. -/
inductive Case where
  | mk (value : Option Expr) (body : Stmt) (span : Span)

inductive Handler where
  | mk (parameter : Option Identifier) (body : Block)

end

namespace Block

def statements : Block → List Stmt
  | mk s _ => s

def span : Block → Span
  | mk _ s => s

end Block

namespace FunctionDecl

def name : FunctionDecl → Identifier
  | mk n _ _ _ => n

def parameters : FunctionDecl → List Identifier
  | mk _ p _ _ => p

def body : FunctionDecl → Block
  | mk _ _ b _ => b

def span : FunctionDecl → Span
  | mk _ _ _ s => s

end FunctionDecl

namespace Case

def value : Case → Option Expr
  | mk v _ _ => v

def body : Case → Stmt
  | mk _ b _ => b

def span : Case → Span
  | mk _ _ s => s

end Case

namespace Handler

def parameter : Handler → Option Identifier
  | mk p _ => p

def body : Handler → Block
  | mk _ b => b

end Handler

namespace Stmt

def span : Stmt → Span
  | declare d => d.span
  | function f => f.span
  | block b => b.span
  | class_ _ _ _ s | conditional _ _ _ s | whileLoop _ _ s | forLoop _ _ s | switch _ _ s
  | return_ _ s | break_ s | continue_ s | throw _ s | try_ _ _ _ s | import_ _ s | print _ s
  | pass s | expression _ s => s

/-- Statements after which the rest of their list cannot run. -/
def isJump : Stmt → Bool
  | return_ .. | break_ .. | continue_ .. | throw .. => true
  | _ => false

end Stmt

structure Program where
  statements : List Stmt
  span : Span
  deriving Inhabited

end Scriptlet
