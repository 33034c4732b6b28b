import Scriptlet.Decimal.Layout
import Scriptlet.Program.Grammar
import Scriptlet.Text.Quoted

/-! Programs written as source text. Expressions are written with the parentheses that stand in the
tree and no others. -/
namespace Scriptlet

def commas (items : List String) : String := ", ".intercalate items

namespace Literal

/-- A negative integer, which no source spells as one literal, is written in parentheses. -/
def text : Literal → String
  | int value => if value < 0 then "(" ++ toString value.toInt ++ ")" else toString value.toInt
  | float value => Decimal.literal value
  | string value => Text.literal value
  | bool value => if value then "true" else "false"
  | null => "null"
  | undefined => "undefined"

end Literal

def UnaryOp.sign : UnaryOp → Symbol
  | not => .bang
  | negate => .binary (.compute .subtract)
  | complement => .tilde

def StepOp.sign : StepOp → Symbol
  | increment => .plusPlus
  | decrement => .minusMinus

def names (ids : List Identifier) : String := commas (ids.map (·.name))

/-- An operator before an operand. A blank keeps two signs from growing together. -/
def prefixedText (operator operand : String) : String :=
  if operand.startsWith "-" || operand.startsWith "+" then operator ++ " " ++ operand
  else operator ++ operand

namespace Expr

mutual

def text : Expr → String
  | identifier id => id.name
  | literal value _ => value.text
  | binary op left right _ => left.text ++ " " ++ op.text ++ " " ++ right.text
  | unary op operand _ => prefixedText op.sign.text operand.text
  | step op target _ => prefixedText op.sign.text target.name
  | ternary condition resolution alternative _ =>
    condition.text ++ " ? " ++ resolution.text ++ " : " ++ alternative.text
  | assign target op value _ => target.name ++ " " ++ (Symbol.assign op).text ++ " " ++ value.text
  | call callee arguments _ => callee.text ++ "(" ++ commas (texts arguments) ++ ")"
  | member object name _ => object.text ++ "." ++ name.name
  | index object key _ => object.text ++ "[" ++ key.text ++ "]"
  | list items _ => "[" ++ commas (texts items) ++ "]"
  | map entries _ => "\x7b" ++ commas (entryTexts entries) ++ "\x7d"
  | lambda parameters body _ => "lambda(" ++ names parameters ++ ") => " ++ body.text
  | input none _ => "input()"
  | input (some prompt) _ => "input(" ++ prompt.text ++ ")"
  | nested inner _ => "(" ++ inner.text ++ ")"

def texts : List Expr → List String
  | [] => []
  | e :: es => e.text :: texts es

def entryTexts : List (Entry Expr) → List String
  | [] => []
  | ⟨key, value, _⟩ :: es => (Text.literal key ++ ": " ++ value.text) :: entryTexts es

end

def optionText (lead : String) : Option Expr → String
  | none => ""
  | some e => lead ++ e.text

end Expr

def Prefixed.text (p : Prefixed) : String := prefixedText p.operator.text p.operand.text

def DeclarationKind.text : DeclarationKind → String
  | var => "var"
  | let_ => "let"
  | pub => "pub"
  | const => "const"
  | net => "net"

def Binding.text (b : Binding) : String := b.name.name ++ Expr.optionText " = " b.value

def Declaration.text (d : Declaration) : String :=
  d.kind.text ++ " " ++ commas (d.bindings.map Binding.text) ++ ";"

def Initializer.text : Initializer → String
  | declare d => d.text
  | expression e _ => e.text ++ ";"

def LoopHeader.text (h : LoopHeader) : String :=
  (h.initializer.elim ";" Initializer.text) ++ Expr.optionText " " h.condition ++ ";" ++
    Expr.optionText " " h.update

def braced (items : List String) : String :=
  "\x7b " ++ String.join (items.map (· ++ " ")) ++ "\x7d"

mutual

def Stmt.text : Stmt → String
  | .declare d => d.text
  | .function f => f.text
  | .class_ name parent members _ =>
    "class " ++ name.name ++ (parent.elim "" fun p => " extends " ++ p.name) ++ " " ++
      braced (memberTexts members)
  | .block b => b.text
  | .conditional condition resolution none _ =>
    "if [" ++ condition.text ++ "] " ++ resolution.text
  | .conditional condition resolution (some alternative) _ =>
    "if [" ++ condition.text ++ "] " ++ resolution.text ++ " else " ++ alternative.text
  | .whileLoop condition body _ => "while [" ++ condition.text ++ "] " ++ body.text
  | .forLoop header body _ => "for [" ++ header.text ++ "] " ++ body.text
  | .switch subject cases _ => "switch [" ++ subject.text ++ "] " ++ braced (caseTexts cases)
  | .return_ value _ => "return" ++ Expr.optionText " " value ++ ";"
  | .break_ _ => "break;"
  | .continue_ _ => "continue;"
  | .throw value _ => "throw " ++ value.text ++ ";"
  | .try_ body handler cleanup _ =>
    "try " ++ body.text ++ handlerText handler ++ cleanupText cleanup
  | .import_ target _ => "import " ++ Text.literal target ++ ";"
  | .print values _ => "print(" ++ commas (Expr.texts values) ++ ");"
  | .pass _ => "pass;"
  | .expression e _ => e.text ++ ";"

def Block.text : Block → String
  | .mk statements _ => braced (Stmt.texts statements)

def FunctionDecl.text : FunctionDecl → String
  | .mk name parameters body _ =>
    "func " ++ name.name ++ "(" ++ names parameters ++ ") " ++ body.text

def Stmt.texts : List Stmt → List String
  | [] => []
  | s :: ss => s.text :: Stmt.texts ss

def memberTexts : List Member → List String
  | [] => []
  | .field d :: ms => d.text :: memberTexts ms
  | .method f :: ms => f.text :: memberTexts ms

def caseTexts : List Case → List String
  | [] => []
  | .mk (some value) body _ :: cs => ("case " ++ value.text ++ ": " ++ body.text) :: caseTexts cs
  | .mk none body _ :: cs => ("default: " ++ body.text) :: caseTexts cs

def handlerText : Option Handler → String
  | none => ""
  | some (.mk none body) => " catch " ++ body.text
  | some (.mk (some parameter) body) => " catch (" ++ parameter.name ++ ") " ++ body.text

def cleanupText : Option Block → String
  | none => ""
  | some body => " finally " ++ body.text

end

/-- One line for each statement at the top. -/
def Program.text (p : Program) : String := "\n".intercalate (Stmt.texts p.statements)

end Scriptlet
