import Scriptlet.Program.Outline
import Scriptlet.Program.Printer

/-! The outline of a program, with every part and every range. -/
namespace Scriptlet

def Span.outline (s : Span) : Outline :=
  .record "SrcSpan" [("start", .leaf (toString s.start)), ("end", .leaf (toString s.stop))]

def textOutline (s : String) : Outline := .leaf (Text.quoted s)

def Identifier.outline (id : Identifier) : Outline :=
  .record "Identifier" [("value", textOutline id.name), ("location", id.span.outline)]

def identifierOutlines (ids : List Identifier) : Outline := .list (ids.map Identifier.outline)

def Literal.outline (value : Literal) (span : Span) : Outline :=
  let location := ("location", span.outline)
  match value with
  | int v => .record "Int" [("value", .leaf (toString v.toInt)), location]
  | float v => .record "Float" [("value", .leaf (Decimal.literal v)), location]
  | string v => .record "String" [("value", textOutline v), location]
  | bool v => .record "Bool" [("value", .leaf (if v then "true" else "false")), location]
  | null => .record "Null" [location]
  | undefined => .record "Undefined" [location]

def prefixedOutline (operator : String) (operand : Outline) (span : Span) : Outline :=
  .record "Prefix" [("operator", .leaf operator), ("expression", operand), ("location", span.outline)]

namespace Expr

/-- The name of a node's kind; parentheses have none. -/
def kind? : Expr → Option String
  | identifier _ => some "Identifier"
  | literal .. => some "Primitive"
  | binary .. => some "Infix"
  | unary .. | step .. => some "Prefix"
  | ternary .. => some "Ternary"
  | assign .. => some "Assignment"
  | call .. => some "Call"
  | member .. => some "Member"
  | index .. => some "Index"
  | list .. => some "List"
  | map .. => some "Map"
  | lambda .. => some "Lambda"
  | input .. => some "Input"
  | nested .. => none

def named (e : Expr) (node : Outline) : Outline :=
  match e.kind? with
  | some kind => .wrap kind node
  | none => node

mutual

/-- The outline of the node itself; those of its parts are under the names of their kinds. -/
def node : Expr → Outline
  | identifier id => id.outline
  | literal value span => value.outline span
  | binary op left right span =>
    .record "Infix" [("left", left.named left.node), ("operator", .leaf op.name),
      ("right", right.named right.node), ("location", span.outline)]
  | unary op operand span => prefixedOutline op.sign.name (operand.named operand.node) span
  | step op target span => prefixedOutline op.sign.name (.wrap "Identifier" target.outline) span
  | ternary condition resolution alternative span =>
    .record "Ternary" [("condition", condition.named condition.node),
      ("resolution", resolution.named resolution.node),
      ("alternative", alternative.named alternative.node), ("location", span.outline)]
  | assign target op value span =>
    .record "Assignment" [("target", target.outline), ("operator", .leaf (Symbol.assign op).name),
      ("value", value.named value.node), ("location", span.outline)]
  | call callee arguments span =>
    .record "Call" [("callee", callee.named callee.node), ("arguments", .list (outlines arguments)),
      ("location", span.outline)]
  | member object name span =>
    .record "Member" [("object", object.named object.node), ("name", name.outline),
      ("location", span.outline)]
  | index object key span =>
    .record "Index" [("object", object.named object.node), ("index", key.named key.node),
      ("location", span.outline)]
  | list items span =>
    .record "List" [("items", .list (outlines items)), ("location", span.outline)]
  | map entries span =>
    .record "MapLiteral" [("entries", .list (entryOutlines entries)), ("location", span.outline)]
  | lambda parameters body span =>
    .record "Lambda" [("parameters", identifierOutlines parameters),
      ("body", body.named body.node), ("location", span.outline)]
  | input none span => .record "Input" [("prompt", .option none), ("location", span.outline)]
  | input (some prompt) span =>
    .record "Input" [("prompt", .option (some (prompt.named prompt.node))),
      ("location", span.outline)]
  | nested inner span =>
    .record "Nested" [("expression", inner.named inner.node), ("location", span.outline)]

def outlines : List Expr → List Outline
  | [] => []
  | e :: es => e.named e.node :: outlines es

def entryOutlines : List (Entry Expr) → List Outline
  | [] => []
  | ⟨key, value, span⟩ :: es =>
    .record "MapEntry" [("key", textOutline key), ("value", value.named value.node),
      ("location", span.outline)] :: entryOutlines es

end

def outline (e : Expr) : Outline := e.named e.node

def optionOutline (e : Option Expr) : Outline := .option (e.map outline)

end Expr

def Prefixed.outline (p : Prefixed) : Outline :=
  prefixedOutline p.operator.dump p.operand.outline p.span

def DeclarationKind.name : DeclarationKind → String
  | var => "Var"
  | let_ => "Let"
  | pub => "Pub"
  | const => "Const"
  | net => "Net"

def Binding.outline (b : Binding) : Outline :=
  .record "Binding" [("name", b.name.outline), ("value", Expr.optionOutline b.value)]

def Declaration.outline (d : Declaration) : Outline :=
  .record "Declaration" [("kind", .leaf d.kind.name), ("bindings", .list (d.bindings.map Binding.outline)),
    ("location", d.span.outline)]

def expressionOutline (e : Expr) (span : Span) : Outline :=
  .record "ExpressionStatement" [("expression", e.outline), ("location", span.outline)]

def Initializer.outline : Initializer → Outline
  | declare d => .wrap "Declaration" d.outline
  | expression e span => .wrap "Expression" (expressionOutline e span)

def wordOutline (name : String) (span : Span) : Outline := .record name [("location", span.outline)]

def Stmt.kind : Stmt → String
  | declare _ => "Declaration"
  | function _ => "Function"
  | class_ .. => "Class"
  | block _ => "Block"
  | conditional .. => "If"
  | whileLoop .. => "While"
  | forLoop .. => "For"
  | switch .. => "Switch"
  | return_ .. => "Return"
  | break_ .. => "Break"
  | continue_ .. => "Continue"
  | throw .. => "Throw"
  | try_ .. => "Try"
  | import_ .. => "Import"
  | print .. => "Print"
  | pass .. => "Pass"
  | expression .. => "Expression"

mutual

/-- The outline of the statement itself; those inside it are under the names of their kinds. -/
def Stmt.node : Stmt → Outline
  | .declare d => d.outline
  | .function f => f.outline
  | .class_ name parent members span =>
    .record "ClassDeclaration" [("name", name.outline),
      ("parent", .option (parent.map Identifier.outline)), ("members", .list (memberOutlines members)),
      ("location", span.outline)]
  | .block b => b.outline
  | .conditional condition resolution none span =>
    .record "Conditional" [("condition", condition.outline),
      ("resolution", .wrap resolution.kind resolution.node), ("alternative", .option none),
      ("location", span.outline)]
  | .conditional condition resolution (some alternative) span =>
    .record "Conditional" [("condition", condition.outline),
      ("resolution", .wrap resolution.kind resolution.node),
      ("alternative", .option (some (.wrap alternative.kind alternative.node))),
      ("location", span.outline)]
  | .whileLoop condition body span =>
    .record "ConditionalLoop" [("condition", condition.outline), ("body", .wrap body.kind body.node),
      ("location", span.outline)]
  | .forLoop header body span =>
    .record "FixedLoop" [("initializer", .option (header.initializer.map Initializer.outline)),
      ("condition", Expr.optionOutline header.condition),
      ("update", Expr.optionOutline header.update), ("body", .wrap body.kind body.node),
      ("location", span.outline)]
  | .switch subject cases span =>
    .record "Switch" [("subject", subject.outline), ("cases", .list (caseOutlines cases)),
      ("location", span.outline)]
  | .return_ value span =>
    .record "Return" [("value", Expr.optionOutline value), ("location", span.outline)]
  | .break_ span => wordOutline "Break" span
  | .continue_ span => wordOutline "Continue" span
  | .throw value span => .record "Throw" [("value", value.outline), ("location", span.outline)]
  | .try_ body handler cleanup span =>
    .record "Try" [("body", body.outline), ("catch", handlerOutline handler),
      ("finally", cleanupOutline cleanup), ("location", span.outline)]
  | .import_ target span =>
    .record "Import" [("target", textOutline target), ("location", span.outline)]
  | .print values span =>
    .record "Output" [("values", .list (Expr.outlines values)), ("location", span.outline)]
  | .pass span => wordOutline "Pass" span
  | .expression e span => expressionOutline e span

def Block.outline : Block → Outline
  | .mk statements span =>
    .record "Block" [("statements", .list (Stmt.outlines statements)), ("location", span.outline)]

def FunctionDecl.outline : FunctionDecl → Outline
  | .mk name parameters body span =>
    .record "FunctionDeclaration" [("name", name.outline),
      ("parameters", identifierOutlines parameters), ("body", body.outline),
      ("location", span.outline)]

def Stmt.outlines : List Stmt → List Outline
  | [] => []
  | s :: ss => .wrap s.kind s.node :: Stmt.outlines ss

def memberOutlines : List Member → List Outline
  | [] => []
  | .field d :: ms => .wrap "Field" d.outline :: memberOutlines ms
  | .method f :: ms => .wrap "Method" f.outline :: memberOutlines ms

def caseOutlines : List Case → List Outline
  | [] => []
  | .mk value body span :: cs =>
    .record "Case" [("value", Expr.optionOutline value), ("body", .wrap body.kind body.node),
      ("location", span.outline)] :: caseOutlines cs

def handlerOutline : Option Handler → Outline
  | none => .option none
  | some (.mk parameter body) =>
    .option (some (.record "Catch" [("parameter", .option (parameter.map Identifier.outline)),
      ("body", body.outline)]))

def cleanupOutline : Option Block → Outline
  | none => .option none
  | some body => .option (some body.outline)

end

def Stmt.outline (s : Stmt) : Outline := .wrap s.kind s.node

def Program.outline (p : Program) : Outline :=
  .record "Program" [("statements", .list (Stmt.outlines p.statements)), ("location", p.span.outline)]

end Scriptlet
