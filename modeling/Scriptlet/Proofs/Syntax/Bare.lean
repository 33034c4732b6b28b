import Scriptlet.Program.Basic

/-! Programs without places. Two programs are the same up to where they stand in a source when their bare
forms, with all spans wiped out, are the same. -/
namespace Scriptlet

def Identifier.bare (id : Identifier) : Identifier := { id with span := default }

theorem Identifier.bare_eq {a b : Identifier} (h : a.name = b.name) : a.bare = b.bare := by
  rw [bare, bare, h]

namespace Expr

mutual

def bare : Expr → Expr
  | identifier id => identifier id.bare
  | literal value _ => literal value default
  | binary op left right _ => binary op left.bare right.bare default
  | unary op operand _ => unary op operand.bare default
  | step op target _ => step op target.bare default
  | ternary condition resolution alternative _ =>
    ternary condition.bare resolution.bare alternative.bare default
  | assign target op value _ => assign target.bare op value.bare default
  | call callee arguments _ => call callee.bare (bareList arguments) default
  | member object name _ => member object.bare name.bare default
  | index object key _ => index object.bare key.bare default
  | list items _ => list (bareList items) default
  | map entries _ => map (bareEntries entries) default
  | lambda parameters body _ => lambda (parameters.map Identifier.bare) body.bare default
  | input none _ => input none default
  | input (some prompt) _ => input (some prompt.bare) default
  | nested inner _ => nested inner.bare default

def bareList : List Expr → List Expr
  | [] => []
  | e :: es => e.bare :: bareList es

def bareEntries : List (Entry Expr) → List (Entry Expr)
  | [] => []
  | ⟨key, value, _⟩ :: es => ⟨key, value.bare, default⟩ :: bareEntries es

end

end Expr

def Binding.bare (b : Binding) : Binding := ⟨b.name.bare, b.value.map Expr.bare⟩

def Declaration.bare (d : Declaration) : Declaration := ⟨d.kind, d.bindings.map Binding.bare, default⟩

def Initializer.bare : Initializer → Initializer
  | declare d => declare d.bare
  | expression e _ => expression e.bare default

def LoopHeader.bare (h : LoopHeader) : LoopHeader :=
  ⟨h.initializer.map Initializer.bare, h.condition.map Expr.bare, h.update.map Expr.bare⟩

mutual

def Stmt.bare : Stmt → Stmt
  | .declare d => .declare d.bare
  | .function f => .function f.bare
  | .class_ name parent members _ =>
    .class_ name.bare (parent.map Identifier.bare) (bareMembers members) default
  | .block b => .block b.bare
  | .conditional condition resolution none _ =>
    .conditional condition.bare resolution.bare none default
  | .conditional condition resolution (some alternative) _ =>
    .conditional condition.bare resolution.bare (some alternative.bare) default
  | .whileLoop condition body _ => .whileLoop condition.bare body.bare default
  | .forLoop header body _ => .forLoop header.bare body.bare default
  | .switch subject cases _ => .switch subject.bare (bareCases cases) default
  | .return_ value _ => .return_ (value.map Expr.bare) default
  | .break_ _ => .break_ default
  | .continue_ _ => .continue_ default
  | .throw value _ => .throw value.bare default
  | .try_ body handler cleanup _ => .try_ body.bare (bareHandler handler) (bareCleanup cleanup) default
  | .import_ target _ => .import_ target default
  | .print values _ => .print (Expr.bareList values) default
  | .pass _ => .pass default
  | .expression e _ => .expression e.bare default

def Block.bare : Block → Block
  | .mk statements _ => .mk (Stmt.bareList statements) default

def FunctionDecl.bare : FunctionDecl → FunctionDecl
  | .mk name parameters body _ => .mk name.bare (parameters.map Identifier.bare) body.bare default

def Stmt.bareList : List Stmt → List Stmt
  | [] => []
  | s :: ss => s.bare :: Stmt.bareList ss

def Member.bare : Member → Member
  | .field d => .field d.bare
  | .method f => .method f.bare

def bareMembers : List Member → List Member
  | [] => []
  | m :: ms => m.bare :: bareMembers ms

def Case.bare : Case → Case
  | .mk value body _ => .mk (value.map Expr.bare) body.bare default

def bareCases : List Case → List Case
  | [] => []
  | k :: ks => k.bare :: bareCases ks

def bareHandler : Option Handler → Option Handler
  | none => none
  | some (.mk parameter body) => some (.mk (parameter.map Identifier.bare) body.bare)

def bareCleanup : Option Block → Option Block
  | none => none
  | some body => some body.bare

end

def Program.bare (p : Program) : Program := ⟨Stmt.bareList p.statements, default⟩

end Scriptlet
