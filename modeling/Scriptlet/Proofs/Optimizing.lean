import Scriptlet.Program.Optimizer

/-! What one pass over a program does, in three functions: the program that it leaves, the number of operators that it
computes, and the warnings, which can be read off the program that it leaves. For what it computes gives no warning. -/
namespace Scriptlet

namespace Expr

def foldedBinary (op : BinaryOp) (left right : Expr) (span : Span) : Expr :=
  match foldOperands op left right with
  | some value => literal (.int value) span
  | none => binary op left right span

mutual

def fold : Expr → Expr
  | identifier id => identifier id
  | literal value span => literal value span
  | binary op left right span => foldedBinary op left.fold right.fold span
  | unary op operand span => unary op operand.fold span
  | step op target span => step op target span
  | ternary condition resolution alternative span =>
    ternary condition.fold resolution.fold alternative.fold span
  | assign target op value span => assign target op value.fold span
  | call callee arguments span => call callee.fold (foldList arguments) span
  | member object name span => member object.fold name span
  | index object key span => index object.fold key.fold span
  | list items span => list (foldList items) span
  | map entries span => map (foldEntries entries) span
  | lambda parameters body span => lambda parameters body.fold span
  | input none span => input none span
  | input (some prompt) span => input (some prompt.fold) span
  | nested inner span => foldedNested inner.fold span

def foldList : List Expr → List Expr
  | [] => []
  | e :: es => e.fold :: foldList es

def foldEntries : List (Entry Expr) → List (Entry Expr)
  | [] => []
  | ⟨key, value, span⟩ :: es => ⟨key, value.fold, span⟩ :: foldEntries es

end

theorem foldList_eq_map (es : List Expr) : foldList es = es.map fold := by
  induction es with
  | nil => rfl
  | cons e es ih => simp [foldList, ih]

mutual

def foldCount : Expr → Nat
  | identifier _ => 0
  | literal _ _ => 0
  | binary op left right _ =>
    left.foldCount + right.foldCount + (if (foldOperands op left.fold right.fold).isSome then 1 else 0)
  | unary _ operand _ => operand.foldCount
  | step _ _ _ => 0
  | ternary condition resolution alternative _ =>
    condition.foldCount + resolution.foldCount + alternative.foldCount
  | assign _ _ value _ => value.foldCount
  | call callee arguments _ => callee.foldCount + foldCountList arguments
  | member object _ _ => object.foldCount
  | index object key _ => object.foldCount + key.foldCount
  | list items _ => foldCountList items
  | map entries _ => foldCountEntries entries
  | lambda _ body _ => body.foldCount
  | input none _ => 0
  | input (some prompt) _ => prompt.foldCount
  | nested inner _ => inner.foldCount

def foldCountList : List Expr → Nat
  | [] => 0
  | e :: es => e.foldCount + foldCountList es

def foldCountEntries : List (Entry Expr) → Nat
  | [] => 0
  | ⟨_, value, _⟩ :: es => value.foldCount + foldCountEntries es

end

def foldCountOption (e : Option Expr) : Nat := e.elim 0 foldCount

end Expr

namespace Declaration

def fold (d : Declaration) : Declaration :=
  { d with bindings := d.bindings.map fun b => { b with value := b.value.map Expr.fold } }

def foldCount (d : Declaration) : Nat :=
  d.bindings.foldr (fun b n => Expr.foldCountOption b.value + n) 0

end Declaration

namespace LoopHeader

def fold (h : LoopHeader) : LoopHeader where
  initializer := h.initializer.map fun
    | .declare d => .declare d.fold
    | .expression e span => .expression e.fold span
  condition := h.condition.map Expr.fold
  update := h.update.map Expr.fold

def foldCount (h : LoopHeader) : Nat :=
  let first := h.initializer.elim 0 fun
    | .declare d => d.foldCount
    | .expression e _ => e.foldCount
  first + Expr.foldCountOption h.condition + Expr.foldCountOption h.update

end LoopHeader

mutual

def Stmt.fold : Stmt → Stmt
  | .declare d => .declare d.fold
  | .function f => .function f.fold
  | .class_ name parent members span => .class_ name parent (foldMembers members) span
  | .block b => .block b.fold
  | .conditional condition resolution none span =>
    .conditional condition.fold resolution.fold none span
  | .conditional condition resolution (some alternative) span =>
    .conditional condition.fold resolution.fold (some alternative.fold) span
  | .whileLoop condition body span => .whileLoop condition.fold body.fold span
  | .forLoop header body span => .forLoop header.fold body.fold span
  | .switch subject cases span => .switch subject.fold (foldCases cases) span
  | .return_ value span => .return_ (value.map Expr.fold) span
  | .break_ span => .break_ span
  | .continue_ span => .continue_ span
  | .throw value span => .throw value.fold span
  | .try_ body handler cleanup span =>
    .try_ body.fold (foldHandler handler) (foldCleanup cleanup) span
  | .import_ target span => .import_ target span
  | .print values span => .print (Expr.foldList values) span
  | .pass span => .pass span
  | .expression e span => .expression e.fold span

def Block.fold : Block → Block
  | .mk statements span => .mk (Stmt.foldList statements) span

def FunctionDecl.fold : FunctionDecl → FunctionDecl
  | .mk name parameters body span => .mk name parameters body.fold span

def Stmt.foldList : List Stmt → List Stmt
  | [] => []
  | s :: ss => s.fold :: Stmt.foldList ss

def foldMembers : List Member → List Member
  | [] => []
  | .field d :: ms => .field d.fold :: foldMembers ms
  | .method f :: ms => .method f.fold :: foldMembers ms

def foldCases : List Case → List Case
  | [] => []
  | .mk value body span :: cs => .mk (value.map Expr.fold) body.fold span :: foldCases cs

def foldHandler : Option Handler → Option Handler
  | none => none
  | some (.mk parameter body) => some (.mk parameter body.fold)

def foldCleanup : Option Block → Option Block
  | none => none
  | some body => some body.fold

end

mutual

def Stmt.foldCount : Stmt → Nat
  | .declare d => d.foldCount
  | .function f => f.foldCount
  | .class_ _ _ members _ => foldCountMembers members
  | .block b => b.foldCount
  | .conditional condition resolution none _ => condition.foldCount + resolution.foldCount
  | .conditional condition resolution (some alternative) _ =>
    condition.foldCount + resolution.foldCount + alternative.foldCount
  | .whileLoop condition body _ => condition.foldCount + body.foldCount
  | .forLoop header body _ => header.foldCount + body.foldCount
  | .switch subject cases _ => subject.foldCount + foldCountCases cases
  | .return_ value _ => Expr.foldCountOption value
  | .break_ _ => 0
  | .continue_ _ => 0
  | .throw value _ => value.foldCount
  | .try_ body handler cleanup _ =>
    body.foldCount + foldCountHandler handler + foldCountCleanup cleanup
  | .import_ _ _ => 0
  | .print values _ => Expr.foldCountList values
  | .pass _ => 0
  | .expression e _ => e.foldCount

def Block.foldCount : Block → Nat
  | .mk statements _ => Stmt.foldCountList statements

def FunctionDecl.foldCount : FunctionDecl → Nat
  | .mk _ _ body _ => body.foldCount

def Stmt.foldCountList : List Stmt → Nat
  | [] => 0
  | s :: ss => s.foldCount + Stmt.foldCountList ss

def foldCountMembers : List Member → Nat
  | [] => 0
  | .field d :: ms => d.foldCount + foldCountMembers ms
  | .method f :: ms => f.foldCount + foldCountMembers ms

def foldCountCases : List Case → Nat
  | [] => 0
  | .mk value body _ :: cs =>
    Expr.foldCountOption value + body.foldCount + foldCountCases cs

def foldCountHandler : Option Handler → Nat
  | none => 0
  | some (.mk _ body) => body.foldCount

def foldCountCleanup : Option Block → Nat
  | none => 0
  | some body => body.foldCount

end

namespace Program

def fold (p : Program) : Program := { p with statements := Stmt.foldList p.statements }

def foldCount (p : Program) : Nat := Stmt.foldCountList p.statements

end Program

namespace Expr

mutual

def warnings : Expr → List Warning
  | identifier _ => []
  | literal _ _ => []
  | binary op left right _ => left.warnings ++ right.warnings ++ divisionWarning op right
  | unary _ operand _ => operand.warnings
  | step _ _ _ => []
  | ternary condition resolution alternative _ =>
    condition.warnings ++ resolution.warnings ++ alternative.warnings
  | assign _ _ value _ => value.warnings
  | call callee arguments _ => callee.warnings ++ warningsList arguments
  | member object _ _ => object.warnings
  | index object key _ => object.warnings ++ key.warnings
  | list items _ => warningsList items
  | map entries _ => warningsEntries entries
  | lambda _ body _ => body.warnings
  | input none _ => []
  | input (some prompt) _ => prompt.warnings
  | nested inner _ => inner.warnings

def warningsList : List Expr → List Warning
  | [] => []
  | e :: es => e.warnings ++ warningsList es

def warningsEntries : List (Entry Expr) → List Warning
  | [] => []
  | ⟨_, value, _⟩ :: es => value.warnings ++ warningsEntries es

end

def warningsOption (e : Option Expr) : List Warning := e.elim [] warnings

end Expr

def Declaration.warnings (d : Declaration) : List Warning :=
  d.bindings.flatMap fun b => Expr.warningsOption b.value

def LoopHeader.warnings (h : LoopHeader) : List Warning :=
  let first := h.initializer.elim [] fun
    | .declare d => d.warnings
    | .expression e _ => e.warnings
  first ++ Expr.warningsOption h.condition ++ Expr.warningsOption h.update

mutual

def Stmt.warnings : Stmt → List Warning
  | .declare d => d.warnings
  | .function f => f.warnings
  | .class_ _ _ members _ => memberWarnings members
  | .block b => b.warnings
  | .conditional condition resolution none _ =>
    condition.warnings ++ resolution.warnings ++ branchWarning condition resolution none
  | .conditional condition resolution (some alternative) _ =>
    condition.warnings ++ resolution.warnings ++ alternative.warnings ++
      branchWarning condition resolution (some alternative)
  | .whileLoop condition body _ => condition.warnings ++ body.warnings
  | .forLoop header body _ => header.warnings ++ body.warnings
  | .switch subject cases _ => subject.warnings ++ caseWarnings cases
  | .return_ value _ => Expr.warningsOption value
  | .break_ _ => []
  | .continue_ _ => []
  | .throw value _ => value.warnings
  | .try_ body handler cleanup _ =>
    body.warnings ++ handlerWarnings handler ++ cleanupWarnings cleanup
  | .import_ _ _ => []
  | .print values _ => Expr.warningsList values
  | .pass _ => []
  | .expression e _ => e.warnings

def Block.warnings : Block → List Warning
  | .mk statements _ => Stmt.warningsList statements ++ unreachableWarning statements

def FunctionDecl.warnings : FunctionDecl → List Warning
  | .mk _ _ body _ => body.warnings

def Stmt.warningsList : List Stmt → List Warning
  | [] => []
  | s :: ss => s.warnings ++ Stmt.warningsList ss

def memberWarnings : List Member → List Warning
  | [] => []
  | .field d :: ms => d.warnings ++ memberWarnings ms
  | .method f :: ms => f.warnings ++ memberWarnings ms

def caseWarnings : List Case → List Warning
  | [] => []
  | .mk value body _ :: cs => Expr.warningsOption value ++ body.warnings ++ caseWarnings cs

def handlerWarnings : Option Handler → List Warning
  | none => []
  | some (.mk _ body) => body.warnings

def cleanupWarnings : Option Block → List Warning
  | none => []
  | some body => body.warnings

end

namespace Program

def warnings (p : Program) : List Warning :=
  (Stmt.warningsList p.statements ++ unreachableWarning p.statements).mergeSort
    fun a b => a.span.start ≤ b.span.start

end Program

/-- Whatever was found before, the pass leaves this, and finds so many operators and these warnings. -/
def Pass.Finds {α : Type} (pass : Pass α) (a : α) (n : Nat) (ws : List Warning) : Prop :=
  ∀ f, pass.run f = (a, { problems := f.problems ++ ws, folded := f.folded + n })

namespace Pass.Finds

variable {α β : Type} {pass : Pass α} {next : α → Pass β} {a : α} {b : β} {n n' : Nat} {ws ws' : List Warning}

theorem pure (a : α) : Finds (pure a) a 0 [] := fun f => by rw [StateT.run_pure, List.append_nil, Nat.add_zero]; rfl

theorem bind (h : Finds pass a n ws) (h' : Finds (next a) b n' ws') :
    Finds (pass >>= next) b (n + n') (ws ++ ws') := fun f => by
  rw [StateT.run_bind, h f]
  refine (h' _).trans ?_
  simp [Nat.add_assoc]

theorem of_eq (h : Finds pass a n ws) (hn : n = n') (hws : ws = ws') : Finds pass a n' ws' := hn ▸ hws ▸ h

theorem map (h : Finds pass a n ws) (g : α → β) : Finds (pass >>= fun x => Pure.pure (g x)) (g a) n ws :=
  of_eq (h.bind (pure (g a))) (Nat.add_zero n) (List.append_nil ws)

theorem warn (ws : List Warning) : Finds (Pass.warn ws) () 0 ws := fun _ => rfl

theorem count : Finds (modify fun f => { f with folded := f.folded + 1 }) () 1 [] := fun f => by
  rw [List.append_nil]
  rfl

end Pass.Finds

theorem foldOperands_eq_some {op : BinaryOp} {l r : Expr} {v : Int64} (h : foldOperands op l r = some v) :
    ∃ a s b t, l = .literal (.int a) s ∧ r = .literal (.int b) t ∧ foldInts op a b = some v := by
  unfold foldOperands at h
  split at h
  · next a s b t => exact ⟨a, s, b, t, rfl, rfl, h⟩
  · cases h

/-- What is computed is no division by zero. -/
theorem Expr.divisionWarning_of_foldOperands {op : BinaryOp} {left right : Expr} {value : Int64}
    (h : foldOperands op left right = some value) : divisionWarning op right = [] := by
  obtain ⟨a, s, b, t, -, rfl, hvalue⟩ := foldOperands_eq_some h
  refine if_neg fun hzero => ?_
  unfold foldInts at hvalue
  split at hvalue
  · simp at hzero
  · simp at hzero
  · simp at hzero
  · rw [if_neg] at hvalue
    · cases hvalue
    · rintro ⟨hb, -⟩
      simp [isZero, hb] at hzero
  · cases hvalue

/-- The operation on two folded operands. If it is computed, they are literals. -/
theorem Pass.finds_binary (op : BinaryOp) (left right : Expr) (span : Span) :
    ∃ ws, Finds (Pass.binary op left right span) (Expr.foldedBinary op left right span)
        (if (foldOperands op left right).isSome then 1 else 0) ws ∧
      left.warnings ++ right.warnings ++ ws = (Expr.foldedBinary op left right span).warnings := by
  unfold Pass.binary Expr.foldedBinary
  cases hfold : foldOperands op left right with
  | some value =>
    obtain ⟨a, s, b, t, rfl, rfl, -⟩ := foldOperands_eq_some hfold
    dsimp only
    rw [if_pos (Expr.divisionWarning_of_foldOperands hfold)]
    exact ⟨[], Finds.count.map fun _ => Expr.literal (.int value) span, by simp [Expr.warnings]⟩
  | none =>
    refine ⟨Expr.divisionWarning op right, ?_, by rw [Expr.warnings]⟩
    dsimp only
    split
    · next hwarnings =>
      rw [hwarnings]
      exact .pure _
    · exact (Finds.warn _).map fun _ => Expr.binary op left right span

theorem Expr.foldedNested_warnings (inner : Expr) (span : Span) :
    (foldedNested inner span).warnings = inner.warnings := by
  cases inner <;> simp [foldedNested, warnings]

open Pass.Finds in
mutual

theorem Expr.finds : ∀ e : Expr, Pass.Finds e.optimize e.fold e.foldCount e.fold.warnings
  | .identifier id => pure _
  | .literal value span => pure _
  | .binary op left right span => by
    obtain ⟨ws, hbinary, hws⟩ := Pass.finds_binary op left.fold right.fold span
    exact of_eq (left.finds.bind (right.finds.bind hbinary)) (by simp [Expr.foldCount, Nat.add_assoc])
      (by rw [← List.append_assoc, hws, Expr.fold])
  | .unary op operand span => operand.finds.map _
  | .step op target span => pure _
  | .ternary condition resolution alternative span =>
    of_eq (condition.finds.bind (resolution.finds.bind (alternative.finds.map _)))
      (Nat.add_assoc ..).symm (List.append_assoc ..).symm
  | .assign target op value span => value.finds.map _
  | .call callee arguments span => callee.finds.bind ((Expr.findsList arguments).map _)
  | .member object name span => object.finds.map _
  | .index object key span => object.finds.bind (key.finds.map _)
  | .list items span => (Expr.findsList items).map _
  | .map entries span => (Expr.findsEntries entries).map _
  | .lambda parameters body span => body.finds.map _
  | .input none span => pure _
  | .input (some prompt) span => prompt.finds.map _
  | .nested inner span =>
    of_eq (inner.finds.map _) rfl (by rw [Expr.fold, Expr.foldedNested_warnings])

theorem Expr.findsList : ∀ es : List Expr, Pass.Finds (Expr.optimizeList es) (Expr.foldList es)
    (Expr.foldCountList es) (Expr.warningsList (Expr.foldList es))
  | [] => pure _
  | e :: es => e.finds.bind ((Expr.findsList es).map _)

theorem Expr.findsEntries : ∀ es : List (Entry Expr), Pass.Finds (Expr.optimizeEntries es)
    (Expr.foldEntries es) (Expr.foldCountEntries es) (Expr.warningsEntries (Expr.foldEntries es))
  | [] => pure _
  | ⟨_, value, _⟩ :: es => value.finds.bind ((Expr.findsEntries es).map _)

end

theorem Expr.optimize_fst (e : Expr) (f : Findings) : (e.optimize.run f).1 = e.fold :=
  congrArg Prod.fst (e.finds f)

namespace Pass.Finds

theorem option (e : Option Expr) : Finds (Expr.optimizeOption e) (e.map Expr.fold) (Expr.foldCountOption e)
    (Expr.warningsOption (e.map Expr.fold)) := by
  cases e with
  | none => exact pure _
  | some e => exact e.finds.map _

theorem declaration (d : Declaration) : Finds d.optimize d.fold d.foldCount d.fold.warnings := by
  have hgo (bindings : List Binding) : Finds (Declaration.optimize.go bindings)
      (bindings.map fun b => { b with value := b.value.map Expr.fold })
      (bindings.foldr (fun b n => Expr.foldCountOption b.value + n) 0)
      ((bindings.map fun b => { b with value := b.value.map Expr.fold }).flatMap fun b =>
        Expr.warningsOption b.value) := by
    induction bindings with
    | nil => exact pure _
    | cons b bs ih => exact (option b.value).bind (ih.map _)
  exact (hgo d.bindings).map _

theorem header (h : LoopHeader) : Finds h.optimize h.fold h.foldCount h.fold.warnings := by
  obtain ⟨initializer, condition, update⟩ := h
  have hrest {first : Pass (Option Initializer)} {i : Option Initializer} {n : Nat} {ws : List Warning}
      (h : Finds first i n ws) : Finds
        (do
          let initializer ← first
          let condition ← Expr.optimizeOption condition
          let update ← Expr.optimizeOption update
          return LoopHeader.mk initializer condition update)
        ⟨i, condition.map Expr.fold, update.map Expr.fold⟩
        (n + Expr.foldCountOption condition + Expr.foldCountOption update)
        (ws ++ Expr.warningsOption (condition.map Expr.fold) ++ Expr.warningsOption (update.map Expr.fold)) :=
    of_eq (h.bind ((option condition).bind ((option update).map _))) (Nat.add_assoc ..).symm
      (List.append_assoc ..).symm
  cases initializer with
  | none => exact hrest (pure none)
  | some first =>
    cases first with
    | declare d => exact hrest (((declaration d).map _).map some)
    | expression e span => exact hrest ((e.finds.map _).map some)

end Pass.Finds

open Pass.Finds in
mutual

theorem Stmt.finds : ∀ s : Stmt, Pass.Finds s.optimize s.fold s.foldCount s.fold.warnings
  | .declare d => (declaration d).map _
  | .function f => f.finds.map _
  | .class_ name parent members span => (findsMembers members).map _
  | .block b => b.finds.map _
  | .conditional condition resolution none span =>
    of_eq (condition.finds.bind (resolution.finds.bind ((warn _).map _))) (by simp [Stmt.foldCount])
      (List.append_assoc ..).symm
  | .conditional condition resolution (some alternative) span =>
    of_eq (condition.finds.bind (resolution.finds.bind (alternative.finds.bind ((warn _).map _))))
      (by simp [Stmt.foldCount, Nat.add_assoc]) (by simp [Stmt.fold, Stmt.warnings])
  | .whileLoop condition body span => condition.finds.bind (body.finds.map _)
  | .forLoop h body span => (header h).bind (body.finds.map _)
  | .switch subject cases span => subject.finds.bind ((findsCases cases).map _)
  | .return_ value span => (option value).map _
  | .break_ span => pure _
  | .continue_ span => pure _
  | .throw value span => value.finds.map _
  | .try_ body handler cleanup span =>
    of_eq (body.finds.bind ((findsHandler handler).bind ((findsCleanup cleanup).map _)))
      (Nat.add_assoc ..).symm (List.append_assoc ..).symm
  | .import_ target span => pure _
  | .print values span => (Expr.findsList values).map _
  | .pass span => pure _
  | .expression e span => e.finds.map _

theorem Block.finds : ∀ b : Block, Pass.Finds b.optimize b.fold b.foldCount b.fold.warnings
  | .mk statements _ => of_eq ((Stmt.findsList statements).bind ((warn _).map _)) rfl rfl

theorem FunctionDecl.finds : ∀ f : FunctionDecl, Pass.Finds f.optimize f.fold f.foldCount f.fold.warnings
  | .mk _ _ body _ => body.finds.map _

theorem Stmt.findsList : ∀ ss : List Stmt, Pass.Finds (Stmt.optimizeList ss) (Stmt.foldList ss)
    (Stmt.foldCountList ss) (Stmt.warningsList (Stmt.foldList ss))
  | [] => pure _
  | s :: ss => s.finds.bind ((Stmt.findsList ss).map _)

theorem findsMembers : ∀ ms : List Member, Pass.Finds (optimizeMembers ms) (foldMembers ms)
    (foldCountMembers ms) (memberWarnings (foldMembers ms))
  | [] => pure _
  | .field d :: ms => (declaration d).bind ((findsMembers ms).map _)
  | .method f :: ms => f.finds.bind ((findsMembers ms).map _)

theorem findsCases : ∀ ks : List Case, Pass.Finds (optimizeCases ks) (foldCases ks) (foldCountCases ks)
    (caseWarnings (foldCases ks))
  | [] => pure _
  | .mk value body _ :: ks =>
    of_eq ((option value).bind (body.finds.bind ((findsCases ks).map _))) (Nat.add_assoc ..).symm
      (List.append_assoc ..).symm

theorem findsHandler : ∀ h : Option Handler, Pass.Finds (optimizeHandler h) (foldHandler h)
    (foldCountHandler h) (handlerWarnings (foldHandler h))
  | none => pure _
  | some (.mk _ body) => body.finds.map _

theorem findsCleanup : ∀ b : Option Block, Pass.Finds (optimizeCleanup b) (foldCleanup b)
    (foldCountCleanup b) (cleanupWarnings (foldCleanup b))
  | none => pure _
  | some body => body.finds.map _

end

/-- One pass does what the three functions say. -/
theorem Program.optimize_eq (p : Program) : p.optimize = ⟨p.fold, p.foldCount, p.fold.warnings⟩ := by
  have hpass : Pass.Finds p.pass p.fold p.foldCount
      (Stmt.warningsList p.fold.statements ++ unreachableWarning p.fold.statements) :=
    .of_eq ((Stmt.findsList p.statements).bind ((Pass.Finds.warn _).map _)) rfl rfl
  unfold optimize
  rw [hpass {}]
  simp [warnings]

end Scriptlet
