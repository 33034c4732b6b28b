import Scriptlet.Proofs.Optimizing
import Scriptlet.Proofs.Folding

/-! What folding leaves. After one pass no parentheses stand around a literal and no operator is left that
could be computed; so a second pass finds nothing to do. What the pass reports is about the program that it
leaves: the operators that are gone are those it counts, and the divisors that are zero are those it warns
about. -/
namespace Scriptlet

namespace Expr

mutual

/-- The expression and all that stand in it, each behind those that stand in it. -/
def nodes : Expr → List Expr
  | identifier id => [identifier id]
  | literal value span => [literal value span]
  | binary op left right span => left.nodes ++ right.nodes ++ [binary op left right span]
  | unary op operand span => operand.nodes ++ [unary op operand span]
  | step op target span => [step op target span]
  | ternary condition resolution alternative span => condition.nodes ++ resolution.nodes ++
      alternative.nodes ++ [ternary condition resolution alternative span]
  | assign target op value span => value.nodes ++ [assign target op value span]
  | call callee arguments span => callee.nodes ++ nodesList arguments ++ [call callee arguments span]
  | member object name span => object.nodes ++ [member object name span]
  | index object key span => object.nodes ++ key.nodes ++ [index object key span]
  | list items span => nodesList items ++ [list items span]
  | map entries span => nodesEntries entries ++ [map entries span]
  | lambda parameters body span => body.nodes ++ [lambda parameters body span]
  | input none span => [input none span]
  | input (some prompt) span => prompt.nodes ++ [input (some prompt) span]
  | nested inner span => inner.nodes ++ [nested inner span]

def nodesList : List Expr → List Expr
  | [] => []
  | e :: es => e.nodes ++ nodesList es

def nodesEntries : List (Entry Expr) → List Expr
  | [] => []
  | ⟨_, value, _⟩ :: es => value.nodes ++ nodesEntries es

end

def parts : Expr → List Expr
  | identifier _ | literal _ _ | step _ _ _ | input none _ => []
  | binary _ left right _ => [left, right]
  | unary _ operand _ => [operand]
  | ternary condition resolution alternative _ => [condition, resolution, alternative]
  | assign _ _ value _ => [value]
  | call callee arguments _ => callee :: arguments
  | member object _ _ => [object]
  | index object key _ => [object, key]
  | list items _ => items
  | map entries _ => entries.map (·.value)
  | lambda _ body _ => [body]
  | input (some prompt) _ => [prompt]
  | nested inner _ => [inner]

theorem nodesEntries_eq (es : List (Entry Expr)) : nodesEntries es = nodesList (es.map (·.value)) := by
  induction es with
  | nil => rfl
  | cons e es ih => rw [nodesEntries, ih, List.map_cons, nodesList]

theorem nodes_eq (e : Expr) : e.nodes = nodesList e.parts ++ [e] := by
  cases e with
  | input prompt => cases prompt <;> simp [nodes, parts, nodesList]
  | _ => simp [nodes, parts, nodesList, nodesEntries_eq]

theorem mem_nodesList {x : Expr} {es : List Expr} : x ∈ nodesList es ↔ ∃ e ∈ es, x ∈ e.nodes := by
  induction es with
  | nil => simp [nodesList]
  | cons e es ih => simp [nodesList, ih]

theorem sizeOf_part {e x : Expr} (h : x ∈ e.parts) : sizeOf x < sizeOf e := by
  cases e with
  | identifier | literal | step => cases h
  | list items span =>
    have hlt : sizeOf x < sizeOf items := List.sizeOf_lt_of_mem h
    simp
    omega
  | call callee arguments span =>
    rcases List.mem_cons.1 h with rfl | h
    · simp
      omega
    · have hlt := List.sizeOf_lt_of_mem h
      simp
      omega
  | map entries span =>
    obtain ⟨⟨key, value, at_⟩, hmem, rfl⟩ := List.mem_map.1 h
    have hlt := List.sizeOf_lt_of_mem hmem
    simp at hlt ⊢
    omega
  | input prompt span =>
    cases prompt with
    | none => cases h
    | some prompt =>
      cases List.mem_singleton.1 h
      simp
      omega
  | unary | assign | member | lambda | nested =>
    cases List.mem_singleton.1 h
    simp
    omega
  | binary | index =>
    rcases List.mem_pair.1 h with rfl | rfl
    all_goals
      simp
      omega
  | ternary =>
    rcases List.mem_cons.1 h with rfl | h
    · simp
      omega
    · rcases List.mem_pair.1 h with rfl | rfl
      all_goals
        simp
        omega

/-- A property that expressions have if all that stand directly in them have it. -/
theorem ofParts {P : Expr → Prop} (step : ∀ e, (∀ x ∈ e.parts, P x) → P e) (e : Expr) : P e :=
  step e fun x hx => have := sizeOf_part hx; ofParts step x
termination_by e

def isBinary : Expr → Bool
  | binary .. => true
  | _ => false

/-- The right side of a division or remainder, if it is a literal zero. -/
def zeroDivisor? : Expr → Option Expr
  | binary (.compute .divide) _ right _ | binary (.compute .remainder) _ right _ =>
    if right.isZero then some right else none
  | _ => none

end Expr

def Declaration.exprs (d : Declaration) : List Expr := d.bindings.flatMap fun b => b.value.toList

def Initializer.exprs : Initializer → List Expr
  | declare d => d.exprs
  | expression e _ => [e]

def LoopHeader.exprs (h : LoopHeader) : List Expr :=
  h.initializer.elim [] Initializer.exprs ++ h.condition.toList ++ h.update.toList

mutual

/-- The expressions that stand in a statement and in no other expression. -/
def Stmt.exprs : Stmt → List Expr
  | .declare d => d.exprs
  | .function f => f.exprs
  | .class_ _ _ members _ => memberExprs members
  | .block b => b.exprs
  | .conditional condition resolution none _ => [condition] ++ resolution.exprs
  | .conditional condition resolution (some alternative) _ =>
    [condition] ++ resolution.exprs ++ alternative.exprs
  | .whileLoop condition body _ => [condition] ++ body.exprs
  | .forLoop header body _ => header.exprs ++ body.exprs
  | .switch subject cases _ => [subject] ++ caseExprs cases
  | .return_ value _ => value.toList
  | .break_ _ => []
  | .continue_ _ => []
  | .throw value _ => [value]
  | .try_ body handler cleanup _ => body.exprs ++ handlerExprs handler ++ cleanupExprs cleanup
  | .import_ _ _ => []
  | .print values _ => values
  | .pass _ => []
  | .expression e _ => [e]

def Block.exprs : Block → List Expr
  | .mk statements _ => Stmt.exprsList statements

def FunctionDecl.exprs : FunctionDecl → List Expr
  | .mk _ _ body _ => body.exprs

def Stmt.exprsList : List Stmt → List Expr
  | [] => []
  | s :: ss => s.exprs ++ Stmt.exprsList ss

def memberExprs : List Member → List Expr
  | [] => []
  | .field d :: ms => d.exprs ++ memberExprs ms
  | .method f :: ms => f.exprs ++ memberExprs ms

def caseExprs : List Case → List Expr
  | [] => []
  | .mk value body _ :: cs => value.toList ++ body.exprs ++ caseExprs cs

def handlerExprs : Option Handler → List Expr
  | none => []
  | some (.mk _ body) => body.exprs

def cleanupExprs : Option Block → List Expr
  | none => []
  | some body => body.exprs

end

namespace Program

def nodes (p : Program) : List Expr := Expr.nodesList (Stmt.exprsList p.statements)

def binaryCount (p : Program) : Nat := p.nodes.countP Expr.isBinary

end Program

def Fits (n : Int) : Prop := Decimal.minInt ≤ n ∧ n ≤ Decimal.maxInt

/-- The operator has an integer for its result on two integers: sums, differences, products, and quotients
without a remainder, as far as they fit. -/
def BinaryOp.Computable : BinaryOp → Int64 → Int64 → Prop
  | .compute .add, a, b => Fits (a.toInt + b.toInt)
  | .compute .subtract, a, b => Fits (a.toInt - b.toInt)
  | .compute .multiply, a, b => Fits (a.toInt * b.toInt)
  | .compute .divide, a, b => b ≠ 0 ∧ b.toInt ∣ a.toInt ∧ Fits (a.toInt / b.toInt)
  | _, _, _ => False

theorem foldInts_isSome_iff (op : BinaryOp) (a b : Int64) :
    (foldInts op a b).isSome = true ↔ op.Computable a b := by
  unfold foldInts
  split
  · exact Decimal.fit?_isSome_iff _
  · exact Decimal.fit?_isSome_iff _
  · exact Decimal.fit?_isSome_iff _
  · split
    · next h =>
      have hdvd := Int.dvd_of_tmod_eq_zero h.2
      rw [Decimal.fit?_isSome_iff, Int.tdiv_eq_ediv_of_dvd hdvd]
      exact ⟨fun hfits => ⟨h.1, hdvd, hfits⟩, fun hfits => hfits.2.2⟩
    · next h =>
      refine ⟨fun hsome => (by cases hsome), fun hfits => (h ⟨hfits.1, ?_⟩).elim⟩
      exact Int.tmod_eq_zero_of_dvd hfits.2.1
  · simp_all [BinaryOp.Computable]

namespace Expr

/-- Nothing of the expression itself is left to fold: no literal stands between parentheses, and no operator
has an integer for its result on two literals. -/
def Reduced : Expr → Prop
  | nested (literal _ _) _ => False
  | binary op (literal (.int a) _) (literal (.int b) _) _ => ¬op.Computable a b
  | _ => True

theorem reduced_of_foldOperands {op : BinaryOp} {l r : Expr} (span : Span)
    (h : foldOperands op l r = none) : (binary op l r span).Reduced := by
  unfold foldOperands at h
  split at h
  · next a _ b _ =>
    intro hcomputable
    rw [← foldInts_isSome_iff, h] at hcomputable
    cases hcomputable
  · next hnot =>
    unfold Reduced
    split
    · next heq => cases heq
    · next heq =>
      cases heq
      exact (hnot _ _ _ _ rfl rfl).elim
    · trivial

theorem foldOperands_of_reduced {op : BinaryOp} {l r : Expr} {span : Span}
    (h : (binary op l r span).Reduced) : foldOperands op l r = none := by
  unfold foldOperands
  split
  · next a _ b _ =>
    have hnone : ¬(foldInts op a b).isSome = true := fun hsome => h ((foldInts_isSome_iff op a b).1 hsome)
    simpa using hnone
  · rfl

theorem foldedNested_of_reduced {inner : Expr} {span : Span} (h : (nested inner span).Reduced) :
    foldedNested inner span = nested inner span := by
  cases inner with
  | literal => exact h.elim
  | _ => rfl

/-! One pass over an expression. Only operators between two operands and parentheses are ever replaced. -/

def Plain : Expr → Prop
  | binary _ _ _ _ | nested _ _ => False
  | _ => True

theorem foldEntries_values (es : List (Entry Expr)) :
    (foldEntries es).map (·.value) = foldList (es.map (·.value)) := by
  induction es with
  | nil => rfl
  | cons e es ih => simp [foldEntries, foldList, ih]

theorem foldCountEntries_eq (es : List (Entry Expr)) :
    foldCountEntries es = foldCountList (es.map (·.value)) := by
  induction es with
  | nil => rfl
  | cons e es ih => simp [foldCountEntries, foldCountList, ih]

theorem warningsEntries_eq (es : List (Entry Expr)) :
    warningsEntries es = warningsList (es.map (·.value)) := by
  induction es with
  | nil => rfl
  | cons e es ih => simp [warningsEntries, warningsList, ih]

theorem foldEntries_of_fixed {es : List (Entry Expr)} (h : foldList (es.map (·.value)) = es.map (·.value)) :
    foldEntries es = es := by
  induction es with
  | nil => rfl
  | cons e es ih =>
    simp only [List.map_cons, foldList, List.cons.injEq] at h
    simp [foldEntries, h.1, ih h.2]

namespace Plain

variable {e : Expr} (h : e.Plain)
include h

theorem fold_parts : e.fold.parts = foldList e.parts ∧ e.fold.Plain := by
  cases e with
  | binary | nested => exact h.elim
  | input prompt => cases prompt <;> simp [fold, parts, foldList, Plain]
  | _ => simp [fold, parts, foldList, foldEntries_values, Plain]

theorem foldCount_eq : e.foldCount = foldCountList e.parts := by
  cases e with
  | binary | nested => exact h.elim
  | input prompt => cases prompt <;> simp [foldCount, parts, foldCountList]
  | _ => simp [foldCount, parts, foldCountList, foldCountEntries_eq, Nat.add_assoc]

theorem warnings_eq : e.warnings = warningsList e.parts := by
  cases e with
  | binary | nested => exact h.elim
  | input prompt => cases prompt <;> simp [warnings, parts, warningsList]
  | _ => simp [warnings, parts, warningsList, warningsEntries_eq]

theorem fold_of_fixed (hparts : foldList e.parts = e.parts) : e.fold = e := by
  cases e with
  | binary | nested => exact h.elim
  | input prompt => cases prompt <;> simp_all [fold, parts, foldList]
  | map => simp_all [fold, parts, foldEntries_of_fixed]
  | _ => simp_all [fold, parts, foldList]

theorem reduced : e.Reduced := by
  cases e with
  | binary | nested => exact h.elim
  | _ => trivial

theorem not_binary : e.isBinary = false := by
  cases e with
  | binary => exact h.elim
  | _ => rfl

theorem zeroDivisor?_eq : e.zeroDivisor? = none := by
  cases e with
  | binary => exact h.elim
  | _ => rfl

end Plain

/-- Induction by the forms that folding tells apart. -/
@[elab_as_elim]
theorem ofForms {P : Expr → Prop} (plain : ∀ e, Plain e → (∀ x ∈ e.parts, P x) → P e)
    (binary : ∀ op l r span, P l → P r → P (binary op l r span))
    (nested : ∀ inner span, P inner → P (nested inner span)) (e : Expr) : P e := by
  induction e using ofParts with
  | step e ih =>
    cases e with
    | binary op l r span => exact binary op l r span (ih l (by simp [parts])) (ih r (by simp [parts]))
    | nested inner span => exact nested inner span (ih inner (by simp [parts]))
    | _ => exact plain _ trivial ih

theorem reduced_fold (e : Expr) : ∀ x ∈ e.fold.nodes, x.Reduced := by
  induction e using ofForms with
  | plain e h ih =>
    rw [nodes_eq, h.fold_parts.1, foldList_eq_map]
    intro x hx
    rcases List.mem_append.1 hx with hx | hx
    · obtain ⟨_, hmem, hx⟩ := mem_nodesList.1 hx
      obtain ⟨part, hpart, rfl⟩ := List.mem_map.1 hmem
      exact ih part hpart x hx
    · cases List.mem_singleton.1 hx
      exact h.fold_parts.2.reduced
  | binary op l r span hl hr =>
    rw [fold, foldedBinary]
    split
    · intro x hx
      cases List.mem_singleton.1 hx
      trivial
    · next hnone =>
      have hself := reduced_of_foldOperands span hnone
      simpa [nodes, or_imp, forall_and] using ⟨hl, hr, hself⟩
  | nested inner span ih =>
    rw [fold]
    unfold foldedNested
    split
    · next hliteral => exact hliteral ▸ ih
    · next hnot =>
      have hself : (nested inner.fold span).Reduced := by
        cases hinner : inner.fold with
        | literal value at_ => exact (hnot value at_ hinner).elim
        | _ => trivial
      simpa [nodes, or_imp, forall_and] using ⟨ih, hself⟩

/-- Folding leaves an expression as it is if nothing in it is left to fold. -/
theorem fold_of_reduced (e : Expr) : (∀ x ∈ e.nodes, x.Reduced) → e.fold = e := by
  induction e using ofForms with
  | plain e h ih =>
    intro hreduced
    apply h.fold_of_fixed
    rw [foldList_eq_map]
    have hparts : ∀ part ∈ e.parts, part.fold = part := by
      refine fun part hpart => ih part hpart fun x hx => hreduced x ?_
      rw [nodes_eq]
      exact List.mem_append_left _ (mem_nodesList.2 ⟨part, hpart, hx⟩)
    rw [List.map_congr_left hparts, List.map_id']
  | binary op l r span hl hr =>
    intro hreduced
    simp only [nodes, List.mem_append, List.mem_singleton, or_imp, forall_and, forall_eq] at hreduced
    rw [fold, hl hreduced.1.1, hr hreduced.1.2, foldedBinary, foldOperands_of_reduced hreduced.2]
  | nested inner span ih =>
    intro hreduced
    simp only [nodes, List.mem_append, List.mem_singleton, or_imp, forall_and, forall_eq] at hreduced
    rw [fold, ih hreduced.1, foldedNested_of_reduced hreduced.2]

theorem foldCount_list {es : List Expr}
    (h : ∀ e ∈ es, e.foldCount + e.fold.nodes.countP isBinary = e.nodes.countP isBinary) :
    foldCountList es + (nodesList (foldList es)).countP isBinary = (nodesList es).countP isBinary := by
  induction es with
  | nil => rfl
  | cons e es ih =>
    obtain ⟨he, hes⟩ := List.forall_mem_cons.1 h
    have hrest := ih hes
    simp only [foldCountList, foldList, nodesList, List.countP_append]
    omega

/-- The operators that are counted are those that are gone. -/
theorem foldCount_add (e : Expr) :
    e.foldCount + e.fold.nodes.countP isBinary = e.nodes.countP isBinary := by
  induction e using ofForms with
  | plain e h ih =>
    have hparts := foldCount_list ih
    rw [nodes_eq e.fold, nodes_eq e, h.fold_parts.1, h.foldCount_eq]
    simp only [List.countP_append, List.countP_singleton, h.not_binary, h.fold_parts.2.not_binary]
    omega
  | binary op l r span hl hr =>
    rw [fold, foldedBinary, foldCount]
    cases hvalue : foldOperands op l.fold r.fold with
    | none =>
      simp only [nodes, List.countP_append, List.countP_singleton, isBinary]
      simp
      omega
    | some value =>
      obtain ⟨a, s, b, t, ha, hb, -⟩ := foldOperands_eq_some hvalue
      rw [ha] at hl
      rw [hb] at hr
      simp [nodes, isBinary] at hl hr ⊢
      omega
  | nested inner span ih =>
    have hnested : (foldedNested inner.fold span).nodes.countP isBinary =
        inner.fold.nodes.countP isBinary := by
      unfold foldedNested
      split
      · next hliteral => rw [hliteral]
      · simp [nodes, isBinary]
    rw [fold, foldCount, hnested, ih]
    simp [nodes, isBinary]

def divisorWarning (divisor : Expr) : Warning := ⟨.divisionByZero, divisor.span⟩

def zeroWarnings (es : List Expr) : List Warning := (es.filterMap zeroDivisor?).map divisorWarning

theorem divisionWarning_eq (op : BinaryOp) (l r : Expr) (span : Span) :
    divisionWarning op r = zeroWarnings [binary op l r span] := by
  unfold divisionWarning zeroWarnings
  cases op with
  | compute o =>
    cases o with
    | divide | remainder => cases hzero : r.isZero <;> simp [zeroDivisor?, divisorWarning, hzero]
    | _ => simp [zeroDivisor?]
  | _ => simp [zeroDivisor?]

theorem zeroWarnings_append (es fs : List Expr) :
    zeroWarnings (es ++ fs) = zeroWarnings es ++ zeroWarnings fs := by
  simp [zeroWarnings]

theorem warningsList_eq {es : List Expr} (h : ∀ e ∈ es, e.warnings = zeroWarnings e.nodes) :
    warningsList es = zeroWarnings (nodesList es) := by
  induction es with
  | nil => rfl
  | cons e es ih =>
    obtain ⟨he, hes⟩ := List.forall_mem_cons.1 h
    rw [warningsList, nodesList, zeroWarnings_append, he, ih hes]

theorem warnings_eq (e : Expr) : e.warnings = zeroWarnings e.nodes := by
  induction e using ofForms with
  | plain e h ih =>
    have hself : zeroWarnings [e] = [] := by simp [zeroWarnings, h.zeroDivisor?_eq]
    rw [nodes_eq, h.warnings_eq, zeroWarnings_append, hself, List.append_nil, warningsList_eq ih]
  | binary op l r span hl hr =>
    rw [warnings, nodes, zeroWarnings_append, zeroWarnings_append, hl, hr, divisionWarning_eq op l r span]
  | nested inner span ih =>
    have hself : zeroWarnings [nested inner span] = [] := rfl
    rw [warnings, nodes, zeroWarnings_append, hself, List.append_nil, ih]

end Expr

def Warning.isDivision (w : Warning) : Bool := w.kind = .divisionByZero

/-- What a pass does to a part of a program with the expressions `es`: it leaves the expressions `fs`, counts
`n` operators, warns with `ws`, and changes nothing of the part if it changes none of its expressions. -/
structure Accounts (es fs : List Expr) (n : Nat) (ws : List Warning) (unchanged : Prop) : Prop where
  exprs : fs = Expr.foldList es
  count : n = Expr.foldCountList es
  divisions : ws.filter Warning.isDivision = Expr.warningsList fs
  unchanged : Expr.foldList es = es → unchanged

namespace Expr

theorem foldCountList_append (es fs : List Expr) :
    foldCountList (es ++ fs) = foldCountList es + foldCountList fs := by
  induction es with
  | nil => simp [foldCountList]
  | cons e es ih => simp [foldCountList, ih, Nat.add_assoc]

theorem warningsList_append (es fs : List Expr) :
    warningsList (es ++ fs) = warningsList es ++ warningsList fs := by
  induction es with
  | nil => simp [warningsList]
  | cons e es ih => simp [warningsList, ih]

theorem isDivision_of_mem {es : List Expr} {w : Warning} (h : w ∈ zeroWarnings es) : w.isDivision = true := by
  obtain ⟨divisor, -, rfl⟩ := List.mem_map.1 h
  rfl

end Expr

namespace Accounts

variable {es fs es' fs' : List Expr} {n n' : Nat} {ws ws' : List Warning} {p q r : Prop}

theorem imp (h : Accounts es fs n ws p) (hpq : p → q) : Accounts es fs n ws q :=
  { h with unchanged := fun hes => hpq (h.unchanged hes) }

theorem nil (hp : p) : Accounts [] [] 0 [] p := ⟨rfl, rfl, rfl, fun _ => hp⟩

theorem append (h : Accounts es fs n ws p) (h' : Accounts es' fs' n' ws' q) (hr : p → q → r) :
    Accounts (es ++ es') (fs ++ fs') (n + n') (ws ++ ws') r where
  exprs := by simp [h.exprs, h'.exprs, Expr.foldList_eq_map]
  count := by rw [h.count, h'.count, Expr.foldCountList_append]
  divisions := by rw [List.filter_append, h.divisions, h'.divisions, Expr.warningsList_append]
  unchanged hes := by
    rw [Expr.foldList_eq_map, List.map_append, ← Expr.foldList_eq_map, ← Expr.foldList_eq_map] at hes
    obtain ⟨hleft, hright⟩ := List.append_inj hes (by simp [Expr.foldList_eq_map])
    exact hr (h.unchanged hleft) (h'.unchanged hright)

/-- Other warnings make no difference. -/
theorem warn (h : Accounts es fs n ws p) (hws' : ∀ w ∈ ws', w.isDivision = false) :
    Accounts es fs n (ws ++ ws') p :=
  { h with
    divisions := by
      have hnone : ws'.filter Warning.isDivision = [] := by simpa using hws'
      rw [List.filter_append, hnone, List.append_nil, h.divisions] }

theorem list (es : List Expr) : Accounts es (Expr.foldList es) (Expr.foldCountList es)
    (Expr.warningsList (Expr.foldList es)) (Expr.foldList es = es) where
  exprs := rfl
  count := rfl
  divisions := by
    rw [Expr.warningsList_eq fun e _ => e.warnings_eq, List.filter_eq_self]
    exact fun w hw => Expr.isDivision_of_mem hw
  unchanged := id

theorem expr (e : Expr) : Accounts [e] [e.fold] e.foldCount e.fold.warnings (e.fold = e) := by
  have h := list [e]
  simp only [Expr.foldList, Expr.foldCountList, Expr.warningsList, List.append_nil, Nat.add_zero] at h
  exact h.imp fun he => (List.cons.inj he).1

theorem option (e : Option Expr) : Accounts e.toList (e.map Expr.fold).toList (Expr.foldCountOption e)
    (Expr.warningsOption (e.map Expr.fold)) (e.map Expr.fold = e) := by
  cases e with
  | none => exact nil rfl
  | some e => exact (expr e).imp fun he => congrArg some he

theorem declaration (d : Declaration) :
    Accounts d.exprs d.fold.exprs d.foldCount d.fold.warnings (d.fold = d) := by
  obtain ⟨kind, bindings, span⟩ := d
  have hbindings : Accounts (bindings.flatMap fun b => b.value.toList)
      ((bindings.map fun b => { b with value := b.value.map Expr.fold }).flatMap fun b => b.value.toList)
      (bindings.foldr (fun b n => Expr.foldCountOption b.value + n) 0)
      ((bindings.map fun b => { b with value := b.value.map Expr.fold }).flatMap fun b =>
        Expr.warningsOption b.value)
      ((bindings.map fun b => { b with value := b.value.map Expr.fold }) = bindings) := by
    induction bindings with
    | nil => exact nil rfl
    | cons b bs ih => exact (option b.value).append ih fun hb hbs => by simp [hb, hbs]
  exact hbindings.imp fun hsame => congrArg (Declaration.mk kind · span) hsame

theorem header (h : LoopHeader) :
    Accounts h.exprs h.fold.exprs h.foldCount h.fold.warnings (h.fold = h) := by
  obtain ⟨initializer, condition, update⟩ := h
  -- the parts behind the initializer are the same for every kind of it
  have hrest (folded : Option Initializer) {es fs : List Expr} {n : Nat} {ws : List Warning}
      (h : Accounts es fs n ws (folded = initializer)) :
      Accounts (es ++ condition.toList ++ update.toList)
        (fs ++ (condition.map Expr.fold).toList ++ (update.map Expr.fold).toList)
        (n + Expr.foldCountOption condition + Expr.foldCountOption update)
        (ws ++ Expr.warningsOption (condition.map Expr.fold) ++ Expr.warningsOption (update.map Expr.fold))
        (LoopHeader.mk folded (condition.map Expr.fold) (update.map Expr.fold) =
          ⟨initializer, condition, update⟩) :=
    (h.append (option condition) And.intro).append (option update) fun hfirst hu => by
      rw [hfirst.1, hfirst.2, hu]
  cases initializer with
  | none => exact hrest none (nil rfl)
  | some first =>
    cases first with
    | declare d =>
      exact hrest (some (.declare d.fold)) ((declaration d).imp fun hd => by rw [hd])
    | expression e span =>
      exact hrest (some (.expression e.fold span)) ((expr e).imp fun he => by rw [he])

end Accounts

theorem unreachableWarning_other (ss : List Stmt) : ∀ w ∈ unreachableWarning ss, w.isDivision = false := by
  unfold unreachableWarning
  dsimp only
  split
  · simp [Warning.isDivision]
  · simp

theorem branchWarning_other (condition : Expr) (resolution : Stmt) (alternative : Option Stmt) :
    ∀ w ∈ branchWarning condition resolution alternative, w.isDivision = false := by
  unfold branchWarning
  split <;> simp [Warning.isDivision]

open Accounts in
mutual

theorem Stmt.accounts : ∀ s : Stmt, Accounts s.exprs s.fold.exprs s.foldCount s.fold.warnings (s.fold = s)
  | .declare d => (declaration d).imp fun h => congrArg Stmt.declare h
  | .function f => f.accounts.imp fun h => congrArg Stmt.function h
  | .class_ name parent members span =>
    (memberAccounts members).imp fun h => congrArg (Stmt.class_ name parent · span) h
  | .block b => b.accounts.imp fun h => congrArg Stmt.block h
  | .conditional condition resolution none span =>
    ((expr condition).append resolution.accounts fun hc hr => by rw [Stmt.fold, hc, hr]).warn
      (branchWarning_other _ _ _)
  | .conditional condition resolution (some alternative) span =>
    (((expr condition).append resolution.accounts And.intro).append alternative.accounts
      fun h ha => by rw [Stmt.fold, h.1, h.2, ha]).warn (branchWarning_other _ _ _)
  | .whileLoop condition body span =>
    (expr condition).append body.accounts fun hc hb => by rw [Stmt.fold, hc, hb]
  | .forLoop h body span => (header h).append body.accounts fun hh hb => by rw [Stmt.fold, hh, hb]
  | .switch subject cases span =>
    (expr subject).append (caseAccounts cases) fun hs hc => by rw [Stmt.fold, hs, hc]
  | .return_ value span => (option value).imp fun h => congrArg (Stmt.return_ · span) h
  | .break_ _ | .continue_ _ | .import_ _ _ | .pass _ => nil rfl
  | .throw value span => (expr value).imp fun h => congrArg (Stmt.throw · span) h
  | .try_ body handler cleanup span =>
    (body.accounts.append (handlerAccounts handler) And.intro).append (cleanupAccounts cleanup)
      fun h hc => by rw [Stmt.fold, h.1, h.2, hc]
  | .print values span => (list values).imp fun h => congrArg (Stmt.print · span) h
  | .expression e span => (expr e).imp fun h => congrArg (Stmt.expression · span) h

theorem Block.accounts : ∀ b : Block,
    Accounts b.exprs b.fold.exprs b.foldCount b.fold.warnings (b.fold = b)
  | .mk statements span =>
    ((Stmt.listAccounts statements).imp fun h => congrArg (Block.mk · span) h).warn
      (unreachableWarning_other _)

theorem FunctionDecl.accounts : ∀ f : FunctionDecl,
    Accounts f.exprs f.fold.exprs f.foldCount f.fold.warnings (f.fold = f)
  | .mk name parameters body span =>
    body.accounts.imp fun h => congrArg (FunctionDecl.mk name parameters · span) h

theorem Stmt.listAccounts : ∀ ss : List Stmt, Accounts (Stmt.exprsList ss) (Stmt.exprsList (Stmt.foldList ss))
    (Stmt.foldCountList ss) (Stmt.warningsList (Stmt.foldList ss)) (Stmt.foldList ss = ss)
  | [] => nil rfl
  | s :: ss => s.accounts.append (Stmt.listAccounts ss) fun hs hss => by rw [Stmt.foldList, hs, hss]

theorem memberAccounts : ∀ ms : List Member, Accounts (memberExprs ms) (memberExprs (foldMembers ms))
    (foldCountMembers ms) (memberWarnings (foldMembers ms)) (foldMembers ms = ms)
  | [] => nil rfl
  | .field d :: ms => (declaration d).append (memberAccounts ms) fun hd hms => by rw [foldMembers, hd, hms]
  | .method f :: ms => f.accounts.append (memberAccounts ms) fun hf hms => by rw [foldMembers, hf, hms]

theorem caseAccounts : ∀ ks : List Case, Accounts (caseExprs ks) (caseExprs (foldCases ks))
    (foldCountCases ks) (caseWarnings (foldCases ks)) (foldCases ks = ks)
  | [] => nil rfl
  | .mk value body span :: ks =>
    ((option value).append body.accounts And.intro).append (caseAccounts ks)
      fun h hks => by rw [foldCases, h.1, h.2, hks]

theorem handlerAccounts : ∀ h : Option Handler, Accounts (handlerExprs h) (handlerExprs (foldHandler h))
    (foldCountHandler h) (handlerWarnings (foldHandler h)) (foldHandler h = h)
  | none => nil rfl
  | some (.mk parameter body) => body.accounts.imp fun h => by rw [foldHandler, h]

theorem cleanupAccounts : ∀ b : Option Block, Accounts (cleanupExprs b) (cleanupExprs (foldCleanup b))
    (foldCountCleanup b) (cleanupWarnings (foldCleanup b)) (foldCleanup b = b)
  | none => nil rfl
  | some body => body.accounts.imp fun h => congrArg some h

end

namespace Program

theorem fold_nodes_reduced (p : Program) : ∀ e ∈ p.fold.nodes, e.Reduced := by
  intro e he
  rw [nodes, fold, (Stmt.listAccounts p.statements).exprs, Expr.foldList_eq_map] at he
  obtain ⟨_, hmem, he⟩ := Expr.mem_nodesList.1 he
  obtain ⟨x, -, rfl⟩ := List.mem_map.1 hmem
  exact x.reduced_fold e he

theorem foldCount_add (p : Program) : p.foldCount + p.fold.binaryCount = p.binaryCount := by
  have haccounts := Stmt.listAccounts p.statements
  have hcount := Expr.foldCount_list fun e (_ : e ∈ Stmt.exprsList p.statements) => e.foldCount_add
  rw [binaryCount, binaryCount, nodes, nodes, fold, haccounts.exprs, foldCount, haccounts.count, hcount]

theorem fold_of_reduced {p : Program} (h : ∀ e ∈ p.nodes, e.Reduced) : p.fold = p := by
  have hexprs : Expr.foldList (Stmt.exprsList p.statements) = Stmt.exprsList p.statements := by
    have hfixed : ∀ x ∈ Stmt.exprsList p.statements, x.fold = x := fun x hx =>
      x.fold_of_reduced fun e he => h e (Expr.mem_nodesList.2 ⟨x, hx, he⟩)
    rw [Expr.foldList_eq_map, List.map_congr_left hfixed, List.map_id']
  rw [fold, (Stmt.listAccounts p.statements).unchanged hexprs]

theorem division_warnings (p : Program) :
    (p.fold.warnings.filter Warning.isDivision).Perm (Expr.zeroWarnings p.fold.nodes) := by
  have hpass := ((Stmt.listAccounts p.statements).warn
    (unreachableWarning_other (Stmt.foldList p.statements))).divisions
  refine ((List.mergeSort_perm _ _).filter _).trans ?_
  rw [fold, hpass, Expr.warningsList_eq fun e _ => e.warnings_eq]
  rfl

end Program

/-- One pass leaves a normal form: no literal stands between parentheses and no operator can still be
computed. The operators it counts are those that are gone, the divisors it warns about are the literal zeros
that are left, and a second pass counts nothing, changes nothing and gives the same warnings. -/
theorem folding_leaves_normal_form (p : Program) :
    (∀ e ∈ p.optimize.program.nodes, e.Reduced) ∧
      p.optimize.folded + p.optimize.program.binaryCount = p.binaryCount ∧
      p.optimize.program.optimize = ⟨p.optimize.program, 0, p.optimize.warnings⟩ ∧
      (p.optimize.warnings.filter fun w => w.kind = .divisionByZero).Perm
        ((p.optimize.program.nodes.filterMap Expr.zeroDivisor?).map fun e => ⟨.divisionByZero, e.span⟩) := by
  have hreduced := p.fold_nodes_reduced
  have hsame : p.fold.fold = p.fold := Program.fold_of_reduced hreduced
  have hnone : p.fold.foldCount = 0 := by
    have hcount := p.fold.foldCount_add
    rw [hsame] at hcount
    omega
  rw [p.optimize_eq]
  refine ⟨hreduced, p.foldCount_add, ?_, p.division_warnings⟩
  rw [p.fold.optimize_eq, hsame, hnone]

end Scriptlet
