import Scriptlet.Proofs.Optimizing
import Scriptlet.Proofs.Syntax.Acceptance

/-! What a program carries: the places of its nodes, the names and the literals in it, and the modules that it
asks for. Folding adds nothing but integers, and the tokens of a program have all its names and literals. -/
namespace Scriptlet

/-- Something that a node of a program carries. -/
inductive Mark where
  | place (span : Span)
  | name (text : String)
  | literal (value : Literal)
  | target (module : String)

def Identifier.marks (id : Identifier) : List Mark := [.name id.name, .place id.span]

namespace Expr

mutual

def marks : Expr → List Mark
  | identifier id => id.marks
  | literal value span => [.literal value, .place span]
  | binary _ left right span => .place span :: (left.marks ++ right.marks)
  | unary _ operand span => .place span :: operand.marks
  | step _ target span => .place span :: target.marks
  | ternary condition resolution alternative span =>
    .place span :: (condition.marks ++ (resolution.marks ++ alternative.marks))
  | assign target _ value span => .place span :: (target.marks ++ value.marks)
  | call callee arguments span => .place span :: (callee.marks ++ marksList arguments)
  | member object name span => .place span :: (object.marks ++ name.marks)
  | index object key span => .place span :: (object.marks ++ key.marks)
  | list items span => .place span :: marksList items
  | map entries span => .place span :: marksEntries entries
  | lambda parameters body span => .place span :: (parameters.flatMap Identifier.marks ++ body.marks)
  | input none span => [.place span]
  | input (some prompt) span => .place span :: prompt.marks
  | nested inner span => .place span :: inner.marks

def marksList : List Expr → List Mark
  | [] => []
  | e :: es => e.marks ++ marksList es

def marksEntries : List (Entry Expr) → List Mark
  | [] => []
  | ⟨_, value, span⟩ :: es => .place span :: (value.marks ++ marksEntries es)

end

def marksOption (e : Option Expr) : List Mark := e.elim [] marks

end Expr

def Binding.marks (b : Binding) : List Mark := b.name.marks ++ Expr.marksOption b.value

def Declaration.marks (d : Declaration) : List Mark := .place d.span :: d.bindings.flatMap Binding.marks

def Initializer.marks : Initializer → List Mark
  | declare d => d.marks
  | expression e span => .place span :: e.marks

def LoopHeader.marks (h : LoopHeader) : List Mark :=
  h.initializer.elim [] Initializer.marks ++ (Expr.marksOption h.condition ++ Expr.marksOption h.update)

mutual

def Stmt.marks : Stmt → List Mark
  | .declare d => d.marks
  | .function f => f.marks
  | .class_ name parent members span =>
    .place span :: (name.marks ++ (parent.elim [] Identifier.marks ++ marksMembers members))
  | .block b => b.marks
  | .conditional condition resolution none span =>
    .place span :: (condition.marks ++ resolution.marks)
  | .conditional condition resolution (some alternative) span =>
    .place span :: (condition.marks ++ (resolution.marks ++ alternative.marks))
  | .whileLoop condition body span => .place span :: (condition.marks ++ body.marks)
  | .forLoop header body span => .place span :: (header.marks ++ body.marks)
  | .switch subject cases span => .place span :: (subject.marks ++ marksCases cases)
  | .return_ value span => .place span :: Expr.marksOption value
  | .break_ span => [.place span]
  | .continue_ span => [.place span]
  | .throw value span => .place span :: value.marks
  | .try_ body handler cleanup span =>
    .place span :: (body.marks ++ (marksHandler handler ++ marksCleanup cleanup))
  | .import_ target span => [.target target, .place span]
  | .print values span => .place span :: Expr.marksList values
  | .pass span => [.place span]
  | .expression e span => .place span :: e.marks

def Block.marks : Block → List Mark
  | .mk statements span => .place span :: Stmt.marksList statements

def FunctionDecl.marks : FunctionDecl → List Mark
  | .mk name parameters body span =>
    .place span :: (name.marks ++ (parameters.flatMap Identifier.marks ++ body.marks))

def Stmt.marksList : List Stmt → List Mark
  | [] => []
  | s :: ss => s.marks ++ Stmt.marksList ss

def marksMembers : List Member → List Mark
  | [] => []
  | .field d :: ms => d.marks ++ marksMembers ms
  | .method f :: ms => f.marks ++ marksMembers ms

def marksCases : List Case → List Mark
  | [] => []
  | .mk value body span :: cs => .place span :: (Expr.marksOption value ++ (body.marks ++ marksCases cs))

def marksHandler : Option Handler → List Mark
  | none => []
  | some (.mk parameter body) => parameter.elim [] Identifier.marks ++ body.marks

def marksCleanup : Option Block → List Mark
  | none => []
  | some body => body.marks

end

def Program.marks (p : Program) : List Mark := Stmt.marksList p.statements

section Within

variable (P : Mark → Prop)

def Identifier.Within (id : Identifier) : Prop := P (.name id.name) ∧ P (.place id.span)

namespace Expr

mutual

/-- All that the expression carries has the property. -/
def Within : Expr → Prop
  | identifier id => id.Within P
  | literal value span => P (.literal value) ∧ P (.place span)
  | binary _ left right span => P (.place span) ∧ left.Within ∧ right.Within
  | unary _ operand span => P (.place span) ∧ operand.Within
  | step _ target span => P (.place span) ∧ target.Within P
  | ternary condition resolution alternative span =>
    P (.place span) ∧ condition.Within ∧ resolution.Within ∧ alternative.Within
  | assign target _ value span => P (.place span) ∧ target.Within P ∧ value.Within
  | call callee arguments span => P (.place span) ∧ callee.Within ∧ WithinList arguments
  | member object name span => P (.place span) ∧ object.Within ∧ name.Within P
  | index object key span => P (.place span) ∧ object.Within ∧ key.Within
  | list items span => P (.place span) ∧ WithinList items
  | map entries span => P (.place span) ∧ WithinEntries entries
  | lambda parameters body span => P (.place span) ∧ (∀ p ∈ parameters, p.Within P) ∧ body.Within
  | input none span => P (.place span)
  | input (some prompt) span => P (.place span) ∧ prompt.Within
  | nested inner span => P (.place span) ∧ inner.Within

def WithinList : List Expr → Prop
  | [] => True
  | e :: es => e.Within ∧ WithinList es

def WithinEntries : List (Entry Expr) → Prop
  | [] => True
  | ⟨_, value, span⟩ :: es => P (.place span) ∧ value.Within ∧ WithinEntries es

end

end Expr

def Binding.Within (b : Binding) : Prop := b.name.Within P ∧ ∀ e ∈ b.value, e.Within P

def Declaration.Within (d : Declaration) : Prop := P (.place d.span) ∧ ∀ b ∈ d.bindings, b.Within P

def Initializer.Within : Initializer → Prop
  | declare d => d.Within P
  | expression e span => P (.place span) ∧ e.Within P

def LoopHeader.Within (h : LoopHeader) : Prop :=
  (∀ i ∈ h.initializer, i.Within P) ∧ (∀ e ∈ h.condition, e.Within P) ∧ ∀ e ∈ h.update, e.Within P

mutual

def Stmt.Within : Stmt → Prop
  | .declare d => d.Within P
  | .function f => f.Within
  | .class_ name parent members span =>
    P (.place span) ∧ name.Within P ∧ (∀ id ∈ parent, id.Within P) ∧ WithinMembers members
  | .block b => b.Within
  | .conditional condition resolution none span =>
    P (.place span) ∧ condition.Within P ∧ resolution.Within
  | .conditional condition resolution (some alternative) span =>
    P (.place span) ∧ condition.Within P ∧ resolution.Within ∧ alternative.Within
  | .whileLoop condition body span => P (.place span) ∧ condition.Within P ∧ body.Within
  | .forLoop header body span => P (.place span) ∧ header.Within P ∧ body.Within
  | .switch subject cases span => P (.place span) ∧ subject.Within P ∧ WithinCases cases
  | .return_ value span => P (.place span) ∧ ∀ e ∈ value, e.Within P
  | .break_ span => P (.place span)
  | .continue_ span => P (.place span)
  | .throw value span => P (.place span) ∧ value.Within P
  | .try_ body handler cleanup span =>
    P (.place span) ∧ body.Within ∧ WithinHandler handler ∧ WithinCleanup cleanup
  | .import_ target span => P (.target target) ∧ P (.place span)
  | .print values span => P (.place span) ∧ Expr.WithinList P values
  | .pass span => P (.place span)
  | .expression e span => P (.place span) ∧ e.Within P

def Block.Within : Block → Prop
  | .mk statements span => P (.place span) ∧ Stmt.WithinList statements

def FunctionDecl.Within : FunctionDecl → Prop
  | .mk name parameters body span =>
    P (.place span) ∧ name.Within P ∧ (∀ p ∈ parameters, p.Within P) ∧ body.Within

def Stmt.WithinList : List Stmt → Prop
  | [] => True
  | s :: ss => s.Within ∧ Stmt.WithinList ss

def WithinMembers : List Member → Prop
  | [] => True
  | .field d :: ms => d.Within P ∧ WithinMembers ms
  | .method f :: ms => f.Within ∧ WithinMembers ms

def WithinCases : List Case → Prop
  | [] => True
  | .mk value body span :: cs =>
    P (.place span) ∧ (∀ e ∈ value, e.Within P) ∧ body.Within ∧ WithinCases cs

def WithinHandler : Option Handler → Prop
  | none => True
  | some (.mk parameter body) => (∀ id ∈ parameter, id.Within P) ∧ body.Within

def WithinCleanup : Option Block → Prop
  | none => True
  | some body => body.Within

end

def Program.Within (p : Program) : Prop := Stmt.WithinList P p.statements

end Within

variable {P Q : Mark → Prop}

theorem Identifier.within_iff (id : Identifier) : id.Within P ↔ ∀ k ∈ id.marks, P k := by
  simp [Within, marks]

theorem Identifier.within_all_iff (ids : List Identifier) :
    (∀ id ∈ ids, id.Within P) ↔ ∀ k ∈ ids.flatMap marks, P k := by
  simp only [within_iff, List.forall_mem_flatMap]

mutual

theorem Expr.within_iff : ∀ e : Expr, e.Within P ↔ ∀ k ∈ e.marks, P k
  | .identifier id => id.within_iff
  | .literal .. => by simp [Expr.Within, Expr.marks]
  | .binary _ l r _ => by simp [Expr.Within, Expr.marks, or_imp, forall_and, l.within_iff, r.within_iff]
  | .unary _ e _ => by simp [Expr.Within, Expr.marks, e.within_iff]
  | .step _ id _ => by simp [Expr.Within, Expr.marks, id.within_iff]
  | .ternary c r a _ => by
    simp [Expr.Within, Expr.marks, or_imp, forall_and, c.within_iff, r.within_iff, a.within_iff]
  | .assign id _ e _ => by simp [Expr.Within, Expr.marks, or_imp, forall_and, id.within_iff, e.within_iff]
  | .call f es _ => by
    simp [Expr.Within, Expr.marks, or_imp, forall_and, f.within_iff, Expr.withinList_iff_marks es]
  | .member e id _ => by simp [Expr.Within, Expr.marks, or_imp, forall_and, id.within_iff, e.within_iff]
  | .index e k _ => by simp [Expr.Within, Expr.marks, or_imp, forall_and, e.within_iff, k.within_iff]
  | .list es _ => by simp [Expr.Within, Expr.marks, Expr.withinList_iff_marks es]
  | .map es _ => by simp [Expr.Within, Expr.marks, Expr.withinEntries_iff_marks es]
  | .lambda ps e _ => by
    simp only [Expr.Within, Expr.marks, List.forall_mem_cons, List.forall_mem_append, e.within_iff,
      Identifier.within_all_iff]
  | .input none _ => by simp [Expr.Within, Expr.marks]
  | .input (some e) _ => by simp [Expr.Within, Expr.marks, e.within_iff]
  | .nested e _ => by simp [Expr.Within, Expr.marks, e.within_iff]

theorem Expr.withinList_iff_marks : ∀ es : List Expr, Expr.WithinList P es ↔ ∀ k ∈ Expr.marksList es, P k
  | [] => by simp [Expr.WithinList, Expr.marksList]
  | e :: es => by
    simp [Expr.WithinList, Expr.marksList, or_imp, forall_and, e.within_iff, Expr.withinList_iff_marks es]

theorem Expr.withinEntries_iff_marks :
    ∀ es : List (Entry Expr), Expr.WithinEntries P es ↔ ∀ k ∈ Expr.marksEntries es, P k
  | [] => by simp [Expr.WithinEntries, Expr.marksEntries]
  | ⟨_, e, _⟩ :: es => by
    simp [Expr.WithinEntries, Expr.marksEntries, or_imp, forall_and, e.within_iff,
      Expr.withinEntries_iff_marks es]

end

theorem Expr.withinOption_iff (e : Option Expr) : (∀ x ∈ e, x.Within P) ↔ ∀ k ∈ marksOption e, P k := by
  cases e with
  | none => simp [marksOption]
  | some e => simp [marksOption, e.within_iff]

theorem Identifier.withinOption_iff (id : Option Identifier) :
    (∀ x ∈ id, x.Within P) ↔ ∀ k ∈ id.elim [] marks, P k := by
  cases id with
  | none => simp
  | some id => simp [id.within_iff]

theorem Declaration.within_iff (d : Declaration) : d.Within P ↔ ∀ k ∈ d.marks, P k := by
  simp only [Within, marks, Binding.Within, Binding.marks, List.forall_mem_cons, List.forall_mem_flatMap,
    List.forall_mem_append, Identifier.within_iff, Expr.withinOption_iff]

theorem LoopHeader.within_iff (h : LoopHeader) : h.Within P ↔ ∀ k ∈ h.marks, P k := by
  have hinitializer : (∀ i ∈ h.initializer, i.Within P) ↔
      ∀ k ∈ h.initializer.elim [] Initializer.marks, P k := by
    cases h.initializer with
    | none => simp
    | some i =>
      cases i with
      | declare d => simp [Initializer.Within, Initializer.marks, d.within_iff]
      | expression e span => simp [Initializer.Within, Initializer.marks, e.within_iff]
  simp only [Within, marks, List.forall_mem_append, hinitializer, Expr.withinOption_iff]

mutual

theorem Stmt.within_iff : ∀ s : Stmt, s.Within P ↔ ∀ k ∈ s.marks, P k
  | .declare d => d.within_iff
  | .function f => f.within_iff
  | .class_ name parent ms _ => by
    simp only [Stmt.Within, Stmt.marks, List.forall_mem_cons, List.forall_mem_append, name.within_iff,
      Identifier.withinOption_iff parent, withinMembers_iff ms]
  | .block b => b.within_iff
  | .conditional c r none _ => by
    simp only [Stmt.Within, Stmt.marks, List.forall_mem_cons, List.forall_mem_append, c.within_iff,
      r.within_iff]
  | .conditional c r (some a) _ => by
    simp only [Stmt.Within, Stmt.marks, List.forall_mem_cons, List.forall_mem_append, c.within_iff,
      r.within_iff, a.within_iff]
  | .whileLoop c b _ => by
    simp only [Stmt.Within, Stmt.marks, List.forall_mem_cons, List.forall_mem_append, c.within_iff,
      b.within_iff]
  | .forLoop h b _ => by
    simp only [Stmt.Within, Stmt.marks, List.forall_mem_cons, List.forall_mem_append, h.within_iff,
      b.within_iff]
  | .switch e ks _ => by
    simp only [Stmt.Within, Stmt.marks, List.forall_mem_cons, List.forall_mem_append, e.within_iff,
      withinCases_iff ks]
  | .return_ e _ => by
    simp only [Stmt.Within, Stmt.marks, List.forall_mem_cons, Expr.withinOption_iff e]
  | .break_ _ => by simp [Stmt.Within, Stmt.marks]
  | .continue_ _ => by simp [Stmt.Within, Stmt.marks]
  | .throw e _ => by simp only [Stmt.Within, Stmt.marks, List.forall_mem_cons, e.within_iff]
  | .try_ b h f _ => by
    simp only [Stmt.Within, Stmt.marks, List.forall_mem_cons, List.forall_mem_append, b.within_iff,
      withinHandler_iff h, withinCleanup_iff f]
  | .import_ _ _ => by simp [Stmt.Within, Stmt.marks]
  | .print es _ => by
    simp only [Stmt.Within, Stmt.marks, List.forall_mem_cons, Expr.withinList_iff_marks es]
  | .pass _ => by simp [Stmt.Within, Stmt.marks]
  | .expression e _ => by simp only [Stmt.Within, Stmt.marks, List.forall_mem_cons, e.within_iff]

theorem Block.within_iff : ∀ b : Block, b.Within P ↔ ∀ k ∈ b.marks, P k
  | .mk ss _ => by simp only [Block.Within, Block.marks, List.forall_mem_cons, withinStatements_iff ss]

theorem FunctionDecl.within_iff : ∀ f : FunctionDecl, f.Within P ↔ ∀ k ∈ f.marks, P k
  | .mk name ps b _ => by
    simp only [FunctionDecl.Within, FunctionDecl.marks, List.forall_mem_cons, List.forall_mem_append,
      name.within_iff, Identifier.within_all_iff ps, b.within_iff]

theorem withinStatements_iff : ∀ ss : List Stmt, Stmt.WithinList P ss ↔ ∀ k ∈ Stmt.marksList ss, P k
  | [] => by simp [Stmt.WithinList, Stmt.marksList]
  | s :: ss => by
    simp only [Stmt.WithinList, Stmt.marksList, List.forall_mem_append, s.within_iff,
      withinStatements_iff ss]

theorem withinMembers_iff : ∀ ms : List Member, WithinMembers P ms ↔ ∀ k ∈ marksMembers ms, P k
  | [] => by simp [WithinMembers, marksMembers]
  | .field d :: ms => by
    simp only [WithinMembers, marksMembers, List.forall_mem_append, d.within_iff, withinMembers_iff ms]
  | .method f :: ms => by
    simp only [WithinMembers, marksMembers, List.forall_mem_append, f.within_iff, withinMembers_iff ms]

theorem withinCases_iff : ∀ ks : List Case, WithinCases P ks ↔ ∀ k ∈ marksCases ks, P k
  | [] => by simp [WithinCases, marksCases]
  | .mk e b _ :: ks => by
    simp only [WithinCases, marksCases, List.forall_mem_cons, List.forall_mem_append,
      Expr.withinOption_iff e, b.within_iff, withinCases_iff ks]

theorem withinHandler_iff : ∀ h : Option Handler, WithinHandler P h ↔ ∀ k ∈ marksHandler h, P k
  | none => by simp [WithinHandler, marksHandler]
  | some (.mk id b) => by
    simp only [WithinHandler, marksHandler, List.forall_mem_append, Identifier.withinOption_iff id,
      b.within_iff]

theorem withinCleanup_iff : ∀ b : Option Block, WithinCleanup P b ↔ ∀ k ∈ marksCleanup b, P k
  | none => by simp [WithinCleanup, marksCleanup]
  | some b => b.within_iff

end

theorem Program.within_iff (p : Program) : p.Within P ↔ ∀ k ∈ p.marks, P k :=
  withinStatements_iff p.statements

theorem Expr.Within.foldedBinary {op : BinaryOp} {l r : Expr} {span : Span}
    (hint : ∀ v, P (.literal (.int v))) (hs : P (.place span)) (hl : l.Within P) (hr : r.Within P) :
    (Expr.foldedBinary op l r span).Within P := by
  unfold Expr.foldedBinary
  split
  · exact ⟨hint _, hs⟩
  · exact ⟨hs, hl, hr⟩

theorem Expr.Within.foldedNested {e : Expr} {span : Span} (hs : P (.place span)) (he : e.Within P) :
    (Expr.foldedNested e span).Within P := by
  cases e with
  | literal value at_ => exact he
  | _ => exact ⟨hs, he⟩

mutual

theorem Expr.Within.fold (hint : ∀ v, P (.literal (.int v))) :
    ∀ {e : Expr}, e.Within P → e.fold.Within P
  | .identifier _, h => h
  | .literal .., h => h
  | .binary .., ⟨hs, hl, hr⟩ => .foldedBinary hint hs (hl.fold hint) (hr.fold hint)
  | .unary .., ⟨hs, he⟩ => ⟨hs, he.fold hint⟩
  | .step .., h => h
  | .ternary .., ⟨hs, hc, hr, ha⟩ => ⟨hs, hc.fold hint, hr.fold hint, ha.fold hint⟩
  | .assign .., ⟨hs, hid, he⟩ => ⟨hs, hid, he.fold hint⟩
  | .call .., ⟨hs, hf, hes⟩ => ⟨hs, hf.fold hint, Expr.WithinList.fold hint hes⟩
  | .member .., ⟨hs, he, hid⟩ => ⟨hs, he.fold hint, hid⟩
  | .index .., ⟨hs, he, hk⟩ => ⟨hs, he.fold hint, hk.fold hint⟩
  | .list .., ⟨hs, hes⟩ => ⟨hs, Expr.WithinList.fold hint hes⟩
  | .map .., ⟨hs, hes⟩ => ⟨hs, Expr.WithinEntries.fold hint hes⟩
  | .lambda .., ⟨hs, hps, he⟩ => ⟨hs, hps, he.fold hint⟩
  | .input none _, h => h
  | .input (some _) _, ⟨hs, he⟩ => ⟨hs, he.fold hint⟩
  | .nested .., ⟨hs, he⟩ => .foldedNested hs (he.fold hint)

theorem Expr.WithinList.fold (hint : ∀ v, P (.literal (.int v))) :
    ∀ {es : List Expr}, Expr.WithinList P es → Expr.WithinList P (Expr.foldList es)
  | [], h => h
  | _ :: _, ⟨he, hes⟩ => ⟨he.fold hint, Expr.WithinList.fold hint hes⟩

theorem Expr.WithinEntries.fold (hint : ∀ v, P (.literal (.int v))) :
    ∀ {es : List (Entry Expr)}, Expr.WithinEntries P es → Expr.WithinEntries P (Expr.foldEntries es)
  | [], h => h
  | ⟨_, _, _⟩ :: _, ⟨hs, he, hes⟩ => ⟨hs, he.fold hint, Expr.WithinEntries.fold hint hes⟩

end

theorem Expr.withinOption_fold (hint : ∀ v, P (.literal (.int v))) {e : Option Expr}
    (h : ∀ x ∈ e, x.Within P) : ∀ x ∈ e.map Expr.fold, x.Within P := by
  cases e with
  | none => simp
  | some e => simpa using (h e rfl).fold hint

theorem Declaration.Within.fold (hint : ∀ v, P (.literal (.int v))) {d : Declaration} (h : d.Within P) :
    d.fold.Within P := by
  refine ⟨h.1, fun b hb => ?_⟩
  obtain ⟨b, hmem, rfl⟩ := List.mem_map.1 hb
  exact ⟨(h.2 b hmem).1, Expr.withinOption_fold hint (h.2 b hmem).2⟩

theorem LoopHeader.Within.fold (hint : ∀ v, P (.literal (.int v))) {h : LoopHeader} (hh : h.Within P) :
    h.fold.Within P := by
  obtain ⟨hi, hc, hu⟩ := hh
  refine ⟨fun i hi' => ?_, Expr.withinOption_fold hint hc, Expr.withinOption_fold hint hu⟩
  obtain ⟨i, hmem, rfl⟩ := Option.map_eq_some_iff.1 hi'
  have hwithin := hi i hmem
  cases i with
  | declare d => exact Declaration.Within.fold hint hwithin
  | expression e span => exact ⟨hwithin.1, hwithin.2.fold hint⟩

mutual

theorem Stmt.Within.fold (hint : ∀ v, P (.literal (.int v))) :
    ∀ {s : Stmt}, s.Within P → s.fold.Within P
  | .declare _, h => Declaration.Within.fold hint h
  | .function _, h => FunctionDecl.Within.fold hint h
  | .class_ .., ⟨hs, hid, hp, hms⟩ => ⟨hs, hid, hp, WithinMembers.fold hint hms⟩
  | .block _, h => Block.Within.fold hint h
  | .conditional _ _ none _, ⟨hs, hc, hr⟩ => ⟨hs, hc.fold hint, hr.fold hint⟩
  | .conditional _ _ (some _) _, ⟨hs, hc, hr, ha⟩ => ⟨hs, hc.fold hint, hr.fold hint, ha.fold hint⟩
  | .whileLoop .., ⟨hs, hc, hb⟩ => ⟨hs, hc.fold hint, hb.fold hint⟩
  | .forLoop .., ⟨hs, hh, hb⟩ => ⟨hs, hh.fold hint, hb.fold hint⟩
  | .switch .., ⟨hs, he, hks⟩ => ⟨hs, he.fold hint, WithinCases.fold hint hks⟩
  | .return_ .., ⟨hs, he⟩ => ⟨hs, Expr.withinOption_fold hint he⟩
  | .break_ _, h => h
  | .continue_ _, h => h
  | .throw .., ⟨hs, he⟩ => ⟨hs, he.fold hint⟩
  | .try_ .., ⟨hs, hb, hh, hf⟩ =>
    ⟨hs, Block.Within.fold hint hb, WithinHandler.fold hint hh, WithinCleanup.fold hint hf⟩
  | .import_ .., h => h
  | .print .., ⟨hs, hes⟩ => ⟨hs, hes.fold hint⟩
  | .pass _, h => h
  | .expression .., ⟨hs, he⟩ => ⟨hs, he.fold hint⟩

theorem Block.Within.fold (hint : ∀ v, P (.literal (.int v))) :
    ∀ {b : Block}, b.Within P → b.fold.Within P
  | .mk .., ⟨hs, hss⟩ => ⟨hs, Stmt.WithinList.fold hint hss⟩

theorem FunctionDecl.Within.fold (hint : ∀ v, P (.literal (.int v))) :
    ∀ {f : FunctionDecl}, f.Within P → f.fold.Within P
  | .mk .., ⟨hs, hid, hps, hb⟩ => ⟨hs, hid, hps, Block.Within.fold hint hb⟩

theorem Stmt.WithinList.fold (hint : ∀ v, P (.literal (.int v))) :
    ∀ {ss : List Stmt}, Stmt.WithinList P ss → Stmt.WithinList P (Stmt.foldList ss)
  | [], h => h
  | _ :: _, ⟨hs, hss⟩ => ⟨hs.fold hint, Stmt.WithinList.fold hint hss⟩

theorem WithinMembers.fold (hint : ∀ v, P (.literal (.int v))) :
    ∀ {ms : List Member}, WithinMembers P ms → WithinMembers P (foldMembers ms)
  | [], h => h
  | .field _ :: _, ⟨hd, hms⟩ => ⟨hd.fold hint, WithinMembers.fold hint hms⟩
  | .method _ :: _, ⟨hf, hms⟩ => ⟨FunctionDecl.Within.fold hint hf, WithinMembers.fold hint hms⟩

theorem WithinCases.fold (hint : ∀ v, P (.literal (.int v))) :
    ∀ {ks : List Case}, WithinCases P ks → WithinCases P (foldCases ks)
  | [], h => h
  | .mk .. :: _, ⟨hs, he, hb, hks⟩ =>
    ⟨hs, Expr.withinOption_fold hint he, hb.fold hint, WithinCases.fold hint hks⟩

theorem WithinHandler.fold (hint : ∀ v, P (.literal (.int v))) :
    ∀ {h : Option Handler}, WithinHandler P h → WithinHandler P (foldHandler h)
  | none, h => h
  | some (.mk ..), ⟨hid, hb⟩ => ⟨hid, Block.Within.fold hint hb⟩

theorem WithinCleanup.fold (hint : ∀ v, P (.literal (.int v))) :
    ∀ {b : Option Block}, WithinCleanup P b → WithinCleanup P (foldCleanup b)
  | none, h => h
  | some _, h => Block.Within.fold hint h

end

/-- Folding puts nothing into a program but integers. -/
theorem Program.Within.fold (hint : ∀ v, P (.literal (.int v))) {p : Program} (h : p.Within P) :
    p.fold.Within P := Stmt.WithinList.fold hint h

/-- The name or the literal that the token is has the property. -/
structure Token.Bears (P : Mark → Prop) (t : Token) : Prop where
  name : ∀ {x}, t = .identifier x → P (.name x)
  literal : ∀ {v}, t.literal? = some v → P (.literal v)

/-- The property is one of names and literals only. -/
structure Mark.Textual (P : Mark → Prop) : Prop where
  place : ∀ s, P (.place s)
  target : ∀ m, P (.target m)

theorem Token.Bears.within (hP : Mark.Textual P) {id : Identifier}
    (h : (Token.identifier id.name).Bears P) : id.Within P :=
  ⟨h.name rfl, hP.place id.span⟩

theorem Listed.within_names (hP : Mark.Textual P) {ps : List Identifier} {ts : List Token}
    (h : Listed Identifier.Yields ps ts) (hts : ∀ t ∈ ts, t.Bears P) : ∀ p ∈ ps, p.Within P := by
  induction h with
  | nil => simp
  | last hy =>
    cases hy
    exact List.forall_mem_singleton.2 ((hts _ List.mem_cons_self).within hP)
  | more hy _ ih =>
    cases hy
    rw [List.forall_mem_append, List.forall_mem_singleton, List.forall_mem_cons] at hts
    exact List.forall_mem_cons.2 ⟨hts.1.within hP, ih hts.2.2⟩

mutual

/-- The names and literals of an expression stand among its tokens. -/
theorem Expr.Yields.within (hP : Mark.Textual P) : ∀ {e : Expr} {ts : List Token}, e.Yields ts →
    (∀ t ∈ ts, t.Bears P) → e.Within P
  | .identifier id, _, hy, hts => by
    cases hy
    exact (hts _ List.mem_cons_self).within hP
  | .literal value s, _, hy, hts => by
    cases hy with
    | literal _ ht => exact ⟨(hts _ List.mem_cons_self).literal ht, hP.place s⟩
  | .binary op l r s, _, hy, hts => by
    cases hy with
    | binary _ _ hl hr =>
      rw [List.forall_mem_append, List.forall_mem_cons] at hts
      exact ⟨hP.place s, hl.within hP hts.1, hr.within hP hts.2.2⟩
  | .unary op e s, _, hy, hts => by
    cases hy with
    | unary _ _ he => exact ⟨hP.place s, he.within hP (List.forall_mem_cons.1 hts).2⟩
  | .step op id s, _, hy, hts => by
    cases hy
    exact ⟨hP.place s, (hts _ (List.mem_cons_of_mem _ List.mem_cons_self)).within hP⟩
  | .ternary c r a s, _, hy, hts => by
    cases hy with
    | ternary _ hc hr ha =>
      simp only [List.forall_mem_append, List.forall_mem_cons] at hts
      exact ⟨hP.place s, hc.within hP hts.1, hr.within hP hts.2.2.1, ha.within hP hts.2.2.2.2⟩
  | .assign id op e s, _, hy, hts => by
    cases hy with
    | assign _ _ _ he =>
      rw [List.forall_mem_cons, List.forall_mem_cons] at hts
      exact ⟨hP.place s, hts.1.within hP, he.within hP hts.2.2⟩
  | .call f es s, _, hy, hts => by
    cases hy with
    | call _ hf hes =>
      simp only [List.forall_mem_append, List.forall_mem_cons] at hts
      exact ⟨hP.place s, hf.within hP hts.1, hes.within hP hts.2.2.1⟩
  | .member e id s, _, hy, hts => by
    cases hy with
    | member _ _ he =>
      rw [List.forall_mem_append, List.forall_mem_cons, List.forall_mem_singleton] at hts
      exact ⟨hP.place s, he.within hP hts.1, hts.2.2.within hP⟩
  | .index e k s, _, hy, hts => by
    cases hy with
    | index _ he hk =>
      simp only [List.forall_mem_append, List.forall_mem_cons] at hts
      exact ⟨hP.place s, he.within hP hts.1, hk.within hP hts.2.2.1⟩
  | .list es s, _, hy, hts => by
    cases hy with
    | list _ hes =>
      rw [List.forall_mem_cons, List.forall_mem_append] at hts
      exact ⟨hP.place s, hes.within hP hts.2.1⟩
  | .map es s, _, hy, hts => by
    cases hy with
    | map _ hes =>
      rw [List.forall_mem_cons, List.forall_mem_append] at hts
      exact ⟨hP.place s, hes.within_entries hP hts.2.1⟩
  | .lambda ps e s, _, hy, hts => by
    cases hy with
    | lambda _ hps he =>
      simp only [List.forall_mem_append, List.forall_mem_cons] at hts
      exact ⟨hP.place s, hps.within_names hP hts.2.2.1, he.within hP hts.2.2.2.2.2⟩
  | .input none s, _, _, _ => hP.place s
  | .input (some e) s, _, hy, hts => by
    cases hy with
    | input _ hp =>
      cases hp with
      | some he =>
        simp only [List.forall_mem_append, List.forall_mem_cons] at hts
        exact ⟨hP.place s, he.within hP hts.2.2.1⟩
  | .nested e s, _, hy, hts => by
    cases hy with
    | nested _ he =>
      rw [List.forall_mem_cons, List.forall_mem_append] at hts
      exact ⟨hP.place s, he.within hP hts.2.1⟩

theorem Listed.within (hP : Mark.Textual P) : ∀ {es : List Expr} {ts : List Token},
    Listed Expr.Yields es ts → (∀ t ∈ ts, t.Bears P) → Expr.WithinList P es
  | [], _, _, _ => trivial
  | e :: es, _, hy, hts => by
    cases hy with
    | last he => exact ⟨he.within hP hts, trivial⟩
    | more he hes =>
      rw [List.forall_mem_append, List.forall_mem_cons] at hts
      exact ⟨he.within hP hts.1, hes.within hP hts.2.2⟩

theorem Listed.within_entries (hP : Mark.Textual P) : ∀ {es : List (Entry Expr)} {ts : List Token},
    Listed Entry.Yields es ts → (∀ t ∈ ts, t.Bears P) → Expr.WithinEntries P es
  | [], _, _, _ => trivial
  | ⟨_, value, s⟩ :: es, _, hy, hts => by
    cases hy with
    | last he =>
      cases he with
      | mk _ _ hv =>
        rw [List.forall_mem_cons, List.forall_mem_cons] at hts
        exact ⟨hP.place s, hv.within hP hts.2.2, trivial⟩
    | more he hes =>
      cases he with
      | mk _ _ hv =>
        simp only [List.forall_mem_append, List.forall_mem_cons] at hts
        exact ⟨hP.place s, hv.within hP hts.1.2.2, hes.within_entries hP hts.2.2⟩

end

theorem Maybe.within (hP : Mark.Textual P) {e : Option Expr} {ts : List Token}
    (h : Maybe Expr.Yields e ts) (hts : ∀ t ∈ ts, t.Bears P) : ∀ x ∈ e, x.Within P := by
  cases h with
  | none => simp
  | some he => simpa using he.within hP hts

theorem Binding.Yields.within (hP : Mark.Textual P) {b : Binding} {ts : List Token} (h : b.Yields ts)
    (hts : ∀ t ∈ ts, t.Bears P) : b.Within P := by
  cases h with
  | plain id => exact ⟨(hts _ List.mem_cons_self).within hP, by simp⟩
  | value id he =>
    rw [List.forall_mem_cons, List.forall_mem_cons] at hts
    exact ⟨hts.1.within hP, by simpa using he.within hP hts.2.2⟩

theorem Sequenced.within (hP : Mark.Textual P) {bs : List Binding} {ts : List Token}
    (h : Sequenced Binding.Yields bs ts) (hts : ∀ t ∈ ts, t.Bears P) : ∀ b ∈ bs, b.Within P := by
  induction h with
  | last hb => exact List.forall_mem_singleton.2 (hb.within hP hts)
  | more hb _ ih =>
    rw [List.forall_mem_append, List.forall_mem_cons] at hts
    exact List.forall_mem_cons.2 ⟨hb.within hP hts.1, ih hts.2.2⟩

theorem Declaration.Yields.within (hP : Mark.Textual P) {d : Declaration} {ts : List Token}
    (h : d.Yields ts) (hts : ∀ t ∈ ts, t.Bears P) : d.Within P := by
  cases h with
  | mk s _ hbs =>
    rw [List.forall_mem_cons, List.forall_mem_append] at hts
    exact ⟨hP.place s, hbs.within hP hts.2.1⟩

theorem LoopHeader.Yields.within (hP : Mark.Textual P) {h : LoopHeader} {ts : List Token}
    (hy : h.Yields ts) (hts : ∀ t ∈ ts, t.Bears P) : h.Within P := by
  cases hy with
  | mk hi hc hu =>
    simp only [List.forall_mem_append, List.forall_mem_cons] at hts
    refine ⟨?_, hc.within hP hts.2.1, hu.within hP hts.2.2.2⟩
    cases hi with
    | none => simp
    | declare hd =>
      intro i hi
      cases hi
      exact hd.within hP hts.1
    | expression s he =>
      intro i hi
      cases hi
      exact ⟨hP.place s, he.within hP (List.forall_mem_append.1 hts.1).1⟩

theorem Bracketed.within (hP : Mark.Textual P) {e : Expr} {ts : List Token} (h : Bracketed e ts)
    (hts : ∀ t ∈ ts, t.Bears P) : e.Within P := by
  cases h with
  | mk he =>
    rw [List.forall_mem_cons, List.forall_mem_append] at hts
    exact he.within hP hts.2.1

mutual

/-- The names and literals of a statement stand among its tokens. -/
theorem Stmt.Yields.within (hP : Mark.Textual P) : ∀ {x : Stmt} {ts : List Token}, x.Yields ts →
    (∀ t ∈ ts, t.Bears P) → x.Within P
  | .declare d, _, hy, hts => by
    cases hy with
    | declare hd => exact hd.within hP hts
  | .function f, _, hy, hts => by
    cases hy with
    | function hf => exact hf.within hP hts
  | .class_ id p ms s, _, hy, hts => by
    cases hy with
    | class_ _ _ hms =>
      simp only [List.forall_mem_append, List.forall_mem_cons] at hts
      exact ⟨hP.place s, hts.2.1.within hP, by simp, hms.within_members hP hts.2.2.2.1⟩
    | subclass _ p _ hms =>
      simp only [List.forall_mem_append, List.forall_mem_cons] at hts
      exact ⟨hP.place s, hts.2.1.within hP, by simpa using hts.2.2.2.1.within hP,
        hms.within_members hP hts.2.2.2.2.2.1⟩
  | .block b, _, hy, hts => by
    cases hy with
    | block hb => exact hb.within hP hts
  | .conditional c r none s, _, hy, hts => by
    cases hy with
    | conditional _ hc hr =>
      rw [List.forall_mem_cons, List.forall_mem_append] at hts
      exact ⟨hP.place s, hc.within hP hts.2.1, hr.within hP hts.2.2⟩
  | .conditional c r (some a) s, _, hy, hts => by
    cases hy with
    | alternative _ hc hr ha =>
      simp only [List.forall_mem_append, List.forall_mem_cons] at hts
      exact ⟨hP.place s, hc.within hP hts.2.1, hr.within hP hts.2.2.1, ha.within hP hts.2.2.2.2⟩
  | .whileLoop c b s, _, hy, hts => by
    cases hy with
    | whileLoop _ hc hb =>
      rw [List.forall_mem_cons, List.forall_mem_append] at hts
      exact ⟨hP.place s, hc.within hP hts.2.1, hb.within hP hts.2.2⟩
  | .forLoop h b s, _, hy, hts => by
    cases hy with
    | forLoop _ hh hb =>
      simp only [List.forall_mem_append, List.forall_mem_cons] at hts
      exact ⟨hP.place s, hh.within hP hts.2.2.1, hb.within hP hts.2.2.2.2⟩
  | .switch e ks s, _, hy, hts => by
    cases hy with
    | switch _ he hks =>
      simp only [List.forall_mem_append, List.forall_mem_cons] at hts
      exact ⟨hP.place s, he.within hP hts.2.1, hks.within_cases hP hts.2.2.2.1⟩
  | .return_ v s, _, hy, hts => by
    cases hy with
    | return_ _ hv =>
      rw [List.forall_mem_cons, List.forall_mem_append] at hts
      exact ⟨hP.place s, hv.within hP hts.2.1⟩
  | .break_ s, _, _, _ => hP.place s
  | .continue_ s, _, _, _ => hP.place s
  | .throw e s, _, hy, hts => by
    cases hy with
    | throw _ he =>
      rw [List.forall_mem_cons, List.forall_mem_append] at hts
      exact ⟨hP.place s, he.within hP hts.2.1⟩
  | .try_ b h f s, _, hy, hts => by
    cases hy with
    | try_ _ hb hh hf =>
      rw [List.forall_mem_cons, List.forall_mem_append, List.forall_mem_append] at hts
      exact ⟨hP.place s, hb.within hP hts.2.1, hh.within_handler hP hts.2.2.1,
        hf.within_cleanup hP hts.2.2.2⟩
  | .import_ target s, _, _, _ => ⟨hP.target target, hP.place s⟩
  | .print es s, _, hy, hts => by
    cases hy with
    | print _ hes =>
      rw [List.forall_mem_cons, List.forall_mem_cons, List.forall_mem_append] at hts
      exact ⟨hP.place s, hes.within hP hts.2.2.1⟩
  | .pass s, _, _, _ => hP.place s
  | .expression e s, _, hy, hts => by
    cases hy with
    | expression _ he =>
      rw [List.forall_mem_append] at hts
      exact ⟨hP.place s, he.within hP hts.1⟩

theorem Block.Yields.within (hP : Mark.Textual P) : ∀ {b : Block} {ts : List Token}, b.Yields ts →
    (∀ t ∈ ts, t.Bears P) → b.Within P
  | .mk ss s, _, hy, hts => by
    cases hy with
    | mk _ hss =>
      rw [List.forall_mem_cons, List.forall_mem_append] at hts
      exact ⟨hP.place s, hss.within hP hts.2.1⟩

theorem FunctionDecl.Yields.within (hP : Mark.Textual P) : ∀ {f : FunctionDecl} {ts : List Token},
    f.Yields ts → (∀ t ∈ ts, t.Bears P) → f.Within P
  | .mk id ps b s, _, hy, hts => by
    cases hy with
    | mk _ _ hps hb =>
      simp only [List.forall_mem_append, List.forall_mem_cons] at hts
      exact ⟨hP.place s, hts.2.1.within hP, hps.within_names hP hts.2.2.2.1,
        hb.within hP hts.2.2.2.2.2⟩

theorem Joined.within (hP : Mark.Textual P) : ∀ {ss : List Stmt} {ts : List Token},
    Joined Stmt.Yields ss ts → (∀ t ∈ ts, t.Bears P) → Stmt.WithinList P ss
  | [], _, _, _ => trivial
  | x :: ss, _, hy, hts => by
    cases hy with
    | cons hx hss =>
      rw [List.forall_mem_append] at hts
      exact ⟨hx.within hP hts.1, hss.within hP hts.2⟩

theorem Joined.within_members (hP : Mark.Textual P) : ∀ {ms : List Member} {ts : List Token},
    Joined Member.Yields ms ts → (∀ t ∈ ts, t.Bears P) → WithinMembers P ms
  | [], _, _, _ => trivial
  | .field d :: ms, _, hy, hts => by
    cases hy with
    | cons hd hms =>
      rw [List.forall_mem_append] at hts
      cases hd with
      | field hd => exact ⟨hd.within hP hts.1, hms.within_members hP hts.2⟩
  | .method f :: ms, _, hy, hts => by
    cases hy with
    | cons hf hms =>
      rw [List.forall_mem_append] at hts
      cases hf with
      | method hf => exact ⟨hf.within hP hts.1, hms.within_members hP hts.2⟩

theorem Joined.within_cases (hP : Mark.Textual P) : ∀ {ks : List Case} {ts : List Token},
    Joined Case.Yields ks ts → (∀ t ∈ ts, t.Bears P) → WithinCases P ks
  | [], _, _, _ => trivial
  | .mk (some e) b s :: ks, _, hy, hts => by
    cases hy with
    | cons hk hks =>
      cases hk with
      | value _ he hb =>
        simp only [List.forall_mem_append, List.forall_mem_cons] at hts
        exact ⟨hP.place s, by simpa using he.within hP hts.1.2.1, hb.within hP hts.1.2.2.2,
          hks.within_cases hP hts.2⟩
  | .mk none b s :: ks, _, hy, hts => by
    cases hy with
    | cons hk hks =>
      cases hk with
      | default _ hb =>
        simp only [List.forall_mem_append, List.forall_mem_cons] at hts
        exact ⟨hP.place s, by simp, hb.within hP hts.1.2.2, hks.within_cases hP hts.2⟩

theorem Maybe.within_handler (hP : Mark.Textual P) : ∀ {h : Option Handler} {ts : List Token},
    Maybe Handler.Yields h ts → (∀ t ∈ ts, t.Bears P) → WithinHandler P h
  | none, _, _, _ => trivial
  | some (.mk none b), _, hy, hts => by
    cases hy with
    | some hk =>
      cases hk with
      | plain hb => exact ⟨by simp, hb.within hP (List.forall_mem_cons.1 hts).2⟩
  | some (.mk (some id) b), _, hy, hts => by
    cases hy with
    | some hk =>
      cases hk with
      | named _ hb =>
        simp only [List.forall_mem_cons] at hts
        exact ⟨by simpa using hts.2.2.1.within hP, hb.within hP hts.2.2.2.2⟩

theorem Maybe.within_cleanup (hP : Mark.Textual P) : ∀ {b : Option Block} {ts : List Token},
    Maybe Block.YieldsCleanup b ts → (∀ t ∈ ts, t.Bears P) → WithinCleanup P b
  | none, _, _, _ => trivial
  | some b, _, hy, hts => by
    cases hy with
    | some hb =>
      cases hb with
      | mk hb => exact hb.within hP (List.forall_mem_cons.1 hts).2

end

/-- The names and literals of a program that was read stand among the tokens of its source. -/
theorem parse_within (hP : Mark.Textual P) {source : String} {p : Program} (h : parse source = .ok p)
    (hts : ∀ t ∈ sourceTokens source, t.Bears P) : p.Within P := by
  obtain ⟨he, rfl⟩ := parse_eq_ok_iff.1 h
  obtain ⟨-, -, hyields⟩ := Parsed.ofSource_sound he
  exact Joined.within hP hyields hts

end Scriptlet
