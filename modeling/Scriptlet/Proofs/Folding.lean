import Scriptlet.Proofs.Outcome
import Scriptlet.Proofs.Optimizing

/-! Folding keeps the meaning of programs. What folding computes is what the operator yields at run
time, so that an expression folded to a literal yields that literal and does nothing else; all other code
keeps its form. Functions and classes made by the folded program hold folded code, which the likeness
`folding` allows for. -/
namespace Scriptlet

namespace Expr.Settles

theorem literal (value : Literal) (s : Span) : (Expr.literal value s).Settles (.ofLiteral value) where
  only n c env m hf := by
    cases n with
    | zero => exact (hf rfl).elim
    | succ n => rw [evaluator_evaluate]; rfl
  reached := by
    refine ⟨1, fun j hj c env m => ?_⟩
    obtain ⟨i, rfl⟩ : ∃ i, j = i + 1 := ⟨j - 1, by omega⟩
    rw [evaluator_evaluate]
    rfl

theorem nested {e : Expr} {v : Value} (h : e.Settles v) (s : Span) : (Expr.nested e s).Settles v where
  only n c env m hf := by
    cases n with
    | zero => exact (hf rfl).elim
    | succ n =>
      rw [evaluator_evaluate] at hf ⊢
      exact h.only n c env m hf
  reached := by
    obtain ⟨k, hk⟩ := h.reached
    refine ⟨k + 1, fun j hj c env m => ?_⟩
    obtain ⟨i, rfl⟩ : ∃ i, j = i + 1 := ⟨j - 1, by omega⟩
    rw [evaluator_evaluate]
    exact hk i (by omega) c env m

theorem compute {l r : Expr} {a b v : Value} (hl : l.Settles a) (hr : r.Settles b) (op : ComputeOp)
    (hv : ∀ s, op.apply s a b = .ok v) (s : Span) : (Expr.binary (.compute op) l r s).Settles v := by
  have hend : ∀ (n : Nat) (c : Context) (env : Env) (m : Machine),
      (evaluator n).evaluate c env l m = .ok a m → (evaluator n).evaluate c env r m = .ok b m →
      (evaluator n).evaluateStep c env (.binary (.compute op) l r s) m = .ok v m := by
    intro n c env m ha hb
    refine (bind_ok ha _).trans ((bind_ok hb _).trans ?_)
    show Action.ofExcept s (op.apply m.store a b) m = .ok v m
    rw [hv]
    rfl
  constructor
  · intro n c env m hf
    cases n with
    | zero => exact (hf rfl).elim
    | succ n =>
      rw [evaluator_evaluate] at hf ⊢
      have ha := hl.only n c env m hf.of_bind
      have hrest : Finished (((evaluator n).evaluate c env r >>= fun y => Scriptlet.compute op a y s) m) := by
        rw [← bind_ok ha fun x => (evaluator n).evaluate c env r >>= fun y => Scriptlet.compute op x y s]
        exact hf
      exact hend n c env m ha (hr.only n c env m hrest.of_bind)
  · obtain ⟨k, hk⟩ := hl.reached
    obtain ⟨k', hk'⟩ := hr.reached
    refine ⟨max k k' + 1, fun j hj c env m => ?_⟩
    obtain ⟨i, rfl⟩ : ∃ i, j = i + 1 := ⟨j - 1, by omega⟩
    rw [evaluator_evaluate]
    exact hend i c env m (hk i (by omega) c env m) (hk' i (by omega) c env m)

end Expr.Settles

/-- What folding computes is what the operator yields. -/
theorem foldInts_apply {op : BinaryOp} {a b v : Int64} (h : foldInts op a b = some v) :
    ∃ o, op = .compute o ∧ ∀ s, o.apply s (.int a) (.int b) = .ok (.int v) := by
  unfold foldInts at h
  split at h
  · refine ⟨.add, rfl, fun s => ?_⟩
    simp [ComputeOp.apply, ComputeOp.onInts, checked, h]
  · refine ⟨.subtract, rfl, fun s => ?_⟩
    simp [ComputeOp.apply, ComputeOp.onInts, checked, h]
  · refine ⟨.multiply, rfl, fun s => ?_⟩
    simp [ComputeOp.apply, ComputeOp.onInts, checked, h]
  · refine ⟨.divide, rfl, fun s => ?_⟩
    split at h
    · next hb => simp [ComputeOp.apply, ComputeOp.onInts, intQuotient, checked, h, hb.1, hb.2]
    · cases h
  · cases h

/-- An expression that folds to a literal yields it and does nothing else. -/
theorem Expr.settles_of_fold : ∀ {e : Expr} {value : Literal} {s : Span}, e.fold = .literal value s →
    e.Settles (.ofLiteral value)
  | .literal value s, _, _, h => by
    rw [Expr.fold] at h
    cases h
    exact .literal value s
  | .nested inner s, value, t, h => by
    have hinner : inner.fold = .literal value t := by
      rw [Expr.fold] at h
      unfold foldedNested at h
      split at h
      · next v at_ he => exact he.trans h
      · cases h
    exact (settles_of_fold hinner).nested s
  | .binary op l r s, value, t, h => by
    rw [Expr.fold, foldedBinary] at h
    split at h
    · next v hv =>
      cases h
      obtain ⟨a, _, b, _, ha, hb, hab⟩ := foldOperands_eq_some hv
      obtain ⟨o, rfl, ho⟩ := foldInts_apply hab
      exact (settles_of_fold ha).compute (settles_of_fold hb) o ho s
    · cases h
  | .input none _, _, _, h => by rw [Expr.fold] at h; cases h
  | .input (some _) _, _, _, h => by rw [Expr.fold] at h; cases h
  | .identifier _, _, _, h | .unary _ _ _, _, _, h | .step _ _ _, _, _, h | .ternary _ _ _ _, _, _, h
  | .assign _ _ _ _, _, _, h | .call _ _ _, _, _, h | .member _ _ _, _, _, h | .index _ _ _, _, _, h
  | .list _ _, _, _, h | .map _ _, _, _, h | .lambda _ _ _, _, _, h => by
    rw [Expr.fold] at h
    cases h

/-- Code may stand for itself, and its folded form may stand for it. -/
def folding : Likeness where
  span := Eq
  expr e e' := e' = e ∨ e' = e.fold
  stmt s s' := s' = s ∨ s' = s.fold

theorem folding_reflexive : folding.Reflexive :=
  ⟨fun _ => rfl, fun _ => .inl rfl, fun _ => .inl rfl, fun _ => rfl⟩

theorem folding_expr (e : Expr) : folding.expr e e.fold := .inr rfl

theorem folding_stmt (s : Stmt) : folding.stmt s s.fold := .inr rfl

theorem forall₂_map {α : Type} {R : α → α → Prop} {f : α → α} (h : ∀ a, R a (f a)) (xs : List α) :
    List.Forall₂ R xs (xs.map f) := by
  rw [List.forall₂_map_right_iff]
  exact List.forall₂_same.2 fun x _ => h x

theorem rel_map {α : Type} {R : α → α → Prop} {f : α → α} (h : ∀ a, R a (f a)) (x : Option α) :
    Option.Rel R x (x.map f) := by
  cases x with
  | none => exact .none
  | some a => exact .some (h a)

theorem folding_list (es : List Expr) : List.Forall₂ folding.expr es (Expr.foldList es) := by
  rw [Expr.foldList_eq_map]
  exact forall₂_map folding_expr es

theorem folding_entries (es : List (Entry Expr)) : List.Forall₂ folding.entry es (Expr.foldEntries es) := by
  induction es with
  | nil => exact .nil
  | cons e es ih => exact .cons ⟨rfl, folding_expr e.value⟩ ih

theorem folding_declaration (d : Declaration) : folding.declaration d d.fold :=
  ⟨rfl, forall₂_map (fun b => ⟨rfl, rel_map folding_expr b.value⟩) d.bindings⟩

theorem folding_statements (ss : List Stmt) : List.Forall₂ folding.stmt ss (Stmt.foldList ss) := by
  induction ss with
  | nil => exact .nil
  | cons s ss ih => exact .cons (folding_stmt s) ih

theorem folding_block (b : Block) : folding.block b b.fold := by
  obtain ⟨ss, s⟩ := b
  rw [Block.fold]
  exact folding_statements ss

theorem folding_function (f : FunctionDecl) : folding.function f f.fold := by
  obtain ⟨name, parameters, body, s⟩ := f
  rw [FunctionDecl.fold]
  exact ⟨rfl, rfl, folding_block body⟩

theorem folding_members (ms : List Member) : List.Forall₂ folding.member ms (foldMembers ms) := by
  induction ms with
  | nil => exact .nil
  | cons m ms ih =>
    cases m with
    | field d => exact .cons (.field (folding_declaration d)) ih
    | method f => exact .cons (.method (folding_function f)) ih

theorem folding_header (h : LoopHeader) : folding.header h h.fold where
  initializer := rel_map (fun i => by
    cases i with
    | declare d => exact .declare (folding_declaration d)
    | expression e s => exact .expression (folding_expr e)) h.initializer
  condition := rel_map folding_expr h.condition
  update := rel_map folding_expr h.update

theorem folding_cases (ks : List Case) : List.Forall₂ folding.case ks (foldCases ks) := by
  induction ks with
  | nil => exact .nil
  | cons k ks ih =>
    obtain ⟨value, body, s⟩ := k
    exact .cons ⟨rel_map folding_expr value, folding_stmt body⟩ ih

theorem folding_handler (k : Option Handler) : Option.Rel folding.handler k (foldHandler k) := by
  cases k with
  | none => exact .none
  | some k =>
    obtain ⟨parameter, body⟩ := k
    exact .some ⟨rfl, folding_block body⟩

theorem folding_cleanup (b : Option Block) : Option.Rel folding.block b (foldCleanup b) := by
  cases b with
  | none => exact .none
  | some b => exact .some (folding_block b)

theorem folding_nested (inner : Expr) (s : Span) :
    folding.ExprMatch (.nested inner s) (Expr.foldedNested inner.fold s) := by
  unfold Expr.foldedNested
  split
  · next value at_ he =>
    exact .constant ((Expr.settles_of_fold he).nested s) (.literal value at_) rfl rfl
  · exact .nested (folding_expr inner)

theorem folding_binary (op : BinaryOp) (l r : Expr) (s : Span) :
    folding.ExprMatch (.binary op l r s) (Expr.foldedBinary op l.fold r.fold s) := by
  have hfold : (Expr.binary op l r s).fold = Expr.foldedBinary op l.fold r.fold s := by rw [Expr.fold]
  unfold Expr.foldedBinary at hfold ⊢
  split at hfold
  · next v _ => exact .constant (Expr.settles_of_fold hfold) (.literal (.int v) s) rfl rfl
  · exact .binary op (folding_expr l) (folding_expr r) rfl

theorem folding_exprMatch (e : Expr) : folding.ExprMatch e e.fold := by
  have hid : ∀ id, folding.identifier id id := folding_reflexive.identifier
  cases e with
  | identifier id => rw [Expr.fold]; exact .identifier (hid id)
  | literal value s => rw [Expr.fold]; exact .literal value s s
  | binary op l r s => rw [Expr.fold]; exact folding_binary op l r s
  | unary op e s => rw [Expr.fold]; exact .unary op (folding_expr e) rfl
  | step op id s => rw [Expr.fold]; exact .step op (hid id) rfl
  | ternary c r a s => rw [Expr.fold]; exact .ternary (folding_expr c) (folding_expr r) (folding_expr a)
  | assign id op e s => rw [Expr.fold]; exact .assign op (hid id) (folding_expr e) rfl
  | call f es s => rw [Expr.fold]; exact .call (folding_expr f) (folding_list es) rfl
  | member e id s => rw [Expr.fold]; exact .member (folding_expr e) (hid id) rfl
  | index e k s => rw [Expr.fold]; exact .index (folding_expr e) (folding_expr k) rfl
  | list es s => rw [Expr.fold]; exact .list (folding_list es)
  | map es s => rw [Expr.fold]; exact .map (folding_entries es)
  | lambda ps e s => rw [Expr.fold]; exact .lambda rfl (folding_expr e)
  | input p s =>
    cases p with
    | none => rw [Expr.fold]; exact .input .none rfl
    | some p => rw [Expr.fold]; exact .input (.some (folding_expr p)) rfl
  | nested e s => rw [Expr.fold]; exact folding_nested e s

theorem folding_stmtMatch (s : Stmt) : folding.StmtMatch s s.fold := by
  cases s with
  | declare d => rw [Stmt.fold]; exact .declare (folding_declaration d)
  | function f => rw [Stmt.fold]; exact .function (folding_function f)
  | class_ id p ms s =>
    rw [Stmt.fold]
    exact .class_ rfl (Likeness.Reflexive.rel_self folding_reflexive.identifier p) (folding_members ms)
  | block b => rw [Stmt.fold]; exact .block (folding_block b)
  | conditional c r a s =>
    cases a with
    | none => rw [Stmt.fold]; exact .conditional (folding_expr c) (folding_stmt r) .none
    | some a => rw [Stmt.fold]; exact .conditional (folding_expr c) (folding_stmt r) (.some (folding_stmt a))
  | whileLoop c b s => rw [Stmt.fold]; exact .whileLoop (folding_expr c) (folding_stmt b)
  | forLoop h b s => rw [Stmt.fold]; exact .forLoop (folding_header h) (folding_stmt b)
  | switch e cs s => rw [Stmt.fold]; exact .switch (folding_expr e) (folding_cases cs)
  | return_ e s => rw [Stmt.fold]; exact .return_ (rel_map folding_expr e)
  | break_ s => rw [Stmt.fold]; exact .break_ rfl
  | continue_ s => rw [Stmt.fold]; exact .continue_ rfl
  | throw e s => rw [Stmt.fold]; exact .throw (folding_expr e) rfl
  | try_ b h f s =>
    rw [Stmt.fold]
    exact .try_ (folding_block b) (folding_handler h) (folding_cleanup f)
  | import_ target s => rw [Stmt.fold]; exact .import_ target rfl
  | print es s => rw [Stmt.fold]; exact .print (folding_list es)
  | pass s => rw [Stmt.fold]; exact .pass
  | expression e s => rw [Stmt.fold]; exact .expression (folding_expr e)

theorem folding_simulation : folding.Simulation := by
  constructor
  · intro e e' he
    rcases he with rfl | rfl
    · exact folding_reflexive.exprMatch e'
    · exact folding_exprMatch e
  · intro s s' hs
    rcases hs with rfl | rfl
    · exact folding_reflexive.stmtMatch s'
    · exact folding_stmtMatch s

/-- Runs that end alike where code is folded end in the same way. -/
theorem folding_outcome {r r' : Except RuntimeError Value} (h : folding.outcome r r') : r = r' := by
  cases h with
  | ok value => rfl
  | error cause hs => rw [show _ = _ from hs]

/-- A program and its folded form have the same outcome: both run forever, or both come to an end with
the same value or the same error, and leave machines that are the same but for the code that functions
and classes hold, which is folded in the one where it is not in the other. -/
theorem folding_keeps_meaning (o : Options) (env : Env) (p : Program) (m : Machine) :
    (p.Diverges { options := o } env m ∧ p.optimize.program.Diverges { options := o } env m) ∨
      ∃ r m₁ m₂, p.Ends { options := o } env m r m₁ ∧ p.optimize.program.Ends { options := o } env m r m₂ ∧
        folding.machine m₁ m₂ := by
  rw [p.optimize_eq]
  have hp : List.Forall₂ folding.stmt p.statements p.fold.statements :=
    folding_statements p.statements
  have hm := folding_reflexive.machine m rfl
  rcases Program.ends_or_diverges (c := { options := o }) rfl env p m with hd | ⟨r, m₁, hend⟩
  · refine .inl ⟨hd, ?_⟩
    exact folding_simulation.flip.diverges rfl (Likeness.forall₂_flip id hp)
      (folding_reflexive.flip.machine m rfl) hd
  · obtain ⟨k, hk⟩ := hend
    obtain ⟨r', m₂, hend', hr, hm'⟩ := folding_simulation.ends rfl hp hm (hk k (Nat.le_refl k))
    have he : r = r' := folding_outcome hr
    subst he
    exact .inr ⟨r, m₁, m₂, ⟨k, hk⟩, hend', hm'⟩

end Scriptlet
