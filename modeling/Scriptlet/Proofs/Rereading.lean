import Scriptlet.Proofs.Folding
import Scriptlet.Proofs.Hosting
import Scriptlet.Proofs.Serving
import Scriptlet.Proofs.Syntax.FoldedText

/-! Folded programs run from their text. The program that is read from the text of a folded program stands at other
places and has its negative integers spread out, and does otherwise the same. -/
namespace Scriptlet

theorem Expr.Settles.unary {e : Expr} {a v : Value} (he : e.Settles a) (op : UnaryOp)
    (hv : op.apply a = .ok v) (s : Span) : (Expr.unary op e s).Settles v := by
  have hend : ∀ (n : Nat) (c : Context) (env : Env) (m : Machine), (evaluator n).evaluate c env e m = .ok a m →
      (evaluator n).evaluateStep c env (.unary op e s) m = .ok v m := by
    intro n c env m ha
    refine (bind_ok ha _).trans ?_
    show Action.ofExcept s (op.apply a) m = .ok v m
    rw [hv]
    rfl
  constructor
  · intro n c env m hf
    cases n with
    | zero => exact (hf rfl).elim
    | succ n =>
      rw [evaluator_evaluate] at hf ⊢
      exact hend n c env m (he.only n c env m hf.of_bind)
  · obtain ⟨k, hk⟩ := he.reached
    refine ⟨k + 1, fun j hj c env m => ?_⟩
    obtain ⟨i, rfl⟩ : ∃ i, j = i + 1 := ⟨j - 1, by omega⟩
    rw [evaluator_evaluate]
    exact hend i c env m (hk i (by omega) c env m)

theorem negate_apply {v : Int64} (hneg : v < 0) (hmin : v ≠ Int64.minValue) :
    UnaryOp.negate.apply (.int (-v)) = .ok (.int v) := by
  obtain ⟨n, hv, hn⟩ := neg_toInt hneg hmin
  have hfit : Decimal.fit? (-(-v).toInt) = some v := by
    rw [hn, ← hv]
    exact fit?_toInt v
  rw [UnaryOp.apply, hfit]
  rfl

def Notice.bare : Notice → Notice
  | .failure (.runtime path source e) => .failure (.runtime path source { e with span := default })
  | n => n

/-- Code may stand for itself, and so may the code that is read from its text. -/
def rereading : Likeness where
  span _ _ := True
  expr e e' := e' = e ∨ e'.bare = e.spread.bare
  stmt s s' := s' = s ∨ s'.bare = s.spread.bare
  notices a b := a.map Notice.bare = b.map Notice.bare

theorem rereading_reflexive : rereading.Reflexive :=
  ⟨fun _ => trivial, fun _ => .inl rfl, fun _ => .inl rfl, fun _ => rfl⟩

theorem rereading_tells : rereading.Tells := by
  have hmore : ∀ {a b : Array Notice} {x y : List Notice}, a.map Notice.bare = b.map Notice.bare →
      x.map Notice.bare = y.map Notice.bare → (a ++ x).map Notice.bare = (b ++ y).map Notice.bare := by
    intro a b x y hab hxy
    simp only [← Array.toList_inj, Array.toList_map, Array.toList_appendList, List.map_append] at hab ⊢
    rw [hab, hxy]
  constructor
  · intro a b hab told
    exact hmore hab rfl
  · intro a b hab path source cause s t _
    exact hmore hab rfl

/-- Rows of the same images are alike, one by one. -/
theorem forall₂_of_map {α β : Type} {R : α → α → Prop} {f g : α → β} (hR : ∀ {a b}, f b = g a → R a b)
    {xs ys : List α} (h : ys.map f = xs.map g) : List.Forall₂ R xs ys := by
  have hsame : List.Forall₂ Eq (xs.map g) (ys.map f) := List.forall₂_eq_eq_eq ▸ h.symm
  rw [List.forall₂_map_left_iff, List.forall₂_map_right_iff] at hsame
  exact hsame.imp fun _ _ h => hR h.symm

theorem rel_of_map {α β : Type} {R : α → α → Prop} {f g : α → β} (hR : ∀ {a b}, f b = g a → R a b)
    {x y : Option α} (h : y.map f = x.map g) : Option.Rel R x y := by
  cases x with
  | none =>
    cases y with
    | none => exact .none
    | some b => cases h
  | some a =>
    cases y with
    | none => cases h
    | some b => exact .some (hR (Option.some.inj h))

theorem rereading_identifier {a b : Identifier} (h : b.bare = a.bare) : rereading.identifier a b :=
  ⟨(congrArg Identifier.name h).symm, trivial⟩

theorem rereading_names {as bs : List Identifier} (h : bs.map Identifier.bare = as.map Identifier.bare) :
    as.map (·.name) = bs.map (·.name) := by
  have hnames := congrArg (List.map Identifier.name) h
  rw [List.map_map, List.map_map] at hnames
  exact hnames.symm

theorem rereading_option {e e' : Option Expr} (h : e'.map Expr.bare = (e.map Expr.spread).map Expr.bare) :
    Option.Rel rereading.expr e e' := by
  rw [Option.map_map] at h
  exact rel_of_map .inr h

theorem rereading_list {es es' : List Expr} (h : Expr.bareList es' = Expr.bareList (Expr.spreadList es)) :
    List.Forall₂ rereading.expr es es' := by
  rw [Expr.bareList_eq, Expr.bareList_eq, Expr.spreadList_eq, List.map_map] at h
  exact forall₂_of_map .inr h

theorem rereading_entries {es es' : List (Entry Expr)}
    (h : Expr.bareEntries es' = Expr.bareEntries (Expr.spreadEntries es)) : List.Forall₂ rereading.entry es es' := by
  rw [Expr.bareEntries_eq, Expr.bareEntries_eq, Expr.spreadEntries_eq, List.map_map] at h
  refine forall₂_of_map (fun he => ?_) h
  injection he with hkey hvalue _
  exact ⟨hkey.symm, .inr hvalue⟩

theorem Expr.of_bare_literal {e : Expr} {value : Literal} {s : Span} (h : e.bare = .literal value s) :
    ∃ t, e = .literal value t := by
  cases e with
  | literal value' t =>
    injection h with hvalue _
    exact ⟨t, by rw [hvalue]⟩
  | input p s => cases p <;> cases h
  | _ => cases h

theorem Expr.of_bare_unary {e x : Expr} {op : UnaryOp} {s : Span} (h : e.bare = .unary op x s) :
    ∃ operand t, e = .unary op operand t ∧ operand.bare = x := by
  cases e with
  | unary op' operand t =>
    injection h with hop hoperand _
    exact ⟨operand, t, by rw [hop], hoperand⟩
  | input p s => cases p <;> cases h
  | _ => cases h

theorem Expr.of_bare_nested {e x : Expr} {s : Span} (h : e.bare = .nested x s) :
    ∃ inner t, e = .nested inner t ∧ inner.bare = x := by
  cases e with
  | nested inner t =>
    injection h with hinner _
    exact ⟨inner, t, rfl, hinner⟩
  | input p s => cases p <;> cases h
  | _ => cases h

/-- A negative literal is read as a sign before its size. -/
theorem rereading_literal {value : Literal} {s : Span} {e' : Expr} (h : e'.bare = (value.spread s).bare) :
    rereading.ExprMatch (.literal value s) e' := by
  have hsame : e'.bare = (Expr.literal value s).bare → rereading.ExprMatch (.literal value s) e' := by
    intro h
    obtain ⟨t, rfl⟩ := Expr.of_bare_literal h
    exact .literal value s t
  unfold Literal.spread at h
  split at h
  · next v =>
    split at h
    · next hv =>
      -- the forms differ here, but both are constants of the same value
      obtain ⟨inner, t, rfl, hinner⟩ := Expr.of_bare_nested h
      obtain ⟨operand, t', rfl, hoperand⟩ := Expr.of_bare_unary hinner
      obtain ⟨t'', rfl⟩ := Expr.of_bare_literal hoperand
      have hsettles := (Expr.Settles.literal (.int (-v)) t'').unary .negate (negate_apply hv.1 hv.2) t'
      exact .constant (.literal (.int v) s) (hsettles.nested t) rfl rfl
    · exact hsame h
  · exact hsame h

/-- All other phrases keep their form. -/
theorem rereading_exprMatch {e e' : Expr} (h : e'.bare = e.spread.bare) : rereading.ExprMatch e e' := by
  cases e with
  | literal value s => exact rereading_literal h
  | input p s =>
    cases p with
    | none =>
      cases e' with
      | input p' s' =>
        cases p' with
        | none => exact .input .none trivial
        | some p' => cases h
      | _ => cases h
    | some p =>
      cases e' with
      | input p' s' =>
        cases p' with
        | none => cases h
        | some p' =>
          injection h with hp _
          injection hp with hp
          exact .input (.some (.inr hp)) trivial
      | _ => cases h
  | unary op e s =>
    rw [Expr.spread, Expr.bare] at h
    obtain ⟨operand, t, rfl, hoperand⟩ := Expr.of_bare_unary h
    exact .unary op (.inr hoperand) trivial
  | nested e s =>
    rw [Expr.spread, Expr.bare] at h
    obtain ⟨inner, t, rfl, hinner⟩ := Expr.of_bare_nested h
    exact .nested (.inr hinner)
  | identifier id =>
    cases e' with
    | identifier id' =>
      injection h with hid
      exact .identifier (rereading_identifier hid)
    | input p s => cases p <;> cases h
    | _ => cases h
  | binary op l r s =>
    cases e' with
    | binary op' l' r' s' =>
      injection h with hop hl hr _
      subst hop
      exact .binary op' (.inr hl) (.inr hr) trivial
    | input p s => cases p <;> cases h
    | _ => cases h
  | step op id s =>
    cases e' with
    | step op' id' s' =>
      injection h with hop hid _
      subst hop
      exact .step op' (rereading_identifier hid) trivial
    | input p s => cases p <;> cases h
    | _ => cases h
  | ternary c r a s =>
    cases e' with
    | ternary c' r' a' s' =>
      injection h with hc hr ha _
      exact .ternary (.inr hc) (.inr hr) (.inr ha)
    | input p s => cases p <;> cases h
    | _ => cases h
  | assign id op e s =>
    cases e' with
    | assign id' op' e' s' =>
      injection h with hid hop he _
      subst hop
      exact .assign op' (rereading_identifier hid) (.inr he) trivial
    | input p s => cases p <;> cases h
    | _ => cases h
  | call f es s =>
    cases e' with
    | call f' es' s' =>
      injection h with hf hes _
      exact .call (.inr hf) (rereading_list hes) trivial
    | input p s => cases p <;> cases h
    | _ => cases h
  | member e id s =>
    cases e' with
    | member e' id' s' =>
      injection h with he hid _
      exact .member (.inr he) (rereading_identifier hid) trivial
    | input p s => cases p <;> cases h
    | _ => cases h
  | index e k s =>
    cases e' with
    | index e' k' s' =>
      injection h with he hk _
      exact .index (.inr he) (.inr hk) trivial
    | input p s => cases p <;> cases h
    | _ => cases h
  | list es s =>
    cases e' with
    | list es' s' =>
      injection h with hes _
      exact .list (rereading_list hes)
    | input p s => cases p <;> cases h
    | _ => cases h
  | map es s =>
    cases e' with
    | map es' s' =>
      injection h with hes _
      exact .map (rereading_entries hes)
    | input p s => cases p <;> cases h
    | _ => cases h
  | lambda ps e s =>
    cases e' with
    | lambda ps' e' s' =>
      injection h with hps he _
      exact .lambda (rereading_names hps) (.inr he)
    | input p s => cases p <;> cases h
    | _ => cases h

theorem rereading_declaration {d d' : Declaration} (h : d'.bare = d.spread.bare) : rereading.declaration d d' := by
  injection h with hkind hbindings _
  refine ⟨by rw [hkind]; rfl, ?_⟩
  rw [Declaration.spread, List.map_map] at hbindings
  refine forall₂_of_map (fun hb => ?_) hbindings
  injection hb with hname hvalue
  exact ⟨(rereading_identifier hname).1, rereading_option hvalue⟩

theorem rereading_statements {ss ss' : List Stmt} (h : Stmt.bareList ss' = Stmt.bareList (Stmt.spreadList ss)) :
    List.Forall₂ rereading.stmt ss ss' := by
  rw [Stmt.bareList_eq, Stmt.bareList_eq, Stmt.spreadList_eq, List.map_map] at h
  exact forall₂_of_map .inr h

theorem rereading_block {b b' : Block} (h : b'.bare = b.spread.bare) : rereading.block b b' := by
  obtain ⟨ss, s⟩ := b
  obtain ⟨ss', s'⟩ := b'
  injection h with hss _
  exact rereading_statements hss

theorem rereading_function {f f' : FunctionDecl} (h : f'.bare = f.spread.bare) : rereading.function f f' := by
  obtain ⟨id, ps, b, s⟩ := f
  obtain ⟨id', ps', b', s'⟩ := f'
  injection h with hid hps hb _
  exact ⟨(rereading_identifier hid).1, rereading_names hps, rereading_block hb⟩

theorem rereading_member {m m' : Member} (h : m'.bare = m.spread.bare) : rereading.member m m' := by
  cases m with
  | field d =>
    cases m' with
    | field d' =>
      injection h with hd
      exact .field (rereading_declaration hd)
    | method f' => cases h
  | method f =>
    cases m' with
    | field d' => cases h
    | method f' =>
      injection h with hf
      exact .method (rereading_function hf)

theorem rereading_members {ms ms' : List Member} (h : bareMembers ms' = bareMembers (spreadMembers ms)) :
    List.Forall₂ rereading.member ms ms' := by
  rw [bareMembers_eq, bareMembers_eq, spreadMembers_eq, List.map_map] at h
  exact forall₂_of_map rereading_member h

theorem rereading_initializer {i i' : Initializer} (h : i'.bare = i.spread.bare) : rereading.initializer i i' := by
  cases i with
  | declare d =>
    cases i' with
    | declare d' =>
      injection h with hd
      exact .declare (rereading_declaration hd)
    | expression e' s' => cases h
  | expression e s =>
    cases i' with
    | declare d' => cases h
    | expression e' s' =>
      injection h with he _
      exact .expression (.inr he)

theorem rereading_header {h h' : LoopHeader} (hh : h'.bare = h.spread.bare) : rereading.header h h' := by
  injection hh with hi hc hu
  refine ⟨?_, rereading_option hc, rereading_option hu⟩
  rw [LoopHeader.spread, Option.map_map] at hi
  exact rel_of_map rereading_initializer hi

theorem rereading_cases {ks ks' : List Case} (h : bareCases ks' = bareCases (spreadCases ks)) :
    List.Forall₂ rereading.case ks ks' := by
  rw [bareCases_eq, bareCases_eq, spreadCases_eq, List.map_map] at h
  refine forall₂_of_map (fun {k k'} hk => ?_) h
  obtain ⟨value, body, s⟩ := k
  obtain ⟨value', body', s'⟩ := k'
  injection hk with hvalue hbody _
  exact ⟨rereading_option hvalue, .inr hbody⟩

theorem rereading_handler {k k' : Option Handler} (h : bareHandler k' = bareHandler (spreadHandler k)) :
    Option.Rel rereading.handler k k' := by
  cases k with
  | none =>
    cases k' with
    | none => exact .none
    | some k' =>
      obtain ⟨parameter', body'⟩ := k'
      cases h
  | some k =>
    obtain ⟨parameter, body⟩ := k
    cases k' with
    | none => cases h
    | some k' =>
      obtain ⟨parameter', body'⟩ := k'
      injection h with hk
      injection hk with hparameter hbody
      have hname := congrArg (Option.map Identifier.name) hparameter
      rw [Option.map_map, Option.map_map] at hname
      exact .some ⟨hname.symm, rereading_block hbody⟩

theorem rereading_cleanup {b b' : Option Block} (h : bareCleanup b' = bareCleanup (spreadCleanup b)) :
    Option.Rel rereading.block b b' := by
  cases b with
  | none =>
    cases b' with
    | none => exact .none
    | some b' => cases h
  | some b =>
    cases b' with
    | none => cases h
    | some b' =>
      injection h with hb
      exact .some (rereading_block hb)

theorem rereading_stmtMatch {x x' : Stmt} (h : x'.bare = x.spread.bare) : rereading.StmtMatch x x' := by
  cases x with
  | declare d =>
    cases x' with
    | declare d' =>
      injection h with hd
      exact .declare (rereading_declaration hd)
    | conditional c' r' a' s' => cases a' <;> cases h
    | _ => cases h
  | function f =>
    cases x' with
    | function f' =>
      injection h with hf
      exact .function (rereading_function hf)
    | conditional c' r' a' s' => cases a' <;> cases h
    | _ => cases h
  | class_ id p ms s =>
    cases x' with
    | class_ id' p' ms' s' =>
      injection h with hid hp hms _
      exact .class_ (rereading_identifier hid).1 (rel_of_map rereading_identifier hp) (rereading_members hms)
    | conditional c' r' a' s' => cases a' <;> cases h
    | _ => cases h
  | block b =>
    cases x' with
    | block b' =>
      injection h with hb
      exact .block (rereading_block hb)
    | conditional c' r' a' s' => cases a' <;> cases h
    | _ => cases h
  | whileLoop c b s =>
    cases x' with
    | whileLoop c' b' s' =>
      injection h with hc hb _
      exact .whileLoop (.inr hc) (.inr hb)
    | conditional c' r' a' s' => cases a' <;> cases h
    | _ => cases h
  | forLoop k b s =>
    cases x' with
    | forLoop k' b' s' =>
      injection h with hk hb _
      exact .forLoop (rereading_header hk) (.inr hb)
    | conditional c' r' a' s' => cases a' <;> cases h
    | _ => cases h
  | switch e ks s =>
    cases x' with
    | switch e' ks' s' =>
      injection h with he hks _
      exact .switch (.inr he) (rereading_cases hks)
    | conditional c' r' a' s' => cases a' <;> cases h
    | _ => cases h
  | return_ v s =>
    cases x' with
    | return_ v' s' =>
      injection h with hv _
      exact .return_ (rereading_option hv)
    | conditional c' r' a' s' => cases a' <;> cases h
    | _ => cases h
  | throw e s =>
    cases x' with
    | throw e' s' =>
      injection h with he _
      exact .throw (.inr he) trivial
    | conditional c' r' a' s' => cases a' <;> cases h
    | _ => cases h
  | try_ b k f s =>
    cases x' with
    | try_ b' k' f' s' =>
      injection h with hb hk hf _
      exact .try_ (rereading_block hb) (rereading_handler hk) (rereading_cleanup hf)
    | conditional c' r' a' s' => cases a' <;> cases h
    | _ => cases h
  | print es s =>
    cases x' with
    | print es' s' =>
      injection h with hes _
      exact .print (rereading_list hes)
    | conditional c' r' a' s' => cases a' <;> cases h
    | _ => cases h
  | expression e s =>
    cases x' with
    | expression e' s' =>
      injection h with he _
      exact .expression (.inr he)
    | conditional c' r' a' s' => cases a' <;> cases h
    | _ => cases h
  | break_ s =>
    cases x' with
    | break_ s' => exact .break_ trivial
    | conditional c' r' a' s' => cases a' <;> cases h
    | _ => cases h
  | continue_ s =>
    cases x' with
    | continue_ s' => exact .continue_ trivial
    | conditional c' r' a' s' => cases a' <;> cases h
    | _ => cases h
  | pass s =>
    cases x' with
    | pass s' => exact .pass
    | conditional c' r' a' s' => cases a' <;> cases h
    | _ => cases h
  | import_ target s =>
    cases x' with
    | import_ target' s' =>
      injection h with htarget _
      subst htarget
      exact .import_ target' trivial
    | conditional c' r' a' s' => cases a' <;> cases h
    | _ => cases h
  | conditional c r a s =>
    cases a with
    | none =>
      cases x' with
      | conditional c' r' a' s' =>
        cases a' with
        | none =>
          injection h with hc hr _ _
          exact .conditional (.inr hc) (.inr hr) .none
        | some a' =>
          injection h with _ _ ha _
          cases ha
      | _ => cases h
    | some a =>
      cases x' with
      | conditional c' r' a' s' =>
        cases a' with
        | none =>
          injection h with _ _ ha _
          cases ha
        | some a' =>
          injection h with hc hr ha _
          exact .conditional (.inr hc) (.inr hr) (.some (.inr (Option.some.inj ha)))
      | _ => cases h

theorem rereading_simulation : rereading.Simulation := by
  constructor
  · intro e e' he
    rcases he with rfl | he
    · exact rereading_reflexive.exprMatch e'
    · exact rereading_exprMatch he
  · intro s s' hs
    rcases hs with rfl | hs
    · exact rereading_reflexive.stmtMatch s'
    · exact rereading_stmtMatch hs

/-- Runs that end alike where code is read again end with the same value or with the same error at some place. -/
theorem rereading_outcome {a b : Except RuntimeError Value} (h : rereading.outcome a b) :
    a.mapError (·.cause) = b.mapError (·.cause) := by
  cases h with
  | ok value => rfl
  | error cause hs => rfl

/-- The program that is read from the text of a folded program has the same outcome. -/
theorem rereading_keeps_meaning {p q : Program} (h : q.bare = p.spread.bare) {c : Context}
    (hc : c.host = .plain ∨ ∃ files, c.host = Module.host files) (env : Env) (m : Machine) :
    (p.Diverges c env m ∧ q.Diverges c env m) ∨
      ∃ a b m₁ m₂, p.Ends c env m a m₁ ∧ q.Ends c env m b m₂ ∧
        a.mapError (·.cause) = b.mapError (·.cause) ∧ rereading.machine m₁ m₂ := by
  have hp : List.Forall₂ rereading.stmt p.statements q.statements := by
    injection h with hstatements _
    exact rereading_statements hstatements
  -- a run that ends is followed there, and one that does not end is followed back
  have hthere : rereading.Serves c := Likeness.serves_host hc rereading_reflexive rereading_tells
  have hback : rereading.flip.Serves c :=
    Likeness.serves_host hc rereading_reflexive.flip rereading_tells.flip
  have hsame : Likeness.same.Serves c :=
    Likeness.serves_host hc Likeness.same_reflexive Likeness.same_tells
  rcases Program.ends_or_diverges_served hsame env p m with hd | ⟨a, m₁, k, hk⟩
  · exact .inl ⟨hd, rereading_simulation.flip.diverges_served hback (Likeness.forall₂_flip id hp)
      (rereading_reflexive.flip.machine m rfl) hd⟩
  · obtain ⟨b, m₂, hend, hab, hm⟩ :=
      rereading_simulation.ends_served hthere hp (rereading_reflexive.machine m rfl) (hk k (Nat.le_refl k))
    exact .inr ⟨a, b, m₁, m₂, ⟨k, hk⟩, hend, rereading_outcome hab, hm⟩

theorem loadSource_folded {path source : String} {loaded : Loaded} (h : loadSource true path source = .ok loaded) :
    ∃ p, parse source = .ok p ∧ loaded.program = p.fold := by
  unfold loadSource loadParsed at h
  cases hp : parse source with
  | error errors =>
    rw [hp] at h
    cases h
  | ok p =>
    rw [hp] at h
    cases h
    exact ⟨p, rfl, congrArg Program.Optimized.program p.optimize_eq⟩

def Mark.isFloat : Mark → Bool
  | literal (.float _) => true
  | _ => false

def Mark.isSpelled : Mark → Bool
  | literal (.int v) => v != Int64.minValue
  | literal (.float x) => x.isFinite
  | _ => true

theorem Program.spelled_of_all {p : Program} (h : p.marks.all Mark.isSpelled = true) :
    (∀ x, .literal (.float x) ∈ p.marks → x.isFinite = true) ∧
      ∀ v, .literal (.int v) ∈ p.marks → v ≠ Int64.minValue :=
  ⟨fun _ hx => List.all_eq_true.1 h _ hx, fun _ hv => bne_iff_ne.1 (List.all_eq_true.1 h _ hv)⟩

theorem loads_of_any {optimize : Bool} {path source : String} {check : Loaded → Bool}
    (h : (loadSource optimize path source).toOption.any check = true) :
    ∃ loaded, loadSource optimize path source = .ok loaded ∧ check loaded = true := by
  cases hload : loadSource optimize path source with
  | error f =>
    rw [hload] at h
    cases h
  | ok loaded =>
    rw [hload] at h
    exact ⟨loaded, rfl, h⟩

/-- The text of a program that was loaded and folded is a program with the same meaning, when its floats are finite
and none of its integers is the least one: it is read without errors, and whether modules can be imported or not, from
every state both run forever, or both come to an end with the same value or an error of the same cause. The output and
all else is then the same, but for places and for the code that functions and classes hold. -/
theorem printed_program_has_same_meaning {path source : String} {loaded : Loaded}
    (h : loadSource true path source = .ok loaded)
    (hfinite : ∀ x, .literal (.float x) ∈ loaded.program.marks → x.isFinite = true)
    (hmin : ∀ v, .literal (.int v) ∈ loaded.program.marks → v ≠ Int64.minValue) :
    ∃ p, parse loaded.program.text = .ok p ∧
      ∀ c : Context, (c.host = .plain ∨ ∃ files, c.host = Module.host files) → ∀ (env : Env) (m : Machine),
        (loaded.program.Diverges c env m ∧ p.Diverges c env m) ∨
          ∃ a b m₁ m₂, loaded.program.Ends c env m a m₁ ∧ p.Ends c env m b m₂ ∧
            a.mapError (·.cause) = b.mapError (·.cause) ∧ m₁.output = m₂.output ∧ rereading.machine m₁ m₂ := by
  obtain ⟨p, hp, hfold⟩ := loadSource_folded h
  rw [hfold] at hfinite hmin ⊢
  obtain ⟨r, hr, hbare⟩ := folded_text_parses hp (parse_spelled hp hfinite hmin)
  refine ⟨r, hr, fun c hc env m => ?_⟩
  rcases rereading_keeps_meaning hbare hc env m with hd | ⟨a, b, m₁, m₂, ha, hb, hab, hm⟩
  · exact .inl hd
  · exact .inr ⟨a, b, m₁, m₂, ha, hb, hab, hm.output, hm⟩

/-- Negative integers under a sign and behind an operator, and a float with an exponent. -/
theorem printed_program_has_same_meaning_negative :
    ∃ loaded p, loadSource true "main.nt" "var x = 1.5e-7; var n = 4; print(-(2 - 5), x); n ** (5 - 3) * (1 - 3);" =
        .ok loaded ∧
      (∀ x, .literal (.float x) ∈ loaded.program.marks → x.isFinite = true) ∧
      (∀ v, .literal (.int v) ∈ loaded.program.marks → v ≠ Int64.minValue) ∧
      loaded.program.text = "var x = 1.5e-7;\nvar n = 4;\nprint(-(-3), x);\nn ** 2 * (-2);" ∧
      parse loaded.program.text = .ok p ∧
      ∃ m₁ m₂, loaded.program.EndsAlone {} [] 0 (.ok (.int (-32))) m₁ ∧
        p.EndsAlone {} [] 0 (.ok (.int (-32))) m₂ ∧ m₁.output = m₂.output := by
  have hloads : (loadSource true "main.nt"
      "var x = 1.5e-7; var n = 4; print(-(2 - 5), x); n ** (5 - 3) * (1 - 3);").toOption.any (fun loaded =>
      loaded.program.marks.all Mark.isSpelled &&
      loaded.program.text == "var x = 1.5e-7;\nvar n = 4;\nprint(-(-3), x);\nn ** 2 * (-2);" &&
      (((evaluator 20).run {} (Session.start {} [] 0).env loaded.program).run' (Session.start {} [] 0).machine).any
        (fun r => r.toOption.any (Value.int (-32)).identical)) = true := by decide +kernel
  obtain ⟨loaded, hload, hcheck⟩ := loads_of_any hloads
  rw [Bool.and_eq_true, Bool.and_eq_true] at hcheck
  obtain ⟨⟨hmarks, htext⟩, hrun⟩ := hcheck
  obtain ⟨hfinite, hmin⟩ := Program.spelled_of_all hmarks
  obtain ⟨p, hp, hsame⟩ := printed_program_has_same_meaning hload hfinite hmin
  obtain ⟨m₁, hend⟩ := Program.ends_of_int rfl hrun
  refine ⟨loaded, p, hload, hfinite, hmin, beq_iff_eq.1 htext, hp, ?_⟩
  rcases hsame {} (.inl rfl) (Session.start {} [] 0).env (Session.start {} [] 0).machine with
    ⟨hd, -⟩ | ⟨a, b, m₁', m₂, ha, hb, hab, houtput, -⟩
  · exact (hend.not_diverges hd).elim
  · obtain ⟨rfl, rfl⟩ := hend.unique ha
    cases b with
    | error e => cases hab
    | ok v =>
      cases hab
      exact ⟨m₁, m₂, hend, hb, houtput⟩

/-- The least integer is written as a text that is not read again. -/
theorem least_integer_is_not_read_again :
    ∃ loaded, loadSource true "main.nt" "0 - 9223372036854775807 - 1;" = .ok loaded ∧
      (∀ x, .literal (.float x) ∈ loaded.program.marks → x.isFinite = true) ∧
      (∃ m, loaded.program.EndsAlone {} [] 0 (.ok (.int Int64.minValue)) m) ∧
      loaded.program.text = "(-9223372036854775808);" ∧ ∀ p, parse loaded.program.text ≠ .ok p := by
  have hloads : (loadSource true "main.nt" "0 - 9223372036854775807 - 1;").toOption.any (fun loaded =>
      !loaded.program.marks.any Mark.isFloat && loaded.program.text == "(-9223372036854775808);" &&
      (((evaluator 20).run {} (Session.start {} [] 0).env loaded.program).run' (Session.start {} [] 0).machine).any
        (fun r => r.toOption.any (Value.int Int64.minValue).identical)) = true := by decide +kernel
  have hfails : (lex "(-9223372036854775808);").any (!·.content.isOk) = true := by decide +kernel
  obtain ⟨loaded, hload, hcheck⟩ := loads_of_any hloads
  rw [Bool.and_eq_true, Bool.and_eq_true] at hcheck
  obtain ⟨⟨hmarks, htext⟩, hrun⟩ := hcheck
  refine ⟨loaded, hload, ?_, Program.ends_of_int rfl hrun, beq_iff_eq.1 htext, fun p hp => ?_⟩
  · intro x hx
    have hfloat : loaded.program.marks.any Mark.isFloat = true := List.any_eq_true.2 ⟨_, hx, rfl⟩
    rw [hfloat] at hmarks
    cases hmarks
  · rw [beq_iff_eq.1 htext] at hp
    obtain ⟨i, hi, herror⟩ := List.any_eq_true.1 hfails
    obtain ⟨t, ht⟩ := (Parsed.ofSource_sound (parse_eq_ok_iff.1 hp).1).1 i hi
    rw [ht] at herror
    cases herror

end Scriptlet
