import Scriptlet.Proofs.Syntax.Derivation

/-! What one token of lookahead tells. The first token of a phrase says what kind of phrase it is, and how
tightly the token behind an expression binds says whether the expression ends there. -/
namespace Scriptlet

def Token.startsExpression : Token → Bool
  | identifier _ | int _ | float _ | string _ => true
  | symbol .bang | symbol (.binary (.compute .subtract)) | symbol .tilde | symbol .plusPlus
  | symbol .minusMinus | symbol .leftParen | symbol .leftBracket | symbol .leftBrace => true
  | keyword .true_ | keyword .false_ | keyword .null | keyword .undefined | keyword .input
  | keyword .lambda => true
  | _ => false

theorem Token.startsExpression_of_literal {t : Token} {value : Literal} (h : t.literal? = some value) :
    t.startsExpression = true := by
  unfold Token.literal? at h
  split at h <;> first | rfl | cases h

theorem Expr.Yields.head : ∀ {e : Expr} {ts : List Token}, e.Yields ts →
    ∃ t us, ts = t :: us ∧ t.startsExpression = true
  | .identifier _, _, h => by cases h; exact ⟨_, _, rfl, rfl⟩
  | .literal _ _, _, h => by
    cases h with
    | literal _ h => exact ⟨_, _, rfl, Token.startsExpression_of_literal h⟩
  | .binary _ _ _ _, _, h => by
    cases h with
    | binary _ _ hl _ =>
      obtain ⟨t, us, rfl, ht⟩ := hl.head
      exact ⟨t, _, rfl, ht⟩
  | .unary op _ _, _, h => by
    cases h
    cases op <;> exact ⟨_, _, rfl, rfl⟩
  | .step op _ _, _, h => by
    cases h
    cases op <;> exact ⟨_, _, rfl, rfl⟩
  | .ternary _ _ _ _, _, h => by
    cases h with
    | ternary _ hc _ _ =>
      obtain ⟨t, us, rfl, ht⟩ := hc.head
      exact ⟨t, _, rfl, ht⟩
  | .assign _ _ _ _, _, h => by cases h; exact ⟨_, _, rfl, rfl⟩
  | .call _ _ _, _, h => by
    cases h with
    | call _ hf _ =>
      obtain ⟨t, us, rfl, ht⟩ := hf.head
      exact ⟨t, _, rfl, ht⟩
  | .member _ _ _, _, h => by
    cases h with
    | member _ _ he =>
      obtain ⟨t, us, rfl, ht⟩ := he.head
      exact ⟨t, _, rfl, ht⟩
  | .index _ _ _, _, h => by
    cases h with
    | index _ he _ =>
      obtain ⟨t, us, rfl, ht⟩ := he.head
      exact ⟨t, _, rfl, ht⟩
  | .list _ _, _, h | .map _ _, _, h | .lambda _ _ _, _, h | .input _ _, _, h | .nested _ _, _, h => by
    cases h
    exact ⟨_, _, rfl, rfl⟩

theorem Expr.Yields.head?_append {e : Expr} {ts : List Token} (h : e.Yields ts) (us : List Token) :
    (ts ++ us).head? = ts.head? := by
  obtain ⟨t, vs, rfl, -⟩ := h.head
  rfl

/-- The first token is a left brace just when the expression starts with a map. -/
theorem Expr.Yields.head_brace : ∀ {e : Expr} {ts : List Token}, e.Yields ts →
    (ts.head? = some (.symbol .leftBrace) ↔ e.startsWithMap = true)
  | .literal _ _, _, h => by
    cases h with
    | @literal _ t _ h =>
      have ht : t ≠ .symbol .leftBrace := by
        rintro rfl
        cases h
      simp [startsWithMap, ht]
  | .binary _ _ _ _, _, h => by
    cases h with
    | binary _ _ hl _ => rw [hl.head?_append, startsWithMap]; exact hl.head_brace
  | .ternary _ _ _ _, _, h => by
    cases h with
    | ternary _ hc _ _ => rw [hc.head?_append, startsWithMap]; exact hc.head_brace
  | .call _ _ _, _, h => by
    cases h with
    | call _ hf _ => rw [hf.head?_append, startsWithMap]; exact hf.head_brace
  | .member _ _ _, _, h => by
    cases h with
    | member _ _ he => rw [he.head?_append, startsWithMap]; exact he.head_brace
  | .index _ _ _, _, h => by
    cases h with
    | index _ he _ => rw [he.head?_append, startsWithMap]; exact he.head_brace
  | .unary op _ _, _, h => by cases h; cases op <;> simp [startsWithMap, UnaryOp.sign]
  | .step op _ _, _, h => by cases h; cases op <;> simp [startsWithMap, StepOp.sign]
  | .identifier _, _, h | .assign _ _ _ _, _, h | .list _ _, _, h | .map _ _, _, h
  | .lambda _ _ _, _, h | .input _ _, _, h | .nested _ _, _, h => by
    cases h
    simp [startsWithMap]

theorem Declaration.Yields.head {d : Declaration} {ts : List Token} (h : d.Yields ts) :
    ∃ t us, ts = t :: us ∧ t.isDeclaration = true := by
  cases h with
  | @mk kind t bs ts s hk hbs =>
    refine ⟨t, _, rfl, ?_⟩
    cases t with
    | keyword word => cases word <;> first | rfl | cases hk
    | _ => cases hk

def Token.opensStatement (t : Token) : Bool := t.startsStatement || t.startsExpression

theorem Stmt.Yields.head {s : Stmt} {ts : List Token} (h : s.Yields ts) :
    ∃ t us, ts = t :: us ∧ t.opensStatement = true := by
  cases h with
  | declare hd =>
    obtain ⟨t, us, rfl, ht⟩ := hd.head
    refine ⟨t, us, rfl, ?_⟩
    cases t with
    | keyword word => cases word <;> first | rfl | cases ht
    | _ => cases ht
  | function hf =>
    cases hf
    exact ⟨_, _, rfl, rfl⟩
  | block hb =>
    cases hb
    exact ⟨_, _, rfl, rfl⟩
  | expression _ he =>
    obtain ⟨t, us, rfl, ht⟩ := he.head
    exact ⟨t, _, rfl, by simp [Token.opensStatement, ht]⟩
  | _ => exact ⟨_, _, rfl, rfl⟩

/-- How tightly the first of some tokens binds what stands before it. -/
def pull (ts : List Token) : Nat := (ts.headD .endOfFile).precedence.rank

/-- How loosely a rule may ask operators to bind, so that it still reads the whole expression. -/
def Expr.level : Expr → Nat
  | binary op _ _ _ => op.precedence.rank
  | ternary _ _ _ _ => Precedence.ternary.rank
  | assign _ _ _ _ => Precedence.assign.rank
  | _ => Precedence.call.rank

/-- How tightly the token behind the expression may bind without becoming a part of it. -/
def Expr.reach : Expr → Nat
  | binary op _ right _ => min (Grammar.rightPrecedence op).rank right.reach
  | unary _ operand _ => min Precedence.prefixed.rank operand.reach
  | step _ _ _ => Precedence.prefixed.rank
  | ternary _ _ alternative _ => min Precedence.ternary.lower.rank alternative.reach
  | assign _ _ _ _ | lambda _ _ _ => Precedence.lowest.rank
  | _ => Precedence.call.rank

def Expr.ownReach : Expr → Nat
  | binary op _ _ _ => (Grammar.rightPrecedence op).rank
  | unary _ _ _ | step _ _ _ => Precedence.prefixed.rank
  | ternary _ _ _ _ => Precedence.ternary.lower.rank
  | assign _ _ _ _ | lambda _ _ _ => Precedence.lowest.rank
  | _ => Precedence.call.rank

theorem Expr.reach_le_ownReach (e : Expr) : e.reach ≤ e.ownReach := by
  cases e <;> simp only [reach, ownReach, Nat.le_refl, Nat.min_le_left]

theorem Precedence.lt_iff (a b : Precedence) : a < b ↔ a.rank < b.rank := Iff.rfl

theorem Precedence.le_iff (a b : Precedence) : a ≤ b ↔ a.rank ≤ b.rank := Iff.rfl

theorem Precedence.rank_le (p : Precedence) : p.rank ≤ Precedence.call.rank := by cases p <;> decide

theorem pull_le_call (ts : List Token) : pull ts ≤ Precedence.call.rank := Precedence.rank_le _

/-- The ranks of the operators lie between the ternary and the prefixed forms, and only powers have the
highest. -/
theorem BinaryOp.rank_bounds (op : BinaryOp) :
    3 ≤ op.precedence.rank ∧ op.precedence.rank ≤ 13 ∧
      (op.precedence.rank = 13 ↔ op = .compute .power) := by
  cases op with
  | compute op => cases op <;> decide
  | relate op => cases op <;> decide
  | logic op => cases op <;> decide

theorem rightPrecedence_rank (op : BinaryOp) : (Grammar.rightPrecedence op).rank =
    if op = .compute .power then 12 else op.precedence.rank := by
  unfold Grammar.rightPrecedence
  split
  · next h => subst h; rfl
  · rfl

theorem rightPrecedence_lt (op : BinaryOp) : Grammar.rightPrecedence op < .call := by
  have hop := op.rank_bounds
  show (Grammar.rightPrecedence op).rank < 15
  rw [rightPrecedence_rank]
  split <;> omega

theorem Expr.reach_eq_zero : ∀ {e : Expr}, e.isOpen = true → e.reach = 0
  | .binary _ _ _ _, h => by
    rw [isOpen] at h
    rw [reach, reach_eq_zero h, Nat.min_zero]
  | .unary _ _ _, h => by
    rw [isOpen] at h
    rw [reach, reach_eq_zero h, Nat.min_zero]
  | .ternary _ _ _ _, h => by
    rw [isOpen] at h
    rw [reach, reach_eq_zero h, Nat.min_zero]
  | .assign _ _ _ _, _ | .lambda _ _ _, _ => rfl

theorem Expr.level_cases (e : Expr) :
    e.strength.rank = 14 ∧ e.level = 15 ∨ e.strength.rank ≠ 14 ∧ e.level = e.strength.rank := by
  cases e with
  | binary op l r s =>
    have hop := op.rank_bounds
    right
    exact ⟨show op.precedence.rank ≠ 14 by omega, rfl⟩
  | unary op e s => exact .inl ⟨rfl, rfl⟩
  | step op id s => exact .inl ⟨rfl, rfl⟩
  | _ => exact .inr ⟨by simp [strength, Precedence.rank], rfl⟩

theorem BinaryOp.allowsLeft_iff (op : BinaryOp) (l : Expr) :
    op.AllowsLeft l ↔ op.precedence.rank ≤ l.strength.rank ∧
      (op.precedence.rank = 13 → 13 < l.strength.rank) := by
  have hop := op.rank_bounds
  unfold AllowsLeft
  split
  · next h =>
    have hrank := hop.2.2.2 h
    rw [Precedence.lt_iff]
    omega
  · next h =>
    have hrank : op.precedence.rank ≠ 13 := fun h' => h (hop.2.2.1 h')
    rw [Precedence.le_iff]
    omega

theorem allowsRight_iff (op : BinaryOp) (r : Expr) :
    op.AllowsRight r ↔ (Grammar.rightPrecedence op).rank < r.level := by
  have hop := op.rank_bounds
  have hlevel := r.level_cases
  rw [rightPrecedence_rank, BinaryOp.AllowsRight]
  split
  · next h =>
    have hrank := hop.2.2.2 h
    rw [Precedence.le_iff]
    omega
  · rw [Precedence.lt_iff]
    omega

theorem prefixed_le_iff (e : Expr) : .prefixed ≤ e.strength ↔ Precedence.prefixed.rank < e.level := by
  have hlevel := e.level_cases
  show 14 ≤ e.strength.rank ↔ 14 < e.level
  have hle : e.strength.rank ≤ 15 := by cases e.strength <;> decide
  omega

theorem ternary_le_iff (e : Expr) :
    .ternary ≤ e.strength ↔ Precedence.ternary.lower.rank < e.level := by
  have hlevel := e.level_cases
  show 2 ≤ e.strength.rank ↔ 1 < e.level
  omega

/-- An expression that takes no more than its own form asks for reaches as far as it can be read. -/
theorem Expr.le_ownReach {e : Expr} (h : e.isOpen = false) {bound : Nat} (hb : bound < e.level) :
    bound ≤ e.ownReach := by
  cases e with
  | binary op l r s =>
    have hop := op.rank_bounds
    simp only [level] at hb
    simp only [ownReach, rightPrecedence_rank]
    split
    · next hp =>
      have := hop.2.2.2 hp
      omega
    · omega
  | ternary c r a s =>
    simp only [level, Precedence.rank] at hb
    simp only [ownReach, Precedence.lower, Precedence.rank]
    omega
  | assign id op e s => cases h
  | lambda ps e s => cases h
  | _ =>
    simp only [level, Precedence.rank] at hb
    simp only [ownReach, Precedence.rank]
    omega

theorem Expr.Canonical.ownReach_le : ∀ {e : Expr}, e.Canonical → e.isOpen = false → e.ownReach ≤ e.reach
  | .binary op _ r _, h, ho => by
    cases h with
    | binary _ _ hr _ hright _ =>
      rw [isOpen] at ho
      have hown := le_ownReach ho ((allowsRight_iff op r).1 hright)
      exact Nat.le_min.2 ⟨Nat.le_refl _, Nat.le_trans hown (hr.ownReach_le ho)⟩
  | .unary _ e _, h, ho => by
    cases h with
    | unary _ _ he hs =>
      rw [isOpen] at ho
      have hown := le_ownReach ho ((prefixed_le_iff e).1 hs)
      exact Nat.le_min.2 ⟨Nat.le_refl _, Nat.le_trans hown (he.ownReach_le ho)⟩
  | .ternary _ _ a _, h, ho => by
    cases h with
    | ternary _ _ _ ha _ _ halternative =>
      rw [isOpen] at ho
      have hown := le_ownReach ho ((ternary_le_iff a).1 halternative)
      exact Nat.le_min.2 ⟨Nat.le_refl _, Nat.le_trans hown (ha.ownReach_le ho)⟩
  | .step _ _ _, _, _ | .identifier _, _, _ | .literal _ _, _, _ | .call _ _ _, _, _
  | .member _ _ _, _, _ | .index _ _ _, _, _ | .list _ _, _, _ | .map _ _, _, _ | .input _ _, _, _
  | .nested _ _, _, _ => Nat.le_refl _

/-- What the own form of an expression that takes no more says about the token behind it. -/
theorem Expr.ownReach_cases {e : Expr} (h : e.isOpen = false) :
    (∃ op l r s, e = .binary op l r s) ∨ e.strength.rank = 14 ∧ e.ownReach = 14 ∨
      e.strength.rank = 2 ∧ e.ownReach = 1 ∨ e.strength.rank = 15 ∧ e.ownReach = 15 := by
  cases e with
  | binary op l r s => exact .inl ⟨op, l, r, s, rfl⟩
  | unary op e s => exact .inr (.inl ⟨rfl, rfl⟩)
  | step op id s => exact .inr (.inl ⟨rfl, rfl⟩)
  | ternary c r a s => exact .inr (.inr (.inl ⟨rfl, rfl⟩))
  | assign id op e s => cases h
  | lambda ps e s => cases h
  | _ => exact .inr (.inr (.inr ⟨rfl, rfl⟩))

theorem Expr.closed_of_reach {e : Expr} (h : 0 < e.reach) : e.isOpen = false := by
  cases ho : e.isOpen with
  | false => rfl
  | true =>
    rw [reach_eq_zero ho] at h
    cases h

/-- The operator behind an expression takes it as its left operand just when the tree with that operand
is canonical. -/
theorem Expr.Canonical.le_reach_iff {l : Expr} (h : l.Canonical) (op : BinaryOp) :
    op.precedence.rank ≤ l.reach ↔ l.isOpen = false ∧ op.AllowsLeft l := by
  have hop := op.rank_bounds
  have hown : l.isOpen = false → (op.precedence.rank ≤ l.ownReach ↔ op.AllowsLeft l) := by
    intro ho
    rw [op.allowsLeft_iff]
    rcases ownReach_cases ho with ⟨op', l', r', s, rfl⟩ | hform | hform | hform
    · have hop' := op'.rank_bounds
      show op.precedence.rank ≤ (Grammar.rightPrecedence op').rank ↔
        op.precedence.rank ≤ op'.precedence.rank ∧ _
      rw [rightPrecedence_rank]
      split
      · next hp =>
        have hrank := hop'.2.2.2 hp
        rw [show (Expr.binary op' l' r' s).strength.rank = 13 from hrank]
        omega
      · next hp =>
        have hrank : op'.precedence.rank ≠ 13 := fun h => hp (hop'.2.2.1 h)
        rw [show (Expr.binary op' l' r' s).strength.rank = op'.precedence.rank from rfl]
        omega
    all_goals omega
  constructor
  · intro hr
    have ho := closed_of_reach (by omega : 0 < l.reach)
    exact ⟨ho, (hown ho).1 (Nat.le_trans hr l.reach_le_ownReach)⟩
  · rintro ⟨ho, hleft⟩
    exact Nat.le_trans ((hown ho).2 hleft) (h.ownReach_le ho)

theorem Expr.Canonical.question_le_reach_iff {c : Expr} (h : c.Canonical) :
    Precedence.ternary.rank ≤ c.reach ↔ c.isOpen = false ∧ .ternary < c.strength := by
  have hown : c.isOpen = false → (2 ≤ c.ownReach ↔ 2 < c.strength.rank) := by
    intro ho
    rcases ownReach_cases ho with ⟨op, l, r, s, rfl⟩ | hform | hform | hform
    · have hop := op.rank_bounds
      show 2 ≤ (Grammar.rightPrecedence op).rank ↔ 2 < op.precedence.rank
      rw [rightPrecedence_rank]
      split <;> omega
    all_goals omega
  constructor
  · intro hr
    have ho := closed_of_reach (Nat.lt_of_lt_of_le (by decide) hr)
    exact ⟨ho, (hown ho).1 (Nat.le_trans hr c.reach_le_ownReach)⟩
  · rintro ⟨ho, hcondition⟩
    exact Nat.le_trans ((hown ho).2 hcondition) (h.ownReach_le ho)

theorem Expr.call_le_reach_iff (e : Expr) : Precedence.call.rank ≤ e.reach ↔ e.isBase = true := by
  have hown := e.reach_le_ownReach
  cases e with
  | binary op l r s =>
    have hop := op.rank_bounds
    have hright : (Grammar.rightPrecedence op).rank ≤ 13 := by
      rw [rightPrecedence_rank]
      split <;> omega
    have hlt : (binary op l r s).reach < Precedence.call.rank :=
      Nat.lt_of_le_of_lt (Nat.le_trans hown hright) (by decide)
    exact ⟨fun h => absurd h (Nat.not_le_of_lt hlt), fun h => by cases h⟩
  | unary op e s =>
    exact ⟨fun h => absurd (show 15 ≤ 14 from Nat.le_trans h hown) (by decide), fun h => by cases h⟩
  | ternary c r a s =>
    exact ⟨fun h => absurd (show 15 ≤ 1 from Nat.le_trans h hown) (by decide), fun h => by cases h⟩
  | step op id s => exact ⟨fun h => absurd (show 15 ≤ 14 from h) (by decide), fun h => by cases h⟩
  | assign id op e s => exact ⟨fun h => absurd (show 15 ≤ 0 from h) (by decide), fun h => by cases h⟩
  | lambda ps e s => exact ⟨fun h => absurd (show 15 ≤ 0 from h) (by decide), fun h => by cases h⟩
  | _ => exact ⟨fun _ => rfl, fun _ => Nat.le_refl _⟩

end Scriptlet
