import Scriptlet.Proofs.Optimizing
import Scriptlet.Proofs.Syntax.Writing

/-! Negative integers spread out. Folding leaves negative integers in a program, which no source spells as one
literal. Their text is a sign and a size between parentheses. Spread out to the expression that this text stands for,
a folded program keeps its text, and is canonical if the program was. -/
namespace Scriptlet

/-- The expression that the text of a literal stands for. The smallest integer has no size that a sign could stand
before, and is left as it is. -/
def Literal.spread (value : Literal) (span : Span) : Expr :=
  match value with
  | .int v =>
    if v < 0 ∧ v ≠ Int64.minValue then .nested (.unary .negate (.literal (.int (-v)) span) span) span
    else .literal (.int v) span
  | value => .literal value span

namespace Expr

mutual

def spread : Expr → Expr
  | identifier id => identifier id
  | literal value span => value.spread span
  | binary op left right span => binary op left.spread right.spread span
  | unary op operand span => unary op operand.spread span
  | step op target span => step op target span
  | ternary condition resolution alternative span =>
    ternary condition.spread resolution.spread alternative.spread span
  | assign target op value span => assign target op value.spread span
  | call callee arguments span => call callee.spread (spreadList arguments) span
  | member object name span => member object.spread name span
  | index object key span => index object.spread key.spread span
  | list items span => list (spreadList items) span
  | map entries span => map (spreadEntries entries) span
  | lambda parameters body span => lambda parameters body.spread span
  | input none span => input none span
  | input (some prompt) span => input (some prompt.spread) span
  | nested inner span => nested inner.spread span

def spreadList : List Expr → List Expr
  | [] => []
  | e :: es => e.spread :: spreadList es

def spreadEntries : List (Entry Expr) → List (Entry Expr)
  | [] => []
  | ⟨key, value, span⟩ :: es => ⟨key, value.spread, span⟩ :: spreadEntries es

end

end Expr

def Binding.spread (b : Binding) : Binding := { b with value := b.value.map Expr.spread }

def Declaration.spread (d : Declaration) : Declaration := { d with bindings := d.bindings.map Binding.spread }

def Initializer.spread : Initializer → Initializer
  | declare d => declare d.spread
  | expression e span => expression e.spread span

def LoopHeader.spread (h : LoopHeader) : LoopHeader where
  initializer := h.initializer.map Initializer.spread
  condition := h.condition.map Expr.spread
  update := h.update.map Expr.spread

mutual

def Stmt.spread : Stmt → Stmt
  | .declare d => .declare d.spread
  | .function f => .function f.spread
  | .class_ name parent members span => .class_ name parent (spreadMembers members) span
  | .block b => .block b.spread
  | .conditional condition resolution none span =>
    .conditional condition.spread resolution.spread none span
  | .conditional condition resolution (some alternative) span =>
    .conditional condition.spread resolution.spread (some alternative.spread) span
  | .whileLoop condition body span => .whileLoop condition.spread body.spread span
  | .forLoop header body span => .forLoop header.spread body.spread span
  | .switch subject cases span => .switch subject.spread (spreadCases cases) span
  | .return_ value span => .return_ (value.map Expr.spread) span
  | .break_ span => .break_ span
  | .continue_ span => .continue_ span
  | .throw value span => .throw value.spread span
  | .try_ body handler cleanup span =>
    .try_ body.spread (spreadHandler handler) (spreadCleanup cleanup) span
  | .import_ target span => .import_ target span
  | .print values span => .print (Expr.spreadList values) span
  | .pass span => .pass span
  | .expression e span => .expression e.spread span

def Block.spread : Block → Block
  | .mk statements span => .mk (Stmt.spreadList statements) span

def FunctionDecl.spread : FunctionDecl → FunctionDecl
  | .mk name parameters body span => .mk name parameters body.spread span

def Stmt.spreadList : List Stmt → List Stmt
  | [] => []
  | s :: ss => s.spread :: Stmt.spreadList ss

def spreadMembers : List Member → List Member
  | [] => []
  | .field d :: ms => .field d.spread :: spreadMembers ms
  | .method f :: ms => .method f.spread :: spreadMembers ms

def spreadCases : List Case → List Case
  | [] => []
  | .mk value body span :: ks => .mk (value.map Expr.spread) body.spread span :: spreadCases ks

def spreadHandler : Option Handler → Option Handler
  | none => none
  | some (.mk parameter body) => some (.mk parameter body.spread)

def spreadCleanup : Option Block → Option Block
  | none => none
  | some body => some body.spread

end

theorem Expr.spreadList_eq (es : List Expr) : spreadList es = es.map spread := by
  induction es with
  | nil => rfl
  | cons e es ih => rw [spreadList, ih, List.map_cons]

def Entry.spread (e : Entry Expr) : Entry Expr := { e with value := e.value.spread }

theorem Expr.spreadEntries_eq (es : List (Entry Expr)) : spreadEntries es = es.map Entry.spread := by
  induction es with
  | nil => rfl
  | cons e es ih => rw [spreadEntries, ih, List.map_cons, Entry.spread]

theorem Stmt.spreadList_eq (ss : List Stmt) : spreadList ss = ss.map spread := by
  induction ss with
  | nil => rfl
  | cons s ss ih => rw [spreadList, ih, List.map_cons]

def Member.spread : Member → Member
  | .field d => .field d.spread
  | .method f => .method f.spread

theorem spreadMembers_eq (ms : List Member) : spreadMembers ms = ms.map Member.spread := by
  induction ms with
  | nil => rfl
  | cons m ms ih => cases m <;> rw [spreadMembers, ih, List.map_cons, Member.spread]

def Case.spread : Case → Case
  | .mk value body span => .mk (value.map Expr.spread) body.spread span

theorem spreadCases_eq (ks : List Case) : spreadCases ks = ks.map Case.spread := by
  induction ks with
  | nil => rfl
  | cons k ks ih =>
    obtain ⟨value, body, s⟩ := k
    rw [spreadCases, ih, List.map_cons, Case.spread]

def Program.spread (p : Program) : Program := { p with statements := Stmt.spreadList p.statements }

/-- No sign at the front of digits. -/
theorem startsWith_digits (n : Nat) (sign : String) (x : Char) (hsign : sign.toList = [x])
    (hx : Decimal.isDigit x = false) : (Nat.repr n).startsWith sign = false := by
  rw [Bool.eq_false_iff]
  intro h
  cases hcs : Nat.toDigits 10 n with
  | nil => exact Nat.toDigits_ne_nil hcs
  | cons c cs =>
    have hc : c = x := (startsWith_iff (Nat.toList_repr.trans hcs) x sign hsign).1 h
    have hdigit := isDigit_of_mem_toDigits (n := n) (hcs ▸ List.mem_cons_self)
    rw [hc, hx] at hdigit
    cases hdigit

section Negative

variable {v : Int64} (hneg : v < 0) (hmin : v ≠ Int64.minValue)
include hneg hmin

theorem neg_toInt : ∃ n : Nat, v.toInt = -n ∧ (-v).toInt = n := by
  have hlt : v.toInt < 0 := Int64.lt_iff_toInt_lt.1 hneg
  have hge := Int64.le_toInt v
  have hne : v.toInt ≠ -2 ^ 63 := fun h => hmin (Int64.toInt_inj.1 (h.trans Int64.toInt_minValue.symm))
  refine ⟨(-v.toInt).toNat, by omega, ?_⟩
  rw [Int64.toInt_neg, Int.bmod_eq_of_le (by omega) (by omega)]
  omega

theorem text_negative (span : Span) :
    (Expr.nested (.unary .negate (.literal (.int (-v)) span) span) span).text = (Literal.int v).text := by
  obtain ⟨n, hv, hn⟩ := neg_toInt hneg hmin
  have hlt : v.toInt < 0 := Int64.lt_iff_toInt_lt.1 hneg
  have hsize : (Literal.int (-v)).text = Nat.repr n := by
    have hnonneg : ¬ -v < 0 := by
      rw [Int64.lt_iff_toInt_lt, hn]
      exact Int.not_lt.2 (Int.natCast_nonneg n)
    rw [Literal.text, if_neg hnonneg, hn]
    rfl
  have hwhole : (Literal.int v).text = "(" ++ ("-" ++ Nat.repr n) ++ ")" := by
    rw [Literal.text, if_pos hneg, Int.toString_eq_repr, Int.repr_eq_if, if_neg (Int.not_le.2 hlt), hv, Int.neg_neg,
      Int.toNat_natCast]
  have hprefixed : prefixedText "-" (Nat.repr n) = "-" ++ Nat.repr n := by
    rw [prefixedText, startsWith_digits n "-" '-' rfl (by decide), startsWith_digits n "+" '+' rfl (by decide)]
    rfl
  rw [hwhole, ← hprefixed, ← hsize]
  rfl

end Negative

theorem Literal.text_spread (value : Literal) (span : Span) : (value.spread span).text = value.text := by
  unfold spread
  split
  · split
    · next h => exact text_negative h.1 h.2 span
    · rfl
  · rfl

mutual

theorem Expr.text_spread : ∀ e : Expr, e.spread.text = e.text
  | .identifier _ => by rw [Expr.spread]
  | .literal value s => by rw [Expr.spread, value.text_spread, Expr.text]
  | .binary _ l r _ => by rw [Expr.spread, Expr.text, Expr.text, l.text_spread, r.text_spread]
  | .unary _ e _ => by rw [Expr.spread, Expr.text, Expr.text, e.text_spread]
  | .step _ _ _ => by rw [Expr.spread]
  | .ternary c r a _ => by
    rw [Expr.spread, Expr.text, Expr.text, c.text_spread, r.text_spread, a.text_spread]
  | .assign _ _ e _ => by rw [Expr.spread, Expr.text, Expr.text, e.text_spread]
  | .call f es _ => by rw [Expr.spread, Expr.text, Expr.text, f.text_spread, Expr.texts_spread es]
  | .member e _ _ => by rw [Expr.spread, Expr.text, Expr.text, e.text_spread]
  | .index e k _ => by rw [Expr.spread, Expr.text, Expr.text, e.text_spread, k.text_spread]
  | .list es _ => by rw [Expr.spread, Expr.text, Expr.text, Expr.texts_spread es]
  | .map es _ => by rw [Expr.spread, Expr.text, Expr.text, Expr.entryTexts_spread es]
  | .lambda _ e _ => by rw [Expr.spread, Expr.text, Expr.text, e.text_spread]
  | .input none _ => by rw [Expr.spread]
  | .input (some e) _ => by rw [Expr.spread, Expr.text, Expr.text, e.text_spread]
  | .nested e _ => by rw [Expr.spread, Expr.text, Expr.text, e.text_spread]

theorem Expr.texts_spread : ∀ es : List Expr, Expr.texts (Expr.spreadList es) = Expr.texts es
  | [] => rfl
  | e :: es => by rw [Expr.spreadList, Expr.texts, Expr.texts, e.text_spread, Expr.texts_spread es]

theorem Expr.entryTexts_spread :
    ∀ es : List (Entry Expr), Expr.entryTexts (Expr.spreadEntries es) = Expr.entryTexts es
  | [] => rfl
  | ⟨_, e, _⟩ :: es => by
    rw [Expr.spreadEntries, Expr.entryTexts, Expr.entryTexts, e.text_spread, Expr.entryTexts_spread es]

end

theorem Expr.optionText_spread (lead : String) (e : Option Expr) :
    Expr.optionText lead (e.map Expr.spread) = Expr.optionText lead e := by
  cases e with
  | none => rfl
  | some e => rw [Option.map_some, Expr.optionText, Expr.optionText, e.text_spread]

theorem Binding.text_spread (b : Binding) : b.spread.text = b.text :=
  congrArg (b.name.name ++ ·) (Expr.optionText_spread _ b.value)

theorem Declaration.text_spread (d : Declaration) : d.spread.text = d.text := by
  have hbindings : d.spread.bindings.map Binding.text = d.bindings.map Binding.text := by
    rw [Declaration.spread, List.map_map]
    exact List.map_congr_left fun b _ => b.text_spread
  rw [Declaration.text, hbindings]
  rfl

theorem LoopHeader.text_spread (h : LoopHeader) : h.spread.text = h.text := by
  have hfirst : h.spread.initializer.elim ";" Initializer.text = h.initializer.elim ";" Initializer.text := by
    unfold LoopHeader.spread
    cases h.initializer with
    | none => rfl
    | some i =>
      cases i with
      | declare d => exact d.text_spread
      | expression e s => exact congrArg (· ++ ";") e.text_spread
  rw [LoopHeader.text, LoopHeader.text, hfirst]
  simp only [LoopHeader.spread, Expr.optionText_spread]

mutual

theorem Stmt.text_spread : ∀ s : Stmt, s.spread.text = s.text
  | .declare d => by rw [Stmt.spread, Stmt.text, Stmt.text, d.text_spread]
  | .function f => by rw [Stmt.spread, Stmt.text, Stmt.text, f.text_spread]
  | .class_ _ _ ms _ => by rw [Stmt.spread, Stmt.text, Stmt.text, memberTexts_spread ms]
  | .block b => by rw [Stmt.spread, Stmt.text, Stmt.text, b.text_spread]
  | .conditional c r none _ => by rw [Stmt.spread, Stmt.text, Stmt.text, c.text_spread, r.text_spread]
  | .conditional c r (some a) _ => by
    rw [Stmt.spread, Stmt.text, Stmt.text, c.text_spread, r.text_spread, a.text_spread]
  | .whileLoop c b _ => by rw [Stmt.spread, Stmt.text, Stmt.text, c.text_spread, b.text_spread]
  | .forLoop h b _ => by rw [Stmt.spread, Stmt.text, Stmt.text, h.text_spread, b.text_spread]
  | .switch e ks _ => by rw [Stmt.spread, Stmt.text, Stmt.text, e.text_spread, caseTexts_spread ks]
  | .return_ v _ => by rw [Stmt.spread, Stmt.text, Stmt.text, Expr.optionText_spread]
  | .break_ _ | .continue_ _ | .import_ _ _ | .pass _ => by rw [Stmt.spread]
  | .throw e _ => by rw [Stmt.spread, Stmt.text, Stmt.text, e.text_spread]
  | .try_ b h f _ => by
    rw [Stmt.spread, Stmt.text, Stmt.text, b.text_spread, handlerText_spread h, cleanupText_spread f]
  | .print es _ => by rw [Stmt.spread, Stmt.text, Stmt.text, Expr.texts_spread es]
  | .expression e _ => by rw [Stmt.spread, Stmt.text, Stmt.text, e.text_spread]

theorem Block.text_spread : ∀ b : Block, b.spread.text = b.text
  | .mk ss _ => by rw [Block.spread, Block.text, Block.text, Stmt.texts_spread ss]

theorem FunctionDecl.text_spread : ∀ f : FunctionDecl, f.spread.text = f.text
  | .mk _ _ b _ => by rw [FunctionDecl.spread, FunctionDecl.text, FunctionDecl.text, b.text_spread]

theorem Stmt.texts_spread : ∀ ss : List Stmt, Stmt.texts (Stmt.spreadList ss) = Stmt.texts ss
  | [] => rfl
  | s :: ss => by rw [Stmt.spreadList, Stmt.texts, Stmt.texts, s.text_spread, Stmt.texts_spread ss]

theorem memberTexts_spread : ∀ ms : List Member, memberTexts (spreadMembers ms) = memberTexts ms
  | [] => rfl
  | .field d :: ms => by rw [spreadMembers, memberTexts, memberTexts, d.text_spread, memberTexts_spread ms]
  | .method f :: ms => by rw [spreadMembers, memberTexts, memberTexts, f.text_spread, memberTexts_spread ms]

theorem caseTexts_spread : ∀ ks : List Case, caseTexts (spreadCases ks) = caseTexts ks
  | [] => rfl
  | .mk (some e) b _ :: ks => by
    rw [spreadCases, Option.map_some, caseTexts, caseTexts, e.text_spread, b.text_spread, caseTexts_spread ks]
  | .mk none b _ :: ks => by
    rw [spreadCases, Option.map_none, caseTexts, caseTexts, b.text_spread, caseTexts_spread ks]

theorem handlerText_spread : ∀ h : Option Handler, handlerText (spreadHandler h) = handlerText h
  | none => rfl
  | some (.mk none b) => by rw [spreadHandler, handlerText, handlerText, b.text_spread]
  | some (.mk (some _) b) => by rw [spreadHandler, handlerText, handlerText, b.text_spread]

theorem cleanupText_spread : ∀ f : Option Block, cleanupText (spreadCleanup f) = cleanupText f
  | none => rfl
  | some b => by rw [spreadCleanup, cleanupText, cleanupText, b.text_spread]

end

/-- Spreading does not show in the text. -/
theorem Program.text_spread (p : Program) : p.spread.text = p.text :=
  congrArg ("\n".intercalate ·) (Stmt.texts_spread p.statements)

section Operands

variable {op : BinaryOp} {e e' : Expr}

theorem BinaryOp.AllowsLeft.mono (h : op.AllowsLeft e) (hs : e.strength ≤ e'.strength) : op.AllowsLeft e' := by
  unfold AllowsLeft at h ⊢
  split at h
  · next hop =>
    rw [if_pos hop]
    exact Nat.lt_of_lt_of_le h hs
  · next hop =>
    rw [if_neg hop]
    exact Nat.le_trans h hs

theorem BinaryOp.AllowsRight.mono (h : op.AllowsRight e) (hs : e.strength ≤ e'.strength) : op.AllowsRight e' := by
  unfold AllowsRight at h ⊢
  split at h
  · next hop =>
    rw [if_pos hop]
    exact Nat.le_trans h hs
  · next hop =>
    rw [if_neg hop]
    exact Nat.lt_of_lt_of_le h hs

end Operands

namespace Expr

/-- What may stand in the place of an expression, whatever stands around it. -/
structure Firmer (e e' : Expr) : Prop where
  strength : e.strength ≤ e'.strength
  closed : e.isOpen = false → e'.isOpen = false
  base : e.isBase = true → e'.isBase = true
  start : e.startsWithMap = false → e'.startsWithMap = false

theorem strength_le_call (e : Expr) : e.strength ≤ .call := by
  show e.strength.rank ≤ 15
  cases e.strength <;> decide

/-- A literal is as firm as can be, also when it is spread out. -/
theorem firmer_literal (e : Expr) (value : Literal) (span : Span) : e.Firmer (value.spread span) := by
  have hcall := e.strength_le_call
  unfold Literal.spread
  split
  · split
    · exact ⟨hcall, fun _ => rfl, fun _ => rfl, fun _ => rfl⟩
    · exact ⟨hcall, fun _ => rfl, fun _ => rfl, fun _ => rfl⟩
  · exact ⟨hcall, fun _ => rfl, fun _ => rfl, fun _ => rfl⟩

theorem canonical_literal (value : Literal) (span : Span) : (value.spread span).Canonical := by
  unfold Literal.spread
  split
  · split
    · exact .nested span (.unary .negate span (.literal _ span) (Nat.le_succ 14))
    · exact .literal _ span
  · exact .literal _ span

/-- Folding replaces what it can, and spreading keeps it as firm as it was. -/
theorem firmer_spread : ∀ e : Expr, e.Firmer e.fold.spread
  | identifier _ => ⟨Nat.le_refl _, id, id, id⟩
  | literal value s => by
    rw [fold, spread]
    exact firmer_literal _ value s
  | binary op l r s => by
    rw [fold, foldedBinary]
    split
    · rw [spread]
      exact firmer_literal _ _ s
    · rw [spread]
      exact ⟨Nat.le_refl _, r.firmer_spread.closed, nofun, l.firmer_spread.start⟩
  | unary op e s => by
    rw [fold, spread]
    exact ⟨Nat.le_refl _, e.firmer_spread.closed, nofun, fun _ => rfl⟩
  | step _ _ _ => ⟨Nat.le_refl _, id, id, id⟩
  | ternary c r a s => by
    rw [fold, spread]
    exact ⟨Nat.le_refl _, a.firmer_spread.closed, nofun, c.firmer_spread.start⟩
  | assign _ _ e s => by
    rw [fold, spread]
    exact ⟨Nat.le_refl _, id, id, id⟩
  | call f es s => by
    rw [fold, spread]
    exact ⟨Nat.le_refl _, id, id, f.firmer_spread.start⟩
  | member e id' s => by
    rw [fold, spread]
    exact ⟨Nat.le_refl _, id, id, e.firmer_spread.start⟩
  | index e k s => by
    rw [fold, spread]
    exact ⟨Nat.le_refl _, id, id, e.firmer_spread.start⟩
  | list es s => by
    rw [fold, spread]
    exact ⟨Nat.le_refl _, id, id, id⟩
  | map es s => by
    rw [fold, spread]
    exact ⟨Nat.le_refl _, id, id, id⟩
  | lambda ps e s => by
    rw [fold, spread]
    exact ⟨Nat.le_refl _, id, id, id⟩
  | input none s => ⟨Nat.le_refl _, id, id, id⟩
  | input (some e) s => by
    rw [fold, spread]
    exact ⟨Nat.le_refl _, id, id, id⟩
  | nested e s => by
    rw [fold]
    unfold foldedNested
    split
    · rw [spread]
      exact firmer_literal _ _ _
    · rw [spread]
      exact ⟨Nat.le_refl _, id, id, id⟩

theorem spreadList_fold (es : List Expr) : spreadList (foldList es) = es.map (·.fold.spread) := by
  induction es with
  | nil => rfl
  | cons e es ih => rw [foldList, spreadList, ih, List.map_cons]

theorem mem_spreadEntries_fold {es : List (Entry Expr)} {x : Entry Expr} (h : x ∈ spreadEntries (foldEntries es)) :
    ∃ e ∈ es, x.value = e.value.fold.spread := by
  induction es with
  | nil => cases h
  | cons e es ih =>
    rw [foldEntries, spreadEntries, List.mem_cons] at h
    rcases h with rfl | h
    · exact ⟨e, List.mem_cons_self, rfl⟩
    · obtain ⟨e', hmem, hvalue⟩ := ih h
      exact ⟨e', List.mem_cons_of_mem e hmem, hvalue⟩

theorem canonical_list {es : List Expr} (h : ∀ e ∈ es, e.fold.spread.Canonical) :
    ∀ e ∈ spreadList (foldList es), e.Canonical := by
  rw [spreadList_fold]
  exact List.forall_mem_map.2 h

theorem Canonical.spread {e : Expr} (h : e.Canonical) : e.fold.spread.Canonical := by
  induction h with
  | identifier id => exact .identifier id
  | literal value s =>
    rw [fold, Expr.spread]
    exact canonical_literal value s
  | @binary op l r s hl hr hleft hright hclosed ihl ihr =>
    rw [fold, foldedBinary]
    split
    · rw [Expr.spread]
      exact canonical_literal _ s
    · rw [Expr.spread]
      exact .binary s ihl ihr (hleft.mono l.firmer_spread.strength) (hright.mono r.firmer_spread.strength)
        (l.firmer_spread.closed hclosed)
  | unary op s he hs ih =>
    rw [fold, Expr.spread]
    exact .unary op s ih (Nat.le_trans hs (firmer_spread _).strength)
  | step op id s => exact .step op id s
  | ternary s hc hr ha hcondition hclosed halternative ihc ihr iha =>
    rw [fold, Expr.spread]
    exact .ternary s ihc ihr iha (Nat.lt_of_lt_of_le hcondition (firmer_spread _).strength)
      ((firmer_spread _).closed hclosed) (Nat.le_trans halternative (firmer_spread _).strength)
  | assign id op s he ih =>
    rw [fold, Expr.spread]
    exact .assign id op s ih
  | call s hf hbase hes ihf ihes =>
    rw [fold, Expr.spread]
    exact .call s ihf ((firmer_spread _).base hbase) (canonical_list ihes)
  | member id s he hbase ih =>
    rw [fold, Expr.spread]
    exact .member id s ih ((firmer_spread _).base hbase)
  | index s he hbase hk ihe ihk =>
    rw [fold, Expr.spread]
    exact .index s ihe ((firmer_spread _).base hbase) ihk
  | list s hes ih =>
    rw [fold, Expr.spread]
    exact .list s (canonical_list ih)
  | map s hes ih =>
    rw [fold, Expr.spread]
    refine .map s fun x hx => ?_
    obtain ⟨e, hmem, hvalue⟩ := mem_spreadEntries_fold hx
    rw [hvalue]
    exact ih e hmem
  | lambda s hps he ih =>
    rw [fold, Expr.spread]
    exact .lambda s hps ih
  | @input p s hp ih =>
    cases p with
    | none => exact .input s nofun
    | some e =>
      rw [fold, Expr.spread]
      exact .input s (by simpa using ih e rfl)
  | nested s he ih =>
    rw [fold]
    unfold foldedNested
    split
    · rw [Expr.spread]
      exact canonical_literal _ _
    · rw [Expr.spread]
      exact .nested s ih

end Expr

theorem Expr.canonical_option {e : Option Expr} (h : ∀ x ∈ e, x.Canonical) :
    ∀ x ∈ (e.map Expr.fold).map Expr.spread, x.Canonical := by
  cases e with
  | none => nofun
  | some e => simpa using (h e rfl).spread

theorem Declaration.Canonical.spread {d : Declaration} (h : d.Canonical) : d.fold.spread.Canonical where
  values := by
    simp only [Declaration.fold, Declaration.spread, List.forall_mem_map]
    exact fun b hb => Expr.canonical_option (h.values b hb)
  constants := by
    intro hconstant
    simp only [Declaration.fold, Declaration.spread, List.forall_mem_map, Binding.spread, Option.isSome_map]
    exact h.constants hconstant

theorem LoopHeader.Canonical.spread {h : LoopHeader} (hh : h.Canonical) : h.fold.spread.Canonical where
  initializer := by
    obtain ⟨i, c, u⟩ := h
    cases i with
    | none => nofun
    | some i =>
      rintro _ ⟨⟩
      cases hh.initializer i rfl with
      | declare hd => exact .declare hd.spread
      | expression s he => exact .expression s he.spread
  condition := Expr.canonical_option hh.condition
  update := Expr.canonical_option hh.update

theorem Stmt.isDangling_spread : ∀ x : Stmt, x.fold.spread.isDangling = x.isDangling
  | .conditional _ _ none _ => rfl
  | .conditional _ _ (some a) _ => a.isDangling_spread
  | .whileLoop _ b _ => b.isDangling_spread
  | .forLoop _ b _ => b.isDangling_spread
  | .declare _ | .function _ | .class_ _ _ _ _ | .block _ | .switch _ _ _ | .return_ _ _ | .break_ _ | .continue_ _
  | .throw _ _ | .try_ _ _ _ _ | .import_ _ _ | .print _ _ | .pass _ | .expression _ _ => rfl

theorem isSome_spreadHandler (h : Option Handler) : (spreadHandler (foldHandler h)).isSome = h.isSome := by
  cases h with
  | none => rfl
  | some k =>
    obtain ⟨id, b⟩ := k
    rfl

theorem isSome_spreadCleanup (f : Option Block) : (spreadCleanup (foldCleanup f)).isSome = f.isSome := by
  cases f <;> rfl

mutual

theorem Stmt.canonical_spread : ∀ x : Stmt, x.Canonical → x.fold.spread.Canonical
  | .declare _, .declare h => .declare h.spread
  | .function f, .function h => .function (f.canonical_spread h)
  | .class_ _ _ ms _, .class_ id p s hms => .class_ id p s (canonical_spreadMembers ms hms)
  | .block b, .block h => .block (b.canonical_spread h)
  | .conditional _ r none _, .conditional s hc hr => .conditional s hc.spread (r.canonical_spread hr)
  | .conditional _ r (some a) _, .alternative s hc hr ha hnearest =>
    .alternative s hc.spread (r.canonical_spread hr) (a.canonical_spread ha) (r.isDangling_spread.trans hnearest)
  | .whileLoop _ b _, .whileLoop s hc hb => .whileLoop s hc.spread (b.canonical_spread hb)
  | .forLoop _ b _, .forLoop s hh hb => .forLoop s hh.spread (b.canonical_spread hb)
  | .switch _ ks _, .switch s he hks => .switch s he.spread (canonical_spreadCases ks hks)
  | .return_ _ _, .return_ s he => .return_ s (Expr.canonical_option he)
  | .break_ _, .break_ s => .break_ s
  | .continue_ _, .continue_ s => .continue_ s
  | .throw _ _, .throw s he => .throw s he.spread
  | .try_ b h f _, .try_ s hb hh hf hend =>
    .try_ s (b.canonical_spread hb) (canonical_spreadHandler h hh) (canonical_spreadCleanup f hf)
      (by rwa [isSome_spreadHandler, isSome_spreadCleanup])
  | .import_ _ _, .import_ target s => .import_ target s
  | .print _ _, .print s hes => .print s (Expr.canonical_list fun e he => (hes e he).spread)
  | .pass _, .pass s => .pass s
  | .expression e _, .expression s he hstart => .expression s he.spread (e.firmer_spread.start hstart)

theorem Block.canonical_spread : ∀ b : Block, b.Canonical → b.fold.spread.Canonical
  | .mk ss _, .mk s hss => .mk s (canonical_spreadStatements ss hss)

theorem FunctionDecl.canonical_spread : ∀ f : FunctionDecl, f.Canonical → f.fold.spread.Canonical
  | .mk _ _ b _, .mk id s hps hb => .mk id s hps (b.canonical_spread hb)

theorem canonical_spreadStatements : ∀ ss : List Stmt, (∀ x ∈ ss, x.Canonical) →
    ∀ x ∈ Stmt.spreadList (Stmt.foldList ss), x.Canonical
  | [], _ => nofun
  | x :: ss, h => by
    rw [List.forall_mem_cons] at h
    exact List.forall_mem_cons.2 ⟨x.canonical_spread h.1, canonical_spreadStatements ss h.2⟩

theorem canonical_spreadMembers : ∀ ms : List Member, (∀ m ∈ ms, m.Canonical) →
    ∀ m ∈ spreadMembers (foldMembers ms), m.Canonical
  | [], _ => nofun
  | .field d :: ms, h => by
    rw [List.forall_mem_cons] at h
    cases h.1 with
    | field hd => exact List.forall_mem_cons.2 ⟨.field hd.spread, canonical_spreadMembers ms h.2⟩
  | .method f :: ms, h => by
    rw [List.forall_mem_cons] at h
    cases h.1 with
    | method hf => exact List.forall_mem_cons.2 ⟨.method (f.canonical_spread hf), canonical_spreadMembers ms h.2⟩

theorem canonical_spreadCases : ∀ ks : List Case, (∀ k ∈ ks, k.Canonical) →
    ∀ k ∈ spreadCases (foldCases ks), k.Canonical
  | [], _ => nofun
  | .mk e b s :: ks, h => by
    rw [List.forall_mem_cons] at h
    cases h.1 with
    | mk _ he hb =>
      exact List.forall_mem_cons.2
        ⟨.mk s (Expr.canonical_option he) (b.canonical_spread hb), canonical_spreadCases ks h.2⟩

theorem canonical_spreadHandler : ∀ h : Option Handler, (∀ k ∈ h, k.Canonical) →
    ∀ k ∈ spreadHandler (foldHandler h), k.Canonical
  | none, _ => nofun
  | some (.mk id b), h => by
    rintro _ ⟨⟩
    cases h _ rfl with
    | mk _ hb => exact .mk id (b.canonical_spread hb)

theorem canonical_spreadCleanup : ∀ f : Option Block, (∀ b ∈ f, b.Canonical) →
    ∀ b ∈ spreadCleanup (foldCleanup f), b.Canonical
  | none, _ => nofun
  | some b, h => by
    rintro _ ⟨⟩
    exact b.canonical_spread (h b rfl)

end

end Scriptlet
