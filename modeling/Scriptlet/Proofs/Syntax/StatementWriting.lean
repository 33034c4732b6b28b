import Scriptlet.Proofs.Syntax.Writing

/-! Statements and programs written as text. The text of a statement ends in a semicolon or a brace, so it
is read in the same way whatever stands behind it. -/
namespace Scriptlet

/-- The text of a phrase is read as tokens that the phrase is written with. -/
def Rereads {α : Type} (Y : α → List Token → Prop) (f : α → String) (a : α) : Prop :=
  ∃ ts, Y a ts ∧ Closes (f a) ts

section Rows

variable {α : Type} {Y : α → List Token → Prop} {f : α → String}

theorem closes_row (as : List α) (h : ∀ a ∈ as, Rereads Y f a) :
    ∃ ts, Joined Y as ts ∧ Closes (String.join ((as.map f).map (· ++ " "))) ts := by
  induction as with
  | nil => exact ⟨[], .nil, fun _ _ hw => hw⟩
  | cons a as ih =>
    obtain ⟨ts, hy, hcloses⟩ := h a List.mem_cons_self
    obtain ⟨us, hys, hrest⟩ := ih fun x hx => h x (List.mem_cons_of_mem a hx)
    refine ⟨ts ++ us, .cons hy hys, fun cs vs hw => ?_⟩
    have htext : (String.join (((a :: as).map f).map (· ++ " "))).toList ++ cs =
        (f a).toList ++ ' ' :: ((String.join ((as.map f).map (· ++ " "))).toList ++ cs) := by
      simp [String.toList_join]
    rw [htext, List.append_assoc]
    exact hcloses _ _ (hrest cs vs hw).space

theorem closes_braced (as : List α) (h : ∀ a ∈ as, Rereads Y f a) :
    ∃ ts, Joined Y as ts ∧
      Closes (braced (as.map f)) (.symbol .leftBrace :: (ts ++ [.symbol .rightBrace])) := by
  obtain ⟨ts, hy, hcloses⟩ := closes_row as h
  refine ⟨ts, hy, fun cs us hw => ?_⟩
  have htext : (braced (as.map f)).toList ++ cs = (Symbol.text .leftBrace).toList ++
      ' ' :: ((String.join ((as.map f).map (· ++ " "))).toList ++
        ((Symbol.text .rightBrace).toList ++ cs)) := by
    simp [braced, Symbol.text]
  rw [htext, List.cons_append, List.append_assoc]
  exact (hcloses _ _ (hw.sign (by decide))).spaced

theorem closes_lines (as : List α) (h : ∀ a ∈ as, Rereads Y f a) :
    ∃ ts, Joined Y as ts ∧ Closes ("\n".intercalate (as.map f)) ts := by
  induction as with
  | nil => exact ⟨[], .nil, fun _ _ hw => hw⟩
  | cons a as ih =>
    obtain ⟨ts, hy, hcloses⟩ := h a List.mem_cons_self
    obtain ⟨us, hys, hrest⟩ := ih fun x hx => h x (List.mem_cons_of_mem a hx)
    refine ⟨ts ++ us, .cons hy hys, fun cs vs hw => ?_⟩
    rw [List.append_assoc]
    -- Only a line with another one behind it ends in a line break.
    cases as with
    | nil => exact hcloses cs _ (hrest cs vs hw)
    | cons b bs =>
      have htext : ("\n".intercalate ((a :: b :: bs).map f)).toList ++ cs =
          (f a).toList ++ '\n' :: (("\n".intercalate ((b :: bs).map f)).toList ++ cs) := by
        simp [String.intercalate_cons_cons]
      rw [htext]
      exact hcloses _ _ ((hrest cs vs hw).blank (by decide))

end Rows

theorem optionText_some (e : Expr) (cs : List Char) :
    (Expr.optionText " " (some e)).toList ++ cs = ' ' :: (e.text.toList ++ cs) := by
  simp [Expr.optionText]

theorem prints_optional {e : Option Expr} (h : ∀ x ∈ e, x.Printed) :
    ∃ ts, Maybe Expr.Yields e ts ∧ Prints (Expr.optionText " " e) ts := by
  cases e with
  | none => exact ⟨[], .none, fun _ _ _ hw => hw⟩
  | some e =>
    obtain ⟨ts, he⟩ := h e rfl
    refine ⟨ts, .some he.yields, fun cs us hcs hw => ?_⟩
    rw [optionText_some]
    exact (he.prints cs us hcs hw).space

theorem quiet_optional (e : Option Expr) {cs : List Char} (hcs : Quiet cs) :
    Quiet ((Expr.optionText " " e).toList ++ cs) := by
  cases e with
  | none => exact hcs
  | some e =>
    rw [optionText_some]
    exact quiet_space _

theorem Maybe.printed {e : Option Expr} {ts : List Token} (h : Maybe Expr.Yields e ts)
    (hts : ∀ t ∈ ts, t.Spelled) : ∀ x ∈ e, x.Printed := by
  cases h with
  | none => simp
  | some he =>
    have hprinted := Expr.printed _ he hts
    intro x hx
    cases hx
    exact hprinted

theorem Binding.printed_mk {id : Identifier} {v : Option Expr} (hid : (Token.identifier id.name).Spelled)
    (hv : ∀ x ∈ v, x.Printed) : ∃ us, Binding.Yields ⟨id, v⟩ us ∧ Prints (Binding.text ⟨id, v⟩) us := by
  cases v with
  | none =>
    refine ⟨_, .plain id, ?_⟩
    rw [Binding.text, Expr.optionText, String.append_empty]
    exact prints_name hid
  | some e =>
    obtain ⟨us, he⟩ := hv e rfl
    refine ⟨_, .value id he.yields, fun cs vs hcs hw => ?_⟩
    have htext : (Binding.text ⟨id, some e⟩).toList ++ cs = id.name.toList ++
        ' ' :: ((Symbol.text (.assign none)).toList ++ ' ' :: (e.text.toList ++ cs)) := by
      simp [Binding.text, Expr.optionText, Symbol.text]
    rw [htext]
    exact prints_name hid _ _ (quiet_space _) (he.prints cs vs hcs hw).spaced.space

theorem Binding.printed {b : Binding} {ts : List Token} (h : b.Yields ts)
    (hts : ∀ t ∈ ts, t.Spelled) : ∃ us, b.Yields us ∧ Prints b.text us := by
  cases h with
  | plain id => exact Binding.printed_mk (hts _ List.mem_cons_self) (by simp)
  | @value id e _ he =>
    rw [List.forall_mem_cons, List.forall_mem_cons] at hts
    exact Binding.printed_mk hts.1 (by simpa using e.printed he hts.2.2)

theorem declarationKind?_text {t : Token} {kind : DeclarationKind}
    (h : t.declarationKind? = some kind) : ∃ k, t = .keyword k ∧ kind.text = k.text := by
  cases t with
  | keyword k =>
    refine ⟨k, rfl, ?_⟩
    cases k <;> cases h <;> rfl
  | _ => cases h

theorem Declaration.rereads_mk {kind : DeclarationKind} {t : Token} {bs : List Binding} (s : Span)
    (hk : t.declarationKind? = some kind) (hne : bs ≠ [])
    (hbs : ∀ b ∈ bs, ∃ us, b.Yields us ∧ Prints b.text us) :
    Rereads Declaration.Yields Declaration.text ⟨kind, bs, s⟩ := by
  obtain ⟨k, rfl, hkind⟩ := declarationKind?_text hk
  obtain ⟨us, hy, hprints⟩ := prints_sequence bs hne hbs
  refine ⟨_, .mk s hk hy, fun cs vs hw => ?_⟩
  have htext : (Declaration.text ⟨kind, bs, s⟩).toList ++ cs = k.text.toList ++
      ' ' :: ((commas (bs.map Binding.text)).toList ++ ((Symbol.text .semicolon).toList ++ cs)) := by
    simp [Declaration.text, hkind, Symbol.text]
  rw [htext, List.cons_append, List.append_assoc]
  refine Written.word (quiet_space _) (Written.space ?_)
  exact hprints _ _ (quiet_sign (by decide) _) (hw.sign (by decide))

theorem Sequenced.ne_nil {α : Type} {Y : α → List Token → Prop} {as : List α} {ts : List Token}
    (h : Sequenced Y as ts) : as ≠ [] := by
  cases h <;> exact List.cons_ne_nil _ _

theorem Declaration.rereads {d : Declaration} {ts : List Token} (h : d.Yields ts)
    (hts : ∀ t ∈ ts, t.Spelled) : Rereads Declaration.Yields Declaration.text d := by
  cases h with
  | mk s hk hbs =>
    rw [List.forall_mem_cons, List.forall_mem_append] at hts
    exact Declaration.rereads_mk s hk hbs.ne_nil
      (hbs.listed.forall_spelled hts.2.1 fun b us => Binding.printed)

/-- An expression with a semicolon behind it. -/
theorem closes_expression {e : Expr} {ts : List Token} (he : e.PrintedAs ts) :
    Closes (e.text ++ ";") (ts ++ [.symbol .semicolon]) := by
  intro cs us hw
  have htext : (e.text ++ ";").toList ++ cs =
      e.text.toList ++ ((Symbol.text .semicolon).toList ++ cs) := by
    simp [Symbol.text]
  rw [htext, List.append_assoc]
  exact he.prints _ _ (quiet_sign (by decide) _) (hw.sign (by decide))

/-- A word, an expression between brackets and what it governs. -/
theorem closes_headed (k : Keyword) {e : Expr} {text body : String} {ts us : List Token}
    (he : e.PrintedAs ts) (hbody : Closes body us)
    (htext : text.toList = k.text.toList ++ ' ' :: (("[" ++ e.text ++ "]").toList ++ ' ' :: body.toList)) :
    Closes text (.keyword k :: ((.symbol .leftBracket :: (ts ++ [.symbol .rightBracket])) ++ us)) := by
  intro cs vs hw
  rw [htext, List.append_assoc, List.cons_append, List.append_assoc, List.cons_append, List.cons_append,
    List.append_assoc]
  refine Written.word (quiet_space _) (Written.space ?_)
  exact closes_enclosed (a := .leftBracket) (b := .rightBracket) (by decide) (by decide) he.prints _ _
    (hbody cs vs hw).space

/-- A word behind a blank and the block it governs. -/
theorem closes_clause (k : Keyword) {text : String} {b : Block} {ts : List Token}
    (hb : Closes b.text ts) (htext : text.toList = ' ' :: (k.text.toList ++ ' ' :: b.text.toList)) :
    Closes text (.keyword k :: ts) := by
  intro cs us hw
  rw [htext, List.cons_append, List.append_assoc, List.cons_append]
  exact (Written.word (quiet_space _) (hb cs us hw).space).space

theorem Initializer.rereads {i : Option Initializer} {ts : List Token} (h : Initializer.Yields i ts)
    (hts : ∀ t ∈ ts, t.Spelled) : Rereads Initializer.Yields (·.elim ";" Initializer.text) i := by
  cases h with
  | none => exact ⟨_, .none, fun cs us hw => hw.sign (s := .semicolon) (by decide)⟩
  | declare hd =>
    obtain ⟨us, hy, hcloses⟩ := Declaration.rereads hd hts
    exact ⟨us, .declare hy, hcloses⟩
  | expression s he =>
    obtain ⟨us, he⟩ := Expr.printed _ he (List.forall_mem_append.1 hts).1
    exact ⟨_, .expression s he.yields, closes_expression he⟩

/-- A loop header is read up to the bracket that closes it. -/
theorem LoopHeader.printed_mk {i : Option Initializer} {c u : Option Expr}
    (hi : Rereads Initializer.Yields (·.elim ";" Initializer.text) i) (hc : ∀ x ∈ c, x.Printed)
    (hu : ∀ x ∈ u, x.Printed) :
    ∃ us, LoopHeader.Yields ⟨i, c, u⟩ us ∧ Prints (LoopHeader.text ⟨i, c, u⟩) us := by
  obtain ⟨ts, hi, hcloses⟩ := hi
  obtain ⟨us, hc, hprints⟩ := prints_optional hc
  obtain ⟨vs, hu, hprints'⟩ := prints_optional hu
  refine ⟨_, .mk hi hc hu, fun cs ws hcs hw => ?_⟩
  have htext : (LoopHeader.text ⟨i, c, u⟩).toList ++ cs = (i.elim ";" Initializer.text).toList ++
      ((Expr.optionText " " c).toList ++ ((Symbol.text .semicolon).toList ++
        ((Expr.optionText " " u).toList ++ cs))) := by
    simp [LoopHeader.text, Symbol.text]
  rw [htext, List.append_assoc, List.append_assoc, List.cons_append]
  refine hcloses _ _ (hprints _ _ (quiet_sign (by decide) _) (Written.sign (by decide) ?_))
  exact hprints' cs ws hcs hw

theorem LoopHeader.printed {h : LoopHeader} {ts : List Token} (hy : h.Yields ts)
    (hts : ∀ t ∈ ts, t.Spelled) : ∃ us, h.Yields us ∧ Prints h.text us := by
  cases hy with
  | mk hi hc hu =>
    rw [List.forall_mem_append, List.forall_mem_append, List.forall_mem_cons] at hts
    exact LoopHeader.printed_mk (Initializer.rereads hi hts.1) (hc.printed hts.2.1) (hu.printed hts.2.2.2)

theorem Stmt.texts_eq (ss : List Stmt) : Stmt.texts ss = ss.map Stmt.text := by
  induction ss with
  | nil => rfl
  | cons s ss ih => rw [Stmt.texts, ih, List.map_cons]

def Member.text : Member → String
  | .field d => d.text
  | .method f => f.text

theorem memberTexts_eq (ms : List Member) : memberTexts ms = ms.map Member.text := by
  induction ms with
  | nil => rfl
  | cons m ms ih => cases m <;> rw [memberTexts, ih, List.map_cons, Member.text]

def Case.text : Case → String
  | .mk (some value) body _ => "case " ++ value.text ++ ": " ++ body.text
  | .mk none body _ => "default: " ++ body.text

theorem caseTexts_eq (ks : List Case) : caseTexts ks = ks.map Case.text := by
  induction ks with
  | nil => rfl
  | cons k ks ih =>
    obtain ⟨value, body, s⟩ := k
    cases value <;> rw [caseTexts, ih, List.map_cons, Case.text]

theorem Block.rereads_mk {ss : List Stmt} (s : Span) (h : ∀ x ∈ ss, Rereads Stmt.Yields Stmt.text x) :
    Rereads Block.Yields Block.text (.mk ss s) := by
  obtain ⟨ts, hy, hcloses⟩ := closes_braced ss h
  have htext : Block.text (.mk ss s) = braced (Stmt.texts ss) := rfl
  refine ⟨_, .mk s hy, ?_⟩
  rw [htext, Stmt.texts_eq]
  exact hcloses

theorem FunctionDecl.rereads_mk {id : Identifier} {ps : List Identifier} {b : Block} (s : Span)
    (hid : (Token.identifier id.name).Spelled) (hps : ∀ p ∈ ps, (Token.identifier p.name).Spelled)
    (hb : Rereads Block.Yields Block.text b) :
    Rereads FunctionDecl.Yields FunctionDecl.text (.mk id ps b s) := by
  obtain ⟨ts, hy, hprints⟩ := prints_names hps
  obtain ⟨us, hb, hcloses⟩ := hb
  refine ⟨_, .mk id s hy hb, fun cs vs hw => ?_⟩
  have htext : FunctionDecl.text (.mk id ps b s) =
      "func " ++ id.name ++ "(" ++ names ps ++ ") " ++ b.text := rfl
  have hsplit : (FunctionDecl.text (.mk id ps b s)).toList ++ cs = (Keyword.text .func).toList ++
      ' ' :: (id.name.toList ++ ((Symbol.text .leftParen).toList ++ ((names ps).toList ++
        ((Symbol.text .rightParen).toList ++ ' ' :: (b.text.toList ++ cs))))) := by
    simp [htext, Keyword.text, Symbol.text]
  rw [hsplit]
  simp only [List.append_assoc, List.cons_append]
  refine Written.word (quiet_space _) (Written.space ?_)
  refine prints_name hid _ _ (quiet_sign (by decide) _) (Written.sign (by decide) ?_)
  exact hprints _ _ (quiet_sign (by decide) _) (hcloses cs vs hw).spaced

theorem Case.rereads_value {e : Expr} {b : Stmt} (s : Span) (he : e.Printed)
    (hb : Rereads Stmt.Yields Stmt.text b) : Rereads Case.Yields Case.text (.mk (some e) b s) := by
  obtain ⟨ts, he⟩ := he
  obtain ⟨us, hb, hcloses⟩ := hb
  refine ⟨_, .value s he.yields hb, fun cs vs hw => ?_⟩
  have htext : (Case.text (.mk (some e) b s)).toList ++ cs = (Keyword.text .case).toList ++
      ' ' :: (e.text.toList ++ ((Symbol.text .colon).toList ++ ' ' :: (b.text.toList ++ cs))) := by
    simp [Case.text, Keyword.text, Symbol.text]
  rw [htext]
  simp only [List.append_assoc, List.cons_append]
  refine Written.word (quiet_space _) (Written.space ?_)
  exact he.prints _ _ (quiet_sign (by decide) _) (hcloses cs vs hw).spaced

theorem Case.rereads_default {b : Stmt} (s : Span) (hb : Rereads Stmt.Yields Stmt.text b) :
    Rereads Case.Yields Case.text (.mk none b s) := by
  obtain ⟨us, hb, hcloses⟩ := hb
  refine ⟨_, .default s hb, fun cs vs hw => ?_⟩
  have htext : (Case.text (.mk none b s)).toList ++ cs = (Keyword.text .default).toList ++
      ((Symbol.text .colon).toList ++ ' ' :: (b.text.toList ++ cs)) := by
    simp [Case.text, Keyword.text, Symbol.text]
  rw [htext]
  exact Written.word (quiet_sign (by decide) _) (hcloses cs vs hw).spaced

theorem Handler.rereads_plain {b : Block} (hb : Rereads Block.Yields Block.text b) :
    Rereads (Maybe Handler.Yields) handlerText (some (.mk none b)) := by
  obtain ⟨us, hb, hcloses⟩ := hb
  have htext : handlerText (some (.mk none b)) = " catch " ++ b.text := rfl
  exact ⟨_, .some (.plain hb), closes_clause .catch_ hcloses (by simp [htext, Keyword.text])⟩

theorem Handler.rereads_named {id : Identifier} {b : Block} (hid : (Token.identifier id.name).Spelled)
    (hb : Rereads Block.Yields Block.text b) :
    Rereads (Maybe Handler.Yields) handlerText (some (.mk (some id) b)) := by
  obtain ⟨us, hb, hcloses⟩ := hb
  refine ⟨_, .some (.named id hb), fun cs vs hw => ?_⟩
  have htext : handlerText (some (.mk (some id) b)) = " catch (" ++ id.name ++ ") " ++ b.text := rfl
  have hsplit : (handlerText (some (.mk (some id) b))).toList ++ cs = ' ' ::
      ((Keyword.text .catch_).toList ++ ' ' :: ((Symbol.text .leftParen).toList ++ (id.name.toList ++
        ((Symbol.text .rightParen).toList ++ ' ' :: (b.text.toList ++ cs))))) := by
    simp [htext, Keyword.text, Symbol.text]
  rw [hsplit]
  refine (Written.word (quiet_space _) (Written.sign (by decide) ?_).space).space
  exact prints_name hid _ _ (quiet_sign (by decide) _) (hcloses cs vs hw).spaced

theorem Block.rereads_cleanup {b : Block} (hb : Rereads Block.Yields Block.text b) :
    Rereads (Maybe Block.YieldsCleanup) cleanupText (some b) := by
  obtain ⟨us, hb, hcloses⟩ := hb
  have htext : cleanupText (some b) = " finally " ++ b.text := rfl
  exact ⟨_, .some (.mk hb), closes_clause .finally_ hcloses (by simp [htext, Keyword.text])⟩

namespace Stmt

theorem rereads_class {id : Identifier} {p : Option Identifier} {ms : List Member} (s : Span)
    (hid : (Token.identifier id.name).Spelled) (hp : ∀ x ∈ p, (Token.identifier x.name).Spelled)
    (hms : ∀ m ∈ ms, Rereads Member.Yields Member.text m) :
    Rereads Stmt.Yields Stmt.text (.class_ id p ms s) := by
  obtain ⟨ts, hms, hcloses⟩ := closes_braced ms hms
  cases p with
  | none =>
    refine ⟨_, .class_ id s hms, fun cs vs hw => ?_⟩
    have htext : Stmt.text (.class_ id none ms s) =
        "class " ++ id.name ++ "" ++ " " ++ braced (memberTexts ms) := rfl
    have hsplit : (Stmt.text (.class_ id none ms s)).toList ++ cs = (Keyword.text .class_).toList ++
        ' ' :: (id.name.toList ++ ' ' :: ((braced (ms.map Member.text)).toList ++ cs)) := by
      simp [htext, memberTexts_eq, Keyword.text]
    rw [hsplit]
    refine Written.word (quiet_space _) (Written.space ?_)
    exact prints_name hid _ _ (quiet_space _) (hcloses cs vs hw).space
  | some p =>
    refine ⟨_, .subclass id p s hms, fun cs vs hw => ?_⟩
    have htext : Stmt.text (.class_ id (some p) ms s) =
        "class " ++ id.name ++ (" extends " ++ p.name) ++ " " ++ braced (memberTexts ms) := rfl
    have hsplit : (Stmt.text (.class_ id (some p) ms s)).toList ++ cs =
        (Keyword.text .class_).toList ++ ' ' :: (id.name.toList ++
          ' ' :: ((Keyword.text .extends_).toList ++ ' ' :: (p.name.toList ++
            ' ' :: ((braced (ms.map Member.text)).toList ++ cs)))) := by
      simp [htext, memberTexts_eq, Keyword.text]
    rw [hsplit]
    refine Written.word (quiet_space _) (Written.space ?_)
    refine prints_name hid _ _ (quiet_space _) (Written.space ?_)
    refine Written.word (quiet_space _) (Written.space ?_)
    exact prints_name (hp p rfl) _ _ (quiet_space _) (hcloses cs vs hw).space

variable {c e : Expr} {r a b : Stmt}

theorem rereads_conditional (s : Span) (hc : c.Printed) (hr : Rereads Stmt.Yields Stmt.text r) :
    Rereads Stmt.Yields Stmt.text (.conditional c r none s) := by
  obtain ⟨ts, hc⟩ := hc
  obtain ⟨us, hr, hcloses⟩ := hr
  have htext : Stmt.text (.conditional c r none s) = "if [" ++ c.text ++ "] " ++ r.text := rfl
  refine ⟨_, .conditional s (.mk hc.yields) hr, ?_⟩
  exact closes_headed .if_ hc hcloses (by simp [htext, Keyword.text])

theorem rereads_alternative (s : Span) (hc : c.Printed) (hr : Rereads Stmt.Yields Stmt.text r)
    (ha : Rereads Stmt.Yields Stmt.text a) :
    Rereads Stmt.Yields Stmt.text (.conditional c r (some a) s) := by
  obtain ⟨ts, hc⟩ := hc
  obtain ⟨us, hr, hcloses⟩ := hr
  obtain ⟨vs, ha, hcloses'⟩ := ha
  have htext : Stmt.text (.conditional c r (some a) s) =
      "if [" ++ c.text ++ "] " ++ r.text ++ " else " ++ a.text := rfl
  have hbranches : Closes (r.text ++ " else " ++ a.text) (us ++ .keyword .else_ :: vs) := by
    intro cs ws hw
    have hsplit : (r.text ++ " else " ++ a.text).toList ++ cs = r.text.toList ++
        ' ' :: ((Keyword.text .else_).toList ++ ' ' :: (a.text.toList ++ cs)) := by
      simp [Keyword.text]
    rw [hsplit, List.append_assoc, List.cons_append]
    exact hcloses _ _ (Written.word (quiet_space _) (hcloses' cs ws hw).space).space
  refine ⟨_, .alternative s (.mk hc.yields) hr ha, ?_⟩
  exact closes_headed .if_ hc hbranches (by simp [htext, Keyword.text])

theorem rereads_while (s : Span) (hc : c.Printed) (hb : Rereads Stmt.Yields Stmt.text b) :
    Rereads Stmt.Yields Stmt.text (.whileLoop c b s) := by
  obtain ⟨ts, hc⟩ := hc
  obtain ⟨us, hb, hcloses⟩ := hb
  have htext : Stmt.text (.whileLoop c b s) = "while [" ++ c.text ++ "] " ++ b.text := rfl
  refine ⟨_, .whileLoop s (.mk hc.yields) hb, ?_⟩
  exact closes_headed .while_ hc hcloses (by simp [htext, Keyword.text])

theorem rereads_for {h : LoopHeader} (s : Span) (hh : ∃ ts, h.Yields ts ∧ Prints h.text ts)
    (hb : Rereads Stmt.Yields Stmt.text b) : Rereads Stmt.Yields Stmt.text (.forLoop h b s) := by
  obtain ⟨ts, hh, hprints⟩ := hh
  obtain ⟨us, hb, hcloses⟩ := hb
  refine ⟨_, .forLoop s hh hb, fun cs vs hw => ?_⟩
  have htext : Stmt.text (.forLoop h b s) = "for [" ++ h.text ++ "] " ++ b.text := rfl
  have hsplit : (Stmt.text (.forLoop h b s)).toList ++ cs = (Keyword.text .for_).toList ++
      ' ' :: ((Symbol.text .leftBracket).toList ++ (h.text.toList ++
        ((Symbol.text .rightBracket).toList ++ ' ' :: (b.text.toList ++ cs)))) := by
    simp [htext, Keyword.text, Symbol.text]
  rw [hsplit]
  simp only [List.append_assoc, List.cons_append]
  refine Written.word (quiet_space _) (Written.sign (by decide) ?_).space
  exact hprints _ _ (quiet_sign (by decide) _) (hcloses cs vs hw).spaced

theorem rereads_switch {ks : List Case} (s : Span) (he : e.Printed)
    (hks : ∀ k ∈ ks, Rereads Case.Yields Case.text k) :
    Rereads Stmt.Yields Stmt.text (.switch e ks s) := by
  obtain ⟨ts, he⟩ := he
  obtain ⟨us, hks, hcloses⟩ := closes_braced ks hks
  have htext : Stmt.text (.switch e ks s) = "switch [" ++ e.text ++ "] " ++ braced (caseTexts ks) := rfl
  refine ⟨_, .switch s (.mk he.yields) hks, ?_⟩
  exact closes_headed .switch he hcloses (by simp [htext, caseTexts_eq, Keyword.text])

/-- A word and a semicolon. -/
theorem closes_command (k : Keyword) :
    Closes (k.text ++ ";") [.keyword k, .symbol .semicolon] := by
  intro cs us hw
  rw [String.toList_append, List.append_assoc]
  exact Written.word (quiet_cons (by decide) (by decide) _) (hw.sign (s := .semicolon) (by decide))

theorem rereads_return {v : Option Expr} (s : Span) (hv : ∀ x ∈ v, x.Printed) :
    Rereads Stmt.Yields Stmt.text (.return_ v s) := by
  obtain ⟨ts, hy, hprints⟩ := prints_optional hv
  refine ⟨_, .return_ s hy, fun cs vs hw => ?_⟩
  have htext : Stmt.text (.return_ v s) = "return" ++ Expr.optionText " " v ++ ";" := rfl
  have hsplit : (Stmt.text (.return_ v s)).toList ++ cs = (Keyword.text .return_).toList ++
      ((Expr.optionText " " v).toList ++ ((Symbol.text .semicolon).toList ++ cs)) := by
    simp [htext, Keyword.text, Symbol.text]
  rw [hsplit, List.cons_append, List.append_assoc]
  have hquiet : Quiet ((Symbol.text .semicolon).toList ++ cs) := quiet_sign (by decide) _
  exact Written.word (quiet_optional v hquiet) (hprints _ _ hquiet (hw.sign (by decide)))

theorem rereads_throw (s : Span) (he : e.Printed) : Rereads Stmt.Yields Stmt.text (.throw e s) := by
  obtain ⟨ts, he⟩ := he
  refine ⟨_, .throw s he.yields, fun cs vs hw => ?_⟩
  have htext : Stmt.text (.throw e s) = "throw " ++ e.text ++ ";" := rfl
  have hsplit : (Stmt.text (.throw e s)).toList ++ cs =
      (Keyword.text .throw).toList ++ ' ' :: ((e.text ++ ";").toList ++ cs) := by
    simp [htext, Keyword.text]
  rw [hsplit, List.cons_append]
  exact Written.word (quiet_space _) (closes_expression he cs vs hw).space

theorem rereads_try {b : Block} {h : Option Handler} {f : Option Block} (s : Span)
    (hb : Rereads Block.Yields Block.text b) (hh : Rereads (Maybe Handler.Yields) handlerText h)
    (hf : Rereads (Maybe Block.YieldsCleanup) cleanupText f) :
    Rereads Stmt.Yields Stmt.text (.try_ b h f s) := by
  obtain ⟨ts, hb, hcloses⟩ := hb
  obtain ⟨us, hh, hhandler⟩ := hh
  obtain ⟨vs, hf, hcleanup⟩ := hf
  refine ⟨_, .try_ s hb hh hf, fun cs ws hw => ?_⟩
  have htext : Stmt.text (.try_ b h f s) = "try " ++ b.text ++ handlerText h ++ cleanupText f := rfl
  have hsplit : (Stmt.text (.try_ b h f s)).toList ++ cs = (Keyword.text .try_).toList ++
      ' ' :: (b.text.toList ++ ((handlerText h).toList ++ ((cleanupText f).toList ++ cs))) := by
    simp [htext, Keyword.text]
  rw [hsplit, List.cons_append, List.append_assoc, List.append_assoc]
  refine Written.word (quiet_space _) (Written.space ?_)
  exact hcloses _ _ (hhandler _ _ (hcleanup cs ws hw))

theorem rereads_import (target : String) (s : Span) :
    Rereads Stmt.Yields Stmt.text (.import_ target s) := by
  refine ⟨_, .import_ s (t := .string target) rfl, fun cs vs hw => ?_⟩
  have htext : Stmt.text (.import_ target s) = "import " ++ Text.literal target ++ ";" := rfl
  have hsplit : (Stmt.text (.import_ target s)).toList ++ cs = (Keyword.text .import_).toList ++
      ' ' :: ((Text.literal target).toList ++ ((Symbol.text .semicolon).toList ++ cs)) := by
    simp [htext, Keyword.text, Symbol.text]
  rw [hsplit]
  refine Written.word (quiet_space _) (Written.space ?_)
  exact closes_string target _ _ (hw.sign (by decide))

theorem rereads_print {es : List Expr} (s : Span) (hes : ∀ e ∈ es, e.Printed) :
    Rereads Stmt.Yields Stmt.text (.print es s) := by
  obtain ⟨ts, hy, hprints⟩ := prints_list es fun e he => (hes e he).imp fun _ h => ⟨h.yields, h.prints⟩
  refine ⟨_, .print s hy, fun cs vs hw => ?_⟩
  have htext : Stmt.text (.print es s) = "print(" ++ commas (Expr.texts es) ++ ");" := rfl
  have hsplit : (Stmt.text (.print es s)).toList ++ cs = (Keyword.text .print).toList ++
      ((Symbol.text .leftParen).toList ++ ((commas (es.map Expr.text)).toList ++
        ((Symbol.text .rightParen).toList ++ ((Symbol.text .semicolon).toList ++ cs)))) := by
    simp [htext, Expr.texts_eq, Keyword.text, Symbol.text]
  rw [hsplit]
  simp only [List.append_assoc, List.cons_append]
  refine Written.word (quiet_sign (by decide) _) (Written.sign (by decide) ?_)
  refine hprints _ _ (quiet_sign (by decide) _) (Written.sign (by decide) ?_)
  exact hw.sign (by decide)

theorem rereads_expression (s : Span) (he : e.Printed) :
    Rereads Stmt.Yields Stmt.text (.expression e s) := by
  obtain ⟨ts, he⟩ := he
  exact ⟨_, .expression s he.yields, closes_expression he⟩

end Stmt

mutual

/-- Every statement that is written with tokens a source can spell is read back from its text. -/
theorem Stmt.rereads : ∀ (x : Stmt) {ts : List Token}, x.Yields ts → (∀ t ∈ ts, t.Spelled) →
    Rereads Stmt.Yields Stmt.text x
  | .declare d, _, hy, hts => by
    cases hy with
    | declare hd =>
      obtain ⟨us, hy, hcloses⟩ := Declaration.rereads hd hts
      exact ⟨us, .declare hy, hcloses⟩
  | .function f, _, hy, hts => by
    cases hy with
    | function hf =>
      obtain ⟨us, hy, hcloses⟩ := f.rereads hf hts
      exact ⟨us, .function hy, hcloses⟩
  | .class_ id p ms s, _, hy, hts => by
    cases hy with
    | class_ _ _ hms =>
      rw [List.forall_mem_cons, List.forall_mem_cons, List.forall_mem_cons,
        List.forall_mem_append] at hts
      exact Stmt.rereads_class s hts.2.1 (by simp) (rereads_members ms hms hts.2.2.2.1)
    | subclass _ p _ hms =>
      rw [List.forall_mem_cons, List.forall_mem_cons, List.forall_mem_cons, List.forall_mem_cons,
        List.forall_mem_cons, List.forall_mem_append] at hts
      refine Stmt.rereads_class s hts.2.1 ?_ (rereads_members ms hms hts.2.2.2.2.2.1)
      intro x hx
      cases hx
      exact hts.2.2.2.1
  | .block b, _, hy, hts => by
    cases hy with
    | block hb =>
      obtain ⟨us, hy, hcloses⟩ := b.rereads hb hts
      exact ⟨us, .block hy, hcloses⟩
  | .conditional c r none s, _, hy, hts => by
    cases hy with
    | conditional _ hc hr =>
      cases hc with
      | mk hc =>
        rw [List.forall_mem_cons, List.forall_mem_append, List.forall_mem_cons,
          List.forall_mem_append] at hts
        exact Stmt.rereads_conditional s (c.printed hc hts.2.1.2.1) (r.rereads hr hts.2.2)
  | .conditional c r (some a) s, _, hy, hts => by
    cases hy with
    | alternative _ hc hr ha =>
      cases hc with
      | mk hc =>
        rw [List.forall_mem_cons, List.forall_mem_append, List.forall_mem_append,
          List.forall_mem_cons, List.forall_mem_cons, List.forall_mem_append] at hts
        exact Stmt.rereads_alternative s (c.printed hc hts.2.1.2.1) (r.rereads hr hts.2.2.1)
          (a.rereads ha hts.2.2.2.2)
  | .whileLoop c b s, _, hy, hts => by
    cases hy with
    | whileLoop _ hc hb =>
      cases hc with
      | mk hc =>
        rw [List.forall_mem_cons, List.forall_mem_append, List.forall_mem_cons,
          List.forall_mem_append] at hts
        exact Stmt.rereads_while s (c.printed hc hts.2.1.2.1) (b.rereads hb hts.2.2)
  | .forLoop h b s, _, hy, hts => by
    cases hy with
    | forLoop _ hh hb =>
      rw [List.forall_mem_cons, List.forall_mem_cons, List.forall_mem_append,
        List.forall_mem_cons] at hts
      exact Stmt.rereads_for s (LoopHeader.printed hh hts.2.2.1) (b.rereads hb hts.2.2.2.2)
  | .switch e ks s, _, hy, hts => by
    cases hy with
    | switch _ he hks =>
      cases he with
      | mk he =>
        simp only [List.forall_mem_cons, List.forall_mem_append] at hts
        exact Stmt.rereads_switch s (e.printed he hts.2.1.2.1) (rereads_cases ks hks hts.2.2.2.1)
  | .return_ v s, _, hy, hts => by
    cases hy with
    | return_ _ hv =>
      rw [List.forall_mem_cons, List.forall_mem_append] at hts
      exact Stmt.rereads_return s (hv.printed hts.2.1)
  | .break_ s, _, _, _ => ⟨_, .break_ s, Stmt.closes_command .break_⟩
  | .continue_ s, _, _, _ => ⟨_, .continue_ s, Stmt.closes_command .continue_⟩
  | .throw e s, _, hy, hts => by
    cases hy with
    | throw _ he =>
      rw [List.forall_mem_cons, List.forall_mem_append] at hts
      exact Stmt.rereads_throw s (e.printed he hts.2.1)
  | .try_ b h f s, _, hy, hts => by
    cases hy with
    | try_ _ hb hh hf =>
      rw [List.forall_mem_cons, List.forall_mem_append, List.forall_mem_append] at hts
      exact Stmt.rereads_try s (b.rereads hb hts.2.1) (rereads_handler h hh hts.2.2.1)
        (rereads_cleanup f hf hts.2.2.2)
  | .import_ target s, _, _, _ => Stmt.rereads_import target s
  | .print es s, _, hy, hts => by
    cases hy with
    | print _ hes =>
      rw [List.forall_mem_cons, List.forall_mem_cons, List.forall_mem_append] at hts
      exact Stmt.rereads_print s (Expr.printed_list es hes hts.2.2.1)
  | .pass s, _, _, _ => ⟨_, .pass s, Stmt.closes_command .pass⟩
  | .expression e s, _, hy, hts => by
    cases hy with
    | expression _ he =>
      rw [List.forall_mem_append] at hts
      exact Stmt.rereads_expression s (e.printed he hts.1)

theorem Block.rereads : ∀ (b : Block) {ts : List Token}, b.Yields ts → (∀ t ∈ ts, t.Spelled) →
    Rereads Block.Yields Block.text b
  | .mk ss s, _, hy, hts => by
    cases hy with
    | mk _ hss =>
      rw [List.forall_mem_cons, List.forall_mem_append] at hts
      exact Block.rereads_mk s (rereads_statements ss hss hts.2.1)

theorem FunctionDecl.rereads : ∀ (f : FunctionDecl) {ts : List Token}, f.Yields ts →
    (∀ t ∈ ts, t.Spelled) → Rereads FunctionDecl.Yields FunctionDecl.text f
  | .mk id ps b s, _, hy, hts => by
    cases hy with
    | mk _ _ hps hb =>
      rw [List.forall_mem_cons, List.forall_mem_cons, List.forall_mem_cons, List.forall_mem_append,
        List.forall_mem_cons] at hts
      exact FunctionDecl.rereads_mk s hts.2.1 (spelled_names hps hts.2.2.2.1)
        (b.rereads hb hts.2.2.2.2.2)

theorem rereads_statements : ∀ (ss : List Stmt) {ts : List Token}, Joined Stmt.Yields ss ts →
    (∀ t ∈ ts, t.Spelled) → ∀ x ∈ ss, Rereads Stmt.Yields Stmt.text x
  | [], _, _, _ => by simp
  | x :: ss, _, hy, hts => by
    cases hy with
    | cons hx hss =>
      rw [List.forall_mem_append] at hts
      exact List.forall_mem_cons.2 ⟨x.rereads hx hts.1, rereads_statements ss hss hts.2⟩

theorem rereads_members : ∀ (ms : List Member) {ts : List Token}, Joined Member.Yields ms ts →
    (∀ t ∈ ts, t.Spelled) → ∀ m ∈ ms, Rereads Member.Yields Member.text m
  | [], _, _, _ => by simp
  | .field d :: ms, _, hy, hts => by
    cases hy with
    | cons hd hms =>
      rw [List.forall_mem_append] at hts
      cases hd with
      | field hd =>
        obtain ⟨us, hy, hcloses⟩ := Declaration.rereads hd hts.1
        exact List.forall_mem_cons.2 ⟨⟨us, .field hy, hcloses⟩, rereads_members ms hms hts.2⟩
  | .method f :: ms, _, hy, hts => by
    cases hy with
    | cons hf hms =>
      rw [List.forall_mem_append] at hts
      cases hf with
      | method hf =>
        obtain ⟨us, hy, hcloses⟩ := f.rereads hf hts.1
        exact List.forall_mem_cons.2 ⟨⟨us, .method hy, hcloses⟩, rereads_members ms hms hts.2⟩

theorem rereads_cases : ∀ (ks : List Case) {ts : List Token}, Joined Case.Yields ks ts →
    (∀ t ∈ ts, t.Spelled) → ∀ k ∈ ks, Rereads Case.Yields Case.text k
  | [], _, _, _ => by simp
  | .mk (some e) b s :: ks, _, hy, hts => by
    cases hy with
    | cons hk hks =>
      rw [List.forall_mem_append] at hts
      refine List.forall_mem_cons.2 ⟨?_, rereads_cases ks hks hts.2⟩
      cases hk with
      | value _ he hb =>
        rw [List.forall_mem_cons, List.forall_mem_append, List.forall_mem_cons] at hts
        exact Case.rereads_value s (e.printed he hts.1.2.1) (b.rereads hb hts.1.2.2.2)
  | .mk none b s :: ks, _, hy, hts => by
    cases hy with
    | cons hk hks =>
      rw [List.forall_mem_append] at hts
      refine List.forall_mem_cons.2 ⟨?_, rereads_cases ks hks hts.2⟩
      cases hk with
      | default _ hb =>
        rw [List.forall_mem_cons, List.forall_mem_cons] at hts
        exact Case.rereads_default s (b.rereads hb hts.1.2.2)

theorem rereads_handler : ∀ (h : Option Handler) {ts : List Token}, Maybe Handler.Yields h ts →
    (∀ t ∈ ts, t.Spelled) → Rereads (Maybe Handler.Yields) handlerText h
  | none, _, _, _ => ⟨[], .none, fun _ _ hw => hw⟩
  | some (.mk none b), _, hy, hts => by
    cases hy with
    | some hk =>
      cases hk with
      | plain hb => exact Handler.rereads_plain (b.rereads hb (List.forall_mem_cons.1 hts).2)
  | some (.mk (some id) b), _, hy, hts => by
    cases hy with
    | some hk =>
      cases hk with
      | named _ hb =>
        rw [List.forall_mem_cons, List.forall_mem_cons, List.forall_mem_cons,
          List.forall_mem_cons] at hts
        exact Handler.rereads_named hts.2.2.1 (b.rereads hb hts.2.2.2.2)

theorem rereads_cleanup : ∀ (f : Option Block) {ts : List Token}, Maybe Block.YieldsCleanup f ts →
    (∀ t ∈ ts, t.Spelled) → Rereads (Maybe Block.YieldsCleanup) cleanupText f
  | none, _, _, _ => ⟨[], .none, fun _ _ hw => hw⟩
  | some b, _, hy, hts => by
    cases hy with
    | some hb =>
      cases hb with
      | mk hb => exact Block.rereads_cleanup (b.rereads hb (List.forall_mem_cons.1 hts).2)

end

theorem Program.written_of_rereads {p : Program} (h : ∀ x ∈ p.statements, Rereads Stmt.Yields Stmt.text x) :
    ∃ us, p.Yields us ∧ Written p.text.toList us := by
  obtain ⟨us, hy, hcloses⟩ := closes_lines p.statements h
  refine ⟨us, hy, ?_⟩
  have hwritten := hcloses [] [] .nil
  rw [List.append_nil, List.append_nil] at hwritten
  rw [Program.text, Stmt.texts_eq]
  exact hwritten

/-- A program written with tokens that a source can spell has a text that is read as tokens of the same
program. -/
theorem Program.written {p : Program} {ts : List Token} (hy : p.Yields ts)
    (hts : ∀ t ∈ ts, t.Spelled) : ∃ us, p.Yields us ∧ Written p.text.toList us :=
  Program.written_of_rereads (rereads_statements p.statements hy hts)

end Scriptlet
