import Scriptlet.Proofs.Syntax.Derivation
import Scriptlet.Proofs.Syntax.Spelling

/-! Expressions written as text. The text of an expression is read as tokens that the expression is written
with, though these need not be the ones it was read from: keys are written as strings, and no row with a
comma behind its last phrase. -/
namespace Scriptlet

/-- The text is read as the tokens and nothing else, and each of them is one that a source can spell. -/
structure Written (cs : List Char) (ts : List Token) : Prop where
  reads : contents cs = ts.map .ok ++ [.ok .endOfFile]
  spelled : ∀ t ∈ ts, t.Spelled

namespace Written

variable {cs : List Char} {ts : List Token}

theorem nil : Written [] [] := ⟨contents_nil, by simp⟩

theorem blank {c : Char} (hc : Text.isBlank c = true) (h : Written cs ts) : Written (c :: cs) ts := by
  refine ⟨?_, h.spelled⟩
  rw [contents_blank hc]
  exact h.reads

theorem space (h : Written cs ts) : Written (' ' :: cs) ts := h.blank (by decide)

theorem token (t : Token) (ht : t.Spelled) (hs : t.Stops cs) (h : Written cs ts) :
    Written (t.text.toList ++ cs) (t :: ts) := by
  refine ⟨?_, List.forall_mem_cons.2 ⟨ht, h.spelled⟩⟩
  rw [ht.contents hs, h.reads]
  rfl

theorem sign {s : Symbol} (hs : s ∈ Symbol.punctuation) (h : Written cs ts) :
    Written (s.text.toList ++ cs) (.symbol s :: ts) := h.token (.symbol s) trivial (Or.inl hs)

/-- An operator before a character that no operator goes on with. -/
theorem operator {s : Symbol} (hs : ∀ c ∈ cs.head?, c ∉ Symbol.tails) (h : Written cs ts) :
    Written (s.text.toList ++ cs) (.symbol s :: ts) := h.token (.symbol s) trivial (Or.inr hs)

/-- An operator before a blank. -/
theorem spaced {s : Symbol} (h : Written cs ts) :
    Written (s.text.toList ++ ' ' :: cs) (.symbol s :: ts) :=
  h.space.operator fun c hc => by
    cases hc
    decide

theorem word {k : Keyword} (hcs : Quiet cs) (h : Written cs ts) :
    Written (k.text.toList ++ cs) (.keyword k :: ts) := h.token (.keyword k) trivial hcs

end Written

theorem quiet_cons {c : Char} (hword : Lexeme.inWord c = false) (hpoint : c ≠ '.') (cs : List Char) :
    Quiet (c :: cs) where
  word x hx := by
    cases hx
    exact hword
  point x xs hx := (hpoint (List.cons.inj hx).1).elim

theorem quiet_space (cs : List Char) : Quiet (' ' :: cs) := quiet_cons (by decide) (by decide) cs

theorem quiet_sign {s : Symbol} (hs : s ∈ Symbol.punctuation) (cs : List Char) :
    Quiet (s.text.toList ++ cs) := by
  simp only [Symbol.punctuation, List.mem_cons, List.not_mem_nil, or_false] at hs
  rcases hs with rfl | rfl | rfl | rfl | rfl | rfl | rfl | rfl | rfl | rfl <;>
    exact quiet_cons (by decide) (by decide) cs

theorem quiet_dot {c : Char} (hc : Lexeme.startsWord c = true) (cs : List Char) :
    Quiet ('.' :: c :: cs) where
  word x hx := by
    cases hx
    decide
  point x xs hx := by
    cases hx
    rw [Bool.eq_false_iff]
    intro hdigit
    have hrange := Lexeme.startsWord_range hc
    have hrange' := Lexeme.isDigit_range hdigit
    omega

/-- The text is read as the tokens wherever nothing behind it could belong to its last token. -/
def Prints (text : String) (ts : List Token) : Prop :=
  ∀ cs us, Quiet cs → Written cs us → Written (text.toList ++ cs) (ts ++ us)

/-- The text is read as the tokens whatever stands behind it. -/
def Closes (text : String) (ts : List Token) : Prop :=
  ∀ cs us, Written cs us → Written (text.toList ++ cs) (ts ++ us)

theorem Closes.prints {text : String} {ts : List Token} (h : Closes text ts) : Prints text ts :=
  fun cs us _ hw => h cs us hw

theorem prints_name {name : String} (h : (Token.identifier name).Spelled) :
    Prints name [.identifier name] := fun _ _ hcs hw => hw.token (.identifier name) h hcs

theorem closes_string (value : String) : Closes (Text.literal value) [.string value] :=
  fun _ _ hw => hw.token (.string value) trivial trivial

/-- A phrase between two signs that stand for themselves wherever they stand. -/
theorem closes_enclosed {a b : Symbol} (ha : a ∈ Symbol.punctuation) (hb : b ∈ Symbol.punctuation)
    {text : String} {ts : List Token} (h : Prints text ts) :
    Closes (a.text ++ text ++ b.text) (.symbol a :: (ts ++ [.symbol b])) := by
  intro cs us hw
  have hsplit : (a.text ++ text ++ b.text).toList ++ cs =
      a.text.toList ++ (text.toList ++ (b.text.toList ++ cs)) := by
    simp
  rw [hsplit, List.cons_append, List.append_assoc]
  exact Written.sign ha (h _ _ (quiet_sign hb _) (hw.sign hb))

theorem quiet_enclosed {a : Symbol} (ha : a ∈ Symbol.punctuation) (b : Symbol) (text : String)
    (cs : List Char) : Quiet ((a.text ++ text ++ b.text).toList ++ cs) := by
  rw [String.toList_append, String.toList_append, List.append_assoc, List.append_assoc]
  exact quiet_sign ha _

theorem Prints.append {text text' : String} {ts us : List Token} (h : Prints text ts)
    (hquiet : ∀ cs, Quiet (text'.toList ++ cs)) (h' : Prints text' us) :
    Prints (text ++ text') (ts ++ us) := by
  intro cs vs hcs hw
  rw [String.toList_append, List.append_assoc, List.append_assoc]
  exact h _ _ (hquiet cs) (h' cs vs hcs hw)

section Commas

variable {α : Type} {Y : α → List Token → Prop} {f : α → String}

theorem prints_sequence (as : List α) (hne : as ≠ [])
    (h : ∀ a ∈ as, ∃ ts, Y a ts ∧ Prints (f a) ts) :
    ∃ ts, Sequenced Y as ts ∧ Prints (commas (as.map f)) ts := by
  induction as with
  | nil => exact (hne rfl).elim
  | cons a as ih =>
    obtain ⟨ts, hy, hprints⟩ := h a List.mem_cons_self
    cases as with
    | nil => exact ⟨ts, .last hy, hprints⟩
    | cons b bs =>
      obtain ⟨us, hys, hrest⟩ := ih (List.cons_ne_nil b bs) fun x hx => h x (List.mem_cons_of_mem a hx)
      refine ⟨_, .more hy hys, fun cs vs hcs hw => ?_⟩
      have htext : (commas ((a :: b :: bs).map f)).toList ++ cs =
          (f a).toList ++ ',' :: ' ' :: ((commas ((b :: bs).map f)).toList ++ cs) := by
        simp [commas, String.intercalate_cons_cons]
      rw [htext, List.append_assoc, List.cons_append]
      refine hprints _ _ (quiet_cons (by decide) (by decide) _) ?_
      exact Written.sign (s := .comma) (by decide) (hrest cs vs hcs hw).space

theorem prints_list (as : List α) (h : ∀ a ∈ as, ∃ ts, Y a ts ∧ Prints (f a) ts) :
    ∃ ts, Listed Y as ts ∧ Prints (commas (as.map f)) ts := by
  cases as with
  | nil => exact ⟨[], .nil, fun _ _ _ hw => hw⟩
  | cons a as =>
    obtain ⟨ts, hy, hprints⟩ := prints_sequence (a :: as) (List.cons_ne_nil a as) h
    exact ⟨ts, hy.listed, hprints⟩

theorem Listed.forall_spelled {P : α → Prop} {as : List α} {ts : List Token} (h : Listed Y as ts)
    (hts : ∀ t ∈ ts, t.Spelled) (hP : ∀ a us, Y a us → (∀ t ∈ us, t.Spelled) → P a) :
    ∀ a ∈ as, P a := by
  induction h with
  | nil => simp
  | last hy => exact List.forall_mem_singleton.2 (hP _ _ hy hts)
  | more hy _ ih =>
    rw [List.forall_mem_append, List.forall_mem_cons] at hts
    exact List.forall_mem_cons.2 ⟨hP _ _ hy hts.1, ih hts.2.2⟩

end Commas

theorem prints_names {ps : List Identifier} (hps : ∀ p ∈ ps, (Token.identifier p.name).Spelled) :
    ∃ ts, Listed Identifier.Yields ps ts ∧ Prints (names ps) ts :=
  prints_list ps fun p hp => ⟨_, rfl, prints_name (hps p hp)⟩

theorem spelled_names {ps : List Identifier} {ts : List Token} (h : Listed Identifier.Yields ps ts)
    (hts : ∀ t ∈ ts, t.Spelled) : ∀ p ∈ ps, (Token.identifier p.name).Spelled := by
  refine h.forall_spelled hts fun p us hp hus => ?_
  cases hp
  exact hus _ List.mem_cons_self

/-- The text starts with a character that no operator goes on with, or with one that is kept apart from an
operator before it. -/
def Apart (text : String) : Prop :=
  ∃ c cs, text.toList = c :: cs ∧ (c = '-' ∨ c = '+' ∨ c ∉ Symbol.tails)

theorem Apart.append {a : String} (h : Apart a) (b : String) : Apart (a ++ b) := by
  obtain ⟨c, cs, ha, hc⟩ := h
  exact ⟨c, cs ++ b.toList, by rw [String.toList_append, ha, List.cons_append], hc⟩

theorem startsWith_iff {text : String} {c : Char} {cs : List Char} (h : text.toList = c :: cs) (x : Char)
    (sign : String) (hsign : sign.toList = [x]) : text.startsWith sign = true ↔ c = x := by
  rw [String.startsWith_string_iff, h, hsign]
  constructor
  · rintro ⟨ds, hds⟩
    exact (List.cons.inj hds).1.symm
  · rintro rfl
    exact ⟨cs, rfl⟩

/-- An operator before an operand is not read together with what the operand starts with. -/
theorem written_prefixed {s : Symbol} {text : String} (hapart : Apart text) {cs : List Char}
    {ts : List Token} (h : Written (text.toList ++ cs) ts) :
    Written ((prefixedText s.text text).toList ++ cs) (.symbol s :: ts) := by
  obtain ⟨c, xs, htext, hc⟩ := hapart
  have hminus := startsWith_iff htext '-' "-" rfl
  have hplus := startsWith_iff htext '+' "+" rfl
  rw [prefixedText]
  split
  · have hsplit : (s.text ++ " " ++ text).toList ++ cs =
        s.text.toList ++ ' ' :: (text.toList ++ cs) := by simp
    rw [hsplit]
    exact h.spaced
  · next hsigns =>
    rw [String.toList_append, List.append_assoc]
    refine h.operator ?_
    intro x hx
    rw [htext] at hx
    cases hx
    rcases hc with rfl | rfl | hc
    · exact (hsigns (Bool.or_eq_true_iff.2 (.inl (hminus.2 rfl)))).elim
    · exact (hsigns (Bool.or_eq_true_iff.2 (.inr (hplus.2 rfl)))).elim
    · exact hc

theorem not_mem_tails {c : Char} (h : Lexeme.startsWord c = true ∨ Decimal.isDigit c = true) :
    c ∉ Symbol.tails := by
  intro hc
  simp only [Symbol.tails, List.mem_cons, List.not_mem_nil, or_false] at hc
  rcases hc with rfl | rfl | rfl | rfl | rfl | rfl | rfl | rfl | rfl | rfl <;> revert h <;> decide

theorem apart_name {name : String} (h : IsWord name) : Apart name := by
  obtain ⟨c, cs, hname, hc, -⟩ := h
  exact ⟨c, cs, hname, .inr (.inr (not_mem_tails (.inl hc)))⟩

theorem apart_prefixed {sign : String} (h : Apart sign) (text : String) :
    Apart (prefixedText sign text) := by
  rw [prefixedText]
  split
  · rw [String.append_assoc]
    exact h.append _
  · exact h.append _

/-- A number that is read back starts with a blank or a digit. -/
theorem apart_float {x : Float} (h : ReadsBack x) : Apart (Decimal.literal x) := by
  rw [ReadsBack, lex_contents] at h
  cases htext : (Decimal.literal x).toList with
  | nil =>
    rw [htext, contents_nil] at h
    cases h
  | cons c cs =>
    refine ⟨c, cs, htext, .inr (.inr ?_)⟩
    cases hblank : Text.isBlank c with
    | true =>
      intro hc
      simp only [Symbol.tails, List.mem_cons, List.not_mem_nil, or_false] at hc
      rcases hc with rfl | rfl | rfl | rfl | rfl | rfl | rfl | rfl | rfl | rfl <;>
        revert hblank <;> decide
    | false =>
      rw [htext, contents_cons hblank] at h
      exact not_mem_tails (.inr (Lexeme.isDigit_of_read_float (List.cons.inj h).1))

theorem apart_int {value : Int64} (h : 0 ≤ value.toInt) : Apart (toString value.toInt) := by
  obtain ⟨n, hn⟩ := Int.eq_ofNat_of_zero_le h
  have htext : (toString value.toInt).toList = Nat.toDigits 10 n := by
    rw [hn]
    exact Nat.toList_repr
  cases hcs : Nat.toDigits 10 n with
  | nil => exact (Nat.toDigits_ne_nil hcs).elim
  | cons c cs =>
    refine ⟨c, cs, htext.trans hcs, .inr (.inr (not_mem_tails (.inr ?_)))⟩
    exact isDigit_of_mem_toDigits (hcs ▸ List.mem_cons_self)

section Literals

variable {t : Token} {value : Literal} (ht : t.literal? = some value)
include ht

theorem stops_literal {cs : List Char} (hcs : Quiet cs) : t.Stops cs := by
  cases t with
  | string _ => trivial
  | symbol _ => cases ht
  | _ => exact hcs

theorem literal_text (h : t.Spelled) : value.text = t.text := by
  cases t with
  | int n =>
    cases ht
    have hn : ¬n < 0 := by
      rw [Int64.lt_iff_toInt_lt]
      exact Int.not_lt.2 h
    rw [Literal.text, if_neg hn]
    rfl
  | keyword k => cases k <;> cases ht <;> rfl
  | float x => cases ht; rfl
  | string value => cases ht; rfl
  | _ => cases ht

theorem apart_literal (h : t.Spelled) : Apart t.text := by
  cases t with
  | int n => exact apart_int h
  | keyword k => exact apart_name k.isWord
  | float x => exact apart_float h
  | string value =>
    rw [Token.text, Text.literal, String.append_assoc]
    exact Apart.append ⟨'"', [], rfl, by decide⟩ _
  | _ => cases ht

end Literals

namespace Expr

theorem texts_eq (es : List Expr) : texts es = es.map text := by
  induction es with
  | nil => rfl
  | cons e es ih => rw [texts, ih, List.map_cons]

def entryText (e : Entry Expr) : String := Text.literal e.key ++ ": " ++ e.value.text

theorem entryTexts_eq (es : List (Entry Expr)) : entryTexts es = es.map entryText := by
  induction es with
  | nil => rfl
  | cons e es ih => rw [entryTexts, ih, List.map_cons, entryText]

/-- The text of the expression is read as tokens that it is written with. -/
structure PrintedAs (e : Expr) (ts : List Token) : Prop where
  yields : e.Yields ts
  prints : Prints e.text ts
  apart : Apart e.text

def Printed (e : Expr) : Prop := ∃ ts, e.PrintedAs ts

namespace Printed

theorem identifier {id : Identifier} (h : (Token.identifier id.name).Spelled) :
    (Expr.identifier id).Printed := by
  have htext : (Expr.identifier id).text = id.name := rfl
  refine ⟨_, .identifier id, ?_, ?_⟩
  · rw [htext]
    exact prints_name h
  · rw [htext]
    exact apart_name h.1

theorem literal {t : Token} {value : Literal} (s : Span) (ht : t.literal? = some value)
    (h : t.Spelled) : (Expr.literal value s).Printed := by
  have htext : (Expr.literal value s).text = value.text := rfl
  refine ⟨[t], .literal s ht, ?_, ?_⟩
  · intro cs us hcs hw
    rw [htext, literal_text ht h]
    exact hw.token t h (stops_literal ht hcs)
  · rw [htext, literal_text ht h]
    exact apart_literal ht h

theorem binary {op : BinaryOp} {l r : Expr} (s : Span) (hl : l.Printed) (hr : r.Printed) :
    (Expr.binary op l r s).Printed := by
  obtain ⟨ts, hl⟩ := hl
  obtain ⟨us, hr⟩ := hr
  have htext : (Expr.binary op l r s).text = l.text ++ " " ++ op.text ++ " " ++ r.text := rfl
  refine ⟨_, .binary op s hl.yields hr.yields, ?_, ?_⟩
  · intro cs vs hcs hw
    have hsplit : (Expr.binary op l r s).text.toList ++ cs =
        l.text.toList ++ ' ' :: ((Symbol.binary op).text.toList ++ ' ' :: (r.text.toList ++ cs)) := by
      simp [htext, Symbol.text]
    rw [hsplit, List.append_assoc]
    exact hl.prints _ _ (quiet_space _) (hr.prints cs vs hcs hw).spaced.space
  · rw [htext, String.append_assoc, String.append_assoc, String.append_assoc]
    exact hl.apart.append _

theorem unary {op : UnaryOp} {e : Expr} (s : Span) (he : e.Printed) : (Expr.unary op e s).Printed := by
  obtain ⟨ts, he⟩ := he
  have htext : (Expr.unary op e s).text = prefixedText op.sign.text e.text := rfl
  refine ⟨_, .unary op s he.yields, ?_, ?_⟩
  · intro cs vs hcs hw
    rw [htext]
    exact written_prefixed he.apart (he.prints cs vs hcs hw)
  · rw [htext]
    refine apart_prefixed ?_ _
    cases op with
    | not => exact ⟨'!', [], rfl, by decide⟩
    | negate => exact ⟨'-', [], rfl, by decide⟩
    | complement => exact ⟨'~', [], rfl, by decide⟩

theorem step {op : StepOp} {id : Identifier} (s : Span) (h : (Token.identifier id.name).Spelled) :
    (Expr.step op id s).Printed := by
  have htext : (Expr.step op id s).text = prefixedText op.sign.text id.name := rfl
  refine ⟨_, .step op id s, ?_, ?_⟩
  · intro cs vs hcs hw
    rw [htext]
    exact written_prefixed (apart_name h.1) (prints_name h cs vs hcs hw)
  · rw [htext]
    refine apart_prefixed ?_ _
    cases op with
    | increment => exact ⟨'+', ['+'], rfl, by decide⟩
    | decrement => exact ⟨'-', ['-'], rfl, by decide⟩

theorem ternary {c r a : Expr} (s : Span) (hc : c.Printed) (hr : r.Printed) (ha : a.Printed) :
    (Expr.ternary c r a s).Printed := by
  obtain ⟨ts, hc⟩ := hc
  obtain ⟨us, hr⟩ := hr
  obtain ⟨vs, ha⟩ := ha
  have htext : (Expr.ternary c r a s).text = c.text ++ " ? " ++ r.text ++ " : " ++ a.text := rfl
  refine ⟨_, .ternary s hc.yields hr.yields ha.yields, ?_, ?_⟩
  · intro cs ws hcs hw
    have hsplit : (Expr.ternary c r a s).text.toList ++ cs =
        c.text.toList ++ ' ' :: ((Symbol.text .question).toList ++ ' ' :: (r.text.toList ++
          ' ' :: ((Symbol.text .colon).toList ++ ' ' :: (a.text.toList ++ cs)))) := by
      simp [htext, Symbol.text]
    rw [hsplit]
    simp only [List.append_assoc, List.cons_append]
    refine hc.prints _ _ (quiet_space _) (Written.spaced ?_).space
    exact hr.prints _ _ (quiet_space _) (ha.prints cs ws hcs hw).spaced.space
  · simp only [htext, String.append_assoc]
    exact hc.apart.append _

theorem assign {id : Identifier} {op : Option ComputeOp} {e : Expr} (s : Span)
    (h : (Token.identifier id.name).Spelled) (he : e.Printed) : (Expr.assign id op e s).Printed := by
  obtain ⟨ts, he⟩ := he
  have htext : (Expr.assign id op e s).text =
      id.name ++ " " ++ (Symbol.assign op).text ++ " " ++ e.text := rfl
  refine ⟨_, .assign id op s he.yields, ?_, ?_⟩
  · intro cs vs hcs hw
    have hsplit : (Expr.assign id op e s).text.toList ++ cs =
        id.name.toList ++ ' ' :: ((Symbol.assign op).text.toList ++ ' ' :: (e.text.toList ++ cs)) := by
      simp [htext]
    rw [hsplit]
    exact prints_name h _ _ (quiet_space _) (he.prints cs vs hcs hw).spaced.space
  · simp only [htext, String.append_assoc]
    exact (apart_name h.1).append _

theorem call {f : Expr} {es : List Expr} (s : Span) (hf : f.Printed) (hes : ∀ e ∈ es, e.Printed) :
    (Expr.call f es s).Printed := by
  obtain ⟨ts, hf⟩ := hf
  obtain ⟨us, hy, hprints⟩ := prints_list es fun e he => (hes e he).imp fun _ h => ⟨h.yields, h.prints⟩
  have htext : (Expr.call f es s).text = f.text ++ ("(" ++ commas (es.map Expr.text) ++ ")") := by
    rw [← texts_eq, ← String.append_assoc, ← String.append_assoc]
    rfl
  have hcloses := closes_enclosed (a := .leftParen) (b := .rightParen) (by decide) (by decide) hprints
  refine ⟨_, .call s hf.yields hy, ?_, ?_⟩
  · rw [htext]
    exact hf.prints.append (quiet_enclosed (a := .leftParen) (by decide) .rightParen _) hcloses.prints
  · rw [htext]
    exact hf.apart.append _

theorem member {e : Expr} {id : Identifier} (s : Span) (he : e.Printed)
    (h : (Token.identifier id.name).Spelled) : (Expr.member e id s).Printed := by
  obtain ⟨ts, he⟩ := he
  have htext : (Expr.member e id s).text = e.text ++ "." ++ id.name := rfl
  refine ⟨_, .member id s he.yields, ?_, ?_⟩
  · intro cs vs hcs hw
    have hsplit : (Expr.member e id s).text.toList ++ cs =
        e.text.toList ++ ((Symbol.text .dot).toList ++ (id.name.toList ++ cs)) := by
      simp [htext, Symbol.text]
    obtain ⟨c, xs, hname, hc, -⟩ := h.1
    have hdot : Quiet ((Symbol.text .dot).toList ++ (id.name.toList ++ cs)) := by
      rw [hname]
      exact quiet_dot hc _
    rw [hsplit, List.append_assoc]
    refine he.prints _ _ hdot (Written.operator ?_ (prints_name h cs vs hcs hw))
    intro x hx
    rw [hname] at hx
    cases hx
    exact not_mem_tails (.inl hc)
  · simp only [htext, String.append_assoc]
    exact he.apart.append _

theorem index {e k : Expr} (s : Span) (he : e.Printed) (hk : k.Printed) :
    (Expr.index e k s).Printed := by
  obtain ⟨ts, he⟩ := he
  obtain ⟨us, hk⟩ := hk
  have htext : (Expr.index e k s).text = e.text ++ ("[" ++ k.text ++ "]") := by
    rw [← String.append_assoc, ← String.append_assoc]
    rfl
  have hcloses :=
    closes_enclosed (a := .leftBracket) (b := .rightBracket) (by decide) (by decide) hk.prints
  refine ⟨_, .index s he.yields hk.yields, ?_, ?_⟩
  · rw [htext]
    exact he.prints.append (quiet_enclosed (a := .leftBracket) (by decide) .rightBracket _) hcloses.prints
  · rw [htext]
    exact he.apart.append _

theorem list {es : List Expr} (s : Span) (hes : ∀ e ∈ es, e.Printed) : (Expr.list es s).Printed := by
  obtain ⟨us, hy, hprints⟩ := prints_list es fun e he => (hes e he).imp fun _ h => ⟨h.yields, h.prints⟩
  have htext : (Expr.list es s).text = "[" ++ commas (es.map Expr.text) ++ "]" := by
    rw [← texts_eq]
    rfl
  refine ⟨_, .list s hy, ?_, ?_⟩
  · rw [htext]
    exact (closes_enclosed (a := .leftBracket) (b := .rightBracket) (by decide) (by decide) hprints).prints
  · rw [htext, String.append_assoc]
    exact Apart.append ⟨'[', [], rfl, by decide⟩ _

theorem map {es : List (Entry Expr)} (s : Span) (hes : ∀ e ∈ es, e.value.Printed) :
    (Expr.map es s).Printed := by
  have hentry : ∀ e ∈ es, ∃ ts, e.Yields ts ∧ Prints (entryText e) ts := by
    intro e he
    obtain ⟨ts, hv⟩ := hes e he
    refine ⟨_, .mk e.span (t := .string e.key) rfl hv.yields, fun cs us hcs hw => ?_⟩
    have hsplit : (entryText e).toList ++ cs = (Text.literal e.key).toList ++
        ((Symbol.text .colon).toList ++ ' ' :: (e.value.text.toList ++ cs)) := by
      simp [entryText, Symbol.text]
    rw [hsplit]
    exact closes_string e.key _ _ (hv.prints cs us hcs hw).spaced
  obtain ⟨us, hy, hprints⟩ := prints_list es hentry
  have htext : (Expr.map es s).text = "\x7b" ++ commas (es.map entryText) ++ "\x7d" := by
    rw [← entryTexts_eq]
    rfl
  refine ⟨_, .map s hy, ?_, ?_⟩
  · rw [htext]
    exact (closes_enclosed (a := .leftBrace) (b := .rightBrace) (by decide) (by decide) hprints).prints
  · rw [htext, String.append_assoc]
    exact Apart.append ⟨'\x7b', [], rfl, by decide⟩ _

theorem lambda {ps : List Identifier} {e : Expr} (s : Span)
    (hps : ∀ p ∈ ps, (Token.identifier p.name).Spelled) (he : e.Printed) :
    (Expr.lambda ps e s).Printed := by
  obtain ⟨ts, he⟩ := he
  obtain ⟨us, hy, hprints⟩ := prints_names hps
  have htext : (Expr.lambda ps e s).text = "lambda(" ++ names ps ++ ") => " ++ e.text := rfl
  refine ⟨_, .lambda s hy he.yields, ?_, ?_⟩
  · intro cs vs hcs hw
    have hsplit : (Expr.lambda ps e s).text.toList ++ cs = (Keyword.text .lambda).toList ++
        ((Symbol.text .leftParen).toList ++ ((names ps).toList ++ ((Symbol.text .rightParen).toList ++
          ' ' :: ((Symbol.text .fatArrow).toList ++ ' ' :: (e.text.toList ++ cs))))) := by
      simp [htext, Symbol.text, Keyword.text]
    rw [hsplit]
    simp only [List.append_assoc, List.cons_append]
    refine Written.word (quiet_sign (by decide) _) (Written.sign (by decide) ?_)
    refine hprints _ _ (quiet_sign (by decide) _) (Written.sign (by decide) ?_)
    exact (he.prints cs vs hcs hw).spaced.space
  · simp only [htext, String.append_assoc]
    exact Apart.append ⟨'l', _, rfl, by decide⟩ _

theorem input {p : Option Expr} (s : Span) (hp : ∀ e ∈ p, e.Printed) : (Expr.input p s).Printed := by
  have hinput : ∀ {text : String} {ts : List Token}, Prints text ts → Prints ("input(" ++ text ++ ")")
      (.keyword .input :: .symbol .leftParen :: (ts ++ [.symbol .rightParen])) := by
    intro text ts h cs us hcs hw
    have hsplit : ("input(" ++ text ++ ")").toList ++ cs =
        (Keyword.text .input).toList ++ (("(" ++ text ++ ")").toList ++ cs) := by
      simp [Keyword.text]
    rw [hsplit]
    refine Written.word (quiet_enclosed (a := .leftParen) (by decide) .rightParen text cs) ?_
    exact closes_enclosed (a := .leftParen) (b := .rightParen) (by decide) (by decide) h cs us hw
  cases p with
  | none =>
    have hempty : Prints "" [] := fun _ _ _ hw => hw
    have htext : (Expr.input none s).text = "input(" ++ "" ++ ")" := by
      show "input()" = _
      decide
    refine ⟨_, .input s .none, ?_, ?_⟩
    · rw [htext]
      exact hinput hempty
    · rw [htext]
      exact ⟨'i', _, rfl, by decide⟩
  | some e =>
    obtain ⟨ts, he⟩ := hp e rfl
    have htext : (Expr.input (some e) s).text = "input(" ++ e.text ++ ")" := rfl
    refine ⟨_, .input s (.some he.yields), hinput he.prints, ?_⟩
    rw [htext, String.append_assoc]
    exact Apart.append ⟨'i', _, rfl, by decide⟩ _

theorem nested {e : Expr} (s : Span) (he : e.Printed) : (Expr.nested e s).Printed := by
  obtain ⟨ts, he⟩ := he
  have htext : (Expr.nested e s).text = "(" ++ e.text ++ ")" := rfl
  refine ⟨_, .nested s he.yields, ?_, ?_⟩
  · exact (closes_enclosed (a := .leftParen) (b := .rightParen) (by decide) (by decide) he.prints).prints
  · rw [htext, String.append_assoc]
    exact Apart.append ⟨'(', [], rfl, by decide⟩ _

end Printed
mutual

/-- Every expression that is written with tokens a source can spell is read back from its text. -/
theorem printed : ∀ (e : Expr) {ts : List Token}, e.Yields ts → (∀ t ∈ ts, t.Spelled) → e.Printed
  | .identifier id, _, hy, hts => by
    cases hy
    exact .identifier (hts _ List.mem_cons_self)
  | .literal value s, _, hy, hts => by
    cases hy with
    | literal _ ht => exact .literal s ht (hts _ List.mem_cons_self)
  | .binary op l r s, _, hy, hts => by
    cases hy with
    | binary _ _ hl hr =>
      rw [List.forall_mem_append, List.forall_mem_cons] at hts
      exact .binary s (printed l hl hts.1) (printed r hr hts.2.2)
  | .unary op e s, _, hy, hts => by
    cases hy with
    | unary _ _ he =>
      rw [List.forall_mem_cons] at hts
      exact .unary s (printed e he hts.2)
  | .step op id s, _, hy, hts => by
    cases hy
    exact .step s (hts _ (List.mem_cons_of_mem _ List.mem_cons_self))
  | .ternary c r a s, _, hy, hts => by
    cases hy with
    | ternary _ hc hr ha =>
      rw [List.forall_mem_append, List.forall_mem_cons, List.forall_mem_append,
        List.forall_mem_cons] at hts
      exact .ternary s (printed c hc hts.1) (printed r hr hts.2.2.1) (printed a ha hts.2.2.2.2)
  | .assign id op e s, _, hy, hts => by
    cases hy with
    | assign _ _ _ he =>
      rw [List.forall_mem_cons, List.forall_mem_cons] at hts
      exact .assign s hts.1 (printed e he hts.2.2)
  | .call f es s, _, hy, hts => by
    cases hy with
    | call _ hf hes =>
      rw [List.forall_mem_append, List.forall_mem_cons, List.forall_mem_append] at hts
      exact .call s (printed f hf hts.1) (printed_list es hes hts.2.2.1)
  | .member e id s, _, hy, hts => by
    cases hy with
    | member _ _ he =>
      rw [List.forall_mem_append, List.forall_mem_cons, List.forall_mem_singleton] at hts
      exact .member s (printed e he hts.1) hts.2.2
  | .index e k s, _, hy, hts => by
    cases hy with
    | index _ he hk =>
      rw [List.forall_mem_append, List.forall_mem_cons, List.forall_mem_append] at hts
      exact .index s (printed e he hts.1) (printed k hk hts.2.2.1)
  | .list es s, _, hy, hts => by
    cases hy with
    | list _ hes =>
      rw [List.forall_mem_cons, List.forall_mem_append] at hts
      exact .list s (printed_list es hes hts.2.1)
  | .map es s, _, hy, hts => by
    cases hy with
    | map _ hes =>
      rw [List.forall_mem_cons, List.forall_mem_append] at hts
      exact .map s (printed_entries es hes hts.2.1)
  | .lambda ps e s, _, hy, hts => by
    cases hy with
    | lambda _ hps he =>
      rw [List.forall_mem_cons, List.forall_mem_cons, List.forall_mem_append, List.forall_mem_cons,
        List.forall_mem_cons] at hts
      exact .lambda s (spelled_names hps hts.2.2.1) (printed e he hts.2.2.2.2.2)
  | .input none s, _, _, _ => .input s (by simp)
  | .input (some e) s, _, hy, hts => by
    cases hy with
    | input _ hp =>
      cases hp with
      | some he =>
        rw [List.forall_mem_cons, List.forall_mem_cons, List.forall_mem_append] at hts
        have hprinted := printed e he hts.2.2.1
        exact .input s fun x hx => by
          cases hx
          exact hprinted
  | .nested e s, _, hy, hts => by
    cases hy with
    | nested _ he =>
      rw [List.forall_mem_cons, List.forall_mem_append] at hts
      exact .nested s (printed e he hts.2.1)

theorem printed_list : ∀ (es : List Expr) {ts : List Token}, Listed Expr.Yields es ts →
    (∀ t ∈ ts, t.Spelled) → ∀ e ∈ es, e.Printed
  | [], _, _, _ => by simp
  | e :: es, _, hy, hts => by
    cases hy with
    | last he =>
      have hprinted := printed e he hts
      exact List.forall_mem_singleton.2 hprinted
    | more he hes =>
      rw [List.forall_mem_append, List.forall_mem_cons] at hts
      exact List.forall_mem_cons.2 ⟨printed e he hts.1, printed_list es hes hts.2.2⟩

theorem printed_entries : ∀ (es : List (Entry Expr)) {ts : List Token}, Listed Entry.Yields es ts →
    (∀ t ∈ ts, t.Spelled) → ∀ e ∈ es, e.value.Printed
  | [], _, _, _ => by simp
  | ⟨key, value, span⟩ :: es, _, hy, hts => by
    cases hy with
    | last he =>
      cases he with
      | mk _ _ hv =>
        rw [List.forall_mem_cons, List.forall_mem_cons] at hts
        have hprinted := printed value hv hts.2.2
        exact List.forall_mem_singleton.2 hprinted
    | more he hes =>
      cases he with
      | mk _ _ hv =>
        rw [List.forall_mem_append, List.forall_mem_cons, List.forall_mem_cons,
          List.forall_mem_cons] at hts
        exact List.forall_mem_cons.2 ⟨printed value hv hts.1.2.2, printed_entries es hes hts.2.2⟩

end

end Expr

end Scriptlet
