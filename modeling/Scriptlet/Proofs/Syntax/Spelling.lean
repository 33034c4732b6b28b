import Scriptlet.Proofs.Syntax.Lexing

/-! Tokens read back from their text. The text of a token that a source can spell, with something behind it
that cannot belong to it, is read as that token. -/
namespace Scriptlet

def ReadsBack (x : Float) : Prop :=
  (lex (Decimal.literal x)).map (·.content) = [.ok (.float x), .ok .endOfFile]

/-- The tokens that a source can spell and that their text stands for. -/
def Token.Spelled : Token → Prop
  | float x => ReadsBack x
  | comment => False
  | t => t.Readable

/-- No characters at the front that could continue a word or a number. -/
structure Quiet (rest : List Char) : Prop where
  word : ∀ c ∈ rest.head?, Lexeme.inWord c = false
  point : ∀ c cs, rest = '.' :: c :: cs → Decimal.isDigit c = false

/-- No sign at the front, which an exponent without digits could still take. -/
def NoSign (rest : List Char) : Prop := ∀ c ∈ rest.head?, c ≠ '-' ∧ c ≠ '+'

/-- The characters behind the first one of an operator, and those that open a comment with the slash
before them. -/
def Symbol.tails : List Char := ['+', '-', '*', '=', '<', '>', '&', '|', '.', '/']

/-- The token ends where the given text starts. -/
def Token.Stops : Token → List Char → Prop
  | string _, _ => True
  | symbol s, rest => s ∈ Symbol.punctuation ∨ ∀ c ∈ rest.head?, c ∉ Symbol.tails
  | _, rest => Quiet rest

/-! Runs of characters of a kind end where the next is of another kind. -/

section Runs

variable {p : Char → Bool} {rest : List Char} (h : ∀ c ∈ rest.head?, p c = false)
include h

theorem takeWhile_append_quiet (cs : List Char) : (cs ++ rest).takeWhile p = cs.takeWhile p := by
  induction cs with
  | nil =>
    cases rest with
    | nil => rfl
    | cons c rest => simp [h c rfl]
  | cons c cs ih => rw [List.cons_append, List.takeWhile_cons, List.takeWhile_cons, ih]

theorem dropWhile_append_quiet (cs : List Char) : (cs ++ rest).dropWhile p = cs.dropWhile p ++ rest := by
  induction cs with
  | nil =>
    cases rest with
    | nil => rfl
    | cons c rest => simp [h c rfl]
  | cons c cs ih =>
    rw [List.cons_append, List.dropWhile_cons, List.dropWhile_cons, ih]
    split <;> rfl

end Runs

theorem takeWhile_of_all {p : Char → Bool} {cs : List Char} (h : ∀ c ∈ cs, p c = true) :
    cs.takeWhile p = cs := by
  have hall : (cs ++ []).takeWhile p = cs ++ [].takeWhile p := List.takeWhile_append_of_pos h
  rwa [List.append_nil, List.takeWhile_nil, List.append_nil] at hall

/-- One item at the front of a text, read off the lexeme there. -/
theorem contents_append {x : Char} {xs rest : List Char} {t : Token} (hblank : Text.isBlank x = false)
    (h : Lexeme.read x (xs ++ rest) = .found t xs.length) :
    contents (x :: xs ++ rest) = .ok t :: contents rest := by
  rw [List.cons_append, contents_cons hblank, h, Lexeme.found, List.drop_left]

theorem Char.le_iff_toNat_le (a b : Char) : a ≤ b ↔ a.toNat ≤ b.toNat := by
  rw [Char.le_def, UInt32.le_iff_toNat_le]
  rfl

theorem isBlank_of_range {c : Char} (hl : 33 ≤ c.toNat) (hu : c.toNat ≤ 126) :
    Text.isBlank c = false := by
  simp only [Text.isBlank, Bool.or_eq_false_iff, Bool.and_eq_false_iff, decide_eq_false_iff_not]
  omega

namespace Lexeme

theorem isDigit_range {c : Char} (h : Decimal.isDigit c = true) : 48 ≤ c.toNat ∧ c.toNat ≤ 57 := by
  simp only [Decimal.isDigit, Bool.and_eq_true, decide_eq_true_eq, Char.le_iff_toNat_le] at h
  exact h

theorem startsWord_range {c : Char} (h : startsWord c = true) :
    c.toNat = 36 ∨ 65 ≤ c.toNat ∧ c.toNat ≤ 122 := by
  simp only [startsWord, isLetter, Bool.or_eq_true, Bool.and_eq_true, decide_eq_true_eq,
    Char.le_iff_toNat_le] at h
  rcases h with ((h | h) | rfl) | rfl
  · have hl : 'a'.toNat = 97 := rfl
    have hu : 'z'.toNat = 122 := rfl
    omega
  · have hl : 'A'.toNat = 65 := rfl
    have hu : 'Z'.toNat = 90 := rfl
    omega
  · decide
  · decide

/-- What does not open a comment. -/
theorem read_of_no_comment {c : Char} {cs : List Char} (h : c = '/' → ∀ ds, cs ≠ '/' :: ds ∧ cs ≠ '*' :: ds) :
    read c cs =
      if c = '"' || c = '\'' then string c cs
      else if c = backtick then template cs
      else if startsWord c then word c cs
      else if Decimal.isDigit c then number c cs
      else sign c cs := by
  unfold read
  split
  · next ds => exact ((h rfl _).1 rfl).elim
  · next ds => exact ((h rfl _).2 rfl).elim
  · rfl

theorem read_of_startsWord {c : Char} (h : startsWord c = true) (cs : List Char) :
    read c cs = word c cs := by
  have hslash : c ≠ '/' := by
    rintro rfl
    revert h
    decide
  have hquote : (c = '"' || c = '\'') = false := by
    rw [Bool.eq_false_iff]
    intro hq
    rcases Bool.or_eq_true_iff.1 hq with hq | hq <;> cases of_decide_eq_true hq <;> revert h <;> decide
  have hbacktick : c ≠ backtick := by
    rintro rfl
    revert h
    decide
  rw [read_of_no_comment fun hc => absurd hc hslash, hquote, if_neg (by decide), if_neg hbacktick, if_pos h]

end Lexeme

theorem contents_word {name : String} (h : IsWord name) {rest : List Char} (hrest : Quiet rest) :
    contents (name.toList ++ rest) =
      .ok (match Keyword.ofText? name with
        | some k => .keyword k
        | none => .identifier name) :: contents rest := by
  obtain ⟨c, cs, hname, hc, hcs⟩ := h
  have htail : (cs ++ rest).takeWhile Lexeme.inWord = cs := by
    rw [takeWhile_append_quiet hrest.word, takeWhile_of_all hcs]
  have hofList : String.ofList (c :: cs) = name := by rw [← hname, String.ofList_toList]
  rw [hname]
  have hrange := Lexeme.startsWord_range hc
  refine contents_append (isBlank_of_range (by omega) (by omega)) ?_
  rw [Lexeme.read_of_startsWord hc, Lexeme.word, htail, hofList]
  cases Keyword.ofText? name <;> rfl

theorem Keyword.isWord (k : Keyword) : IsWord k.text := by
  have hall : ∀ k ∈ Keyword.all, (k.text.toList.head?.any Lexeme.startsWord &&
      k.text.toList.tail.all Lexeme.inWord) = true := by decide
  have hmem : k ∈ Keyword.all := by cases k <;> decide
  have hk := hall k hmem
  cases hcs : k.text.toList with
  | nil =>
    rw [hcs] at hk
    cases hk
  | cons c cs =>
    rw [hcs] at hk
    obtain ⟨hc, htail⟩ := Bool.and_eq_true_iff.1 hk
    exact ⟨c, cs, hcs, hc, List.all_eq_true.1 htail⟩

theorem Keyword.ofText?_text (k : Keyword) : Keyword.ofText? k.text = some k := by
  cases k <;> decide

namespace Symbol

theorem mem_operators_or (s : Symbol) : s ∈ operators ∨ s ∈ punctuation := by
  cases s with
  | binary op =>
    cases op with
    | compute op => cases op <;> decide
    | relate op => cases op <;> decide
    | logic op => cases op <;> decide
  | assign op =>
    cases op with
    | none => decide
    | some op => cases op <;> decide
  | _ => decide

theorem operator?_text : ∀ s ∈ operators, operator? s.text = some s := by decide

theorem mem_tails : ∀ s ∈ operators, ∀ c ∈ s.text.toList.tail, c ∈ tails := by
  have hall : ∀ s ∈ operators, (s.text.toList.tail.all (tails.contains ·)) = true := by decide
  intro s hs c hc
  exact List.contains_iff_mem.1 (List.all_eq_true.1 (hall s hs) c hc)

/-- The characters that open no other kind of token than an operator. -/
def opensOperator (c : Char) : Bool :=
  !Text.isBlank c && !(c = '"' || c = '\'') && c ≠ Lexeme.backtick && !Lexeme.startsWord c &&
    !Decimal.isDigit c && (punctuation.find? fun p => p.text = c.toString).isNone

theorem operator_head : ∀ s ∈ operators, s.text.toList.length ≤ 4 ∧
    s.text.toList.head?.any opensOperator = true := by decide

theorem tail_of_slash : ∀ s ∈ operators, s.text.toList.head? = some '/' →
    s.text.toList.tail = [] ∨ s.text.toList.tail = ['='] := by decide

theorem operator_cons {s : Symbol} (hs : s ∈ operators) :
    ∃ c cs, s.text.toList = c :: cs ∧ opensOperator c = true := by
  have hhead := (operator_head s hs).2
  cases htext : s.text.toList with
  | nil =>
    rw [htext] at hhead
    cases hhead
  | cons c cs =>
    rw [htext] at hhead
    exact ⟨c, cs, rfl, hhead⟩

/-- With a character behind it that no operator goes on with, a longer text is no operator. -/
theorem operator?_append {s : Symbol} (hs : s ∈ operators) {c : Char} (hc : c ∉ tails) (cs : List Char) :
    operator? (String.ofList (s.text.toList ++ c :: cs)) = none := by
  rw [operator?, List.find?_eq_none]
  intro s' hs' htext
  have hlist : s'.text.toList = s.text.toList ++ c :: cs := by
    rw [of_decide_eq_true htext, String.toList_ofList]
  obtain ⟨x, xs, hx, -⟩ := operator_cons hs
  refine hc (mem_tails s' hs' c ?_)
  rw [hlist, hx, List.cons_append, List.tail_cons]
  exact List.mem_append_right _ List.mem_cons_self

end Symbol

theorem Lexeme.longestOperator?_append {s : Symbol} (hs : s ∈ Symbol.operators) {rest : List Char}
    (hrest : ∀ c ∈ rest.head?, c ∉ Symbol.tails) (n : Nat) (hn : s.text.toList.length ≤ n) :
    longestOperator? (s.text.toList ++ rest) n = some s := by
  induction n with
  | zero =>
    obtain ⟨x, xs, hx, -⟩ := Symbol.operator_cons hs
    rw [List.length_eq_zero_iff.1 (Nat.le_zero.1 hn)] at hx
    cases hx
  | succ n ih =>
    have htext : Symbol.operator? (String.ofList s.text.toList) = some s := by
      rw [String.ofList_toList]
      exact Symbol.operator?_text s hs
    rw [longestOperator?, List.take_append]
    by_cases hexact : s.text.toList.length = n + 1
    · rw [List.take_of_length_le (Nat.le_of_eq hexact), hexact, Nat.sub_self, List.take_zero,
        List.append_nil, htext]
    · have hshort : s.text.toList.length ≤ n := by omega
      rw [List.take_of_length_le hn]
      cases rest with
      | nil => rw [List.take_nil, List.append_nil, htext]
      | cons c cs =>
        rw [show n + 1 - s.text.toList.length = (n - s.text.toList.length) + 1 by omega,
          List.take_succ_cons, Symbol.operator?_append hs (hrest c rfl)]
        exact ih hshort

/-- Where no comment and no other kind of token starts, the longest operator is read. -/
theorem Lexeme.read_of_opensOperator {c : Char} {cs : List Char} (hc : Symbol.opensOperator c = true)
    (hcomment : c = '/' → ∀ ds, cs ≠ '/' :: ds ∧ cs ≠ '*' :: ds) {s : Symbol}
    (hs : longestOperator? (c :: cs) 4 = some s) : read c cs = found (.symbol s) (s.text.length - 1) := by
  simp only [Symbol.opensOperator, Bool.and_eq_true, Bool.not_eq_true', decide_eq_true_eq,
    Option.isNone_iff_eq_none] at hc
  obtain ⟨⟨⟨⟨⟨-, hquote⟩, hbacktick⟩, hword⟩, hdigit⟩, hpunctuation⟩ := hc
  rw [read_of_no_comment hcomment, hquote, if_neg (by decide), if_neg hbacktick, hword, if_neg (by decide), hdigit,
    if_neg (by decide), sign, hpunctuation]
  dsimp only
  rw [hs]

theorem Symbol.not_isBlank_of_opensOperator {c : Char} (h : opensOperator c = true) : Text.isBlank c = false := by
  simp only [opensOperator, Bool.and_eq_true, Bool.not_eq_true'] at h
  exact h.1.1.1.1.1

theorem contents_operator {s : Symbol} (hs : s ∈ Symbol.operators) {rest : List Char}
    (hrest : ∀ c ∈ rest.head?, c ∉ Symbol.tails) :
    contents (s.text.toList ++ rest) = .ok (.symbol s) :: contents rest := by
  have hlongest := Lexeme.longestOperator?_append hs hrest 4 (Symbol.operator_head s hs).1
  obtain ⟨c, cs, htext, hopens⟩ := Symbol.operator_cons hs
  have hlength : s.text.length - 1 = cs.length := by
    rw [← String.length_toList, htext, List.length_cons, Nat.add_sub_cancel]
  have hcomment : ∀ x xs, c = '/' → cs ++ rest = x :: xs → x ≠ '/' ∧ x ≠ '*' := by
    rintro x xs rfl happend
    have htail := Symbol.tail_of_slash s hs (by rw [htext]; rfl)
    rw [htext, List.tail_cons] at htail
    rcases htail with rfl | rfl
    · have hx := hrest x (by rw [← List.nil_append rest, happend]; rfl)
      constructor <;> rintro rfl <;> revert hx <;> decide
    · cases happend
      decide
  rw [htext, List.cons_append] at hlongest
  have hread := Lexeme.read_of_opensOperator hopens
    (fun hc ds => ⟨fun he => (hcomment _ _ hc he).1 rfl, fun he => (hcomment _ _ hc he).2 rfl⟩) hlongest
  rw [hlength] at hread
  rw [htext]
  exact contents_append (Symbol.not_isBlank_of_opensOperator hopens) hread

theorem contents_punctuation {s : Symbol} (hs : s ∈ Symbol.punctuation) (rest : List Char) :
    contents (s.text.toList ++ rest) = .ok (.symbol s) :: contents rest := by
  simp only [Symbol.punctuation, List.mem_cons, List.not_mem_nil, or_false] at hs
  rcases hs with rfl | rfl | rfl | rfl | rfl | rfl | rfl | rfl | rfl | rfl <;>
    exact @contents_append _ [] _ _ (by decide) rfl

theorem quiet_nil : Quiet [] where
  word c hc := by cases hc
  point c cs h := by cases h

namespace Quiet

variable {rest : List Char} (h : Quiet rest)
include h

theorem digit : ∀ c ∈ rest.head?, Decimal.isDigit c = false := by
  intro c hc
  have hword := h.word c hc
  rw [Lexeme.inWord, Bool.or_eq_false_iff] at hword
  exact hword.2

theorem letter : ∀ c ∈ rest.head?, Lexeme.isLetter c = false := by
  intro c hc
  have hword := h.word c hc
  rw [Lexeme.inWord, Lexeme.startsWord, Bool.or_eq_false_iff, Bool.or_eq_false_iff,
    Bool.or_eq_false_iff] at hword
  exact hword.1.1.1

end Quiet

namespace Lexeme

variable {rest : List Char} (h : Quiet rest)

include h in
theorem fraction_append (cs : List Char) : fraction (cs ++ rest) = fraction cs := by
  cases cs with
  | nil =>
    match rest, h with
    | [], _ => rfl
    | c :: rest, h =>
      by_cases hc : c = '.'
      · subst hc
        cases rest with
        | nil => rfl
        | cons d rest =>
          show (d :: rest).takeWhile Decimal.isDigit = []
          rw [List.takeWhile_cons, h.point d rest rfl]
          rfl
      · rw [List.nil_append]
        unfold fraction
        split
        · next heq => exact (hc (List.cons.inj heq).1).elim
        · rfl
  | cons c cs =>
    by_cases hc : c = '.'
    · subst hc
      exact takeWhile_append_quiet h.digit cs
    · have hnone : ∀ ds, fraction (c :: ds) = [] := by
        intro ds
        unfold fraction
        split
        · next heq => exact (hc (List.cons.inj heq).1).elim
        · rfl
      rw [List.cons_append, hnone, hnone]

theorem fractionLength_le (cs : List Char) : fractionLength (fraction cs) ≤ cs.length := by
  unfold fraction
  split
  · next ds =>
    have hle : (ds.takeWhile Decimal.isDigit).length ≤ ds.length := (List.takeWhile_prefix _).length_le
    rw [fractionLength, List.length_cons]
    split <;> omega
  · exact Nat.zero_le _

theorem takeSign_length (cs : List Char) :
    signLength cs + (Decimal.takeSign cs).2.length = cs.length := by
  unfold signLength Decimal.takeSign
  split <;> simp [Nat.add_comm]

theorem takeSign_other {c : Char} (hminus : c ≠ '-') (hplus : c ≠ '+') (cs : List Char) :
    Decimal.takeSign (c :: cs) = (false, c :: cs) ∧ signLength (c :: cs) = 0 := by
  unfold Decimal.takeSign signLength
  constructor
  · split
    · next heq => exact (hminus (List.cons.inj heq).1).elim
    · next heq => exact (hplus (List.cons.inj heq).1).elim
    · rfl
  · split
    · next heq => exact (hminus (List.cons.inj heq).1).elim
    · next heq => exact (hplus (List.cons.inj heq).1).elim
    · rfl

theorem takeSign_append {cs rest : List Char} (hcs : NoSign rest ∨ cs ≠ []) :
    Decimal.takeSign (cs ++ rest) = ((Decimal.takeSign cs).1, (Decimal.takeSign cs).2 ++ rest) ∧
      signLength (cs ++ rest) = signLength cs := by
  cases cs with
  | nil =>
    have hrest := hcs.resolve_right fun hne => hne rfl
    cases rest with
    | nil => exact ⟨rfl, rfl⟩
    | cons c rest =>
      obtain ⟨hminus, hplus⟩ := hrest c rfl
      exact takeSign_other hminus hplus rest
  | cons c cs =>
    by_cases hminus : c = '-'
    · subst hminus
      exact ⟨rfl, rfl⟩
    · by_cases hplus : c = '+'
      · subst hplus
        exact ⟨rfl, rfl⟩
      · obtain ⟨htake, hlength⟩ := takeSign_other hminus hplus cs
        obtain ⟨htake', hlength'⟩ := takeSign_other hminus hplus (cs ++ rest)
        rw [List.cons_append, htake, htake', hlength, hlength']
        exact ⟨rfl, rfl⟩

include h in
/-- An exponent ends where a quiet text starts; one without digits needs a text that is no sign either. -/
theorem exponent?_append {cs : List Char} (hcs : NoSign rest ∨ ∀ n, exponent? cs ≠ some (n, none)) :
    exponent? (cs ++ rest) = exponent? cs := by
  cases cs with
  | nil =>
    cases rest with
    | nil => rfl
    | cons c rest =>
      have hletter := h.letter c rfl
      have hc : (c = 'e' || c = 'E') = false := by
        rw [Bool.eq_false_iff]
        intro he
        rcases Bool.or_eq_true_iff.1 he with he | he <;> cases of_decide_eq_true he <;>
          revert hletter <;> decide
      show exponent? (c :: rest) = none
      rw [exponent?, hc]
      rfl
  | cons c cs =>
    rw [List.cons_append, exponent?, exponent?]
    split
    · next he =>
      have hne : NoSign rest ∨ cs ≠ [] := by
        refine hcs.imp_right ?_
        rintro hdigits rfl
        refine hdigits 1 ?_
        rw [exponent?, if_pos he]
        rfl
      obtain ⟨htake, hlength⟩ := takeSign_append hne
      rw [htake, hlength]
      dsimp only
      rw [takeWhile_append_quiet h.digit]
    · rfl

theorem exponent?_length {cs : List Char} {n : Nat} {e : Option Int} (he : exponent? cs = some (n, e)) :
    n ≤ cs.length := by
  cases cs with
  | nil => cases he
  | cons c cs =>
    rw [exponent?] at he
    have hlength := takeSign_length cs
    have hdigits : ((Decimal.takeSign cs).2.takeWhile Decimal.isDigit).length ≤
        (Decimal.takeSign cs).2.length := (List.takeWhile_prefix _).length_le
    rw [List.length_cons]
    split at he
    · dsimp only at he
      split at he <;> cases he <;> omega
    · cases he

include h in
/-- A decimal number is the same before every quiet text that is no sign, and before every quiet text if it is
a number at all. -/
theorem decimalNumber_append {c : Char} {cs : List Char}
    (hend : NoSign rest ∨ ∃ t, (decimalNumber c cs).outcome = .ok t) :
    decimalNumber c (cs ++ rest) = decimalNumber c cs := by
  unfold decimalNumber at hend ⊢
  dsimp only at hend ⊢
  rw [takeWhile_append_quiet h.digit, dropWhile_append_quiet h.digit, fraction_append h,
    List.drop_append_of_le_length (fractionLength_le _), exponent?_append h]
  refine hend.imp_right fun ⟨t, ht⟩ n hn => ?_
  rw [hn] at ht
  cases ht

theorem found_more (t : Token) (more : Nat) : (found t more).more = more := rfl

theorem fault_more (cause : LexCause) (more : Nat) : (fault cause more).more = more := rfl

theorem intToken_more (n more : Nat) : (intToken n more).more = more := by
  unfold intToken
  split <;> rfl

theorem decimalNumber_length (c : Char) (cs : List Char) : (decimalNumber c cs).more ≤ cs.length := by
  have hall : (cs.takeWhile Decimal.isDigit).length + (cs.dropWhile Decimal.isDigit).length =
      cs.length := by
    rw [← List.length_append, List.takeWhile_append_dropWhile]
  have hfraction := fractionLength_le (cs.dropWhile Decimal.isDigit)
  unfold decimalNumber
  dsimp only
  split
  · next n he =>
    have hexponent := exponent?_length he
    rw [List.length_drop] at hexponent
    rw [fault_more]
    omega
  · next n e he =>
    have hexponent := exponent?_length he
    rw [List.length_drop] at hexponent
    rw [found_more]
    omega
  · split
    · rw [intToken_more]
      omega
    · rw [found_more]
      omega

theorem radix?_of_isLetter {c : Char} (hc : isLetter c = false) : radix? c = none := by
  unfold radix?
  split <;> first | rfl | (revert hc; decide)

include h in
theorem radixNumber_append (radix : Nat) (cs : List Char) :
    radixNumber radix (cs ++ rest) = radixNumber radix cs := by
  have hstop : ∀ c ∈ rest.head?, (isLetter c || Decimal.isDigit c) = false := by
    intro c hc
    rw [h.letter c hc, h.digit c hc]
    rfl
  unfold radixNumber
  rw [takeWhile_append_quiet hstop]

theorem number_of_radix {r : Char} {radix : Nat} (hr : radix? r = some radix) (cs : List Char) :
    number '0' (r :: cs) = radixNumber radix cs := by
  simp [number, hr]

theorem number_eq_decimalNumber {c : Char} {cs : List Char} (h : c = '0' → ∀ r ∈ cs.head?, radix? r = none) :
    number c cs = decimalNumber c cs := by
  unfold number
  split
  · next r rest => rw [h rfl r rfl]
  · rfl

theorem number_of_no_radix {r : Char} (hr : radix? r = none) (cs : List Char) :
    number '0' (r :: cs) = decimalNumber '0' (r :: cs) :=
  number_eq_decimalNumber fun _ _ h => Option.some.inj h ▸ hr

include h in
theorem number_append {c : Char} {cs : List Char}
    (hend : NoSign rest ∨ ∃ t, (number c cs).outcome = .ok t) :
    number c (cs ++ rest) = number c cs := by
  by_cases hc : c = '0'
  · subst hc
    cases cs with
    | nil =>
      have hdecimal := decimalNumber_append h hend
      cases rest with
      | nil => rfl
      | cons r rest =>
        rw [List.nil_append, number_of_no_radix (radix?_of_isLetter (h.letter r rfl))]
        exact hdecimal
    | cons r cs =>
      cases hr : radix? r with
      | some radix =>
        rw [List.cons_append, number_of_radix hr, number_of_radix hr]
        exact radixNumber_append h radix cs
      | none =>
        rw [number_of_no_radix hr] at hend
        rw [List.cons_append, number_of_no_radix hr, number_of_no_radix hr]
        exact decimalNumber_append h hend
  · have hnumber (ds : List Char) : number c ds = decimalNumber c ds := number_eq_decimalNumber fun h => (hc h).elim
    rw [hnumber] at hend ⊢
    rw [decimalNumber_append h hend, hnumber]

theorem radixNumber_length (radix : Nat) (cs : List Char) :
    (radixNumber radix cs).more ≤ cs.length + 1 := by
  have hle : (cs.takeWhile fun c => isLetter c || Decimal.isDigit c).length ≤ cs.length :=
    (List.takeWhile_prefix _).length_le
  unfold radixNumber
  dsimp only
  split
  · exact Nat.succ_le_succ hle
  · split
    · rw [intToken_more]
      exact Nat.succ_le_succ hle
    · exact Nat.succ_le_succ hle

theorem number_length (c : Char) (cs : List Char) : (number c cs).more ≤ cs.length := by
  unfold number
  split
  · split
    · exact radixNumber_length _ _
    · exact decimalNumber_length _ _
  · exact decimalNumber_length _ _

theorem read_of_isDigit {c : Char} (hc : Decimal.isDigit c = true) (cs : List Char) :
    read c cs = number c cs := by
  have hrange := isDigit_range hc
  have hother : ∀ x : Char, x.toNat < 48 ∨ 57 < x.toNat → c ≠ x := by
    rintro x hx rfl
    omega
  have hquote : (c = '"' || c = '\'') = false := by
    simp [hother '"' (by decide), hother '\'' (by decide)]
  have hword : startsWord c = false := by
    rw [Bool.eq_false_iff]
    intro hw
    have hrange' := startsWord_range hw
    omega
  rw [read_of_no_comment fun hslash => absurd hslash (hother '/' (by decide)), hquote, if_neg (by decide),
    if_neg (hother backtick (by decide)), hword, if_neg (by decide), if_pos hc]

end Lexeme

/-- A number at the front of a text, read off the lexeme before any text behind it. -/
theorem contents_number {c : Char} {cs rest : List Char} {t : Token} (hc : Decimal.isDigit c = true)
    (ht : (Lexeme.number c cs).outcome = .ok t) (hrest : Quiet rest) :
    contents (c :: cs ++ rest) = .ok t :: contents (cs.drop (Lexeme.number c cs).more ++ rest) := by
  have hrange := Lexeme.isDigit_range hc
  rw [List.cons_append, contents_cons (isBlank_of_range (by omega) (by omega)),
    Lexeme.read_of_isDigit hc, Lexeme.number_append hrest (.inr ⟨_, ht⟩), ht,
    List.drop_append_of_le_length (Lexeme.number_length c cs)]

theorem isDigit_of_mem_toDigits {n : Nat} {c : Char} (h : c ∈ Nat.toDigits 10 n) :
    Decimal.isDigit c = true := by
  have hc := Nat.isDigit_of_mem_toDigits (by decide) (by decide) h
  simp only [Char.isDigit, Bool.and_eq_true, decide_eq_true_eq] at hc
  simp only [Decimal.isDigit, Bool.and_eq_true, decide_eq_true_eq, Char.le_def]
  exact hc

theorem natOfDigits_eq {cs : List Char} (h : ∀ c ∈ cs, Decimal.isDigit c = true) (init : Nat) :
    cs.foldl (fun n c => 10 * n + (Decimal.digit? 10 c).getD 0) init = Nat.ofDigitChars 10 cs init := by
  induction cs generalizing init with
  | nil => rw [List.foldl_nil, Nat.ofDigitChars_nil]
  | cons c cs ih =>
    have hc := h c List.mem_cons_self
    have hrange := Lexeme.isDigit_range hc
    have hdigit : (Decimal.digit? 10 c).getD 0 = c.toNat - '0'.toNat := by
      have hzero : '0'.toNat = 48 := rfl
      rw [Decimal.digit?, if_pos hc, if_pos (by omega)]
      rfl
    rw [List.foldl_cons, Nat.ofDigitChars_cons, ih fun x hx => h x (List.mem_cons_of_mem c hx), hdigit]

theorem natOfDigits_toDigits (n : Nat) : Decimal.natOfDigits 10 (Nat.toDigits 10 n) = n := by
  rw [Decimal.natOfDigits, natOfDigits_eq fun c hc => isDigit_of_mem_toDigits hc]
  exact Nat.ofDigitChars_toDigits (by decide) (by decide)

theorem fit?_toInt (value : Int64) : Decimal.fit? value.toInt = some value := by
  have hl := Int64.le_toInt value
  have hu := Int64.toInt_lt value
  have hfits : (Decimal.minInt ≤ value.toInt && value.toInt ≤ Decimal.maxInt) = true := by
    rw [Bool.and_eq_true, decide_eq_true_eq, decide_eq_true_eq, Decimal.minInt, Decimal.maxInt]
    omega
  rw [Decimal.fit?, if_pos hfits, Int64.ofInt_toInt]

theorem isLetter_of_isDigit {c : Char} (h : Decimal.isDigit c = true) : Lexeme.isLetter c = false := by
  have hrange := Lexeme.isDigit_range h
  rw [Bool.eq_false_iff]
  intro hletter
  have hrange' := Lexeme.startsWord_range (c := c) (by rw [Lexeme.startsWord, hletter]; rfl)
  omega

/-- Nothing at the front of a text belongs to the digits before it. -/
structure EndsDigits (rest : List Char) : Prop where
  digit : ∀ d ∈ rest.head?, Decimal.isDigit d = false
  point : ∀ d ds, rest = '.' :: d :: ds → Decimal.isDigit d = false
  exponent : ∀ d ∈ rest.head?, d ≠ 'e' ∧ d ≠ 'E'

theorem Quiet.endsDigits {rest : List Char} (h : Quiet rest) : EndsDigits rest where
  digit := h.digit
  point := h.point
  exponent d hd := by
    have hletter := h.letter d hd
    constructor <;> rintro rfl <;> revert hletter <;> decide

namespace EndsDigits

variable {rest : List Char} (h : EndsDigits rest)
include h

theorem no_fraction : Lexeme.fraction rest = [] := by
  unfold Lexeme.fraction
  split
  · next ds =>
    cases ds with
    | nil => rfl
    | cons d ds => rw [List.takeWhile_cons, h.point d ds rfl, if_neg (by decide)]
  · rfl

theorem no_exponent : Lexeme.exponent? rest = none := by
  cases rest with
  | nil => rfl
  | cons d ds =>
    obtain ⟨hlower, hupper⟩ := h.exponent d rfl
    simp [Lexeme.exponent?, hlower, hupper]

end EndsDigits

/-- A run of decimal digits is read as the integer they are the digits of, if it fits. -/
theorem Lexeme.number_of_digits {c : Char} {cs rest : List Char} (h : ∀ x ∈ c :: cs, Decimal.isDigit x = true)
    (hrest : EndsDigits rest) (hmark : c :: cs = ['0'] → ∀ r ∈ rest.head?, radix? r = none) :
    number c (cs ++ rest) = intToken (Decimal.natOfDigits 10 (c :: cs)) cs.length := by
  have hcs : ∀ x ∈ cs, Decimal.isDigit x = true := fun x hx => h x (List.mem_cons_of_mem c hx)
  have hradix : c = '0' → ∀ r ∈ (cs ++ rest).head?, radix? r = none := by
    rintro rfl r hr
    cases cs with
    | nil => exact hmark rfl r hr
    | cons d ds =>
      cases hr
      exact radix?_of_isLetter (isLetter_of_isDigit (hcs r List.mem_cons_self))
  have hdrop : cs.dropWhile Decimal.isDigit = [] := by
    have hsplit := List.takeWhile_append_dropWhile (p := Decimal.isDigit) (l := cs)
    rw [takeWhile_of_all hcs] at hsplit
    exact List.append_right_eq_self.1 hsplit
  have hnone : fractionLength [] = 0 := rfl
  rw [number_eq_decimalNumber hradix, decimalNumber, takeWhile_append_quiet hrest.digit,
    dropWhile_append_quiet hrest.digit, takeWhile_of_all hcs, hdrop, List.nil_append, hrest.no_fraction, hnone,
    List.drop_zero, hrest.no_exponent, List.append_nil]
  rfl

theorem contents_int {value : Int64} (h : 0 ≤ value.toInt) {rest : List Char} (hrest : Quiet rest) :
    contents ((toString value.toInt).toList ++ rest) = .ok (.int value) :: contents rest := by
  obtain ⟨n, hn⟩ := Int.eq_ofNat_of_zero_le h
  have htext : (toString value.toInt).toList = Nat.toDigits 10 n := by
    rw [hn]
    exact Nat.toList_repr
  have hfit : Decimal.fit? (n : Int) = some value := by
    rw [← hn]
    exact fit?_toInt value
  cases hcs : Nat.toDigits 10 n with
  | nil => exact (Nat.toDigits_ne_nil hcs).elim
  | cons c cs =>
    have hdigits : ∀ x ∈ c :: cs, Decimal.isDigit x = true := by
      rw [← hcs]
      exact fun x hx => isDigit_of_mem_toDigits hx
    have hquiet : c :: cs = ['0'] → ∀ r ∈ rest.head?, Lexeme.radix? r = none :=
      fun _ r hr => Lexeme.radix?_of_isLetter (hrest.letter r hr)
    have hrange := Lexeme.isDigit_range (hdigits c List.mem_cons_self)
    rw [htext, hcs]
    refine contents_append (isBlank_of_range (by omega) (by omega)) ?_
    rw [Lexeme.read_of_isDigit (hdigits c List.mem_cons_self), Lexeme.number_of_digits hdigits hrest.endsDigits hquiet,
      ← hcs, natOfDigits_toDigits, Lexeme.intToken, hfit]

/-! Numbers that are not whole. What is known of their text is only that it is read back. -/

theorem contents_dropWhile (cs : List Char) : contents (cs.dropWhile Text.isBlank) = contents cs := by
  induction cs with
  | nil => rfl
  | cons c cs ih =>
    cases hc : Text.isBlank c with
    | true => rw [List.dropWhile_cons, if_pos hc, ih, contents_blank hc]
    | false => rw [List.dropWhile_cons, if_neg (by rw [hc]; decide)]

theorem contents_blanks {cs : List Char} (h : ∀ c ∈ cs, Text.isBlank c = true) (rest : List Char) :
    contents (cs ++ rest) = contents rest := by
  induction cs with
  | nil => rfl
  | cons c cs ih =>
    rw [List.cons_append, contents_blank (h c List.mem_cons_self),
      ih fun x hx => h x (List.mem_cons_of_mem c hx)]

/-- A text in which only the end of the file is found is blank. -/
theorem isBlank_of_contents {cs : List Char} (h : contents cs = [.ok .endOfFile]) :
    ∀ c ∈ cs, Text.isBlank c = true := by
  rw [← contents_dropWhile] at h
  cases hdrop : cs.dropWhile Text.isBlank with
  | nil =>
    have hsplit := List.takeWhile_append_dropWhile (p := Text.isBlank) (l := cs)
    rw [hdrop, List.append_nil] at hsplit
    rw [← hsplit]
    exact fun c hc => List.all_eq_true.1 List.all_takeWhile c hc
  | cons x xs =>
    have hx : Text.isBlank x = false := by
      have hhead := List.head?_dropWhile_not Text.isBlank cs
      rw [hdrop] at hhead
      simpa using hhead
    rw [hdrop, contents_cons hx] at h
    exact ((Lexeme.sound_read x xs).readable _ (List.cons.inj h).1).elim

theorem Lexeme.isDigit_of_read_float {c : Char} {cs : List Char} {x : Float}
    (h : (read c cs).outcome = .ok (.float x)) : Decimal.isDigit c = true := by
  unfold read at h
  split at h
  · cases h
  · unfold blockComment at h
    split at h <;> cases h
  · split at h
    · unfold string at h
      split at h <;> cases h
    · split at h
      · unfold template at h
        dsimp only at h
        split at h <;> cases h
      · split at h
        · unfold word at h
          dsimp only at h
          split at h <;> cases h
        · split at h
          · assumption
          · unfold sign at h
            split at h
            · cases h
            · split at h <;> cases h

theorem contents_float {x : Float} (h : ReadsBack x) {rest : List Char} (hrest : Quiet rest) :
    contents ((Decimal.literal x).toList ++ rest) = .ok (.float x) :: contents rest := by
  rw [ReadsBack, lex_contents] at h
  generalize (Decimal.literal x).toList = text at h ⊢
  have hblank : ∀ c ∈ text.takeWhile Text.isBlank, Text.isBlank c = true :=
    fun c hc => List.all_eq_true.1 List.all_takeWhile c hc
  rw [← contents_dropWhile] at h
  rw [← List.takeWhile_append_dropWhile (p := Text.isBlank) (l := text), List.append_assoc,
    contents_blanks hblank]
  cases hdrop : text.dropWhile Text.isBlank with
  | nil =>
    rw [hdrop, contents_nil] at h
    cases h
  | cons c cs =>
    have hc : Text.isBlank c = false := by
      have hhead := List.head?_dropWhile_not Text.isBlank text
      rw [hdrop] at hhead
      simpa using hhead
    rw [hdrop, contents_cons hc] at h
    obtain ⟨hfloat, hend⟩ := List.cons.inj h
    have hdigit := Lexeme.isDigit_of_read_float hfloat
    rw [Lexeme.read_of_isDigit hdigit] at hfloat hend
    rw [contents_number hdigit hfloat hrest, contents_blanks (isBlank_of_contents hend)]

/-- A character of a string literal is escaped, or stands for itself and ends nothing. -/
theorem escapeChar_cases (c : Char) :
    (∃ x, Text.escapeChar c = ['\\', x] ∧ Lexeme.unescape x = c) ∨
      Text.escapeChar c = [c] ∧ c ≠ '\\' ∧ c ≠ '"' := by
  unfold Text.escapeChar
  split
  · exact .inl ⟨'n', rfl, rfl⟩
  · exact .inl ⟨'t', rfl, rfl⟩
  · exact .inl ⟨'r', rfl, rfl⟩
  · exact .inl ⟨'0', rfl, rfl⟩
  · exact .inl ⟨'\\', rfl, rfl⟩
  · exact .inl ⟨'"', rfl, rfl⟩
  · next hbackslash hquote => exact .inr ⟨rfl, hbackslash, hquote⟩

theorem Lexeme.quotedBody_plain {c : Char} (hbackslash : c ≠ '\\') (hquote : c ≠ '"') (cs : List Char) :
    quotedBody '"' (c :: cs) = (quotedBody '"' cs).map fun (text, n) => (c :: text, n + 1) := by
  rw [quotedBody]
  · rw [if_neg hquote]
  · exact fun d ds hd => (hbackslash hd).elim

theorem Lexeme.quotedBody_escape (cs rest : List Char) :
    quotedBody '"' (Text.escapeChars cs ++ '"' :: rest) =
      some (cs, (Text.escapeChars cs).length + 1) := by
  induction cs with
  | nil => rfl
  | cons c cs ih =>
    rw [Text.escapeChars_cons, List.append_assoc]
    rcases escapeChar_cases c with ⟨x, hx, hc⟩ | ⟨hx, hbackslash, hquote⟩
    · rw [hx]
      show (quotedBody '"' (Text.escapeChars cs ++ '"' :: rest)).map _ = _
      rw [ih, Option.map_some, hc, List.length_append, List.length_cons, List.length_singleton]
      refine congrArg (fun n => some (c :: cs, n)) ?_
      omega
    · rw [hx, List.cons_append, List.nil_append, quotedBody_plain hbackslash hquote, ih,
        Option.map_some, List.length_append, List.length_singleton]
      refine congrArg (fun n => some (c :: cs, n)) ?_
      omega

/-- A string literal ends at the mark behind the escaped text. -/
theorem Lexeme.read_literal (cs rest : List Char) : read '"' (Text.escapeChars cs ++ ['"'] ++ rest) =
    found (.string (String.ofList cs)) (Text.escapeChars cs ++ ['"']).length := by
  have hread : read '"' (Text.escapeChars cs ++ ['"'] ++ rest) =
      string '"' (Text.escapeChars cs ++ ['"'] ++ rest) := rfl
  have hlength : (Text.escapeChars cs ++ ['"']).length = (Text.escapeChars cs).length + 1 := List.length_append
  rw [hread, string, hlength, List.append_assoc, List.singleton_append, quotedBody_escape]

theorem Text.literal_toList (value : String) :
    (Text.literal value).toList = '"' :: (Text.escapeChars value.toList ++ ['"']) := by
  simp [Text.literal, Text.escape]

theorem contents_string (value : String) (rest : List Char) :
    contents ((Text.literal value).toList ++ rest) = .ok (.string value) :: contents rest := by
  have hread := Lexeme.read_literal value.toList rest
  rw [String.ofList_toList] at hread
  rw [Text.literal_toList]
  exact contents_append (by decide) hread

/-- A token that a source can spell is read back from its text. -/
theorem Token.Spelled.contents {t : Token} (h : t.Spelled) {rest : List Char} (hrest : t.Stops rest) :
    contents (t.text.toList ++ rest) = .ok t :: contents rest := by
  cases t with
  | identifier name =>
    have hword := contents_word h.1 hrest
    rw [h.2] at hword
    exact hword
  | int value => exact contents_int h hrest
  | float x => exact contents_float h hrest
  | string value => exact contents_string value rest
  | comment => exact h.elim
  | keyword k =>
    have hword := contents_word k.isWord hrest
    rw [k.ofText?_text] at hword
    exact hword
  | symbol s =>
    rcases hrest with hs | hrest
    · exact contents_punctuation hs rest
    · rcases s.mem_operators_or with hs | hs
      · exact contents_operator hs hrest
      · exact contents_punctuation hs rest
  | endOfFile => exact h.elim

end Scriptlet
