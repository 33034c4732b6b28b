import Scriptlet.Proofs.Syntax.Tiling

/-! Longest match. Where an operator or a word starts, the token that is read there has the longest text: no operator
is cut short, and no word ends while characters of words follow. Every operator grows out of shorter ones, one
character at a time, so that a reader who goes on while what was read is an operator finds the longest one too. -/
namespace Scriptlet

/-- The longest text of a kind that another text starts with. -/
structure LongestFront (Kind : List Char → Prop) (cs text : List Char) : Prop where
  front : text <+: cs
  kind : Kind text
  longest : ∀ p, p <+: cs → Kind p → p.length ≤ text.length

theorem LongestFront.unique {Kind : List Char → Prop} {cs p q : List Char} (hp : LongestFront Kind cs p)
    (hq : LongestFront Kind cs q) : p = q := by
  have hle : p.length ≤ q.length := hq.longest p hp.front hp.kind
  have hge : q.length ≤ p.length := hp.longest q hq.front hq.kind
  exact (List.prefix_of_prefix_length_le hp.front hq.front hle).eq_of_length_le hge

/-- A run of characters of a kind is the longest text of such characters. -/
theorem longestFront_takeWhile (p : Char → Bool) (cs : List Char) :
    LongestFront (fun text => ∀ c ∈ text, p c = true) cs (cs.takeWhile p) where
  front := List.takeWhile_prefix p
  kind := List.all_eq_true.1 List.all_takeWhile
  longest text htext hall := by
    obtain ⟨rest, rfl⟩ := htext
    rw [List.takeWhile_append_of_pos hall, List.length_append]
    exact Nat.le_add_right _ _

/-- The lexeme of a word takes the longest run of characters of words. It is the keyword with that text, or a name
if there is none. -/
theorem Lexeme.read_word {x : Char} (hx : startsWord x = true) (xs : List Char) :
    ∃ text, LongestFront (fun text => ∀ c ∈ text, inWord c = true) (x :: xs) text ∧
      (read x xs).more + 1 = text.length ∧
      ((∃ k : Keyword, k.text.toList = text ∧ (read x xs).outcome = .ok (.keyword k)) ∨
        (∀ k : Keyword, k.text.toList ≠ text) ∧ (read x xs).outcome = .ok (.identifier (String.ofList text))) := by
  have hrun : (x :: xs).takeWhile inWord = x :: xs.takeWhile inWord := by
    rw [List.takeWhile_cons, inWord, hx]
    rfl
  refine ⟨x :: xs.takeWhile inWord, hrun ▸ longestFront_takeWhile inWord (x :: xs), ?_⟩
  rw [read_of_startsWord hx]
  unfold word
  dsimp only
  split
  · next k hk =>
    have htext := List.find?_some hk
    exact ⟨rfl, .inl ⟨k, by rw [of_decide_eq_true htext, String.toList_ofList], rfl⟩⟩
  · next hnone =>
    refine ⟨rfl, .inr ⟨fun k hk => ?_, rfl⟩⟩
    rw [← hk, String.ofList_toList, Keyword.ofText?_text] at hnone
    cases hnone

namespace Lexeme

theorem intToken_outcome {n more : Nat} {t : Token} (h : (intToken n more).outcome = .ok t) :
    ∃ value, t = .int value := by
  unfold intToken at h
  split at h <;> cases h
  exact ⟨_, rfl⟩

theorem decimalNumber_outcome {x : Char} {xs : List Char} {t : Token}
    (h : (decimalNumber x xs).outcome = .ok t) : (∃ value, t = .int value) ∨ ∃ value, t = .float value := by
  unfold decimalNumber at h
  dsimp only at h
  split at h
  · cases h
  · cases h
    exact .inr ⟨_, rfl⟩
  · split at h
    · exact .inl (intToken_outcome h)
    · cases h
      exact .inr ⟨_, rfl⟩

/-- Words go on with digits, but what starts with a digit is a number. -/
theorem read_digit {x : Char} (hx : Decimal.isDigit x = true) {xs : List Char} {t : Token}
    (h : (read x xs).outcome = .ok t) : (∃ value, t = .int value) ∨ ∃ value, t = .float value := by
  rw [read_of_isDigit hx] at h
  unfold number at h
  split at h
  · split at h
    · unfold radixNumber at h
      dsimp only at h
      split at h
      · cases h
      · split at h
        · exact .inl (intToken_outcome h)
        · cases h
    · exact decimalNumber_outcome h
  · exact decimalNumber_outcome h

end Lexeme

namespace Symbol

def IsOperator (text : List Char) : Prop := (operator? (String.ofList text)).isSome = true

instance : DecidablePred IsOperator := fun _ => inferInstanceAs (Decidable (_ = true))

def inOperator (c : Char) : Bool := operators.any fun s => s.text.toList.contains c

theorem operator?_eq_some_iff {text : List Char} {s : Symbol} :
    operator? (String.ofList text) = some s ↔ s ∈ operators ∧ s.text.toList = text := by
  constructor
  · intro h
    have htext := List.find?_some h
    exact ⟨List.mem_of_find?_eq_some h, by rw [of_decide_eq_true htext, String.toList_ofList]⟩
  · rintro ⟨hs, rfl⟩
    rw [String.ofList_toList, operator?_text s hs]

theorem isOperator_iff {text : List Char} : IsOperator text ↔ ∃ s ∈ operators, s.text.toList = text := by
  rw [IsOperator, Option.isSome_iff_exists]
  exact exists_congr fun s => operator?_eq_some_iff

namespace IsOperator

variable {text : List Char} (h : IsOperator text)
include h

theorem length_le_four : text.length ≤ 4 := by
  obtain ⟨s, hs, rfl⟩ := isOperator_iff.1 h
  exact (operator_head s hs).1

/-- Whatever an operator starts with is an operator. -/
theorem take (n : Nat) : IsOperator (text.take (n + 1)) := by
  have hall : ∀ s ∈ operators, ∀ n : Fin 4, IsOperator (s.text.toList.take (n + 1)) := by decide
  by_cases hn : n < 4
  · obtain ⟨s, hs, rfl⟩ := isOperator_iff.1 h
    exact hall s hs ⟨n, hn⟩
  · rwa [List.take_of_length_le (Nat.le_trans h.length_le_four (by omega))]

end IsOperator

/-- A character that operators are made of is an operator on its own, and opens no other kind of token. -/
theorem isOperator_of_inOperator {c : Char} (h : inOperator c = true) :
    IsOperator [c] ∧ opensOperator c = true := by
  have hall : ∀ s ∈ operators, (s.text.toList.all fun c => decide (IsOperator [c]) && opensOperator c) = true := by
    decide
  obtain ⟨s, hs, hc⟩ := List.any_eq_true.1 h
  have hboth := List.all_eq_true.1 (hall s hs) c (List.contains_iff_mem.1 hc)
  exact ⟨of_decide_eq_true (Bool.and_eq_true_iff.1 hboth).1, (Bool.and_eq_true_iff.1 hboth).2⟩

/-- What has been read once the reader has gone on, one character at a time, while it is an operator. -/
def readOn (taken : List Char) : List Char → List Char
  | [] => taken
  | c :: cs => if IsOperator (taken ++ [c]) then readOn (taken ++ [c]) cs else taken

theorem readOn_longest (cs : List Char) : ∀ {taken : List Char}, IsOperator taken →
    LongestFront IsOperator (taken ++ cs) (readOn taken cs) := by
  induction cs with
  | nil =>
    intro taken htaken
    rw [List.append_nil]
    exact ⟨List.prefix_refl taken, htaken, fun p hp _ => hp.length_le⟩
  | cons c cs ih =>
    intro taken htaken
    unfold readOn
    split
    · next hmore =>
      have hlongest := ih hmore
      rwa [List.append_assoc, List.singleton_append] at hlongest
    · next hstop =>
      refine ⟨List.prefix_append taken _, htaken, fun p hp hoperator => ?_⟩
      -- a longer operator would start with what the reader has stopped at
      refine Nat.le_of_not_lt fun hlonger => ?_
      have hfront : taken ++ [c] <+: taken ++ c :: cs := ⟨cs, by simp⟩
      have hlength : (taken ++ [c]).length = taken.length + 1 := List.length_append
      have hstart : taken ++ [c] <+: p := List.prefix_of_prefix_length_le hfront hp (by omega)
      rw [List.prefix_iff_eq_take.1 hstart, hlength] at hstop
      exact hstop (hoperator.take taken.length)

end Symbol

namespace Lexeme

/-- If an operator within the limit is at the front of a text, the search from the limit downwards finds one that
is not shorter. -/
theorem longestOperator?_within {cs p : List Char} (hp : p <+: cs) (hoperator : Symbol.IsOperator p) {n : Nat}
    (hn : p.length ≤ n) : ∃ s ∈ Symbol.operators, longestOperator? cs n = some s ∧ s.text.toList <+: cs ∧
      p.length ≤ s.text.toList.length := by
  induction n with
  | zero =>
    rw [List.length_eq_zero_iff.1 (Nat.le_zero.1 hn)] at hoperator
    exact absurd hoperator (by decide)
  | succ n ih =>
    unfold longestOperator?
    split
    · next s hs =>
      obtain ⟨hmem, htext⟩ := Symbol.operator?_eq_some_iff.1 hs
      refine ⟨s, hmem, rfl, htext ▸ List.take_prefix _ _, ?_⟩
      rw [htext, List.length_take]
      exact Nat.le_min.2 ⟨hn, hp.length_le⟩
    · next hnone =>
      refine ih (Nat.le_of_lt_succ (Nat.lt_of_le_of_ne hn fun hlength => ?_))
      rw [Symbol.IsOperator, List.prefix_iff_eq_take.1 hp, hlength, hnone] at hoperator
      cases hoperator

/-- Where an operator starts, the lexeme takes the longest one. -/
theorem read_operator {x : Char} {xs : List Char} (hx : Symbol.inOperator x = true)
    (hcomment : x = '/' → ∀ ds, xs ≠ '/' :: ds ∧ xs ≠ '*' :: ds) :
    ∃ s, Symbol.operator? s.text = some s ∧ LongestFront Symbol.IsOperator (x :: xs) s.text.toList ∧
      (read x xs).more + 1 = s.text.toList.length ∧ (read x xs).outcome = .ok (.symbol s) := by
  obtain ⟨hsingle, hopens⟩ := Symbol.isOperator_of_inOperator hx
  have hstart : [x] <+: x :: xs := ⟨xs, rfl⟩
  obtain ⟨s, hs, hfound, hfront, hpos⟩ := longestOperator?_within hstart hsingle hsingle.length_le_four
  have hlongest : LongestFront Symbol.IsOperator (x :: xs) s.text.toList := by
    refine ⟨hfront, Symbol.isOperator_iff.2 ⟨s, hs, rfl⟩, fun p hp hoperator => ?_⟩
    obtain ⟨s', -, hfound', -, hle⟩ := longestOperator?_within hp hoperator hoperator.length_le_four
    cases hfound.symm.trans hfound'
    exact hle
  have hread := read_of_opensOperator hopens hcomment hfound
  refine ⟨s, Symbol.operator?_text s hs, hlongest, ?_, by rw [hread]; rfl⟩
  rw [hread, found_more, String.length_toList]
  exact Nat.sub_add_cancel (String.length_toList ▸ hpos)

end Lexeme

theorem eq_nil_of_byteLength {cs : List Char} (h : byteLength cs = 0) : cs = [] := by
  cases cs with
  | nil => rfl
  | cons c cs =>
    have hpos := Char.utf8Size_pos c
    rw [byteLength_cons] at h
    omega

/-- A text is split in one way only at a byte offset. -/
theorem split_unique {before after before' after' : List Char} (h : before ++ after = before' ++ after')
    (hbytes : byteLength before = byteLength before') : before = before' ∧ after = after' := by
  have hnone {k : List Char} {cs : List Char} (hk : byteLength cs = byteLength (cs ++ k)) : k = [] := by
    rw [byteLength_append] at hk
    exact eq_nil_of_byteLength (by omega)
  rcases List.append_eq_append_iff.1 h with ⟨k, rfl, rfl⟩ | ⟨k, rfl, rfl⟩
  · simp [hnone hbytes]
  · simp [hnone hbytes.symm]

/-- The item that starts at a place of the source is the lexeme of the text from there on. -/
theorem item_at {source : String} {i : Item} (hi : i ∈ lex source) {before xs : List Char} {x : Char}
    (hsource : source.toList = before ++ x :: xs) (hstart : i.span.start = byteLength before) :
    i.content = (Lexeme.read x xs).outcome ∧
      ∀ text, text <+: x :: xs → (Lexeme.read x xs).more + 1 = text.length →
        i.span.stop = byteLength (before ++ text) := by
  obtain ⟨body, position, hitems, hbody, -⟩ := (lex_tiling source).split
  rw [hitems, List.mem_append, List.mem_singleton] at hi
  rcases hi with hi | rfl
  · obtain ⟨before', x', taken, after, hsource', hcontent, hmore, hspan⟩ := (hbody i hi).1
    obtain ⟨rfl, hrest⟩ := split_unique (hsource.symm.trans hsource') (by rw [← hstart, hspan])
    obtain ⟨rfl, rfl⟩ := List.cons.inj hrest
    refine ⟨hcontent, fun text hfront hlength => ?_⟩
    rw [List.prefix_iff_eq_take.1 hfront, ← hlength, hmore, List.take_succ_cons, List.take_left, hspan]
  · -- nothing stands behind the end of the file
    have hend : source.toList ++ [] = before ++ x :: xs := by rw [List.append_nil, hsource]
    cases (split_unique hend hstart).2

/-- Wherever an item of a source starts with a character of operators and opens no comment, it is the operator with
the longest text there, which is also what a reader finds who goes on while the text is an operator. Where it
starts with a character that opens words, its text is the longest run of characters of words, and it is a keyword
if and only if the whole run is one. Digits are characters of words that open none: a token that starts with one is a
number. -/
theorem tokens_are_longest_matches {source : String} {i : Item} (hi : i ∈ lex source) {before xs : List Char}
    {x : Char} (hsource : source.toList = before ++ x :: xs) (hstart : i.span.start = byteLength before) :
    (Symbol.inOperator x = true → ¬['/', '/'] <+: x :: xs → ¬['/', '*'] <+: x :: xs →
      ∃ s, i.content = .ok (.symbol s) ∧ Symbol.operator? s.text = some s ∧
        i.span.stop = byteLength (before ++ s.text.toList) ∧
        LongestFront (fun text => (Symbol.operator? (String.ofList text)).isSome = true) (x :: xs) s.text.toList ∧
        s.text.toList = Symbol.readOn [x] xs) ∧
    (Lexeme.startsWord x = true →
      ∃ text, i.span.stop = byteLength (before ++ text) ∧
        LongestFront (fun text => ∀ c ∈ text, Lexeme.inWord c = true) (x :: xs) text ∧
        ((∃ k : Keyword, k.text.toList = text ∧ i.content = .ok (.keyword k)) ∨
          (∀ k : Keyword, k.text.toList ≠ text) ∧ i.content = .ok (.identifier (String.ofList text)))) ∧
    (Decimal.isDigit x = true → ∀ t, i.content = .ok t →
      (∃ value, t = .int value) ∨ ∃ value, t = .float value) := by
  obtain ⟨hcontent, hstop⟩ := item_at hi hsource hstart
  rw [hcontent]
  refine ⟨?_, ?_, fun hx t => Lexeme.read_digit hx⟩
  · intro hx hline hblock
    have hcomment : x = '/' → ∀ ds, xs ≠ '/' :: ds ∧ xs ≠ '*' :: ds := by
      rintro rfl ds
      constructor <;> rintro rfl
      · exact hline ⟨ds, rfl⟩
      · exact hblock ⟨ds, rfl⟩
    obtain ⟨s, hoperator, hlongest, hmore, hread⟩ := Lexeme.read_operator hx hcomment
    have hreadOn := Symbol.readOn_longest xs (Symbol.isOperator_of_inOperator hx).1
    exact ⟨s, hread, hoperator, hstop _ hlongest.front hmore, hlongest, hlongest.unique hreadOn⟩
  · intro hx
    obtain ⟨text, hlongest, hmore, hread⟩ := Lexeme.read_word hx xs
    exact ⟨text, hstop _ hlongest.front hmore, hlongest, hread⟩

/-- Two operators without a blank between them, behind a name that starts with a keyword and an unknown character of
two bytes. -/
theorem tokens_are_longest_matches_adjacent :
    (∃ i ∈ lex "é ifx>>>==>y", i.span.start = 6 ∧ i.span.stop = 10 ∧
      i.content = .ok (.symbol (.assign (some .unsignedShiftRight)))) ∧
    ∃ i ∈ lex "é ifx>>>==>y", i.span.start = 3 ∧ i.span.stop = 6 ∧ i.content = .ok (.identifier "ifx") := by
  have hstarts : (∃ i ∈ lex "é ifx>>>==>y", i.span.start = 6) ∧ ∃ i ∈ lex "é ifx>>>==>y", i.span.start = 3 := by
    decide +kernel
  obtain ⟨⟨i, hi, histart⟩, j, hj, hjstart⟩ := hstarts
  constructor
  · have hsource : "é ifx>>>==>y".toList = "é ifx".toList ++ '>' :: ">>==>y".toList := rfl
    obtain ⟨s, hcontent, hoperator, hstop, -, htext⟩ :=
      (tokens_are_longest_matches hi hsource histart).1 (by decide) (by decide) (by decide)
    have hs : s.text.toList = ">>>=".toList := htext.trans (by decide)
    rw [hs] at hstop
    rw [String.toList_inj.1 hs] at hoperator
    have hassign : Symbol.operator? ">>>=" = some (.assign (some .unsignedShiftRight)) := by decide
    cases hassign.symm.trans hoperator
    exact ⟨i, hi, histart, hstop, hcontent⟩
  · have hsource : "é ifx>>>==>y".toList = "é ".toList ++ 'i' :: "fx>>>==>y".toList := rfl
    obtain ⟨text, hstop, hlongest, hkind⟩ := (tokens_are_longest_matches hj hsource hjstart).2.1 (by decide)
    have htext : text = "ifx".toList := hlongest.unique (longestFront_takeWhile Lexeme.inWord _)
    subst htext
    refine ⟨j, hj, hjstart, hstop, ?_⟩
    rcases hkind with ⟨k, hk, -⟩ | ⟨-, hname⟩
    · have hnone : Keyword.ofText? "ifx" = none := by decide
      rw [← String.toList_inj.1 hk, Keyword.ofText?_text] at hnone
      cases hnone
    · exact hname

end Scriptlet
