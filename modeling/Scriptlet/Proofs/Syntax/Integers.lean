import Mathlib.Data.Nat.Digits.Lemmas
import Scriptlet.Proofs.Syntax.Positions

/-! Integer literals. A run of digits stands for the sum of its digits times the powers of the radix, of any length
and with any zeros in front; all of the run is read, also where it stands for no integer. -/
namespace Scriptlet

open Decimal (isDigit digit? natOfDigits)
open Lexeme (isLetter)

def digitOrder : List Char := "0123456789abcdefghijklmnopqrstuvwxyz".toList

def digitValue (d : Char) : ℕ := digitOrder.idxOf d.toLower

/-- The value of a run of digits, of which the last counts once and each other `radix` times as much as the one
behind it. -/
def positionalValue (radix : ℕ) (run : List Char) : ℕ := Nat.ofDigits radix (run.map digitValue).reverse

/-- The integer that a run of digits stands for, or the reason why it stands for none. -/
def integerOf (radix : ℕ) (run : List Char) : Except LexCause Token :=
  if run = [] then .error .missingRadixDigits
  else if run.any (radix ≤ digitValue ·) then .error .digitOutOfRadix
  else if positionalValue radix run ≤ 2 ^ 63 - 1 then .ok (.int (Int64.ofNat (positionalValue radix run)))
  else .error .numberOutOfRange

def radixMarks : List (Char × ℕ) := [('x', 16), ('X', 16), ('o', 8), ('O', 8), ('b', 2), ('B', 2)]

def isAlphanumeric (d : Char) : Bool := isLetter d || isDigit d

/-- A radix, a mark that announces it and a whole run of digits, with the text behind the run. -/
inductive IntegerLiteral : ℕ → List Char → List Char → List Char → Prop
  | decimal {run rest : List Char} (hne : run ≠ []) (hrun : ∀ d ∈ run, isDigit d = true) (hend : EndsDigits rest)
    (hmark : run = ['0'] → ∀ d ∈ rest.head?, ∀ radix, (d, radix) ∉ radixMarks) : IntegerLiteral 10 [] run rest
  | marked {mark : Char} {radix : ℕ} {run rest : List Char} (hmark : (mark, radix) ∈ radixMarks)
    (hrun : ∀ d ∈ run, isAlphanumeric d = true) (hend : ∀ d ∈ rest.head?, isAlphanumeric d = false) :
    IntegerLiteral radix ['0', mark] run rest

theorem isAlphanumeric_range {d : Char} (h : isAlphanumeric d = true) : d.toNat < 128 := by
  rw [isAlphanumeric, Bool.or_eq_true] at h
  rcases h with h | h
  · have hrange := Lexeme.startsWord_range (c := d) (by rw [Lexeme.startsWord, h]; rfl)
    omega
  · have hrange := Lexeme.isDigit_range h
    omega

/-- A digit has its value in every radix that is large enough for it. -/
theorem digit?_eq {d : Char} (h : isAlphanumeric d = true) (radix : ℕ) :
    digit? radix d = if digitValue d < radix then some (digitValue d) else none := by
  have hall : ∀ n : Fin 128, isAlphanumeric (Char.ofNat n) = true →
      digit? 36 (Char.ofNat n) = some (digitValue (Char.ofNat n)) := by decide +kernel
  have hd := hall ⟨d.toNat, isAlphanumeric_range h⟩
  rw [Char.ofNat_toNat] at hd
  have hlargest := hd h
  unfold digit? at hlargest ⊢
  split_ifs at hlargest ⊢ <;> simp_all

theorem natOfDigits_eq_positionalValue {radix : ℕ} {run : List Char} (hrun : ∀ d ∈ run, isAlphanumeric d = true)
    (hvalid : ∀ d ∈ run, digitValue d < radix) : natOfDigits radix run = positionalValue radix run := by
  induction run using List.reverseRecOn with
  | nil => rfl
  | append_singleton run d ih =>
    rw [List.forall_mem_append, List.forall_mem_singleton] at hrun hvalid
    have hdigit := digit?_eq hrun.2 radix
    rw [if_pos hvalid.2] at hdigit
    rw [natOfDigits, List.foldl_append, ← natOfDigits, ih hrun.1 hvalid.1, List.foldl_cons, List.foldl_nil, hdigit,
      positionalValue, positionalValue, List.map_append, List.map_singleton, List.reverse_concat, Nat.ofDigits_cons,
      Nat.add_comm]
    rfl

theorem intToken_eq (n more : ℕ) : Lexeme.intToken n more =
    ⟨if n ≤ 2 ^ 63 - 1 then .ok (.int (Int64.ofNat n)) else .error .numberOutOfRange, more⟩ := by
  have hfits : (Decimal.minInt ≤ (n : ℤ) && (n : ℤ) ≤ Decimal.maxInt) = true ↔ n ≤ 2 ^ 63 - 1 := by
    rw [Bool.and_eq_true, decide_eq_true_eq, decide_eq_true_eq, Decimal.minInt, Decimal.maxInt]
    omega
  unfold Lexeme.intToken Decimal.fit?
  by_cases hn : n ≤ 2 ^ 63 - 1
  · rw [if_pos (hfits.2 hn), if_pos hn, Int64.ofInt_eq_ofNat]
    rfl
  · rw [if_neg (mt hfits.1 hn), if_neg hn]
    rfl

/-- A run of valid digits is read as its value, if that fits. -/
theorem intToken_of_valid {radix : ℕ} {run : List Char} (hne : run ≠ [])
    (hrun : ∀ d ∈ run, isAlphanumeric d = true) (hvalid : ∀ d ∈ run, digitValue d < radix) (more : ℕ) :
    Lexeme.intToken (natOfDigits radix run) more = ⟨integerOf radix run, more⟩ := by
  have hnone : ¬run.any (radix ≤ digitValue ·) = true := by
    simpa using hvalid
  rw [natOfDigits_eq_positionalValue hrun hvalid, intToken_eq, integerOf, if_neg hne, if_neg hnone]

theorem digitValue_of_isDigit {d : Char} (h : isDigit d = true) : digitValue d < 10 := by
  have hall : ∀ n : Fin 128, isDigit (Char.ofNat n) = true → digitValue (Char.ofNat n) < 10 := by decide
  have hrange := Lexeme.isDigit_range h
  have hd := hall ⟨d.toNat, by omega⟩
  rw [Char.ofNat_toNat] at hd
  exact hd h

theorem radix?_eq_some_iff {d : Char} {radix : ℕ} : Lexeme.radix? d = some radix ↔ (d, radix) ∈ radixMarks := by
  unfold Lexeme.radix?
  split <;> simp_all [radixMarks, eq_comm]

/-- Behind a radix mark the whole run is read, whether its digits are valid or not. -/
theorem Lexeme.radixNumber_eq {radix : ℕ} {run rest : List Char}
    (hrun : ∀ d ∈ run, isAlphanumeric d = true) (hend : ∀ d ∈ rest.head?, isAlphanumeric d = false) :
    radixNumber radix (run ++ rest) = ⟨integerOf radix run, run.length + 1⟩ := by
  have htake : (run ++ rest).takeWhile (fun d => isLetter d || isDigit d) = run := by
    show (run ++ rest).takeWhile isAlphanumeric = run
    rw [takeWhile_append_quiet hend, takeWhile_of_all hrun]
  have hvalid : (run.all fun d => (digit? radix d).isSome) = true ↔ ∀ d ∈ run, digitValue d < radix := by
    rw [List.all_eq_true]
    refine forall₂_congr fun d hd => ?_
    rw [digit?_eq (hrun d hd) radix]
    split <;> simp_all
  rw [radixNumber, htake]
  cases run with
  | nil => rfl
  | cons c cs =>
    by_cases hall : ∀ d ∈ c :: cs, digitValue d < radix
    · rw [if_pos (hvalid.2 hall), intToken_of_valid (List.cons_ne_nil c cs) hrun hall]
      rfl
    · have hsome : (c :: cs).any (radix ≤ digitValue ·) = true := by
        rw [List.any_eq_true]
        simpa only [not_forall, not_lt, exists_prop, decide_eq_true_eq] using hall
      rw [if_neg (mt hvalid.1 hall), integerOf, if_neg (List.cons_ne_nil c cs), if_pos hsome]
      rfl

/-- The lexeme at the front of a text that starts with an integer literal. -/
theorem IntegerLiteral.read {radix : ℕ} {mark run rest : List Char} (h : IntegerLiteral radix mark run rest) :
    ∃ x xs, mark ++ run = x :: xs ∧ isDigit x = true ∧
      Lexeme.read x (xs ++ rest) = ⟨integerOf radix run, xs.length⟩ := by
  cases h with
  | @decimal run rest hne hrun hend hmark =>
    obtain ⟨x, xs, rfl⟩ := List.exists_cons_of_ne_nil hne
    have hx := hrun x List.mem_cons_self
    have hradix : x :: xs = ['0'] → ∀ r ∈ rest.head?, Lexeme.radix? r = none := by
      intro hzero r hr
      rw [Option.eq_none_iff_forall_not_mem]
      exact fun radix h => hmark hzero r hr radix (radix?_eq_some_iff.1 h)
    have halnum : ∀ d ∈ x :: xs, isAlphanumeric d = true := by
      intro d hd
      rw [isAlphanumeric, hrun d hd, Bool.or_true]
    refine ⟨x, xs, rfl, hx, ?_⟩
    rw [Lexeme.read_of_isDigit hx, Lexeme.number_of_digits hrun hend hradix,
      intToken_of_valid hne halnum fun d hd => digitValue_of_isDigit (hrun d hd)]
  | @marked mark radix run rest hmark hrun hend =>
    refine ⟨'0', mark :: run, rfl, by decide, ?_⟩
    rw [Lexeme.read_of_isDigit (by decide), List.cons_append, Lexeme.number_of_radix (radix?_eq_some_iff.2 hmark),
      Lexeme.radixNumber_eq hrun hend, List.length_cons]

/-- Wherever the text that is left starts with an integer literal, the next item is the integer that its digits
stand for, or the error that says why they stand for none; it covers the literal, and the rest is left. -/
theorem integer_literals_are_exact {radix : ℕ} {mark run rest : List Char}
    (h : IntegerLiteral radix mark run rest) {c : Cursor} (hc : c.rest = mark ++ run ++ rest) :
    c.next = (⟨integerOf radix run, ⟨c.offset, c.offset + byteLength (mark ++ run)⟩, c.position⟩,
      ⟨c.offset + byteLength (mark ++ run), c.position.advanceBy (mark ++ run), rest⟩) := by
  obtain ⟨x, xs, htext, hx, hread⟩ := h.read
  have hrange := Lexeme.isDigit_range hx
  rw [htext] at hc ⊢
  exact Cursor.next_of_read hc (isBlank_of_range (by omega) (by omega)) hread

/-- Zeros in front of the largest integer in hexadecimal digits of either case, with a letter behind a run of
decimal digits for the next larger number. -/
theorem integer_literals_are_exact_limits :
    IntegerLiteral 16 ['0', 'X'] "007fffFFFFffffFFFF".toList "+1".toList ∧
    (Cursor.start "0X007fffFFFFffffFFFF+1").next =
      (⟨.ok (.int Int64.maxValue), ⟨0, 20⟩, {}⟩, ⟨20, ⟨1, 21⟩, ['+', '1']⟩) ∧
    IntegerLiteral 10 [] "9223372036854775808".toList "x".toList ∧
    (Cursor.start "9223372036854775808x").next =
      (⟨.error .numberOutOfRange, ⟨0, 19⟩, {}⟩, ⟨19, ⟨1, 20⟩, ['x']⟩) := by
  have hhex : IntegerLiteral 16 ['0', 'X'] "007fffFFFFffffFFFF".toList "+1".toList := by
    refine .marked (by decide) (List.all_eq_true.1 (by decide)) fun d hd => ?_
    cases hd
    decide
  have hdecimal : IntegerLiteral 10 [] "9223372036854775808".toList "x".toList := by
    refine .decimal (by decide) (List.all_eq_true.1 (by decide)) ⟨fun d hd => ?_, fun d ds h => ?_, fun d hd => ?_⟩
      fun h => absurd h (by decide)
    · cases hd
      decide
    · cases h
    · cases hd
      decide
  have hmax : integerOf 16 "007fffFFFFffffFFFF".toList = .ok (.int Int64.maxValue) := rfl
  have hover : integerOf 10 "9223372036854775808".toList = .error .numberOutOfRange := rfl
  refine ⟨hhex, ?_, hdecimal, ?_⟩
  · rw [← hmax]
    exact integer_literals_are_exact hhex rfl
  · rw [← hover]
    exact integer_literals_are_exact hdecimal rfl

end Scriptlet
