import Mathlib.Data.List.TakeWhile
import Scriptlet.Proofs.Decimal.Nearest
import Scriptlet.Proofs.Decimal.Shortest
import Scriptlet.Proofs.Syntax.Spelling

/-! Numbers read back from their literals. A literal shows digits whose value is next to the number, whatever its
layout, and from such digits the number is read. -/
namespace Scriptlet

open Decimal (isDigit natOfDigits nearest)

namespace Lexeme

def dotted (places : List Char) : List Char := if places.isEmpty then [] else '.' :: places

def powerText : Option Int → List Char
  | none => []
  | some e => 'e' :: (toString e).toList

theorem dotted_length (places : List Char) : (dotted places).length = fractionLength places := by
  unfold dotted fractionLength
  split <;> rfl

theorem exponent?_digits {ds : List Char} (hne : ds ≠ []) (hds : ∀ c ∈ ds, isDigit c = true) :
    exponent? ('e' :: ds) = some (1 + ds.length, some (natOfDigits 10 ds : Int)) := by
  obtain ⟨c, cs, rfl⟩ := List.exists_cons_of_ne_nil hne
  have hrange := isDigit_range (hds c List.mem_cons_self)
  have hother : ∀ x : Char, x.toNat < 48 → c ≠ x := by
    rintro x hx rfl
    omega
  obtain ⟨htake, hlength⟩ := takeSign_other (hother '-' (by decide)) (hother '+' (by decide)) cs
  rw [exponent?, if_pos (by decide), htake, hlength]
  dsimp only
  rw [takeWhile_of_all hds]
  rfl

theorem exponent?_minus {ds : List Char} (hne : ds ≠ []) (hds : ∀ c ∈ ds, isDigit c = true) :
    exponent? ('e' :: '-' :: ds) = some (1 + (ds.length + 1), some (-(natOfDigits 10 ds : Int))) := by
  obtain ⟨c, cs, rfl⟩ := List.exists_cons_of_ne_nil hne
  have htake : Decimal.takeSign ('-' :: c :: cs) = (true, c :: cs) := rfl
  have hlength : signLength ('-' :: c :: cs) = 1 := rfl
  rw [exponent?, if_pos (by decide), htake, hlength]
  dsimp only
  rw [takeWhile_of_all hds, Nat.add_comm (c :: cs).length 1, ← Nat.add_assoc]
  rfl

/-- A power of ten is read from its text. -/
theorem exponent?_powerText (e : Int) :
    exponent? (powerText (some e)) = some ((powerText (some e)).length, some e) := by
  have hdigits (n : Nat) : ∀ c ∈ Nat.toDigits 10 n, isDigit c = true := fun c hc => isDigit_of_mem_toDigits hc
  cases e with
  | ofNat n =>
    have htext : powerText (some (Int.ofNat n)) = 'e' :: Nat.toDigits 10 n := congrArg ('e' :: ·) Nat.toList_repr
    rw [htext, exponent?_digits Nat.toDigits_ne_nil (hdigits n), natOfDigits_toDigits, List.length_cons, Nat.add_comm]
    rfl
  | negSucc n =>
    have htext : powerText (some (Int.negSucc n)) = 'e' :: '-' :: Nat.toDigits 10 (n + 1) := by
      rw [powerText, Int.toString_eq_repr, Int.repr_eq_if, if_neg (by omega), String.toList_append, Nat.toList_repr]
      rfl
    rw [htext, exponent?_minus Nat.toDigits_ne_nil (hdigits _), natOfDigits_toDigits, List.length_cons,
      List.length_cons, Nat.add_comm]
    rfl

theorem powerText_head (power : Option Int) : ∀ c ∈ (powerText power).head?, isDigit c = false ∧ c ≠ '.' := by
  cases power with
  | none => nofun
  | some e =>
    rintro c ⟨⟩
    exact ⟨by decide, by decide⟩

variable {c : Char} {whole places : List Char}

/-- Digits, a point with digits behind it and a power of ten are told apart. -/
theorem decimalNumber_eq (hwhole : ∀ x ∈ whole, isDigit x = true) (hplaces : ∀ x ∈ places, isDigit x = true)
    {power : Option Int} (hpower : power = none → places ≠ []) :
    decimalNumber c (whole ++ (dotted places ++ powerText power)) =
      found (.float (nearest (natOfDigits 10 (c :: whole ++ places)) (power.getD 0 - places.length)))
        (whole ++ (dotted places ++ powerText power)).length := by
  have htail := powerText_head power
  have hrest : ∀ x ∈ (dotted places ++ powerText power).head?, isDigit x = false := by
    unfold dotted
    split
    · exact fun x hx => (htail x hx).1
    · rintro x ⟨⟩
      decide
  have hfraction : fraction (dotted places ++ powerText power) = places := by
    cases places with
    | nil =>
      show fraction (powerText power) = []
      cases power <;> rfl
    | cons d ds =>
      show (d :: ds ++ powerText power).takeWhile isDigit = d :: ds
      rw [takeWhile_append_quiet (fun x hx => (htail x hx).1), takeWhile_of_all hplaces]
  have hdrop : whole.dropWhile isDigit = [] := List.dropWhile_eq_nil_iff.2 hwhole
  unfold decimalNumber
  dsimp only
  rw [takeWhile_append_quiet hrest, dropWhile_append_quiet hrest, takeWhile_of_all hwhole, hdrop, List.nil_append,
    hfraction, ← dotted_length, List.drop_left, List.length_append, List.length_append]
  cases power with
  | none =>
    have hempty : places.isEmpty = false := by
      rw [Bool.eq_false_iff, ne_eq, List.isEmpty_iff]
      exact hpower rfl
    show (if places.isEmpty = true then _ else _) = _
    rw [hempty]
    simp [powerText]
  | some e =>
    rw [exponent?_powerText]
    dsimp only
    rw [Nat.add_assoc]
    rfl

theorem number_eq (hwhole : ∀ x ∈ whole, isDigit x = true) (hplaces : ∀ x ∈ places, isDigit x = true)
    {power : Option Int} (hpower : power = none → places ≠ []) :
    number c (whole ++ (dotted places ++ powerText power)) =
      found (.float (nearest (natOfDigits 10 (c :: whole ++ places)) (power.getD 0 - places.length)))
        (whole ++ (dotted places ++ powerText power)).length := by
  rw [number_eq_decimalNumber, decimalNumber_eq hwhole hplaces hpower]
  intro _ r hr
  cases whole with
  | cons d ds =>
    cases hr
    exact radix?_of_isLetter (isLetter_of_isDigit (hwhole r List.mem_cons_self))
  | nil =>
    cases places with
    | cons d ds =>
      cases hr
      rfl
    | nil =>
      cases power with
      | none => cases hr
      | some e =>
        cases hr
        rfl

end Lexeme

/-- The text is read as one number, from digits and a power of ten that make up the value. -/
def ReadsAs (text : List Char) (value : ℚ) : Prop :=
  ∃ m e, contents text = [.ok (.float (nearest m e)), .ok .endOfFile] ∧ (m : ℚ) * 10 ^ e = value

theorem reads_number {c : Char} {whole places : List Char} (hwhole : ∀ x ∈ c :: whole, isDigit x = true)
    (hplaces : ∀ x ∈ places, isDigit x = true) {power : Option Int} (hpower : power = none → places ≠ []) :
    ReadsAs (c :: whole ++ (Lexeme.dotted places ++ Lexeme.powerText power))
      (natOfDigits 10 (c :: whole ++ places) * 10 ^ (power.getD 0 - places.length)) := by
  have hnumber := Lexeme.number_eq (c := c) (fun x hx => hwhole x (List.mem_cons_of_mem c hx)) hplaces hpower
  refine ⟨_, _, ?_, rfl⟩
  have houtcome := congrArg Lexeme.outcome hnumber
  have hread := contents_number (hwhole c List.mem_cons_self) houtcome quiet_nil
  rw [List.append_nil, List.append_nil, hnumber, Lexeme.found_more, List.drop_length, contents_nil] at hread
  exact hread

theorem natOfDigits_leadingZeros (k : ℕ) (ds : List Char) :
    natOfDigits 10 (List.replicate k '0' ++ ds) = natOfDigits 10 ds := by
  induction k with
  | zero => rfl
  | succ k ih => exact ih

theorem natOfDigits_trailingZeros (ds : List Char) (k : ℕ) :
    natOfDigits 10 (ds ++ List.replicate k '0') = natOfDigits 10 ds * 10 ^ k := by
  induction k with
  | zero => rw [List.replicate_zero, List.append_nil, pow_zero, mul_one]
  | succ k ih =>
    rw [List.replicate_succ', ← List.append_assoc, natOfDigits, List.foldl_append, ← natOfDigits, ih]
    show 10 * (natOfDigits 10 ds * 10 ^ k) + 0 = _
    ring

namespace Decimal

def Figures.value (f : Figures) : ℚ := natOfDigits 10 f.digits * 10 ^ (f.point - f.digits.length)

structure Figures.Sound (f : Figures) : Prop where
  ne_nil : f.digits ≠ []
  digits : ∀ c ∈ f.digits, isDigit c = true

/-- Figures leave out zeros at the end only. -/
theorem figures_digits (s : Scaled) : ∃ k, Nat.toDigits 10 s.digits = s.figures.digits ++ List.replicate k '0' := by
  have hsplit := List.takeWhile_append_dropWhile (p := (· = '0')) (l := (Nat.toDigits 10 s.digits).reverse)
  have hzero : ∀ c ∈ (Nat.toDigits 10 s.digits).reverse.takeWhile (· = '0'), c = '0' :=
    fun c hc => by simpa using List.mem_takeWhile_imp hc
  refine ⟨((Nat.toDigits 10 s.digits).reverse.takeWhile (· = '0')).length, ?_⟩
  have hall := congrArg List.reverse hsplit
  rw [List.reverse_append, List.reverse_reverse, List.eq_replicate_length.2 hzero, List.reverse_replicate] at hall
  exact hall.symm

theorem figures_sound {s : Scaled} (h : s.digits ≠ 0) : s.figures.Sound := by
  obtain ⟨k, hk⟩ := figures_digits s
  constructor
  · intro hnil
    refine h ?_
    rw [← natOfDigits_toDigits s.digits, hk, natOfDigits_trailingZeros, hnil]
    exact Nat.zero_mul _
  · intro c hc
    refine isDigit_of_mem_toDigits (n := s.digits) ?_
    rw [hk]
    exact List.mem_append_left _ hc

theorem figures_value (s : Scaled) : s.figures.value = s.digits * 10 ^ s.exponent := by
  obtain ⟨k, hk⟩ := figures_digits s
  have hdigits : (s.digits : ℚ) = natOfDigits 10 s.figures.digits * 10 ^ k := by
    have := natOfDigits_trailingZeros s.figures.digits k
    rw [← hk, natOfDigits_toDigits] at this
    exact_mod_cast this
  have hlength := congrArg List.length hk
  rw [List.length_append, List.length_replicate] at hlength
  have hpoint : s.figures.point - s.figures.digits.length = k + s.exponent := by
    show ((Nat.toDigits 10 s.digits).length : ℤ) + s.exponent - _ = _
    omega
  rw [Figures.value, hpoint, zpow_add₀ (by norm_num), zpow_natCast, hdigits, mul_assoc]

namespace Figures

variable {f : Figures}

theorem scientific_reads (h : f.Sound) : ReadsAs f.scientific.toList f.value := by
  obtain ⟨digits, point⟩ := f
  obtain ⟨hne, hdigits⟩ := h
  obtain ⟨d, ds, rfl⟩ := List.exists_cons_of_ne_nil hne
  have htext : (Figures.scientific ⟨d :: ds, point⟩).toList =
      d :: [] ++ (Lexeme.dotted ds ++ Lexeme.powerText (some (point - 1))) := by
    cases ds with
    | nil => simp [scientific, Lexeme.dotted, Lexeme.powerText]
    | cons d' ds => simp [scientific, Lexeme.dotted, Lexeme.powerText]
  have hvalue : (⟨d :: ds, point⟩ : Figures).value =
      natOfDigits 10 (d :: [] ++ ds) * 10 ^ ((some (point - 1)).getD 0 - (ds.length : ℤ)) := by
    have hpower : point - ((d :: ds).length : ℤ) = point - 1 - ds.length := by
      rw [List.length_cons]
      omega
    rw [value, hpower]
    rfl
  rw [htext, hvalue]
  exact reads_number (by simpa using hdigits d List.mem_cons_self)
    (fun x hx => hdigits x (List.mem_cons_of_mem d hx)) nofun

/-- Digits on both sides of a point. -/
theorem reads_point (whole places : List Char) (hne : whole ≠ []) (hwhole : ∀ x ∈ whole, isDigit x = true)
    (hplaces : ∀ x ∈ places, isDigit x = true) (hsome : places ≠ []) :
    ReadsAs (whole ++ '.' :: places) (natOfDigits 10 (whole ++ places) * 10 ^ (-(places.length : ℤ))) := by
  obtain ⟨c, cs, rfl⟩ := List.exists_cons_of_ne_nil hne
  have hpower : (none : Option Int) = none → places ≠ [] := fun _ => hsome
  have hread := reads_number hwhole hplaces hpower
  rwa [Lexeme.dotted, if_neg (by simpa using hsome), Lexeme.powerText, List.append_nil, Option.getD_none,
    zero_sub] at hread

theorem isDigit_zeros (k : ℕ) : ∀ x ∈ List.replicate k '0', isDigit x = true := by
  intro x hx
  rw [List.eq_of_mem_replicate hx]
  decide

theorem positional_reads (h : f.Sound) : ReadsAs (f.positional ".0").toList f.value := by
  obtain ⟨hne, hdigits⟩ := h
  unfold positional
  dsimp only
  split
  · next hpoint =>
    -- all digits stand behind the point
    have hread := reads_point ['0'] (List.replicate (-f.point).toNat '0' ++ f.digits)
      (List.cons_ne_nil _ _) (isDigit_zeros 1) (List.forall_mem_append.2 ⟨isDigit_zeros _, hdigits⟩) (by simp [hne])
    have hvalue : f.value = natOfDigits 10 (['0'] ++ (List.replicate (-f.point).toNat '0' ++ f.digits)) *
        10 ^ (-((List.replicate (-f.point).toNat '0' ++ f.digits).length : ℤ)) := by
      have hpower : -((List.replicate (-f.point).toNat '0' ++ f.digits).length : ℤ) = f.point - f.digits.length := by
        rw [List.length_append, List.length_replicate]
        omega
      rw [hpower, value, ← natOfDigits_leadingZeros ((-f.point).toNat + 1) f.digits]
      rfl
    rw [hvalue]
    simp only [String.toList_append, String.toList_ofList]
    exact hread
  · split
    · next hpoint hinside =>
      have hread := reads_point (f.digits.take f.point.toNat) (f.digits.drop f.point.toNat)
        (by simp [hne]; omega) (fun x hx => hdigits x (List.mem_of_mem_take hx))
        (fun x hx => hdigits x (List.mem_of_mem_drop hx)) (by simp; omega)
      have hpower : -((f.digits.drop f.point.toNat).length : ℤ) = f.point - f.digits.length := by
        rw [List.length_drop]
        omega
      rw [List.take_append_drop, hpower] at hread
      simp only [String.toList_append, String.toList_ofList, List.append_assoc]
      exact hread
    · next hpoint hinside =>
      -- no digit stands behind the point, so a zero does
      have hread := reads_point (f.digits ++ List.replicate (f.point.toNat - f.digits.length) '0') ['0']
        (by simp [hne]) (List.forall_mem_append.2 ⟨hdigits, isDigit_zeros _⟩) (isDigit_zeros 1)
        (List.cons_ne_nil _ _)
      have hvalue : f.value =
          natOfDigits 10 (f.digits ++ List.replicate (f.point.toNat - f.digits.length) '0' ++ ['0']) *
            10 ^ (-((['0'] : List Char).length : ℤ)) := by
        have hpower : f.point - f.digits.length = ((f.point.toNat - f.digits.length + 1 : ℕ) : ℤ) + (-1) := by omega
        rw [List.append_assoc, ← List.replicate_succ', natOfDigits_trailingZeros, value, hpower,
          zpow_add₀ (by norm_num), zpow_natCast, ← mul_assoc]
        push_cast
        rfl
      rw [hvalue]
      simp only [String.toList_append, String.toList_ofList]
      exact hread

end Figures

/-- A finite number without a sign is read back from its literal. -/
theorem readsBack_of_isFinite {x : Float} (hfinite : x.isFinite = true) (hsign : x.toBits.toNat < 2 ^ 63) :
    ReadsBack x := by
  rw [ReadsBack, lex_contents]
  rcases parts_of_isFinite hfinite hsign with hzero | ⟨b, hparts⟩
  · have htext : literal x = "0.0" := by
      rw [literal, write, hzero]
      rfl
    have hx : x = 0.0 := by
      refine float_ext ((parts_zero hzero).trans ?_)
      decide +kernel
    obtain ⟨m, e, hcontents, hvalue⟩ := Figures.reads_point ['0'] ['0'] (List.cons_ne_nil _ _)
      (Figures.isDigit_zeros 1) (Figures.isDigit_zeros 1) (List.cons_ne_nil _ _)
    have hm : m = 0 := by
      have hnone : (m : ℚ) * 10 ^ e = 0 := hvalue.trans (zero_mul _)
      exact_mod_cast (mul_eq_zero.1 hnone).resolve_right (zpow_ne_zero e (by norm_num))
    rw [htext, hx]
    rw [hm] at hcontents
    exact hcontents
  · have hb := (parts_finite hparts).1
    have hattracts := shortest_attracts hb
    have hsound : (shortest b).figures.Sound := figures_sound (hattracts.digits_pos hb).ne'
    have hread : ReadsAs (literal x).toList (shortest b).figures.value := by
      rw [literal, write, hparts]
      dsimp only [signed]
      rw [if_neg (by decide)]
      split
      · exact Figures.scientific_reads hsound
      · exact Figures.positional_reads hsound
    obtain ⟨m, e, hcontents, hvalue⟩ := hread
    rw [figures_value] at hvalue
    rw [← hvalue] at hattracts
    rw [hcontents, nearest_eq hb hattracts, eq_of_parts hparts hb]

end Decimal

/-- A finite number that stands in a source is read back from its literal. -/
theorem Token.Readable.readsBack {x : Float} (h : (Token.float x).Readable) (hfinite : x.isFinite = true) :
    ReadsBack x := by
  obtain ⟨m, e, rfl⟩ := h
  exact Decimal.readsBack_of_isFinite hfinite (Decimal.nearest_unsigned m e)

end Scriptlet
