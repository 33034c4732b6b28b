import Scriptlet.Proofs.Decimal.Rounding

/-! The bits of doubles. -/
namespace Scriptlet.Decimal

open Float.Model Float.Model.UnpackedFloat

theorem toNat_append {m n : ℕ} (a : BitVec m) (b : BitVec n) : (a ++ b).toNat = a.toNat * 2 ^ n + b.toNat := by
  rw [BitVec.toNat_append, ← Nat.shiftLeft_add_eq_or_of_lt b.isLt, Nat.shiftLeft_eq]

theorem packComponents_toNat (sign : Sign) (exponent : BitVec 11) (mantissa : BitVec 52) :
    (packComponents Format.binary64 sign exponent mantissa).toNat =
      (sign.toBitVec.toNat * 2 ^ 11 + exponent.toNat) * 2 ^ 52 + mantissa.toNat := by
  unfold packComponents
  rw [toNat_append, toNat_append]

theorem unpackSign_packComponents {spec : Format} (sign : Sign) (exponent : BitVec spec.exponentBits)
    (mantissa : BitVec spec.mantissaBitsWithoutImplicit) :
    unpackSign (packComponents spec sign exponent mantissa) = sign.toBitVec := by
  refine BitVec.eq_of_getLsbD_eq fun i hi => ?_
  obtain rfl : i = 0 := by omega
  delta unpackSign
  simp [packComponents, BitVec.getLsbD_append, BitVec.getElem_append]

/-- Floats with the same bits are the same. -/
theorem float_ext {x y : Float} (h : x.toBits.toNat = y.toBits.toNat) : x = y := by
  obtain ⟨⟨a, ha⟩⟩ := x
  obtain ⟨⟨b, hb⟩⟩ := y
  have hbits : a = b := UInt64.toNat_inj.1 h
  subst hbits
  rfl

namespace Binary

def bits (b : Binary) : ℕ :=
  if b.mantissa < 2 ^ 52 then b.mantissa else (b.exponent + 1075).toNat * 2 ^ 52 + (b.mantissa - 2 ^ 52)

def signed (b : Binary) (sign : Sign) (h : 0 < b.mantissa) : UnpackedFloat := .finite sign b.mantissa b.exponent h

def unsigned (b : Binary) (h : 0 < b.mantissa) : UnpackedFloat := b.signed .positive h

variable {b : Binary}

theorem Proper.pack_eq (hb : b.Proper) (sign : Sign) : UnpackedFloat.pack Format.binary64 (b.signed sign hb.pos) =
    packComponents Format.binary64 sign
      (if b.mantissa < 2 ^ 52 then 0#11 else BitVec.ofNat 11 (b.exponent + 1075).toNat)
      (BitVec.ofNat 52 b.mantissa) := by
  obtain ⟨hpos, hmantissa, hleast, hgreatest, -, -⟩ := hb
  have hbias : (b.exponent + Format.binary64.exponentBias + Format.binary64.mantissaBitsWithoutImplicit).toNat =
      (b.exponent + 1075).toNat := by
    simp only [Format.exponentBias]
    norm_num
    omega
  have hfinite : ¬2 ^ Format.binary64.exponentBits ≤ (b.exponent + 1075).toNat + 1 := by
    norm_num
    omega
  have hbits : Format.binary64.mantissaBits = 53 := rfl
  unfold signed UnpackedFloat.pack
  dsimp only
  rw [hbias, if_neg hfinite, hbits]
  by_cases hfull : b.mantissa < 2 ^ 52
  · have hlog : b.mantissa.log2 < 52 := (Nat.log2_lt hpos.ne').2 hfull
    rw [if_neg (by omega), if_pos hfull]
  · have hlog : b.mantissa.log2 = 52 := (Nat.log2_eq_iff hpos.ne').2 ⟨not_lt.1 hfull, hmantissa⟩
    rw [if_pos (by omega), if_neg hfull]

theorem Proper.pack_toNat (hb : b.Proper) :
    (UnpackedFloat.pack Format.binary64 (b.unsigned hb.pos)).toNat = b.bits := by
  have hexponent : (b.exponent + 1075).toNat < 2 ^ 11 := by
    have := hb.greatest
    omega
  have hmantissa := hb.mantissa
  rw [unsigned, hb.pack_eq, packComponents_toNat, bits]
  split
  · next hfull =>
    have hrest : (BitVec.ofNat 52 b.mantissa).toNat = b.mantissa := by
      rw [BitVec.toNat_ofNat, Nat.mod_eq_of_lt hfull]
    rw [hrest]
    exact Nat.zero_add _
  · next hfull =>
    have hrest : b.mantissa % 2 ^ 52 = b.mantissa - 2 ^ 52 := by omega
    rw [BitVec.toNat_ofNat, BitVec.toNat_ofNat, Nat.mod_eq_of_lt hexponent, hrest]
    have hsign : Sign.positive.toBitVec.toNat = 0 := rfl
    rw [hsign, Nat.zero_mul, Nat.zero_add]

section Unpack

variable {v : BitVec Format.binary64.numBits} {sign : Sign} {m : ℕ} {e : ℤ}

/-- The mantissa of a number of the least exponent stands in the bits as it is. -/
theorem unpack_least (hsign : Sign.ofBitVec (unpackSign v) = sign) (hexponent : unpackExponent v = 0#11)
    (hmantissa : (unpackMantissa v).toNat = m) (hpos : 0 < m) :
    UnpackedFloat.unpack Format.binary64 v = .finite sign m (-1074) hpos := by
  have hne : unpackMantissa v ≠ 0#52 := by
    intro hzero
    rw [hzero] at hmantissa
    exact hpos.ne hmantissa
  have hones : (0#11) ≠ -1#11 := by decide
  unfold UnpackedFloat.unpack
  dsimp only
  rw [if_neg (hexponent ▸ hones), if_pos hexponent, dif_neg hne, UnpackedFloat.finite.injEq]
  refine ⟨hsign, hmantissa, ?_⟩
  rw [hexponent]
  rfl

/-- The mantissa of any other number stands in the bits without its leading one. -/
theorem unpack_full (hsign : Sign.ofBitVec (unpackSign v) = sign) (hzero : unpackExponent v ≠ 0#11)
    (hones : unpackExponent v ≠ -1#11) (hexponent : ((unpackExponent v).toNat : ℤ) - 1075 = e)
    (hmantissa : 2 ^ 52 + (unpackMantissa v).toNat = m) (hpos : 0 < m) :
    UnpackedFloat.unpack Format.binary64 v = .finite sign m e hpos := by
  have hone : (1#1).toNat = 1 := rfl
  unfold UnpackedFloat.unpack
  dsimp only
  rw [if_neg hones, if_neg hzero, UnpackedFloat.finite.injEq]
  refine ⟨hsign, ?_, hexponent⟩
  rw [toNat_append, hone, Nat.one_mul]
  exact hmantissa

end Unpack

/-- What is packed is unpacked again. -/
theorem Proper.unpack_pack (hb : b.Proper) (sign : Sign) :
    (Float.Model.pack (b.signed sign hb.pos)).unpack = b.signed sign hb.pos := by
  have hbits : (Float.Model.pack (b.signed sign hb.pos)).toBits.toBitVec =
    UnpackedFloat.pack Format.binary64 (b.signed sign hb.pos) := rfl
  have hsign : Sign.ofBitVec sign.toBitVec = sign := by cases sign <;> rfl
  unfold Float.Model.unpack
  rw [hbits, hb.pack_eq]
  obtain ⟨hpos, hmantissa, hleast, hgreatest, hfull, -⟩ := hb
  by_cases hsmall : b.mantissa < 2 ^ 52
  · have hrest : (BitVec.ofNat 52 b.mantissa).toNat = b.mantissa := by
      rw [BitVec.toNat_ofNat, Nat.mod_eq_of_lt hsmall]
    have hexponent : b.exponent = -1074 := hfull.resolve_left (not_le.2 hsmall)
    unfold signed
    rw [if_pos hsmall, hexponent]
    refine unpack_least ?_ ?_ ?_ hpos
    · rw [unpackSign_packComponents, hsign]
    · exact unpackExponent_packComponents
    · rw [unpackMantissa_packComponents, hrest]
  · have hfield : (BitVec.ofNat 11 (b.exponent + 1075).toNat).toNat = (b.exponent + 1075).toNat := by
      rw [BitVec.toNat_ofNat, Nat.mod_eq_of_lt (by omega)]
    have hrest : (BitVec.ofNat 52 b.mantissa).toNat = b.mantissa % 2 ^ 52 := BitVec.toNat_ofNat _ _
    unfold signed
    rw [if_neg hsmall]
    refine unpack_full ?_ ?_ ?_ ?_ ?_ hpos
    · rw [unpackSign_packComponents, hsign]
    · rw [unpackExponent_packComponents]
      intro hzero
      rw [hzero] at hfield
      have hnone : (0#11).toNat = 0 := rfl
      omega
    · rw [unpackExponent_packComponents]
      intro hones
      rw [hones] at hfield
      have hall : (-1#11).toNat = 2047 := rfl
      omega
    · rw [unpackExponent_packComponents, hfield]
      omega
    · rw [unpackMantissa_packComponents, hrest]
      omega

end Binary

theorem Binary.proper_subnormal {fraction : ℕ} (hpos : 0 < fraction) (hlt : fraction < 2 ^ 52) :
    Proper ⟨fraction, -1074, false⟩ where
  pos := hpos
  mantissa := hlt.trans (by norm_num)
  least := Int.le_refl _
  greatest := by norm_num
  full := .inr rfl
  lowest := by simp

theorem Binary.proper_normal {field fraction : ℕ} (hfield : 0 < field) (hfield' : field < 2047)
    (hlt : fraction < 2 ^ 52) :
    Proper ⟨2 ^ 52 + fraction, (field : ℤ) - 1075, fraction = 0 && 1 < field⟩ where
  pos := by positivity
  mantissa := by
    dsimp only
    omega
  least := by
    dsimp only
    omega
  greatest := by
    dsimp only
    omega
  full := .inl (Nat.le_add_right _ _)
  lowest := by
    simp only [Bool.and_eq_true, decide_eq_true_eq]
    omega

theorem parts_finite {x : Float} {negative : Bool} {b : Binary} (h : parts x = .finite negative b) :
    b.Proper ∧ x.toBits.toNat = (if negative then 2 ^ 63 else 0) + b.bits := by
  have hlt : x.toBits.toNat < 2 ^ 64 := x.toBits.toNat_lt
  unfold parts at h
  dsimp only at h
  generalize x.toBits.toNat = bits at h hlt ⊢
  have hsign : (if decide (0x8000000000000000 ≤ bits) = true then 2 ^ 63 else 0) = bits / 2 ^ 63 * 2 ^ 63 := by
    simp only [decide_eq_true_eq]
    split <;> omega
  split at h
  · split at h <;> cases h
  · next hfield =>
    split at h
    · next hzero =>
      split at h
      · cases h
      · next hfraction =>
        cases h
        refine ⟨Binary.proper_subnormal (by omega) (by omega), ?_⟩
        rw [hsign, Binary.bits, if_pos (by dsimp only; omega)]
        dsimp only
        omega
    · next hfield' =>
      cases h
      refine ⟨Binary.proper_normal (by omega) (by omega) (by omega), ?_⟩
      rw [hsign, Binary.bits, if_neg (by dsimp only; omega)]
      dsimp only
      omega

theorem parts_zero {x : Float} (h : parts x = .zero false) : x.toBits.toNat = 0 := by
  have hlt : x.toBits.toNat < 2 ^ 64 := x.toBits.toNat_lt
  unfold parts at h
  dsimp only at h
  generalize x.toBits.toNat = bits at h hlt ⊢
  split at h
  · split at h <;> cases h
  · split at h
    · split at h
      · have hpositive : decide (0x8000000000000000 ≤ bits) = false := by
          injection h
        rw [decide_eq_false_iff_not] at hpositive
        omega
      · cases h
    · cases h

theorem unpackSign_toNat (x : Float) :
    (@unpackSign Format.binary64 x.toModel.toBits.toBitVec).toNat = x.toBits.toNat / 2 ^ 63 % 2 := by
  delta unpackSign
  rw [BitVec.toNat_cast, BitVec.extractLsb_toNat, Nat.shiftRight_eq_div_pow]
  rfl

theorem unpackExponent_toNat (x : Float) :
    (@unpackExponent Format.binary64 x.toModel.toBits.toBitVec).toNat =
      x.toBits.toNat / 0x10000000000000 % 0x800 := by
  rw [unpackExponent, BitVec.toNat_cast, BitVec.extractLsb_toNat, Nat.shiftRight_eq_div_pow]
  rfl

theorem unpackMantissa_toNat (x : Float) :
    (@unpackMantissa Format.binary64 x.toModel.toBits.toBitVec).toNat = x.toBits.toNat % 0x10000000000000 := by
  rw [unpackMantissa, BitVec.toNat_cast, BitVec.extractLsb_toNat]
  rfl

/-- One exponent is kept for the numbers that are not finite. -/
theorem unpack_isFinite {v : BitVec Format.binary64.numBits} :
    (UnpackedFloat.unpack Format.binary64 v).isFinite = true ↔ unpackExponent v ≠ -1#11 := by
  unfold UnpackedFloat.unpack
  dsimp only
  by_cases hones : unpackExponent v = -1#11
  · rw [if_pos hones]
    refine iff_of_false ?_ (not_not_intro hones)
    split <;> exact Bool.false_ne_true
  · rw [if_neg hones]
    refine iff_of_true ?_ hones
    by_cases hzero : unpackExponent v = 0#11
    · rw [if_pos hzero]
      by_cases hnone : unpackMantissa v = 0#52
      · rw [dif_pos hnone]
        rfl
      · rw [dif_neg hnone]
        rfl
    · rw [if_neg hzero]
      rfl

theorem isFinite_iff {x : Float} : x.isFinite = true ↔ x.toBits.toNat / 0x10000000000000 % 0x800 ≠ 0x7ff := by
  have hexponent : @unpackExponent Format.binary64 x.toModel.toBits.toBitVec = -1#11 ↔
      x.toBits.toNat / 0x10000000000000 % 0x800 = 0x7ff := by
    rw [← unpackExponent_toNat, ← BitVec.toNat_inj]
    rfl
  rw [ne_eq, ← hexponent]
  exact unpack_isFinite

/-- A finite number without a sign is zero or has a mantissa and an exponent. -/
theorem parts_of_isFinite {x : Float} (hfinite : x.isFinite = true) (hsign : x.toBits.toNat < 2 ^ 63) :
    parts x = .zero false ∨ ∃ b, parts x = .finite false b := by
  have hnegative : decide (0x8000000000000000 ≤ x.toBits.toNat) = false := by
    rw [decide_eq_false_iff_not]
    omega
  unfold parts
  dsimp only
  rw [hnegative, if_neg (isFinite_iff.1 hfinite)]
  split
  · split
    · exact .inl rfl
    · exact .inr ⟨_, rfl⟩
  · exact .inr ⟨_, rfl⟩

/-- A number without a sign is told by its parts. -/
theorem eq_of_parts {x : Float} {b : Binary} (h : parts x = .finite false b) (hb : b.Proper) :
    Float.ofModel (Float.Model.pack (b.unsigned hb.pos)) = x := by
  refine float_ext ?_
  have hbits := (parts_finite h).2
  rw [if_neg (by decide), Nat.zero_add] at hbits
  rw [hbits, ← hb.pack_toNat]
  rfl

end Scriptlet.Decimal
