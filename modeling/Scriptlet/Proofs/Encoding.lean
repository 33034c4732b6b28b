import Scriptlet.Text.Utf8

/-! Bytes are read as characters just when they are these characters in UTF-8. -/
namespace Scriptlet.Text

def continuing (low : Nat) : UInt8 := UInt8.ofNat (low + 0x80)

theorem toNat_ofNat_of_lt {n : Nat} (h : n < 256) : (UInt8.ofNat n).toNat = n := by
  simp [Nat.mod_eq_of_lt h]

theorem eq_ofNat {b : UInt8} {n : Nat} (h : b.toNat = n) : b = UInt8.ofNat n := by
  simp [← h]

theorem continuation?_eq_some_iff {b : UInt8} {low : Nat} :
    continuation? b = some low ↔ low < 64 ∧ b = continuing low := by
  have hnat : continuation? b =
      if 0x80 ≤ b.toNat ∧ b.toNat < 0xC0 then some (b.toNat - 0x80) else none := by
    simp [continuation?, UInt8.le_iff_toNat_le, UInt8.lt_iff_toNat_lt]
  rw [hnat]
  constructor
  · intro h
    by_cases hb : 0x80 ≤ b.toNat ∧ b.toNat < 0xC0
    · rw [if_pos hb] at h
      have hlow := Option.some.inj h
      exact ⟨by omega, eq_ofNat (by omega)⟩
    · rw [if_neg hb] at h
      cases h
  · rintro ⟨hlow, rfl⟩
    have hb : (continuing low).toNat = low + 0x80 := toNat_ofNat_of_lt (by omega)
    simp [hb]
    omega

/-- A first byte announces two, three or four bytes in all, and has the first bits of the character. -/
inductive Announces : UInt8 → Unfinished → Prop
  | two {x : Nat} (h : x < 32) : Announces (UInt8.ofNat (x + 0xC0)) ⟨1, x, 0x80⟩
  | three {x : Nat} (h : x < 16) : Announces (UInt8.ofNat (x + 0xE0)) ⟨2, x, 0x800⟩
  | four {x : Nat} (h : x < 8) : Announces (UInt8.ofNat (x + 0xF0)) ⟨3, x, 0x10000⟩

theorem lead?_eq_some_iff {b : UInt8} {u : Unfinished} : lead? b = some u ↔ Announces b u := by
  have hnat : lead? b =
      if b.toNat < 0xC0 then none
      else if b.toNat < 0xE0 then some ⟨1, b.toNat - 0xC0, 0x80⟩
      else if b.toNat < 0xF0 then some ⟨2, b.toNat - 0xE0, 0x800⟩
      else if b.toNat < 0xF8 then some ⟨3, b.toNat - 0xF0, 0x10000⟩
      else none := by
    simp [lead?, UInt8.lt_iff_toNat_lt]
  rw [hnat]
  constructor
  · intro h
    by_cases h0 : b.toNat < 0xC0
    · rw [if_pos h0] at h
      cases h
    rw [if_neg h0] at h
    by_cases h2 : b.toNat < 0xE0
    · obtain ⟨x, hx⟩ : ∃ x, b.toNat = x + 0xC0 := ⟨b.toNat - 0xC0, by omega⟩
      rw [if_pos h2, hx, Nat.add_sub_cancel] at h
      rw [← Option.some.inj h, eq_ofNat hx]
      exact .two (by omega)
    rw [if_neg h2] at h
    by_cases h3 : b.toNat < 0xF0
    · obtain ⟨x, hx⟩ : ∃ x, b.toNat = x + 0xE0 := ⟨b.toNat - 0xE0, by omega⟩
      rw [if_pos h3, hx, Nat.add_sub_cancel] at h
      rw [← Option.some.inj h, eq_ofNat hx]
      exact .three (by omega)
    rw [if_neg h3] at h
    by_cases h4 : b.toNat < 0xF8
    · obtain ⟨x, hx⟩ : ∃ x, b.toNat = x + 0xF0 := ⟨b.toNat - 0xF0, by omega⟩
      rw [if_pos h4, hx, Nat.add_sub_cancel] at h
      rw [← Option.some.inj h, eq_ofNat hx]
      exact .four (by omega)
    rw [if_neg h4] at h
    cases h
  · intro h
    cases h with
    | two h =>
      rw [toNat_ofNat_of_lt (by omega), if_neg (by omega), if_pos (by omega), Nat.add_sub_cancel]
    | three h =>
      rw [toNat_ofNat_of_lt (by omega), if_neg (by omega), if_neg (by omega), if_pos (by omega),
        Nat.add_sub_cancel]
    | four h =>
      rw [toNat_ofNat_of_lt (by omega), if_neg (by omega), if_neg (by omega), if_neg (by omega),
        if_pos (by omega), Nat.add_sub_cancel]

theorem Announces.missing_pos {b : UInt8} {u : Unfinished} (h : Announces b u) : 0 < u.missing := by
  cases h <;> exact Nat.succ_pos _

theorem Announces.not_lt {b : UInt8} {u : Unfinished} (h : Announces b u) : ¬b < 0x80 := by
  rw [UInt8.lt_iff_toNat_lt]
  cases h <;> rw [toNat_ofNat_of_lt (by omega)] <;> simp

namespace Unfinished

def number (u : Unfinished) (lows : List Nat) : Nat := lows.foldl (fun bits low => bits * 64 + low) u.bits

/-- The bits are those that are missing, and there is a character of their number that has no shorter
form. -/
structure Completes (u : Unfinished) (lows : List Nat) : Prop where
  length : lows.length = u.missing
  bounded : ∀ low ∈ lows, low < 64
  least : u.least ≤ u.number lows
  valid : (u.number lows).isValidChar

end Unfinished

theorem toNat_val_ofNat {n : Nat} (h : n.isValidChar) : (Char.ofNat n).val.toNat = n := by
  unfold Char.ofNat
  rw [dif_pos h]
  rfl

section

variable {n : Nat} (hvalid : n.isValidChar)
include hvalid

theorem encode_one (h : n < 0x80) : String.utf8EncodeChar (Char.ofNat n) = [UInt8.ofNat n] := by
  unfold String.utf8EncodeChar
  rw [toNat_val_ofNat hvalid, if_pos (by omega)]

theorem encode_two (h : 0x80 ≤ n) (h' : n < 0x800) : String.utf8EncodeChar (Char.ofNat n) =
    [UInt8.ofNat (n / 64 % 32 + 0xC0), continuing (n % 64)] := by
  unfold String.utf8EncodeChar
  rw [toNat_val_ofNat hvalid, if_neg (by omega), if_pos (by omega)]
  rfl

theorem encode_three (h : 0x800 ≤ n) (h' : n < 0x10000) : String.utf8EncodeChar (Char.ofNat n) =
    [UInt8.ofNat (n / 4096 % 16 + 0xE0), continuing (n / 64 % 64), continuing (n % 64)] := by
  unfold String.utf8EncodeChar
  rw [toNat_val_ofNat hvalid, if_neg (by omega), if_neg (by omega), if_pos (by omega)]
  rfl

theorem encode_four (h : 0x10000 ≤ n) : String.utf8EncodeChar (Char.ofNat n) =
    [UInt8.ofNat (n / 262144 % 8 + 0xF0), continuing (n / 4096 % 64), continuing (n / 64 % 64),
      continuing (n % 64)] := by
  unfold String.utf8EncodeChar
  rw [toNat_val_ofNat hvalid, if_neg (by omega), if_neg (by omega), if_neg (by omega)]
  rfl

end

/-- A character of several bytes is written as it is announced and completed. -/
theorem Announces.encode {b : UInt8} {u : Unfinished} {lows : List Nat} (h : Announces b u)
    (hl : u.Completes lows) :
    String.utf8EncodeChar (Char.ofNat (u.number lows)) = b :: lows.map continuing := by
  obtain ⟨hlength, hbounded, hleast, hvalid⟩ := hl
  generalize hn : u.number lows = n at *
  cases h with
  | @two x hx =>
    obtain _ | ⟨y, _ | ⟨_, _⟩⟩ := lows <;> simp at hlength
    have hy : y < 64 := hbounded y (by simp)
    have hsum : x * 64 + y = n := hn
    have h1 : n / 64 % 32 = x := by omega
    have h2 : n % 64 = y := by omega
    rw [encode_two hvalid hleast (by omega), h1, h2]
    rfl
  | @three x hx =>
    obtain _ | ⟨y, _ | ⟨z, _ | ⟨_, _⟩⟩⟩ := lows <;> simp at hlength
    have hy : y < 64 := hbounded y (by simp)
    have hz : z < 64 := hbounded z (by simp)
    have hsum : (x * 64 + y) * 64 + z = n := hn
    have h1 : n / 4096 % 16 = x := by omega
    have h2 : n / 64 % 64 = y := by omega
    have h3 : n % 64 = z := by omega
    rw [encode_three hvalid hleast (by omega), h1, h2, h3]
    rfl
  | @four x hx =>
    obtain _ | ⟨y, _ | ⟨z, _ | ⟨w, _ | ⟨_, _⟩⟩⟩⟩ := lows <;> simp at hlength
    have hy : y < 64 := hbounded y (by simp)
    have hz : z < 64 := hbounded z (by simp)
    have hw : w < 64 := hbounded w (by simp)
    have hsum : ((x * 64 + y) * 64 + z) * 64 + w = n := hn
    have h1 : n / 262144 % 8 = x := by omega
    have h2 : n / 4096 % 64 = y := by omega
    have h3 : n / 64 % 64 = z := by omega
    have h4 : n % 64 = w := by omega
    rw [encode_four hvalid hleast, h1, h2, h3, h4]
    rfl

/-- Every character beyond the first 128 is announced and completed in some way. -/
theorem exists_announces {n : Nat} (hn : 0x80 ≤ n) (hvalid : n.isValidChar) :
    ∃ b u lows, Announces b u ∧ u.Completes lows ∧ u.number lows = n := by
  by_cases h2 : n < 0x800
  · let u : Unfinished := ⟨1, n / 64, 0x80⟩
    have hnumber : u.number [n % 64] = n := show n / 64 * 64 + n % 64 = n by omega
    refine ⟨_, u, [n % 64], .two (by omega), ⟨rfl, ?_, hnumber.symm ▸ hn, hnumber.symm ▸ hvalid⟩, hnumber⟩
    simp
    omega
  by_cases h3 : n < 0x10000
  · let u : Unfinished := ⟨2, n / 4096, 0x800⟩
    have hnumber : u.number [n / 64 % 64, n % 64] = n :=
      show (n / 4096 * 64 + n / 64 % 64) * 64 + n % 64 = n by omega
    have hleast : u.least ≤ u.number [n / 64 % 64, n % 64] := by
      rw [hnumber]
      exact Nat.le_of_not_lt h2
    refine ⟨_, u, [n / 64 % 64, n % 64], .three (by omega),
      ⟨rfl, ?_, hleast, hnumber.symm ▸ hvalid⟩, hnumber⟩
    simp
    omega
  · let u : Unfinished := ⟨3, n / 262144, 0x10000⟩
    have hnumber : u.number [n / 4096 % 64, n / 64 % 64, n % 64] = n :=
      show ((n / 262144 * 64 + n / 4096 % 64) * 64 + n / 64 % 64) * 64 + n % 64 = n by omega
    have hleast : u.least ≤ u.number [n / 4096 % 64, n / 64 % 64, n % 64] := by
      rw [hnumber]
      exact Nat.le_of_not_lt h3
    have hx : n / 262144 < 8 := by
      rcases hvalid with h | ⟨_, h⟩ <;> omega
    refine ⟨_, u, [n / 4096 % 64, n / 64 % 64, n % 64], .four hx,
      ⟨rfl, ?_, hleast, hnumber.symm ▸ hvalid⟩, hnumber⟩
    simp
    omega

/-- What is read in the middle of a character. -/
theorem decodeFrom_continuing {u : Unfinished} {low : Nat} (hlow : low < 64) (read : List Char)
    (rest : List UInt8) : decodeFrom read (some u) (continuing low :: rest) =
      if 1 < u.missing then decodeFrom read (some ⟨u.missing - 1, u.bits * 64 + low, u.least⟩) rest
      else if u.least ≤ u.bits * 64 + low ∧ (u.bits * 64 + low).isValidChar then
        decodeFrom (Char.ofNat (u.bits * 64 + low) :: read) none rest
      else (read.reverse, some .invalid) := by
  have hbyte : continuation? (continuing low) = some low := continuation?_eq_some_iff.2 ⟨hlow, rfl⟩
  rw [decodeFrom, hbyte]

/-- A character that is complete is read. -/
theorem Unfinished.Completes.read {u : Unfinished} {lows : List Nat} (h : u.Completes lows)
    (hpos : 0 < u.missing) (read : List Char) (rest : List UInt8) :
    decodeFrom read (some u) (lows.map continuing ++ rest) =
      decodeFrom (Char.ofNat (u.number lows) :: read) none rest := by
  obtain ⟨hlength, hbounded, hleast, hvalid⟩ := h
  induction lows generalizing u with
  | nil => exact absurd hlength (Nat.ne_of_lt hpos)
  | cons low lows ih =>
    obtain ⟨hlow, hlows⟩ := List.forall_mem_cons.1 hbounded
    rw [List.map_cons, List.cons_append, decodeFrom_continuing hlow]
    have hcount : lows.length + 1 = u.missing := hlength
    cases lows with
    | nil =>
      have hlast : ¬1 < u.missing := by simp at hcount; omega
      rw [if_neg hlast, if_pos ⟨hleast, hvalid⟩]
      rfl
    | cons low' lows =>
      have hmore : 1 < u.missing := by simp at hcount; omega
      rw [if_pos hmore]
      have hrest : (low' :: lows).length = u.missing - 1 := by omega
      exact ih (show 0 < u.missing - 1 by omega) hrest hlows hleast hvalid

theorem decodeFrom_encode (c : Char) (read : List Char) (rest : List UInt8) :
    decodeFrom read none (String.utf8EncodeChar c ++ rest) = decodeFrom (c :: read) none rest := by
  have hvalid : c.toNat.isValidChar := c.valid
  by_cases hc : c.toNat < 0x80
  · have hencode := encode_one hvalid hc
    rw [Char.ofNat_toNat] at hencode
    have hbyte : (UInt8.ofNat c.toNat).toNat = c.toNat := toNat_ofNat_of_lt (by omega)
    have hsmall : UInt8.ofNat c.toNat < 0x80 := by
      rw [UInt8.lt_iff_toNat_lt, hbyte]
      exact hc
    rw [hencode, List.singleton_append, decodeFrom, if_pos hsmall, hbyte, Char.ofNat_toNat]
  · obtain ⟨b, u, lows, hb, hl, hn⟩ := exists_announces (Nat.le_of_not_lt hc) hvalid
    have hencode := hb.encode hl
    rw [hn, Char.ofNat_toNat] at hencode
    have hlead := lead?_eq_some_iff.2 hb
    rw [hencode, List.cons_append, decodeFrom, if_neg hb.not_lt, hlead]
    dsimp only
    rw [hl.read hb.missing_pos, hn, Char.ofNat_toNat]

theorem decodeFrom_flatMap (cs read : List Char) :
    decodeFrom read none (cs.flatMap String.utf8EncodeChar) = (read.reverse ++ cs, none) := by
  induction cs generalizing read with
  | nil => simp [decodeFrom]
  | cons c cs ih => simp [decodeFrom_encode, ih]

/-- What is read in the middle of a character completes it, or there is a defect. -/
theorem Unfinished.completes_of_read {u : Unfinished} (hpos : 0 < u.missing) (read : List Char)
    (bytes : List UInt8) : (∃ defect, decodeFrom read (some u) bytes = (read.reverse, some defect)) ∨
      ∃ lows rest, bytes = lows.map continuing ++ rest ∧ u.Completes lows ∧
        decodeFrom read (some u) bytes = decodeFrom (Char.ofNat (u.number lows) :: read) none rest := by
  induction bytes generalizing u with
  | nil => exact .inl ⟨_, rfl⟩
  | cons b bytes ih =>
    cases hb : continuation? b with
    | none => exact .inl ⟨.invalid, by simp [decodeFrom, hb]⟩
    | some low =>
      obtain ⟨hlow, rfl⟩ := continuation?_eq_some_iff.1 hb
      rw [decodeFrom_continuing hlow]
      by_cases hmore : 1 < u.missing
      · rw [if_pos hmore]
        rcases ih (u := ⟨u.missing - 1, u.bits * 64 + low, u.least⟩) (show 0 < u.missing - 1 by omega) with
          hdefect | ⟨lows, rest, rfl, hl, hrest⟩
        · exact .inl hdefect
        · refine .inr ⟨low :: lows, rest, rfl, ⟨?_, ?_, hl.least, hl.valid⟩, hrest⟩
          · have hlength : lows.length = u.missing - 1 := hl.length
            simp [hlength]
            omega
          · exact List.forall_mem_cons.2 ⟨hlow, hl.bounded⟩
      · rw [if_neg hmore]
        by_cases hok : u.least ≤ u.bits * 64 + low ∧ (u.bits * 64 + low).isValidChar
        · rw [if_pos hok]
          refine .inr ⟨[low], bytes, rfl, ⟨?_, by simpa using hlow, hok.1, hok.2⟩, rfl⟩
          simp
          omega
        · exact .inl ⟨.invalid, by rw [if_neg hok]⟩

/-- What is read are characters in UTF-8, and there is a defect unless these are all bytes. -/
theorem decodeFrom_prefix (read : List Char) (bytes : List UInt8) : ∃ ds rest,
    (decodeFrom read none bytes).1 = read.reverse ++ ds ∧ bytes = ds.flatMap String.utf8EncodeChar ++ rest ∧
      ((decodeFrom read none bytes).2 = none → rest = []) := by
  induction hlen : bytes.length using Nat.strongRecOn generalizing read bytes with
  | ind n ih =>
    -- one character, and the characters of the bytes behind it
    have hcons {c : Char} {rest : List UInt8} (hbytes : bytes = String.utf8EncodeChar c ++ rest)
        (hlt : rest.length < n) (hrest : decodeFrom read none bytes = decodeFrom (c :: read) none rest) :
        ∃ ds rest, (decodeFrom read none bytes).1 = read.reverse ++ ds ∧
          bytes = ds.flatMap String.utf8EncodeChar ++ rest ∧
          ((decodeFrom read none bytes).2 = none → rest = []) := by
      obtain ⟨ds, behind, hds, hflat, hdefect⟩ := ih rest.length hlt (c :: read) rest rfl
      rw [hrest]
      exact ⟨c :: ds, behind, by simpa using hds, by rw [hbytes, hflat, List.flatMap_cons, List.append_assoc],
        hdefect⟩
    have hstop {defect : Defect} (hread : decodeFrom read none bytes = (read.reverse, some defect)) :
        ∃ ds rest, (decodeFrom read none bytes).1 = read.reverse ++ ds ∧
          bytes = ds.flatMap String.utf8EncodeChar ++ rest ∧
          ((decodeFrom read none bytes).2 = none → rest = []) := by
      rw [hread]
      exact ⟨[], bytes, by simp, rfl, fun hnone => by cases hnone⟩
    cases bytes with
    | nil => exact ⟨[], [], by simp [decodeFrom], rfl, fun _ => rfl⟩
    | cons b bytes =>
      have hlength : bytes.length + 1 = n := hlen
      by_cases hb : b < 0x80
      · have hsmall : b.toNat < 0x80 := UInt8.lt_iff_toNat_lt.1 hb
        have hencode := encode_one (.inl (by omega)) hsmall
        rw [UInt8.ofNat_toNat] at hencode
        exact hcons (by rw [hencode, List.singleton_append]) (by omega) (by rw [decodeFrom, if_pos hb])
      · cases hlead : lead? b with
        | none => exact hstop (show _ = (_, some Defect.invalid) by rw [decodeFrom, if_neg hb, hlead])
        | some u =>
          have hu := lead?_eq_some_iff.1 hlead
          have hread : decodeFrom read none (b :: bytes) = decodeFrom read (some u) bytes := by
            rw [decodeFrom, if_neg hb, hlead]
          rcases Unfinished.completes_of_read hu.missing_pos read bytes with
            ⟨defect, hdefect⟩ | ⟨lows, rest, rfl, hl, hrest⟩
          · exact hstop (hread.trans hdefect)
          · refine hcons (by rw [hu.encode hl, List.cons_append]) ?_ (hread.trans hrest)
            simp at hlength
            omega

theorem decode_eq_iff {bytes : List UInt8} {cs : List Char} :
    decode bytes = (cs, none) ↔ bytes = cs.flatMap String.utf8EncodeChar := by
  constructor
  · intro h
    obtain ⟨ds, rest, hds, hbytes, hdefect⟩ := decodeFrom_prefix [] bytes
    have hdecode : decodeFrom [] none bytes = (cs, none) := h
    rw [hdecode] at hds hdefect
    have hcs : cs = ds := hds
    rw [hbytes, hdefect rfl, List.append_nil, hcs]
  · rintro rfl
    exact decodeFrom_flatMap cs []

/-- The longest text in UTF-8 at the front of the bytes. -/
structure Longest (bytes : List UInt8) (cs : List Char) : Prop where
  front : cs.flatMap String.utf8EncodeChar <+: bytes
  longest : ∀ ds : List Char, ds.flatMap String.utf8EncodeChar <+: bytes → ds <+: cs

theorem decodeFrom_append (cs read : List Char) (rest : List UInt8) :
    decodeFrom read none (cs.flatMap String.utf8EncodeChar ++ rest) =
      decodeFrom (cs.reverse ++ read) none rest := by
  induction cs generalizing read with
  | nil => rfl
  | cons c cs ih => simp [decodeFrom_encode, ih]

theorem decode_longest (bytes : List UInt8) : Longest bytes (decode bytes).1 where
  front := by
    obtain ⟨ds, rest, hds, hbytes, -⟩ := decodeFrom_prefix [] bytes
    refine ⟨rest, ?_⟩
    rw [decode, hds, hbytes]
    rfl
  longest ds := by
    rintro ⟨rest, rfl⟩
    obtain ⟨es, -, hes, -, -⟩ := decodeFrom_prefix (ds.reverse ++ []) rest
    refine ⟨es, ?_⟩
    rw [decode, decodeFrom_append, hes]
    simp

end Scriptlet.Text
