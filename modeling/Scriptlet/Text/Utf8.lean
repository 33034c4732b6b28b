/-! Text read from bytes in UTF-8, one byte after the other. -/
namespace Scriptlet.Text

/-- What is wrong with bytes that are no text: a byte that cannot stand where it does, or an end in
the middle of a character. -/
inductive Defect where
  | invalid
  | truncated
  deriving DecidableEq

/-- Characters read so far, and what stopped the reading before the end. -/
abbrev Decoded := List Char × Option Defect

/-- A character of which bytes are still missing: how many, the bits read so far, and the least
number that takes this many bytes. -/
structure Unfinished where
  missing : Nat
  bits : Nat
  least : Nat

/-- What the first byte of a longer character says about it. -/
def lead? (b : UInt8) : Option Unfinished :=
  if b < 0xC0 then none
  else if b < 0xE0 then some ⟨1, b.toNat - 0xC0, 0x80⟩
  else if b < 0xF0 then some ⟨2, b.toNat - 0xE0, 0x800⟩
  else if b < 0xF8 then some ⟨3, b.toNat - 0xF0, 0x10000⟩
  else none

/-- The six bits of a byte that continues a character. -/
def continuation? (b : UInt8) : Option Nat :=
  if 0x80 ≤ b ∧ b < 0xC0 then some (b.toNat - 0x80) else none

/-- Reads on behind the characters `read`, the last of which comes first. Whether a character has its
shortest form, and whether there is one of this number, is looked at when all its bytes are there. -/
def decodeFrom (read : List Char) : Option Unfinished → List UInt8 → Decoded
  | none, [] => (read.reverse, none)
  | some _, [] => (read.reverse, some .truncated)
  | none, b :: rest =>
    if b < 0x80 then decodeFrom (Char.ofNat b.toNat :: read) none rest
    else
      match lead? b with
      | some u => decodeFrom read (some u) rest
      | none => (read.reverse, some .invalid)
  | some u, b :: rest =>
    match continuation? b with
    | none => (read.reverse, some .invalid)
    | some low =>
      let bits := u.bits * 64 + low
      if 1 < u.missing then decodeFrom read (some { u with missing := u.missing - 1, bits }) rest
      else if u.least ≤ bits ∧ bits.isValidChar then decodeFrom (Char.ofNat bits :: read) none rest
      else (read.reverse, some .invalid)

def decode (bytes : List UInt8) : Decoded := decodeFrom [] none bytes

def decode? (bytes : List UInt8) : Option String :=
  match decode bytes with
  | (cs, none) => some (String.ofList cs)
  | (_, some _) => none

end Scriptlet.Text
