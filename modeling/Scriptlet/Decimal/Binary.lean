/-! Double-precision numbers as sign, integer and power of two. -/
namespace Scriptlet.Decimal

/-- A finite number other than zero: `mantissa * 2 ^ exponent`, without its sign. `lowest` marks a
mantissa that opens a binade, where the neighbour below is half as far as the one above. -/
structure Binary where
  mantissa : Nat
  exponent : Int
  lowest : Bool

inductive Parts where
  | nan
  | infinite (negative : Bool)
  | zero (negative : Bool)
  | finite (negative : Bool) (value : Binary)

def parts (x : Float) : Parts :=
  let bits := x.toBits.toNat
  let negative := 0x8000000000000000 ≤ bits
  let field : Nat := bits / 0x10000000000000 % 0x800
  let fraction := bits % 0x10000000000000
  if field = 0x7ff then
    if fraction = 0 then .infinite negative else .nan
  else if field = 0 then
    if fraction = 0 then .zero negative else .finite negative ⟨fraction, -1074, false⟩
  else .finite negative ⟨0x10000000000000 + fraction, (field : Int) - 1075, fraction = 0 && 1 < field⟩

/-- The remainder of a division that rounds towards zero, which is exact: both numbers are written
over the smaller of their two exponents and divided as integers. It has the sign of `x`. -/
def remainder (x y : Float) : Float :=
  match parts x, parts y with
  | .nan, _ | _, .nan | .infinite _, _ | _, .zero _ => 0.0 / 0.0
  | .zero _, _ | _, .infinite _ => x
  | .finite negative a, .finite _ b =>
    let low := min a.exponent b.exponent
    let p := a.mantissa * Nat.pow 2 (a.exponent - low).toNat
    let q := b.mantissa * Nat.pow 2 (b.exponent - low).toNat
    let r := (Float.ofNat (p % q)).scaleB low
    if negative then -r else r

end Scriptlet.Decimal
