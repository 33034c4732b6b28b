import Scriptlet.Decimal.Binary

/-! The fewest decimal digits that read back as a given number, and of those the nearest. -/
namespace Scriptlet.Decimal

structure Scaled where
  digits : Nat
  exponent : Int
  deriving DecidableEq

def tenPower (e : Int) : Nat × Nat := (Nat.pow 10 e.toNat, Nat.pow 10 (-e).toNat)

def twoPower (e : Int) : Nat × Nat := (Nat.pow 2 e.toNat, Nat.pow 2 (-e).toNat)

/-- The largest `e` with `10 ^ e ≤ value`. Numbers below `10 ^ (-400)` do not occur. -/
def leadingExponent (value : Binary) : Int :=
  let (num, den) := twoPower value.exponent
  ((Nat.toDigits 10 (value.mantissa * num * Nat.pow 10 400 / den)).length : Int) - 401

/-- The numbers that round to `value` lie between `lower` and `upper`, in quarters of its last
binary place; the two ends belong to it when the mantissa is even. -/
def lower (value : Binary) : Nat :=
  if value.lowest then 4 * value.mantissa - 1 else 4 * value.mantissa - 2

def upper (value : Binary) : Nat := 4 * value.mantissa + 2

/-- The nearer of the two multiples of `10 ^ e` around the value, if one reads back as it. When both
do and are equally near, the upper one is taken. -/
def onGrid? (value : Binary) (e : Int) : Option Scaled :=
  let (num, den) := twoPower (value.exponent - 2)
  let (up, down) := tenPower e
  let scale := up * den
  let middle := 4 * value.mantissa * num * down
  let below := middle / scale
  let inside (n : Nat) : Bool :=
    let low := lower value * num * down
    let high := upper value * num * down
    if value.mantissa % 2 = 0 then low ≤ n * scale && n * scale ≤ high
    else low < n * scale && n * scale < high
  let nearer := if 2 * (middle - below * scale) < scale then below else below + 1
  if inside below && inside (below + 1) then some ⟨nearer, e⟩
  else if inside below then some ⟨below, e⟩
  else if inside (below + 1) then some ⟨below + 1, e⟩
  else none

def searchGrid (value : Binary) (lead : Int) : (remaining : Nat) → Scaled
  | 0 => ⟨value.mantissa, 0⟩
  | n + 1 =>
    match onGrid? value (lead - (17 - (n + 1 : Int))) with
    | some s => s
    | none => searchGrid value lead n

/-- Seventeen digits always suffice. -/
def shortest (value : Binary) : Scaled := searchGrid value (leadingExponent value) 17

end Scriptlet.Decimal
