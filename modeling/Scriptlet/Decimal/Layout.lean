import Scriptlet.Decimal.Shortest

/-! How numbers are written. All three forms show the fewest digits that read back. -/
namespace Scriptlet.Decimal

/-- The digits without trailing zeros, and the place of the point: the number is
`0.d₁d₂… * 10 ^ point`. -/
structure Figures where
  digits : List Char
  point : Int

def Scaled.figures (s : Scaled) : Figures :=
  let all := Nat.toDigits 10 s.digits
  ⟨(all.reverse.dropWhile (· = '0')).reverse, all.length + s.exponent⟩

/-- Digits with a point among them and no exponent. A number without a fraction is written as an
integer, followed by `whole`. -/
def Figures.positional (f : Figures) (whole : String) : String :=
  let n := f.digits.length
  if f.point ≤ 0 then
    "0." ++ String.ofList (List.replicate (-f.point).toNat '0' ++ f.digits)
  else if f.point.toNat < n then
    String.ofList (f.digits.take f.point.toNat) ++ "." ++
      String.ofList (f.digits.drop f.point.toNat)
  else
    String.ofList (f.digits ++ List.replicate (f.point.toNat - n) '0') ++ whole

/-- One digit before the point, then the power of ten. -/
def Figures.scientific (f : Figures) : String :=
  let exponent := "e" ++ toString (f.point - 1)
  match f.digits with
  | [] => "0" ++ exponent
  | [d] => d.toString ++ exponent
  | d :: ds => d.toString ++ "." ++ String.ofList ds ++ exponent

def signed (negative : Bool) (text : String) : String := if negative then "-" ++ text else text

/-- Writes a number whose nonzero finite values are laid out by `layout`. -/
def write (x : Float) (zero : String) (layout : Figures → String) : String :=
  match parts x with
  | .nan => "NaN"
  | .infinite negative => signed negative "inf"
  | .zero negative => signed negative zero
  | .finite negative value => signed negative (layout (shortest value).figures)

/-- The literal of a number: always with a point or an exponent, the exponent only outside
`[10⁻⁴, 10¹⁶)`. -/
def literal (x : Float) : String :=
  write x "0.0" fun f =>
    if f.point ≤ -4 || 16 < f.point then f.scientific else f.positional ".0"

def plain (x : Float) : String := write x "0" fun f => f.positional ""

/-- A value as programs print it: whole numbers below `10¹⁵` keep one zero after the point. -/
def shown (x : Float) : String :=
  write x "0.0" fun f =>
    if f.digits.length ≤ f.point && f.point ≤ 15 then f.positional ".0" else f.positional ""

end Scriptlet.Decimal
