/-! Numbers read from decimal text. -/
namespace Scriptlet.Decimal

def isDigit (c : Char) : Bool := '0' ≤ c && c ≤ '9'

/-- The value of a digit in a radix up to thirty-six, letters counting from ten in either case. -/
def digit? (radix : Nat) (c : Char) : Option Nat :=
  let value :=
    if isDigit c then c.toNat - '0'.toNat
    else if 'a' ≤ c && c ≤ 'z' then c.toNat - 'a'.toNat + 10
    else if 'A' ≤ c && c ≤ 'Z' then c.toNat - 'A'.toNat + 10
    else radix
  if value < radix then some value else none

/-- The positional value of digits, the most significant first. -/
def natOfDigits (radix : Nat) (cs : List Char) : Nat :=
  cs.foldl (fun n c => radix * n + (digit? radix c).getD 0) 0

def maxInt : Int := 0x7fffffffffffffff

def minInt : Int := -0x8000000000000000

/-- An integer as a value of the language, if it fits in 64 bits. -/
def fit? (n : Int) : Option Int64 :=
  if minInt ≤ n && n ≤ maxInt then some (Int64.ofInt n) else none

theorem fit?_isSome_iff (n : Int) : (fit? n).isSome ↔ minInt ≤ n ∧ n ≤ maxInt := by
  unfold fit?
  split <;> simp_all

/-- The double nearest to `m * 10 ^ e`. A magnitude beyond every double is infinite, one below half of
the smallest is zero. Both are told from the bits of `m`, of which a decimal digit takes more than three
and less than four, so that no large power of ten is ever computed for a short number. -/
def nearest (m : Nat) (e : Int) : Float :=
  if m = 0 || (m.log2 / 3 : Nat) + 1 + e < -330 then 0.0
  else if 310 < (m.log2 / 4 : Nat) + e then 1.0 / 0.0
  else if 0 ≤ e then Float.ofScientific m false e.toNat
  else Float.ofScientific m true (-e).toNat

def takeSign : List Char → Bool × List Char
  | '-' :: cs => (true, cs)
  | '+' :: cs => (false, cs)
  | cs => (false, cs)

/-- A signed run of decimal digits. -/
def int? (cs : List Char) : Option Int64 :=
  let (negative, ds) := takeSign cs
  if ds.isEmpty || !ds.all isDigit then none
  else
    let n : Int := natOfDigits 10 ds
    fit? (if negative then -n else n)

/-- Digits, possibly a point and more digits, with at least one digit in all. -/
def mantissa? (cs : List Char) : Option ((Nat × Nat) × List Char) :=
  let whole := cs.takeWhile isDigit
  let rest := cs.dropWhile isDigit
  let (fraction, rest) :=
    match rest with
    | '.' :: ds => (ds.takeWhile isDigit, ds.dropWhile isDigit)
    | _ => ([], rest)
  if whole.isEmpty && fraction.isEmpty then none
  else some ((natOfDigits 10 (whole ++ fraction), fraction.length), rest)

/-- The power of ten at the end of a number, zero when there is none. -/
def exponent? : List Char → Option Int
  | [] => some 0
  | c :: cs =>
    if c = 'e' || c = 'E' then
      let (negative, ds) := takeSign cs
      if ds.isEmpty || !ds.all isDigit then none
      else
        let n : Int := natOfDigits 10 ds
        some (if negative then -n else n)
    else none

/-- A number without its sign: decimal text, or one of the names for infinity and not-a-number in
any case. -/
def unsigned? (cs : List Char) : Option Float :=
  let name := String.ofList (cs.map Char.toLower)
  if name = "inf" || name = "infinity" then some (1.0 / 0.0)
  else if name = "nan" then some (0.0 / 0.0)
  else do
    let ((m, places), rest) ← mantissa? cs
    let e ← exponent? rest
    return nearest m (e - places)

def float? (cs : List Char) : Option Float :=
  let (negative, ds) := takeSign cs
  (unsigned? ds).map fun x => if negative then -x else x

end Scriptlet.Decimal
