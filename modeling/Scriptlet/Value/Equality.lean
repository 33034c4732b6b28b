import Scriptlet.Value.Text

/-! The two equalities of values: by content, and by identity. -/
namespace Scriptlet

namespace Value

/-- The same reference, or scalars of one type with one value. Errors have no identity. -/
def identical : Value → Value → Bool
  | null, null | undefined, undefined => true
  | bool a, bool b => a = b
  | int a, int b => a = b
  | float a, float b => a == b
  | string a, string b => a = b
  | array a, array b | map a, map b | function a, function b | class_ a, class_ b
  | instance_ a, instance_ b => a = b
  | native a, native b => a = b
  | _, _ => false

/-- Equal content, given how two containers of one kind compare. Integers and floats compare as
doubles. -/
def equalWith (cell : Cell → Cell → Bool) : Value → Value → Bool
  | int a, float b => nearestFloat a == b
  | float a, int b => nearestFloat b == a
  | array a, array b => cell (.array a) (.array b)
  | map a, map b => cell (.map a) (.map b)
  | error a none, error b none => a = b
  | error a (some x), error b (some y) => a = b && equalWith cell x y
  | a, b => identical a b

end Value

namespace Store

/-- Two containers, while the `open_` pairs are being compared. A pair that is met again is taken to
be equal; each level opens one more pair, so a limit above their number is never reached. -/
def cellsEqual (s : Store) : (limit : Nat) → (open_ : List (Cell × Cell)) → Cell → Cell → Bool
  | 0, _, _, _ => true
  | n + 1, open_, a, b =>
    if a = b || (a, b) ∈ open_ then true
    else
      let inner := Value.equalWith (cellsEqual s n ((a, b) :: open_))
      match a, b with
      | .array i, .array j =>
        let x := (s.array i).toList
        let y := (s.array j).toList
        x.length = y.length && (x.zip y).all fun p => inner p.1 p.2
      | .map i, .map j =>
        let x := s.map i
        let y := s.map j
        x.size = y.size && x.entries.all fun e => (y.get? e.1).any (inner e.2)
      | _, _ => false

def pairLimit (s : Store) : Nat :=
  s.arrays.size * s.arrays.size + s.maps.size * s.maps.size + 1

def equal (s : Store) (x y : Value) : Bool := Value.equalWith (s.cellsEqual s.pairLimit []) x y

end Store

end Scriptlet
