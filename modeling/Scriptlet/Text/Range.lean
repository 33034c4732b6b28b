/-! Membership in a set of characters given as ranges of code points. -/
namespace Scriptlet.Text

abbrev Ranges := Array (Nat × Nat)

def Ranges.has (ranges : Ranges) (c : Char) : Bool :=
  ranges.any fun r => r.1 ≤ c.toNat && c.toNat ≤ r.2

end Scriptlet.Text
