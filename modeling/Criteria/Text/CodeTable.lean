/-!
# Tables of characters

A set of characters as ascending ranges of code points.
-/

namespace Criteria.Text
set_option autoImplicit false

/-- Closed ranges of code points. -/
abbrev CodeTable := List (Nat × Nat)

namespace CodeTable

/-- Whether the ranges ascend and leave a gap between any two. -/
def isAscending : CodeTable → Bool
  | (low, high) :: (next, top) :: rest =>
    low ≤ high && high + 1 < next && isAscending ((next, top) :: rest)
  | [(low, high)] => low ≤ high
  | [] => true

/-- Whether a range of the table holds a character. -/
def holds (t : CodeTable) (c : Char) : Bool :=
  t.any fun (low, high) => low ≤ c.toNat && c.toNat ≤ high

end CodeTable
end Criteria.Text
