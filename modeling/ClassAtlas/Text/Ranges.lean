/-!
Sets of code points given by their boundaries: an increasing list of numbers at which membership
changes. A code point is a member when an odd number of boundaries lies at or below it.
-/

namespace ClassAtlas.Text

/-- Number of entries among the positions from `lo` below `hi` of a sorted table that are at most
`x`, counted together with the `lo` entries before them. -/
def countUpTo (table : Array Nat) (x lo hi : Nat) : Nat :=
  if lo < hi then
    let mid := (lo + hi) / 2
    if table.getD mid 0 ≤ x then countUpTo table x (mid + 1) hi else countUpTo table x lo mid
  else lo
termination_by hi - lo
decreasing_by all_goals omega

/-- Whether `x` lies in one of the half-open ranges whose ends `table` lists in increasing order. -/
def inRanges (table : Array Nat) (x : Nat) : Bool :=
  countUpTo table x 0 table.size % 2 == 1

end ClassAtlas.Text
