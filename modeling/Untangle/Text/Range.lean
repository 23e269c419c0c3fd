/-!
# Sets of characters as ranges

A set of scalar values is kept as a list of inclusive ranges in increasing order. A long table is
written by the lengths of its runs, which are in order whatever they are. `inRanges` is membership; a
class of characters is one such list and its test.
-/

namespace Untangle.Text

/-- Inclusive ranges of scalar values, in increasing order. -/
abbrev Ranges := List (Nat × Nat)

/-- The ranges from some value on, by how many values lie before a range and how many in it, in
turn. -/
def ofRuns (start : Nat) : List Nat → Ranges
  | before :: inside :: rest =>
    (start + before, start + before + inside - 1) :: ofRuns (start + before + inside) rest
  | _ => []

def inRanges (rs : Ranges) (n : Nat) : Bool :=
  rs.any fun r => r.1 ≤ n && n ≤ r.2

end Untangle.Text
