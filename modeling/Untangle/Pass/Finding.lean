/-!
# Findings

`Finding` — one technique that a pass met, and at how many places it was undone.
-/

namespace Untangle

/-- A technique that a pass met and undid. -/
structure Finding where
  pass : String
  technique : String
  occurrences : Nat
  deriving DecidableEq, Inhabited, Repr

def findings (pass : String) (counts : List (String × Nat)) : List Finding :=
  (counts.filter fun c => c.2 != 0).map fun c => ⟨pass, c.1, c.2⟩

end Untangle
