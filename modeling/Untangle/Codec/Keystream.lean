import Untangle.Codec.Base64
import Untangle.Text.Units

/-!
# Keyed strings

Strings hidden by a stream cipher: a key sets up a permutation of the numbers below 256, and each
unit of the text is masked with a number drawn from the permutation while it is shuffled on.
-/

namespace Untangle.Keystream

/-- A permutation of the numbers below 256, with two positions. -/
structure Shuffle where
  state : Array Nat
  i : Nat := 0
  j : Nat := 0

def Shuffle.at (s : Shuffle) (k : Nat) : Nat := s.state.getD k 0

/-- The numbers below 256 in order. -/
def Shuffle.start : Shuffle := { state := Array.range 256 }

/-- A step of setting up: moves the second position by the number at `i` and the unit of the key
there, and swaps. -/
def Shuffle.mix (key : Units) (s : Shuffle) (i : Nat) : Shuffle :=
  let j := (s.j + s.at i + (key.getD (i % key.length) 0).toNat) % 256
  { s with state := s.state.swapIfInBounds i j, j }

def Shuffle.ofKey (key : Units) : Shuffle :=
  { (List.range 256).foldl (Shuffle.mix key) Shuffle.start with i := 0, j := 0 }

def Shuffle.next (s : Shuffle) : Nat × Shuffle :=
  let i := (s.i + 1) % 256
  let j := (s.j + s.at i) % 256
  let s' : Shuffle := { state := s.state.swapIfInBounds i j, i, j }
  (s'.at ((s'.at i + s'.at j) % 256), s')

def mask : Shuffle → Units → Units
  | _, [] => []
  | s, u :: us =>
    let (m, s') := s.next
    (u ^^^ m.toUInt16) :: mask s' us

/-- The text behind a masked one; none for an empty key. -/
def decode? (text key : String) : Option String :=
  let k := Units.ofString key
  if k.isEmpty then none
  else do
    let masked ← Base64.decodeText? text
    (mask (Shuffle.ofKey k) (Units.ofString masked)).toString?

end Untangle.Keystream
