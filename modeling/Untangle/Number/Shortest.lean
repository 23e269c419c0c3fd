import Untangle.Number.Binary

/-!
# The fewest digits that read back

For a positive double `m · 2^e`, the reals that round to it form an interval around it (its ends
included exactly when `m` is even). On the grid of decimals with a given number of digits the two
neighbours of the value are tried; the first grid with a neighbour inside the interval wins, and of
two neighbours inside, the nearer. Two that are equally near make a tie.

Everything is exact natural-number arithmetic: value and interval ends are kept over one common
denominator.
-/

namespace Untangle.Number

/-- Which of two equally near neighbours is taken: the one with an even last digit, or the greater.
-/
inductive Tie
  | even
  | up
  deriving DecidableEq, Inhabited

/-- Whether a tie between a number of units and the next goes to the next. -/
def Tie.goesUp (t : Tie) (k : Nat) : Bool :=
  match t with
  | .even => k % 2 == 1
  | .up => true

/-- A positive decimal `0.d₁d₂…dₙ · 10^point` by its digit value and digit count. -/
structure Digits where
  digits : List Char
  point : Int
  deriving DecidableEq, Inhabited

def natDigits (n : Nat) : List Char := Nat.toDigits 10 n

/-- A value with its rounding interval over a common denominator. -/
structure Rounding where
  low : Nat
  value : Nat
  high : Nat
  denominator : Nat
  closed : Bool

/-- The interval of reals that round to the positive double `m · 2^e`. Below a power of two the gap
is half as wide. -/
def Rounding.ofBinary (b : Binary) : Rounding :=
  let m := b.mantissa
  let narrow := m == Nat.pow 2 52 && b.exponent != -1074
  let e := b.exponent - 2
  let up := if 0 ≤ e then Nat.pow 2 e.toNat else 1
  let down := if 0 ≤ e then 1 else Nat.pow 2 (-e).toNat
  { low := (if narrow then 4 * m - 1 else 4 * m - 2) * up
    value := 4 * m * up
    high := (4 * m + 2) * up
    denominator := down
    closed := m % 2 == 0 }

/-- Whether the decimal `k · scaleUp / scaleDown` lies in the interval. -/
def Rounding.holds (r : Rounding) (k scaleUp scaleDown : Nat) : Bool :=
  let x := k * scaleUp * r.denominator
  let lo := r.low * scaleDown
  let hi := r.high * scaleDown
  if r.closed then lo ≤ x && x ≤ hi else lo < x && x < hi

/-- The value's neighbour on the grid with the given unit that rounds back to the value, the nearer
one if both do. -/
def Rounding.onGrid (r : Rounding) (tie : Tie) (scaleUp scaleDown : Nat) : Option Nat :=
  let num := r.value * scaleDown
  let den := r.denominator * scaleUp
  let k := num / den
  let below := r.holds k scaleUp scaleDown && k != 0
  let above := r.holds (k + 1) scaleUp scaleDown
  if below && above then
    let twice := 2 * (num - k * den)
    if den < twice || (twice == den && tie.goesUp k) then some (k + 1) else some k
  else if below then some k
  else if above then some (k + 1)
  else none

/-- The least `p` with `value < 10^p`, given an estimate that is at most one too small. -/
def Rounding.magnitude (r : Rounding) (estimate : Int) : Int :=
  let fits (p : Int) : Bool :=
    if 0 ≤ p then r.value < Nat.pow 10 p.toNat * r.denominator
    else r.value * Nat.pow 10 (-p).toNat < r.denominator
  if fits (estimate - 1) then estimate - 1
  else if fits estimate then estimate
  else if fits (estimate + 1) then estimate + 1
  else estimate + 2

/-- Tries grids of `n`, `n + 1`, … digits. -/
def Rounding.search (r : Rounding) (tie : Tie) (point : Int) : Nat → Nat → Option Nat × Int
  | 0, n => (none, point - n)
  | fuel + 1, n =>
    let unit : Int := point - n
    let up := if 0 ≤ unit then Nat.pow 10 unit.toNat else 1
    let down := if 0 ≤ unit then 1 else Nat.pow 10 (-unit).toNat
    match r.onGrid tie up down with
    | some k => (some k, unit)
    | none => r.search tie point fuel (n + 1)

def dropTrailingZeros (ds : List Char) : List Char :=
  (ds.reverse.dropWhile (· == '0')).reverse

/-- The fewest digits that read back as the magnitude of this finite nonzero double. -/
def shortestDigits (tie : Tie) (x : Float) : Digits :=
  let b := Binary.ofFloat x
  let r := Rounding.ofBinary b
  -- 1233 / 4096 is slightly below the decimal logarithm of two.
  let bitLength : Int := (Nat.log2 b.mantissa : Int) + 1 + b.exponent
  let point := r.magnitude (bitLength * 1233 / 4096)
  match r.search tie point 17 1 with
  | (some k, unit) =>
    let ds := natDigits k
    { digits := dropTrailingZeros ds, point := unit + ds.length }
  | (none, _) => { digits := ['0'], point := 1 }

end Untangle.Number
