import Untangle.Text.Units

/-!
# Literals

String and number literals keep the spelling they were read with; one that a pass has made or
normalised has none, and is then spelled by the printer.
-/

namespace Untangle

/-- A string literal: its code units, and its source spelling with the quotes. -/
structure StrLit where
  units : Units
  raw : Option String := none
  deriving DecidableEq, Inhabited

/-- A number literal: its value and its source spelling. -/
structure NumLit where
  value : Float
  raw : Option String := none
  deriving DecidableEq, Inhabited

/-- Literal expressions. -/
inductive Lit
  | str (s : StrLit)
  | num (n : NumLit)
  | bool (b : Bool)
  | null
  /-- The digits as spelled, with the final `n`. -/
  | bigint (raw : String)
  | regex (body flags : String)
  deriving DecidableEq, Inhabited

/-- A fixed part of a template: its spelling, and the units it stands for unless an escape in it is
malformed. -/
structure Quasi where
  raw : String
  cooked : Option Units
  deriving DecidableEq, Inhabited

def StrLit.text? (s : StrLit) : Option String := s.units.toString?

def StrLit.ofText (s : String) : StrLit := { units := Units.ofString s }

end Untangle
