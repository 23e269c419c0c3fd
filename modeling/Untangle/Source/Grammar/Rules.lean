import Untangle.Source.Reader

/-!
# The recursive rules of the grammar

The grammar refers to itself: statements hold expressions, expressions hold functions, functions
hold statements. The rules through which every such cycle passes are collected in a record, each
rule is written as a function of the record, and the grammar is the record obtained by tying the
knot as often as the source is long.

Every cycle consumes a token, so that depth is never reached.
-/

namespace Untangle.Source

/-- The rules that refer to each other. -/
structure Rules where
  /-- An expression without a comma at its top. -/
  assignment : Parser Cover
  /-- An operand with the operators before and after it. -/
  unary : Parser Cover
  /-- The operators that follow an operand and bind tighter than the number. -/
  binaryTail : Nat → Cover → Parser Cover
  /-- An expression that may be accessed or called, with its accesses but without a call. -/
  member : Parser Cover
  /-- The same with its calls. -/
  leftHand : Parser Cover
  /-- A pattern that declares. -/
  pattern : Parser Pat
  /-- A statement; the flags tell whether a declaration may stand here, and whether this is the top
  level. -/
  statement : Bool → Bool → Parser (Spanned Stmt)
  /-- A type. -/
  type : Parser TypeExpr

/-- The rules of a grammar unrolled to no depth. -/
def Rules.none : Rules where
  assignment := failHere .limit
  unary := failHere .limit
  binaryTail _ _ := failHere .limit
  member := failHere .limit
  leftHand := failHere .limit
  pattern := failHere .limit
  statement _ _ := failHere .limit
  type := failHere .limit

def expression (r : Rules) : Parser Cover := do
  let first ← r.assignment
  if ← isPunct "," then
    let rest ← repeatWhileSome do
      if ← eatPunct "," then
        let c ← r.assignment
        return some c.expr
      else return none
    cover first.start (.seq (first.expr :: rest))
  else return first

/-- A part of the grammar in which `in` is an operator. -/
def allowingIn {α : Type} (p : Parser α) : Parser α :=
  withReader (fun c => { c with allowIn := true }) p

end Untangle.Source
