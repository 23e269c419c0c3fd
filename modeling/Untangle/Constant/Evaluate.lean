import Untangle.Constant.Fold
import Untangle.Tree.Key

/-!
# Constant expressions
-/

namespace Untangle

/-- How deep operators may be nested. -/
def maxFoldDepth : Nat := 64

def evaluateAt? (depth : Nat) : Expr → Option Value
  | .paren e => evaluateAt? depth e
  | .lit l =>
    if maxFoldDepth < depth then none
    else match l with
      | .num n => some (.number n.value)
      | .bool b => some (.boolean b)
      | .null => some .null
      | .str s => s.text?.map fun _ => .string s.units
      | _ => none
  | .array elems =>
    if maxFoldDepth < depth then none
    else if elems.isEmpty then some .emptyArray else none
  | .template quasis exprs =>
    if maxFoldDepth < depth then none
    else match quasis, exprs with
      | q :: _, [] => q.cooked.bind fun us => us.toString?.map fun _ => .string us
      | _, _ => none
  | .unary op arg =>
    if maxFoldDepth < depth then none
    else if op == .delete then none
    else (evaluateAt? (depth + 1) arg).bind (foldUnary? op)
  | .binary op left right =>
    if maxFoldDepth < depth then none
    else match evaluateAt? (depth + 1) left with
      | none => none
      | some a =>
        match op with
        | .and => if a.toBoolean then evaluateAt? (depth + 1) right else some a
        | .or => if a.toBoolean then some a else evaluateAt? (depth + 1) right
        | .nullish => if a.isNullish then evaluateAt? (depth + 1) right else some a
        | op => (evaluateAt? (depth + 1) right).bind (foldBinary? op a)
  | .cond test yes no =>
    if maxFoldDepth < depth then none
    else match evaluateAt? (depth + 1) test with
      | none => none
      | some t => if t.toBoolean then evaluateAt? (depth + 1) yes else evaluateAt? (depth + 1) no
  | _ => none

/-- The value of an expression that can be known without running the program. -/
def evaluate? (e : Expr) : Option Value := evaluateAt? 0 e

def truthiness? (e : Expr) : Option Bool :=
  match e.unparen with
  | .func .. | .arrow _ => some true
  | e => (evaluate? e).map Value.toBoolean

end Untangle
