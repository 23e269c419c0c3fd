import Untangle.Constant.Evaluate
import Untangle.Pass.Finding
import Untangle.Tree.Edit

/-!
# Simplification

Replaces operators over literals by their value, takes the known way through a logical or
conditional expression, drops parentheses that carry no meaning, and forgets spellings of literals
that hide their value.

Strings longer than a limit are not put together.
-/

namespace Untangle.Pass

/-- What was simplified. -/
structure SimplifyTally where
  folded : Nat := 0
  respelled : Nat := 0
  deriving DecidableEq, Inhabited

def isCanonical : Expr → Bool
  | .lit _ => true
  | .unary .minus (.lit (.num _)) => true
  | .unary .void (.lit (.num _)) => true
  | _ => false

def isFoldable : Expr → Bool
  | .unary .. | .binary .. | .cond .. | .template .. => true
  | _ => false

def exceeds (limit : Nat) : Value → Bool
  | .string us => limit < us.length
  | _ => false

/-- The operand that decides an expression whose value is not known. -/
def foldPartly? : Expr → Option Expr
  | .binary .and left right =>
    (evaluate? left).map fun v => if v.toBoolean then right else left
  | .binary .or left right =>
    (evaluate? left).map fun v => if v.toBoolean then left else right
  | .binary .nullish left right =>
    (evaluate? left).map fun v => if v.isNullish then right else left
  | .cond test yes no => (truthiness? test).map fun t => if t then yes else no
  | _ => none

def foldOnce? (limit : Nat) (e : Expr) : Option Expr :=
  if isCanonical e || !isFoldable e then none
  else match evaluate? e with
    | some v => if exceeds limit v then none else v.toExpr?
    | none => foldPartly? e

def isChain : Expr → Bool
  | .chainMember .. | .chainCall .. => true
  | _ => false

/-- An expression without parentheses around it, unless they end an optional chain. -/
def dropParens : Expr → Expr
  | .paren e => if isChain e.unparen then .paren e else e.unparen
  | e => e

def hasNumericEscape : List Char → Bool
  | '\x5c' :: c :: rest => c == 'x' || c == 'u' || hasNumericEscape (c :: rest)
  | _ :: rest => hasNumericEscape rest
  | [] => false

/-- A string without a spelling that hides it, if it has one. -/
def plainString? (s : StrLit) : Option StrLit :=
  match s.raw with
  | some raw => if hasNumericEscape raw.toList then some { s with raw := none } else none
  | none => none

def plainNumber? (n : NumLit) : Option NumLit :=
  match n.raw, Number.conversionText? n.value with
  | some raw, some plain => if raw == plain then none else some { n with raw := none }
  | _, _ => none

def simplifyEdits (limit : Nat) : Edits SimplifyTally where
  expr := fun e => do
    match foldOnce? limit (dropParens e) with
    | some e' =>
      modify fun t => { t with folded := t.folded + 1 }
      return e'
    | none => return dropParens e
  str := fun s => do
    match plainString? s with
    | some s' =>
      modify fun t => { t with respelled := t.respelled + 1 }
      return s'
    | none => return s
  num := fun n => do
    match plainNumber? n with
    | some n' =>
      modify fun t => { t with respelled := t.respelled + 1 }
      return n'
    | none => return n

/-- Simplifies a program; `limit` is the length of the longest string that is put together. -/
def simplify (limit : Nat) (p : Program) : Program × List Finding :=
  let (p', t) := (editProgram (simplifyEdits limit) p).run {}
  (p', findings "Simplify"
    [("constant-expressions", t.folded), ("escaped-literals", t.respelled)])

end Untangle.Pass
