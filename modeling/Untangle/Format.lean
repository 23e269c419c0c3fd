import Untangle.Print.Tree
import Untangle.Source.Parse
import Untangle.Tree.Edit

/-!
# Formatting

Finished code is read again and printed with its literals in one spelling and without parentheses
around optional chains that mean nothing.

Parentheses around a chain stay where they end it: under an access, a call, `new` or a tag.
-/

namespace Untangle

/-! ## Chains -/

/-- How many optional chains end in a call, and how many in an access. -/
structure ChainTally where
  calls : Nat := 0
  members : Nat := 0
  deriving DecidableEq, Inhabited, Repr

def ChainTally.note (t : ChainTally) : Expr → ChainTally
  | .chainCall .. => { t with calls := t.calls + 1 }
  | .chainMember .. => { t with members := t.members + 1 }
  | _ => t

/-- An expression without the parentheses directly around an optional chain. -/
def unwrapChain : Expr → Expr
  | .paren (.chainCall optional callee args) => .chainCall optional callee args
  | .paren (.chainMember optional obj prop) => .chainMember optional obj prop
  | e => e

/-- Unwraps chains and counts them; under an access, a call or a tag they are only counted. -/
def chainEdits : Edits ChainTally where
  expr := fun e => do
    modify fun t => t.note e
    return unwrapChain e
  base := fun e => do
    modify fun t => t.note e
    return e

/-- A program without parentheses around chains that they do not end, and its chains counted. -/
def unwrapChains (p : Program) : Program × ChainTally := (editProgram chainEdits p).run {}

/-! ## Literals -/

/-- Drops the spelling of strings and numbers. -/
def literalEdits : Edits Unit where
  str := fun s => pure { s with raw := none }
  num := fun n => pure { n with raw := none }

def plainLiterals (p : Program) : Program := ((editProgram literalEdits p).run ()).1

/-! ## Formatting -/

/-- How code is to be formatted. -/
structure FormatSettings where
  parse : ParseSettings
  /-- Whether parentheses around chains are dropped. -/
  chains : Bool := true
  deriving DecidableEq, Inhabited, Repr

/-- Why code was not formatted. -/
inductive FormatError
  | unreadable (e : ParseError)
  | unprintable (detail : String)
  deriving DecidableEq, Inhabited, Repr

def FormatError.message : FormatError → String
  | .unreadable e => e.text
  | .unprintable detail => "Codegen error: " ++ detail

abbrev Formatter := FormatSettings → String → Except FormatError String

def formatTree (chains : Bool) (p : Program) : Program :=
  plainLiterals (if chains then (unwrapChains p).1 else p)

def format : Formatter := fun settings code =>
  match parse code settings.parse with
  | .ok p => .ok (Print.emit settings.parse.version (formatTree settings.chains p.program))
  | .error e => .error (.unreadable e)

end Untangle
