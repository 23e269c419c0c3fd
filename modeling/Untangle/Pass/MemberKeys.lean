import Untangle.Pass.Finding
import Untangle.Tree.Edit
import Untangle.Tree.Key

/-!
# Plain keys

Writes accesses with a string for a key as plain ones, `a["b"]` as `a.b`, and likewise the keys of
object and class members. A computed `__proto__` or `constructor` key means a member that the plain
one does not, and stays.
-/

namespace Untangle.Pass

/-- What was written plainly. -/
structure KeyTally where
  accesses : Nat := 0
  keys : Nat := 0
  deriving DecidableEq, Inhabited

def nameOf? (e : Expr) : Option String := e.text?.filter isIdentifierName

def plainAccess? : MemberProp → Option MemberProp
  | .computed e => (nameOf? e).map .name
  | _ => none

def isSpecialKey (s : String) : Bool := s == "__proto__" || s == "constructor"

def plainKey? : PropName → Option PropName
  | .str s => (s.text?.filter isIdentifierName).map .name
  | .computed e => ((nameOf? e).filter fun s => !isSpecialKey s).map .name
  | _ => none

/-- The pass as edits; keys of members are left alone unless asked for. -/
def memberKeyEdits (objectKeys : Bool) : Edits KeyTally where
  access := fun a => do
    match plainAccess? a with
    | some a' =>
      modify fun t => { t with accesses := t.accesses + 1 }
      return a'
    | none => return a
  key := fun k => do
    match (if objectKeys then plainKey? k else none) with
    | some k' =>
      modify fun t => { t with keys := t.keys + 1 }
      return k'
    | none => return k

def cleanMemberKeys (objectKeys : Bool) (p : Program) : Program × List Finding :=
  let (p', t) := (editProgram (memberKeyEdits objectKeys) p).run {}
  (p', findings "MemberExpressionCleaner"
    [("computed-member-access", t.accesses), ("quoted-keys", t.keys)])

end Untangle.Pass
