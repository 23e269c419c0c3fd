import Untangle.Pass.Finding
import Untangle.Tree.Build
import Untangle.Tree.Edit

/-!
# Sequences

Splits `a(), b();` into `a(); b();`, and likewise where a sequence is returned, thrown, tested, or
starts a declaration or a loop: what comes before the last value moves in front of the statement.

The sequences taken apart are counted.
-/

namespace Untangle.Pass

mutual

/-- The expressions that an expression statement becomes. An assignment to a name lets go of a
sequence on its right. -/
def flattenExpr : Expr → StateM Nat (List Expr)
  | .seq (e₁ :: e₂ :: es) => do
    modify (· + 1)
    let first ← flattenExpr e₁
    return first ++ (← flattenEach (e₂ :: es))
  | .paren e => do
    match e.unparen with
    | .seq (_ :: _ :: _) => flattenExpr e
    | _ => return [.paren e]
  | .assign op (.name b) value => do
    let (before, last) ← splitValue value
    return before ++ [.assign op (.name b) last]
  | e => return [e]

def flattenEach : List Expr → StateM Nat (List Expr)
  | [] => return []
  | e :: es => do
    let first ← flattenExpr e
    return first ++ (← flattenEach es)

def splitValue : Expr → StateM Nat (List Expr × Expr)
  | .seq (e₁ :: e₂ :: es) => do
    modify (· + 1)
    let first ← flattenExpr e₁
    let (more, last) ← splitLast (e₂ :: es) e₂
    return (first ++ more, last)
  | .paren e => do
    match e.unparen with
    | .seq (_ :: _ :: _) => splitValue e
    | _ => return ([], .paren e)
  | e => return ([], e)

/-- All but the last of some expressions as statements, and the last as a value; the second argument
is given back if there is none. -/
def splitLast : List Expr → Expr → StateM Nat (List Expr × Expr)
  | [], e => return ([], e)
  | [e], _ => splitValue e
  | e :: es, d => do
    let first ← flattenExpr e
    let (more, last) ← splitLast es d
    return (first ++ more, last)

end

/-- The value of a statement that a sequence can be moved out of, and the statement around it. -/
def splitPoint? : Stmt → Option (Expr × (Expr → Stmt))
  | .return (some e) => some (e, fun e => .return (some e))
  | .throw e => some (e, .throw)
  | .ite test yes no => some (test, fun e => .ite e yes no)
  | .switch disc cases => some (disc, fun e => .switch e cases)
  | .decl (.var (.mk kind (.mk target (some e) definite :: rest))) =>
    some (e, fun e => .decl (.var (.mk kind (.mk target (some e) definite :: rest))))
  | .decl (.ambient (.var (.mk kind (.mk target (some e) definite :: rest)))) =>
    some (e, fun e => .decl (.ambient (.var (.mk kind (.mk target (some e) definite :: rest)))))
  | .for (.expr e) test step body => some (e, fun e => .for (.expr e) test step body)
  | .for (.var (.mk kind (.mk target (some e) definite :: rest))) test step body =>
    some (e, fun e => .for (.var (.mk kind (.mk target (some e) definite :: rest))) test step body)
  | .forIn head obj body => some (obj, fun e => .forIn head e body)
  | .forOf isAwait head obj body => some (obj, fun e => .forOf isAwait head e body)
  | _ => none

def splitStmt (s : Stmt) : StateM Nat (List Stmt) := do
  match s with
  | .expr e => return (← flattenExpr e).map .expr
  | s =>
    match splitPoint? s with
    | some (e, around) =>
      let (before, last) ← splitValue e
      return before.map .expr ++ [around last]
    | none => return [s]

def splitStmts : List Stmt → StateM Nat (List Stmt)
  | [] => return []
  | s :: ss => do
    let first ← splitStmt s
    return first ++ (← splitStmts ss)

def seqParts? (e : Expr) : Option (List Expr × Expr) :=
  match e.unparen with
  | .seq (e₁ :: e₂ :: es) => some ((e₁ :: e₂ :: es).dropLast, (e₂ :: es).getLast (by simp))
  | _ => none

/-- An arrow whose body is a sequence, with a block for a body. The value returned is taken as it
stands. -/
def splitArrow : Func → StateM Nat Func
  | .mk isAsync isGenerator typeParams params ret (.expr e) => do
    match seqParts? e with
    | some (before, last) =>
      modify (· + 1)
      let stmts := (← flattenEach before).map .expr
      return .mk isAsync isGenerator typeParams params ret
        (.block (stmts ++ [.return (some last)]))
    | none => return .mk isAsync isGenerator typeParams params ret (.expr e)
  | f => return f

/-- The pass as edits. A statement after a label stays one statement, so that the label keeps naming
it. -/
def sequenceEdits : Edits Nat where
  arrow := splitArrow
  single := fun s => do
    match ← splitStmt s with
    | [s] => return s
    | ss => return .block ss
  labelled := pure
  list := splitStmts

def splitSequences (p : Program) : Program × List Finding :=
  let (p', n) := (editProgram sequenceEdits p).run 0
  (p', findings "Desequence" [("sequence-expressions", n)])

end Untangle.Pass
