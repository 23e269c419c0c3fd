import Untangle.Constant.Evaluate
import Untangle.Pass.Finding
import Untangle.Tree.Bound
import Untangle.Tree.Edit
import Untangle.Tree.Outline

/-!
# Dead code

Removes branches and loops whose test is known, statements after a jump, statements that do nothing,
and blocks that hold nothing back.
-/

namespace Untangle.Pass

/-- What was removed. -/
structure DeadCodeTally where
  branches : Nat := 0
  unreachable : Nat := 0
  deriving DecidableEq, Inhabited

/-! ## Hoisted names -/

mutual

/-- The names that a part of the tree declares for the function around it, repetitions included:
variables declared with `var` and functions in any block, those of inner functions and classes
apart. -/
def hoisted : Outline → List Ident
  | .node item parts =>
    match item with
    | .varDecl (.mk kind decls) =>
      if kind == .var then decls.flatMap fun
        | .mk target _ _ => target.bound
      else []
    | .funcDecl name _ => [name]
    | .func _ => []
    | .expr (.arrow _) => []
    | .cls _ => []
    | _ => hoistedOf parts

def hoistedOf : List Outline → List Ident
  | [] => []
  | o :: os => hoisted o ++ hoistedOf os

end

def addOnce (ids : List Ident) (id : Ident) : List Ident :=
  if ids.any fun i => i.name == id.name then ids else ids ++ [id]

def hoistedNames (s : Stmt) : List Ident := (hoisted (outlineStmt s)).foldl addOnce []

/-- A declaration of everything that a statement hoists, if anything. -/
def hoistedDecl? (s : Stmt) : Option Stmt :=
  match hoistedNames s with
  | [] => none
  | ids => some (.decl (.var (.mk .var (ids.map fun id => .mk (.name (.ofIdent id)) none false))))

/-! ## Branches -/

def isFlattenable (body : List Stmt) : Bool := !body.any Stmt.isLexical

def withHoisted (decl : Option Stmt) (s : Stmt) : Stmt :=
  match decl with
  | none => s
  | some d =>
    match s with
    | .empty => .block [d]
    | .block body => if isFlattenable body then .block (d :: body) else .block [d, .block body]
    | s => .block [d, s]

/-- The head of a loop that is never entered, as a statement. -/
def headStmt : ForHead → Stmt
  | .var d => .decl (.var d)
  | .expr e => .expr e
  | _ => .empty

/-- A statement whose test is known, reduced. -/
def foldBranch? : Stmt → Option Stmt
  | .ite test yes no =>
    (truthiness? test).map fun t =>
      if t then withHoisted (no.bind hoistedDecl?) yes
      else withHoisted (hoistedDecl? yes) (no.getD .empty)
  | .while test body =>
    if truthiness? test == some false then some (withHoisted (hoistedDecl? body) .empty) else none
  | .for init (some test) _ body =>
    if truthiness? test == some false then
      some (withHoisted (hoistedDecl? body) (headStmt init))
    else none
  | _ => none

def dropEmptyElse : Stmt → Stmt
  | .ite test yes (some .empty) => .ite test yes none
  | s => s

/-- Reduces a statement, counting it if its test was known. -/
def foldStmt (s : Stmt) : StateM DeadCodeTally Stmt := do
  let s := dropEmptyElse s
  match foldBranch? s with
  | some s' =>
    modify fun t => { t with branches := t.branches + 1 }
    return s'
  | none => return s

/-! ## Lists -/

def isJump : Stmt → Bool
  | .return _ | .throw _ | .break _ | .continue _ => true
  | _ => false

/-- Whether a statement only names a value. Strings may be directives and count for something. -/
def isInert : Stmt → Bool
  | .expr (.lit (.num _)) => true
  | .expr (.lit (.bool _)) => true
  | .expr (.lit .null) => true
  | .expr (.unary .void (.lit (.num _))) => true
  | _ => false

def isFuncDecl : Stmt → Bool
  | .decl d => match d.plain with
    | .func .. => true
    | _ => false
  | _ => false

/-- What stays of a statement that is never reached. -/
def remains (s : Stmt) : Option Stmt := if isFuncDecl s then some s else hoistedDecl? s

/-- A statement list without what is dead in it, and how many statements were. -/
def cleanList : Bool → List Stmt → List Stmt × Nat
  | _, [] => ([], 0)
  | reachable, s :: rest =>
    if s.isModuleDecl then
      let (rest', n) := cleanList reachable rest
      (s :: rest', n)
    else if !reachable then
      let (rest', n) := cleanList reachable rest
      ((remains s).toList ++ rest', n + 1)
    else match s with
      | .empty => cleanList reachable rest
      | .block body =>
        if isFlattenable body then
          let (rest', n) := cleanList (!body.any isJump) rest
          (body ++ rest', n)
        else
          let (rest', n) := cleanList true rest
          (.block body :: rest', n)
      | s =>
        if isInert s then
          let (rest', n) := cleanList reachable rest
          (rest', n + 1)
        else
          let (rest', n) := cleanList (!isJump s) rest
          (s :: rest', n)

/-! ## The pass -/

def foldStmts : List Stmt → StateM DeadCodeTally (List Stmt)
  | [] => pure []
  | s :: ss => do
    let s ← foldStmt s
    return s :: (← foldStmts ss)

def deadCodeEdits : Edits DeadCodeTally where
  single := foldStmt
  list := fun ss => do
    let (ss', n) := cleanList true (← foldStmts ss)
    modify fun t => { t with unreachable := t.unreachable + n }
    return ss'

def removeDeadCode (p : Program) : Program × List Finding :=
  let (p', t) := (editProgram deadCodeEdits p).run {}
  (p', findings "DeadCode" [("dead-branches", t.branches), ("unreachable-code", t.unreachable)])

end Untangle.Pass
