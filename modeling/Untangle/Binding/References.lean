import Untangle.Tree.Bound
import Untangle.Tree.Edit
import Untangle.Tree.Key
import Untangle.Tree.Outline
import Untangle.Table

/-!
# References

What passes ask of a program with resolved bindings, and the two changes that several share.
-/

namespace Untangle

/-- Whether an item is a call of `eval` by its bare name. -/
def Item.isEvalCall : Item → Bool
  | .expr (.call (.ident id) _) => id.name == "eval"
  | _ => false

/-- Whether a program calls `eval` by its bare name. -/
def Program.callsEval (p : Program) : Bool := p.items.any Item.isEvalCall

/-! ## Substitution -/

/-- Replaces references; what is put in is not looked at again. -/
def substituteEdits (values : Table Binding Expr) : Edits Unit where
  expr := fun e => pure (match e with
    | .ident id => (values.find? id.binding).getD (.ident id)
    | e => e)

def Expr.substitute (values : Table Binding Expr) (e : Expr) : Expr :=
  ((editExpr (substituteEdits values) e).run ()).1

/-! ## Removing declarations -/

def Declarator.declaresOneOf (ids : List Binding) : Declarator → Bool
  | .mk target _ _ => match target.binding? with
    | some b => ids.contains b
    | none => false

def Stmt.isFuncOf (ids : List Binding) : Stmt → Bool
  | .decl d => match d.plain with
    | .func name _ => ids.contains name.binding
    | _ => false
  | _ => false

def Stmt.isEmpty : Stmt → Bool
  | .empty => true
  | _ => false

/-- A statement whose declarators are all gone, made empty; a loop head likewise. -/
def tidyEmptied : Stmt → Stmt
  | .decl d => match d.plain with
    | .var (.mk _ []) => .empty
    | _ => .decl d
  | .for (.var (.mk _ [])) test step body => .for .absent test step body
  | s => s

def removeEdits (ids : List Binding) : Edits Nat where
  varDecl := fun
    | .mk kind decls => do
      let kept := decls.filter fun d => !d.declaresOneOf ids
      modify (· + (decls.length - kept.length))
      return .mk kind kept
  single := fun s => pure (tidyEmptied s)
  list := fun ss => do
    let shown := (ss.map tidyEmptied).filter fun s => !s.isEmpty
    let kept := shown.filter fun s => !s.isFuncOf ids
    modify (· + (shown.length - kept.length))
    return kept

/-- A program without the declarations of some variables, and how many declarations went. With no
variable to remove nothing changes; with one, empty statements go too. -/
def Program.removeDecls (p : Program) (ids : List Binding) : Program × Nat :=
  if ids.isEmpty then (p, 0) else (editProgram (removeEdits ids) p).run 0

end Untangle
