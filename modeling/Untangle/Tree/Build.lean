import Untangle.Number.Decimal
import Untangle.Tree.Node

/-!
# Making nodes

Literals and small statements without a source spelling. A negative number is a minus sign before a
literal.
-/

namespace Untangle

namespace Expr

def ofText (s : String) : Expr := .lit (.str (.ofText s))

/-- A number; a negative one, zero included, is a minus sign before its magnitude. -/
def ofNumber (x : Float) : Expr :=
  if x < 0 || (x == 0 && Number.isNegative x) then .unary .minus (.lit (.num { value := -x }))
  else .lit (.num { value := x })

def ofBool (b : Bool) : Expr := .lit (.bool b)

/-- The undefined value, as `void 0`. -/
def undefined : Expr := .unary .void (.lit (.num { value := 0 }))

def ofName (name : String) : Expr := .ident { name := name }

def unparen : Expr → Expr
  | .paren e => unparen e
  | e => e

theorem unparen_induct {motive : Expr → Prop} (paren : ∀ e, motive e → motive (.paren e))
    (bare : ∀ e, e.unparen = e → motive e) (e : Expr) : motive e := by
  fun_induction unparen e with
  | case1 e ih => exact paren e ih
  | case2 e hparen => exact bare e (by rw [unparen]; exact hparen)

end Expr

def Func.body : Func → Body
  | .mk _ _ _ _ _ body => body

def VarDecl.single (kind : VarKind) (name : Ident) (init : Option Expr) : VarDecl :=
  .mk kind [.mk (.name (.ofIdent name)) init false]

/-- A declaration without the mark that it is defined elsewhere. -/
def Decl.plain : Decl → Decl
  | .ambient d => d.plain
  | d => d

def Stmt.isModuleDecl : Stmt → Bool
  | .importDecl .. | .exportDecl _ | .exportNamed .. | .exportAll .. | .exportDefaultExpr _
  | .exportDefaultFunc .. | .exportDefaultClass .. | .exportDefaultInterface _ => true
  | _ => false

/-- Whether a statement declares names that belong to its block. -/
def Stmt.isLexical : Stmt → Bool
  | .decl d => match d.plain with
    | .var (.mk kind _) => kind != .var
    | .cls .. | .func .. => true
    | _ => false
  | _ => false

end Untangle
