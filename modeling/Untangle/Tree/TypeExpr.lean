import Untangle.Tree.Ident
import Untangle.Tree.Literal

/-!
# Type annotations

The small part of the annotation language that typed sources need: it is read, kept and printed,
and no pass looks into it except to collect the names in use.
-/

namespace Untangle

/-- A type. -/
inductive TypeExpr
  /-- A built-in type by its word. -/
  | keyword (word : String)
  /-- A named type, dotted if qualified, with its arguments. -/
  | ref (path : List Ident) (args : List TypeExpr)
  | union (parts : List TypeExpr)
  | intersection (parts : List TypeExpr)
  | array (elem : TypeExpr)
  | tuple (elems : List TypeExpr)
  | lit (l : Lit)
  | paren (t : TypeExpr)
  | typeQuery (path : List Ident)
  deriving Inhabited

/-- A declared type parameter. -/
structure TypeParam where
  name : Ident
  bound : Option TypeExpr := none
  fallback : Option TypeExpr := none
  deriving Inhabited

/-- Who may use a class member. -/
inductive Access
  | isPublic | isProtected | isPrivate
  deriving DecidableEq, Inhabited

def Access.text : Access → String
  | .isPublic => "public"
  | .isProtected => "protected"
  | .isPrivate => "private"

/-- A name that a pattern binds, with what a typed source may add to it. -/
structure BindingName where
  id : Ident
  optional : Bool := false
  ann : Option TypeExpr := none
  deriving Inhabited

def BindingName.ofIdent (id : Ident) : BindingName := { id := id }

/-- Markers before a class member. -/
structure MemberMods where
  access : Option Access := none
  isStatic : Bool := false
  isAbstract : Bool := false
  isReadonly : Bool := false
  isOverride : Bool := false
  isDeclared : Bool := false
  optional : Bool := false
  definite : Bool := false
  deriving Inhabited, DecidableEq

/-- Members of an interface. -/
inductive Signature
  | property (isReadonly : Bool) (key : String) (optional : Bool) (type : Option TypeExpr)
  | method (key : String) (optional : Bool) (params : List BindingName) (ret : Option TypeExpr)
  deriving Inhabited

/-- An interface declaration. -/
structure Interface where
  name : Ident
  typeParams : List TypeParam
  bases : List TypeExpr
  members : List Signature
  deriving Inhabited

end Untangle
