import Untangle.Binding.Scope

/-!
# Hoisting

Before the statements of a list are gone through, the list declares what is visible in all of it:
its own declarations, and the variables and functions declared in the blocks inside it. The variable
declarations and functions of the list come before all else, except at the top of a module, whose
items are taken in order.

A variable declared in a catch handler under the name of the caught value, if it is hoisted, takes
the caught value with it.
-/

namespace Untangle

def DeclKind.ofVar : VarKind → DeclKind
  | .var => .var
  | .let => .lexical
  | .const => .lexical

def hoistVar (site : HoistSite) : VarDecl → List Step
  | .mk kind decls =>
    if site.inBlock && kind != .var then []
    else (decls.flatMap Declarator.bound).map (.hoistVar site (.ofVar kind))

def hoistDecl (site : HoistSite) : Decl → List Step
  | .func name _ => [.hoistFunc site name]
  | .cls name _ => if site.inBlock then [] else [.declare .lexical name]
  | .var d => hoistVar site d
  | _ => []

/-- The variable of a loop head: only with `var`. -/
def hoistHead (site : HoistSite) : ForHead → List Step
  | .var (.mk .var decls) => hoistVar site (.mk .var decls)
  | _ => []

/-- The declaration that a statement is, if it is hoisted before all others of its list. -/
def Stmt.early? : Stmt → Option Decl
  | .decl (.func name f) => some (.func name f)
  | .decl (.var d) => some (.var d)
  | _ => none

def hoistEarly (site : HoistSite) (ss : List Stmt) : List Step :=
  (ss.filterMap Stmt.early?).flatMap (hoistDecl site)

def ImportItem.binding : ImportItem → Ident
  | .named _ _ binding => binding
  | .default binding => binding
  | .namespace binding => binding

/-- Imported names are declared whether or not they name types only. -/
def declareImports (items : List ImportItem) : List Step :=
  items.map fun i => .declare .lexical i.binding

mutual

/-- Declares what a statement hoists, early declarations of the list apart. -/
def hoistStmt (site : HoistSite) : Stmt → List Step
  | .block body =>
    hoistEarly { site with inBlock := true } body ++ hoistLate { site with inBlock := true } body
  | .with _ body => hoistStmt site body
  | .labelled _ body => hoistStmt site body
  | .ite _ yes none => hoistStmt site yes
  | .ite _ yes (some no) => hoistStmt site yes ++ hoistStmt site no
  | .switch _ cases => hoistCases { site with inBlock := true } cases
  | .try body none none =>
    hoistEarly { site with inBlock := true } body ++ hoistLate { site with inBlock := true } body
  | .try body (some c) none =>
    hoistEarly { site with inBlock := true } body ++ hoistLate { site with inBlock := true } body ++
      hoistCatch site c
  | .try body none (some f) =>
    hoistEarly { site with inBlock := true } body ++ hoistLate { site with inBlock := true } body ++
      (hoistEarly { site with inBlock := true } f ++ hoistLate { site with inBlock := true } f)
  | .try body (some c) (some f) =>
    hoistEarly { site with inBlock := true } body ++ hoistLate { site with inBlock := true } body ++
      hoistCatch site c ++
      (hoistEarly { site with inBlock := true } f ++ hoistLate { site with inBlock := true } f)
  | .while _ body => hoistStmt site body
  | .doWhile body _ => hoistStmt site body
  | .for init _ _ body => hoistHead site init ++ hoistStmt site body
  | .forIn head _ body => hoistHead site head ++ hoistStmt site body
  | .forOf _ head _ body => hoistHead site head ++ hoistStmt site body
  | .decl d => hoistDecl site d
  | .importDecl _ items _ _ => declareImports items
  | .exportDecl d => hoistDecl site d
  | .exportDefaultFunc (some name) _ => [.declare .var name]
  | .exportDefaultClass none c => hoistClass site c
  | .exportDefaultClass (some name) c => .declare .lexical name :: hoistClass site c
  | _ => []

def hoistLate (site : HoistSite) : List Stmt → List Step
  | [] => []
  | s :: ss => (if s.early?.isSome then [] else hoistStmt site s) ++ hoistLate site ss

def hoistCases (site : HoistSite) : List Case → List Step
  | [] => []
  | .mk _ body :: rest => hoistEarly site body ++ hoistLate site body ++ hoistCases site rest

def hoistCatch (site : HoistSite) : Catch → List Step
  | .mk none body =>
    .startHandler :: (hoistEarly (site.handling []) body ++ hoistLate (site.handling []) body ++
      [.endHandler])
  | .mk (some p) body =>
    .startHandler :: (hoistEarly (site.handling p.bound) body ++
      hoistLate (site.handling p.bound) body ++
      p.bound.map (.hoistVar (site.catching p.bound) site.kind) ++ [.endHandler])

/-- A class exported by default hoists what its static blocks do. -/
def hoistClass (site : HoistSite) : Class → List Step
  | .mk _ _ _ _ members => hoistMembers { site with inBlock := true } members

def hoistMembers (site : HoistSite) : List ClassMember → List Step
  | [] => []
  | .staticBlock body :: ms => hoistEarly site body ++ hoistLate site body ++ hoistMembers site ms
  | _ :: ms => hoistMembers site ms

end

def hoistList (strict : Bool) (kind : DeclKind) (ss : List Stmt) : List Step :=
  .startList :: (hoistEarly { strict, kind } ss ++ hoistLate { strict, kind } ss)

def hoistItems (site : HoistSite) : List Stmt → List Step
  | [] => []
  | s :: ss => hoistStmt site s ++ hoistItems site ss

/-- Declares what is visible in all of a program. -/
def hoistTop (isModule strict : Bool) (ss : List Stmt) : List Step :=
  if isModule then hoistItems { strict, kind := .lexical } ss else hoistList strict .lexical ss

end Untangle
