import Untangle.Binding.Hoist
import Untangle.Tree.Edit
import Untangle.Tree.Outline

/-!
# Bindings of a program

`Program.resolved` tags every occurrence of a name with the scope that declares it, so that two
occurrences mean the same variable exactly when their names and tags agree.

* Functions and catch clauses have a scope each, with the parameters in it; so have the names of
  function and class expressions. Classes have one, those exported by default apart.
* Blocks, loops, switches, and object literals have a scope each. The cases of a switch share one,
  but each case declares its statements when it is reached.
* Rest parameters are declared when they are reached, other parameters before all default values.
* Labels, the far names of imports and re-exports, and names in types belong to no scope.
* In scripts the unchangeable global names are free even where the program declares them.

Occurrences are numbered first (`Program.numbered`). The numbered tree is turned into the steps of
resolution in their order (`Program.steps`); these give tags to numbers, and the tags are written
into the tree at the end.
-/

namespace Untangle

/-! ## Numbering -/

def numberEdits : Edits Nat where
  ident := fun id => do
    let n ← get
    set (n + 1)
    return { id with scope := .occurrence n }
  label := fun id => pure { id with scope := .unset }

def Program.numbered (p : Program) : Program := ((editProgram numberEdits p).run 0).1

def tagEdits (tags : List (Nat × ScopeTag)) : Edits Unit where
  ident := fun id => pure { id with scope := match id.scope with
    | .occurrence n => (tags.lookup n).getD .unset
    | tag => tag }

def untagEdits : Edits Unit where
  ident := fun id => pure { id with scope := .unset }

def Program.untagged (p : Program) : Program := ((editProgram untagEdits p).run ()).1

/-! ## Walking the tree -/

/-- What a place in the program inherits. -/
structure Place where
  isModule : Bool
  strict : Bool
  /-- How names that are bound here are declared. -/
  kind : DeclKind := .lexical

def asksStrict : List Stmt → Bool
  | .expr (.lit (.str s)) :: _ => s.raw == some "\"use strict\"" || s.raw == some "'use strict'"
  | _ => false

def addParams : List Pat → List Step
  | [] => []
  | p :: ps =>
    (if !p.isRest && !p.isField then p.bound.map (.declare .param) else []) ++ addParams ps

def referName (c : Place) : ModuleName → List Step
  | .ident id => [.refer c.isModule id]
  | .str _ => []

def resolveExports (c : Place) : List ExportItem → List Step
  | [] => []
  | .named _ item none :: rest => referName c item ++ resolveExports c rest
  | .named _ item (some exported) :: rest =>
    referName c item ++ referName c exported ++ resolveExports c rest
  | .namespace name :: rest => referName c name ++ resolveExports c rest
  | .default name :: rest => .refer c.isModule name :: resolveExports c rest

def resolveIdent (c : Place) (binds : Bool) (id : Ident) : Step :=
  if binds then .declare c.kind id else .refer c.isModule id

def addEnumNames : List EnumMember → List Step
  | [] => []
  | .mk (.ident id) _ :: rest => .declare .lexical id :: addEnumNames rest
  | .mk (.str _) _ :: rest => addEnumNames rest

def afterHoisting (c : Place) (ss : List Stmt) (each : List Step) : List Step :=
  hoistList c.strict c.kind ss ++ each

mutual

def resolveExpr (c : Place) : Expr → List Step
  | .ident id => [.refer c.isModule id]
  | .array elems => resolveExprs c elems
  | .object props => inScope false (resolveProperties c props)
  | .func none f => inScope true (resolveFunc c f)
  | .func (some id) f => inScope true (.declare .func id :: inScope true (resolveFunc c f))
  | .arrow f => inScope true (resolveFunc c f)
  | .cls none k => resolveBase c k ++ inScope true (resolveClass c k)
  | .cls (some id) k => resolveBase c k ++ inScope true (.declare c.kind id :: resolveClass c k)
  | .unary _ arg => resolveExpr c arg
  | .update _ _ arg => resolveExpr c arg
  | .binary _ left right => resolveExpr c left ++ resolveExpr c right
  | .assign _ target value => resolveTarget c target ++ resolveExpr c value
  | .cond test yes no => resolveExpr c test ++ resolveExpr c yes ++ resolveExpr c no
  | .seq exprs => resolveExprs c exprs
  | .member obj prop => resolveExpr c obj ++ resolveAccess c prop
  | .superMember prop => resolveAccess c prop
  | .call callee args => resolveExpr c callee ++ resolveExprs c args
  | .superCall args => resolveExprs c args
  | .importCall args => resolveExprs c args
  | .new callee none => resolveExpr c callee
  | .new callee (some args) => resolveExpr c callee ++ resolveExprs c args
  | .chainMember _ obj prop => resolveExpr c obj ++ resolveAccess c prop
  | .chainCall _ callee args => resolveExpr c callee ++ resolveExprs c args
  | .template _ exprs => resolveExprs c exprs
  | .tagged tag _ exprs => resolveExpr c tag ++ resolveExprs c exprs
  | .yield _ (some e) => resolveExpr c e
  | .await arg => resolveExpr c arg
  | .paren e => resolveExpr c e
  | .spread e => resolveExpr c e
  | .typed _ e _ => resolveExpr c e
  | .typeAssert _ e => resolveExpr c e
  | .nonNull e => resolveExpr c e
  | _ => []

def resolveExprs (c : Place) : List Expr → List Step
  | [] => []
  | e :: es => resolveExpr c e ++ resolveExprs c es

def resolveProperty (c : Place) : Property → List Step
  | .shorthand id => [.refer c.isModule id]
  | .keyValue key value => resolveKey c key ++ resolveExpr c value
  | .initialized id value => .refer c.isModule id :: resolveExpr c value
  | .getter key body =>
    resolveKey c key ++ inScope false (afterHoisting c body (resolveEach c body))
  | .setter key param body =>
    resolveKey c key ++ inScope true (resolvePat c true param ++
      inScope false (afterHoisting c body (resolveEach c body)))
  | .method key f => resolveKey c key ++ inScope true (resolveFunc c f)
  | .spread e => resolveExpr c e

def resolveProperties (c : Place) : List Property → List Step
  | [] => []
  | p :: ps => resolveProperty c p ++ resolveProperties c ps

def resolveKey (c : Place) : PropName → List Step
  | .computed e => resolveExpr c e
  | _ => []

def resolveAccess (c : Place) : MemberProp → List Step
  | .computed e => resolveExpr c e
  | _ => []

def resolveTarget (c : Place) : AssignTarget → List Step
  | .name b => [.refer c.isModule b.id]
  | .member obj prop => resolveExpr c obj ++ resolveAccess c prop
  | .superMember prop => resolveAccess c prop
  | .paren e => resolveExpr c e
  | .chain e => resolveExpr c e
  | .typed e => resolveExpr c e
  | .pattern p => resolvePat c false p

def resolvePat (c : Place) (binds : Bool) : Pat → List Step
  | .name b => [resolveIdent c binds b.id]
  | .array elems _ => resolvePats c binds elems
  | .object props _ => resolvePatProps c binds props
  | .rest p _ => resolvePat c binds p
  | .assign left right => resolvePat c binds left ++ resolveExpr c right
  | .expr e => resolveExpr c e
  | .field _ _ p => resolvePat c binds p
  | .hole => []
  | .invalid => []

def resolvePats (c : Place) (binds : Bool) : List Pat → List Step
  | [] => []
  | p :: ps => resolvePat c binds p ++ resolvePats c binds ps

def resolvePatProp (c : Place) (binds : Bool) : PatProp → List Step
  | .keyValue key value => resolveKey c key ++ resolvePat c binds value
  | .assign b none => [resolveIdent c binds b.id]
  | .assign b (some e) => resolveIdent c binds b.id :: resolveExpr c e
  | .rest p => resolvePat c binds p

def resolvePatProps (c : Place) (binds : Bool) : List PatProp → List Step
  | [] => []
  | p :: ps => resolvePatProp c binds p ++ resolvePatProps c binds ps

def resolveFunc (c : Place) : Func → List Step
  | .mk _ _ _ params _ body => addParams params ++ resolvePats c true params ++ resolveBody c body

def resolveBody (c : Place) : Body → List Step
  | .absent => []
  | .expr e => resolveExpr c e
  | .block stmts =>
    let c := { c with strict := c.strict || asksStrict stmts }
    afterHoisting c stmts (resolveEach c stmts)

/-- The base of a class expression, which stands outside the class. -/
def resolveBase (c : Place) : Class → List Step
  | .mk _ _ (some e) _ _ => resolveExpr c e
  | .mk _ _ none _ _ => []

def resolveClass (c : Place) : Class → List Step
  | .mk _ _ (some e) _ members =>
    resolveExpr { c with strict := true } e ++ resolveMembers { c with strict := true } members
  | .mk _ _ none _ members => resolveMembers { c with strict := true } members

def resolveMember (c : Place) : ClassMember → List Step
  | .ctor _ _ params body =>
    inScope true (addParams params ++ resolvePats c true params ++ resolveBody c body)
  | .method _ _ key f => resolveKey c key ++ inScope true (resolveFunc c f)
  | .field _ key _ none => resolveKey c key
  | .field _ key _ (some e) => resolveKey c key ++ resolveExpr c e
  | .staticBlock body => inScope false (afterHoisting c body (resolveEach c body))
  | .empty => []

def resolveMembers (c : Place) : List ClassMember → List Step
  | [] => []
  | m :: ms => resolveMember c m ++ resolveMembers c ms

def resolveStmt (c : Place) (isLoopBody : Bool) : Stmt → List Step
  | .expr e => resolveExpr c e
  | .block body =>
    if isLoopBody then afterHoisting c body (resolveEach c body)
    else inScope false (afterHoisting c body (resolveEach c body))
  | .with obj body => resolveExpr c obj ++ resolveStmt c false body
  | .return (some e) => resolveExpr c e
  | .labelled _ body => resolveStmt c false body
  | .ite test yes none => resolveExpr c test ++ resolveStmt c false yes
  | .ite test yes (some no) => resolveExpr c test ++ resolveStmt c false yes ++ resolveStmt c false no
  | .switch disc cases => resolveExpr c disc ++ inScope false (resolveCases c cases)
  | .throw arg => resolveExpr c arg
  | .try body none none => inScope false (afterHoisting c body (resolveEach c body))
  | .try body (some k) none =>
    inScope false (afterHoisting c body (resolveEach c body)) ++ resolveCatch c k
  | .try body none (some f) =>
    inScope false (afterHoisting c body (resolveEach c body)) ++
      inScope false (afterHoisting c f (resolveEach c f))
  | .try body (some k) (some f) =>
    inScope false (afterHoisting c body (resolveEach c body)) ++ resolveCatch c k ++
      inScope false (afterHoisting c f (resolveEach c f))
  | .while test body => resolveExpr c test ++ resolveStmt c false body
  | .doWhile body test => resolveStmt c false body ++ resolveExpr c test
  | .for init test step body =>
    inScope false (resolveHead c init ++ resolveOptional c test ++ resolveOptional c step ++
      inScope false (resolveStmt c true body))
  | .forIn head obj body =>
    inScope false (resolveHead c head ++ resolveExpr c obj ++
      inScope false (resolveStmt c true body))
  | .forOf _ head obj body =>
    inScope false (resolveHead c head ++ resolveExpr c obj ++
      inScope false (resolveStmt c true body))
  | .decl d => resolveDecl c d
  | .importDecl _ items _ _ => declareImports items
  | .exportDecl d => resolveDecl c d
  | .exportNamed _ items none _ => resolveExports c items
  | .exportDefaultExpr e => resolveExpr c e
  | .exportDefaultFunc none f => inScope true (resolveFunc c f)
  | .exportDefaultFunc (some id) f => .declare .func id :: inScope true (resolveFunc c f)
  | .exportDefaultClass none k => resolveClass c k
  | .exportDefaultClass (some id) k => .declare .lexical id :: resolveClass c k
  | _ => []

def resolveOptional (c : Place) : Option Expr → List Step
  | some e => resolveExpr c e
  | none => []

def resolveEach (c : Place) : List Stmt → List Step
  | [] => []
  | s :: ss => resolveStmt c false s ++ resolveEach c ss

def resolveCatch (c : Place) : Catch → List Step
  | .mk none body => inScope true (afterHoisting c body (resolveEach c body))
  | .mk (some p) body =>
    inScope true (resolvePat c true p ++ afterHoisting c body (resolveEach c body))

def resolveCases (c : Place) : List Case → List Step
  | [] => []
  | .mk none body :: rest => afterHoisting c body (resolveEach c body) ++ resolveCases c rest
  | .mk (some e) body :: rest =>
    afterHoisting c body (resolveEach c body) ++ resolveExpr c e ++ resolveCases c rest

def resolveHead (c : Place) : ForHead → List Step
  | .absent => []
  | .var d => resolveVarDecl c d
  | .pat p => resolvePat c false p
  | .expr e => resolveExpr c e

def resolveVarDecl (c : Place) : VarDecl → List Step
  | .mk kind decls => resolveDeclarators { c with kind := .ofVar kind } decls

def resolveDeclarators (c : Place) : List Declarator → List Step
  | [] => []
  | .mk target none _ :: rest => resolvePat c true target ++ resolveDeclarators c rest
  | .mk target (some e) _ :: rest =>
    resolvePat c true target ++ resolveExpr c e ++ resolveDeclarators c rest

def resolveDecl (c : Place) : Decl → List Step
  | .func _ f => inScope true (resolveFunc c f)
  | .cls name k => .declare .lexical name :: inScope true (resolveClass c k)
  | .var d => resolveVarDecl c d
  | .enum _ name members =>
    .declare .lexical name :: inScope false (addEnumNames members ++ resolveEnumMembers c members)
  | _ => []

def resolveEnumMembers (c : Place) : List EnumMember → List Step
  | [] => []
  | .mk name none :: rest => referName c name ++ resolveEnumMembers c rest
  | .mk name (some e) :: rest => referName c name ++ resolveExpr c e ++ resolveEnumMembers c rest

end

/-! ## Programs -/

def Program.steps (p : Program) : List Step :=
  let c : Place := { isModule := p.isModule, strict := p.isModule || asksStrict p.body }
  hoistTop c.isModule c.strict p.body ++ resolveEach c p.body

/-- What is known before the first step: a scope for the top level. -/
def Resolution.start : Resolution := { scopes := [{ tag := .top, isFunction := true }] }

def Program.tags (p : Program) : List (Nat × ScopeTag) :=
  (p.steps.foldl Step.run .start).tags

/-- A program with every occurrence tagged by the scope that declares it. -/
def Program.resolved (p : Program) : Program :=
  let q := p.numbered
  ((editProgram (tagEdits q.tags) q).run ()).1

end Untangle
