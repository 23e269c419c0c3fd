import Untangle.Tree.Node

/-!
# Outlines

Questions about a tree ("which names are declared?", "is there a call of `eval`?") are asked of its
outline: one kind of node, each labelled with what stands there, the parts in the order of
evaluation. A question that stops at functions, or looks at some parts only, chooses among the parts
of a node.

* `outlineExpr`, `outlineStmt`, `outlineProgram` — the outlines of trees.

The parts of an access are the object and then what follows it; those of a declarator are its target
and then its initial value.
-/

namespace Untangle

/-- What stands at a node of an outline. -/
inductive Item
  /-- An occurrence of a name, labels and names in types among them. -/
  | ident (id : Ident)
  /-- A name that is bound or assigned. -/
  | binding (b : BindingName)
  | str (s : StrLit)
  | num (n : NumLit)
  | expr (e : Expr)
  /-- A member access, also as a target and in a chain. -/
  | access (obj : Expr) (prop : MemberProp)
  | superAccess (prop : MemberProp)
  | property (p : Property)
  | pat (p : Pat)
  /-- A parameter of a function or constructor; those of arrows are not marked. -/
  | param (p : Pat)
  /-- The function of an expression, declaration or method; arrows, accessors of object literals
  and constructors have none. -/
  | func (f : Func)
  | cls (c : Class)
  | stmt (s : Stmt)
  | caught (c : Catch)
  | varDecl (d : VarDecl)
  | declarator (d : Declarator)
  | funcDecl (name : Ident) (f : Func)
  | classDecl (name : Ident) (c : Class)
  | importItem (i : ImportItem)

/-- An item over the outlines of its parts. -/
inductive Outline
  | node (item : Item) (parts : List Outline)

namespace Outline

def leaf (i : Item) : Outline := .node i []

mutual

def items : Outline → List Item
  | .node i parts => i :: itemsOf parts

def itemsOf : List Outline → List Item
  | [] => []
  | o :: os => items o ++ itemsOf os

end

end Outline

open Outline (leaf)

/-! ## Names, literals and types -/

def outlineLit : Lit → List Outline
  | .str s => [leaf (.str s)]
  | .num n => [leaf (.num n)]
  | _ => []

def outlineIdents (ids : List Ident) : List Outline := ids.map fun id => leaf (.ident id)

mutual

def outlineType : TypeExpr → List Outline
  | .keyword _ => []
  | .ref path args => outlineIdents path ++ outlineTypes args
  | .union parts => outlineTypes parts
  | .intersection parts => outlineTypes parts
  | .array elem => outlineType elem
  | .tuple elems => outlineTypes elems
  | .lit l => outlineLit l
  | .paren t => outlineType t
  | .typeQuery path => outlineIdents path

def outlineTypes : List TypeExpr → List Outline
  | [] => []
  | t :: ts => outlineType t ++ outlineTypes ts

end

def outlineAnn : Option TypeExpr → List Outline
  | some t => outlineType t
  | none => []

def outlineTypeParams (ts : List TypeParam) : List Outline :=
  ts.flatMap fun t => leaf (.ident t.name) :: (outlineAnn t.bound ++ outlineAnn t.fallback)

def outlineBinding (b : BindingName) : Outline :=
  .node (.binding b) (leaf (.ident b.id) :: outlineAnn b.ann)

/-- The keys of an interface count as names. -/
def outlineSignature : Signature → List Outline
  | .property _ key _ type => leaf (.ident { name := key }) :: outlineAnn type
  | .method key _ params ret =>
    leaf (.ident { name := key }) :: (params.map outlineBinding ++ outlineAnn ret)

def outlineInterface (i : Interface) : List Outline :=
  leaf (.ident i.name) ::
    (outlineTypeParams i.typeParams ++ outlineTypes i.bases ++ i.members.flatMap outlineSignature)

def outlineModuleName : ModuleName → Outline
  | .ident id => leaf (.ident id)
  | .str s => leaf (.str s)

def outlineModuleName? : Option ModuleName → List Outline
  | some n => [outlineModuleName n]
  | none => []

def outlineImport : ImportItem → Outline
  | .named isType imported binding =>
    .node (.importItem (.named isType imported binding))
      (leaf (.ident binding) :: outlineModuleName? imported)
  | .default binding => .node (.importItem (.default binding)) [leaf (.ident binding)]
  | .namespace binding => .node (.importItem (.namespace binding)) [leaf (.ident binding)]

def outlineExport : ExportItem → List Outline
  | .named _ item exported => outlineModuleName item :: outlineModuleName? exported
  | .namespace name => [outlineModuleName name]
  | .default name => [leaf (.ident name)]

def outlineIdent? : Option Ident → List Outline
  | some id => [leaf (.ident id)]
  | none => []

def outlineStr? : Option StrLit → List Outline
  | some s => [leaf (.str s)]
  | none => []

/-! ## Expressions and statements -/

mutual

def outlineExpr : Expr → Outline
  | .ident id => .node (.expr (.ident id)) [leaf (.ident id)]
  | .lit l => .node (.expr (.lit l)) (outlineLit l)
  | .array elems => .node (.expr (.array elems)) (outlineExprs elems)
  | .object props => .node (.expr (.object props)) (outlineProperties props)
  | .func name f => .node (.expr (.func name f)) (outlineIdent? name ++ [outlineFunction f])
  | .arrow f => .node (.expr (.arrow f)) (outlineArrow f)
  | .cls name c => .node (.expr (.cls name c)) (outlineIdent? name ++ [outlineClass c])
  | .unary op arg => .node (.expr (.unary op arg)) [outlineExpr arg]
  | .update op before arg => .node (.expr (.update op before arg)) [outlineExpr arg]
  | .binary op left right =>
    .node (.expr (.binary op left right)) [outlineExpr left, outlineExpr right]
  | .assign op target value =>
    .node (.expr (.assign op target value)) (outlineTarget target ++ [outlineExpr value])
  | .cond test yes no =>
    .node (.expr (.cond test yes no)) [outlineExpr test, outlineExpr yes, outlineExpr no]
  | .seq exprs => .node (.expr (.seq exprs)) (outlineExprs exprs)
  | .member obj prop =>
    .node (.expr (.member obj prop))
      [.node (.access obj prop) (outlineExpr obj :: outlineAccess prop)]
  | .superMember prop =>
    .node (.expr (.superMember prop)) [.node (.superAccess prop) (outlineAccess prop)]
  | .call callee args => .node (.expr (.call callee args)) (outlineExpr callee :: outlineExprs args)
  | .superCall args => .node (.expr (.superCall args)) (outlineExprs args)
  | .importCall args => .node (.expr (.importCall args)) (outlineExprs args)
  | .new callee args => .node (.expr (.new callee args)) (outlineExpr callee :: outlineExprs? args)
  | .chainMember optional obj prop =>
    .node (.expr (.chainMember optional obj prop))
      [.node (.access obj prop) (outlineExpr obj :: outlineAccess prop)]
  | .chainCall optional callee args =>
    .node (.expr (.chainCall optional callee args)) (outlineExpr callee :: outlineExprs args)
  | .template quasis exprs => .node (.expr (.template quasis exprs)) (outlineExprs exprs)
  | .tagged tag quasis exprs =>
    .node (.expr (.tagged tag quasis exprs)) (outlineExpr tag :: outlineExprs exprs)
  | .yield delegate arg => .node (.expr (.yield delegate arg)) (outlineExpr? arg)
  | .await arg => .node (.expr (.await arg)) [outlineExpr arg]
  | .paren e => .node (.expr (.paren e)) [outlineExpr e]
  | .spread e => .node (.expr (.spread e)) [outlineExpr e]
  | .typed op e t => .node (.expr (.typed op e t)) (outlineExpr e :: outlineType t)
  | .typeAssert t e => .node (.expr (.typeAssert t e)) (outlineExpr e :: outlineType t)
  | .nonNull e => .node (.expr (.nonNull e)) [outlineExpr e]
  | e => leaf (.expr e)

@[simp] def outlineExpr? : Option Expr → List Outline
  | some e => [outlineExpr e]
  | none => []

def outlineExprs : List Expr → List Outline
  | [] => []
  | e :: es => outlineExpr e :: outlineExprs es

@[simp] def outlineExprs? : Option (List Expr) → List Outline
  | some es => outlineExprs es
  | none => []

def outlineProperty : Property → Outline
  | .shorthand id => .node (.property (.shorthand id)) [leaf (.ident id)]
  | .keyValue key value =>
    .node (.property (.keyValue key value)) (outlineKey key ++ [outlineExpr value])
  | .initialized id value =>
    .node (.property (.initialized id value)) [leaf (.ident id), outlineExpr value]
  | .getter key body =>
    .node (.property (.getter key body)) (outlineKey key ++ outlineStmts body)
  | .setter key param body =>
    .node (.property (.setter key param body))
      (outlineKey key ++ (outlinePat param :: outlineStmts body))
  | .method key f => .node (.property (.method key f)) (outlineKey key ++ [outlineFunction f])
  | .spread e => .node (.property (.spread e)) [outlineExpr e]

def outlineProperties : List Property → List Outline
  | [] => []
  | p :: ps => outlineProperty p :: outlineProperties ps

@[simp] def outlineProperties? : Option (List Property) → List Outline
  | some ps => outlineProperties ps
  | none => []

def outlineKey : PropName → List Outline
  | .str s => [leaf (.str s)]
  | .num n => [leaf (.num n)]
  | .computed e => [outlineExpr e]
  | _ => []

def outlineAccess : MemberProp → List Outline
  | .computed e => [outlineExpr e]
  | _ => []

def outlineTarget : AssignTarget → List Outline
  | .name b => [outlineBinding b]
  | .member obj prop => [.node (.access obj prop) (outlineExpr obj :: outlineAccess prop)]
  | .superMember prop => [.node (.superAccess prop) (outlineAccess prop)]
  | .paren e => [outlineExpr e]
  | .chain e => [outlineExpr e]
  | .typed e => [outlineExpr e]
  | .pattern p => [outlinePat p]

def outlinePat : Pat → Outline
  | .name b => .node (.pat (.name b)) [outlineBinding b]
  | .array elems ann => .node (.pat (.array elems ann)) (outlinePats elems ++ outlineAnn ann)
  | .object props ann => .node (.pat (.object props ann)) (outlinePatProps props ++ outlineAnn ann)
  | .rest p ann => .node (.pat (.rest p ann)) (outlinePat p :: outlineAnn ann)
  | .assign left right => .node (.pat (.assign left right)) [outlinePat left, outlineExpr right]
  | .expr e => .node (.pat (.expr e)) [outlineExpr e]
  | .hole => leaf (.pat .hole)
  | .field access isReadonly p => .node (.pat (.field access isReadonly p)) [outlinePat p]
  | .invalid => leaf (.pat .invalid)

def outlinePats : List Pat → List Outline
  | [] => []
  | p :: ps => outlinePat p :: outlinePats ps

@[simp] def outlinePat? : Option Pat → List Outline
  | some p => [outlinePat p]
  | none => []

def outlinePatProp : PatProp → List Outline
  | .keyValue key value => outlineKey key ++ [outlinePat value]
  | .assign b value => outlineBinding b :: outlineExpr? value
  | .rest p => [outlinePat p]

def outlinePatProps : List PatProp → List Outline
  | [] => []
  | p :: ps => outlinePatProp p ++ outlinePatProps ps

def outlineFunction : Func → Outline
  | .mk isAsync isGenerator typeParams params ret body =>
    .node (.func (.mk isAsync isGenerator typeParams params ret body))
      (outlineParams params ++ outlineBody body ++ outlineTypeParams typeParams ++ outlineAnn ret)

def outlineArrow : Func → List Outline
  | .mk _ _ typeParams params ret body =>
    outlinePats params ++ outlineBody body ++ outlineTypeParams typeParams ++ outlineAnn ret

/-- Marked parameters; one that declares a field is not marked. -/
def outlineParams : List Pat → List Outline
  | [] => []
  | .field access isReadonly p :: ps =>
    .node (.pat (.field access isReadonly p)) [outlinePat p] :: outlineParams ps
  | p :: ps => .node (.param p) [outlinePat p] :: outlineParams ps

def outlineBody : Body → List Outline
  | .absent => []
  | .expr e => [outlineExpr e]
  | .block stmts => outlineStmts stmts

def outlineClass : Class → Outline
  | .mk isAbstract typeParams base implemented members =>
    .node (.cls (.mk isAbstract typeParams base implemented members))
      (outlineMembers members ++ outlineExpr? base ++ outlineTypeParams typeParams ++
        outlineTypes implemented)

def outlineMember : ClassMember → List Outline
  | .ctor _ key params body => outlineKey key ++ outlineParams params ++ outlineBody body
  | .method _ _ key f => outlineKey key ++ [outlineFunction f]
  | .field _ key ann value => outlineKey key ++ outlineExpr? value ++ outlineAnn ann
  | .staticBlock body => outlineStmts body
  | .empty => []

def outlineMembers : List ClassMember → List Outline
  | [] => []
  | m :: ms => outlineMember m ++ outlineMembers ms

def outlineStmt : Stmt → Outline
  | .expr e => .node (.stmt (.expr e)) [outlineExpr e]
  | .block body => .node (.stmt (.block body)) (outlineStmts body)
  | .empty => leaf (.stmt .empty)
  | .debugger => leaf (.stmt .debugger)
  | .with obj body => .node (.stmt (.with obj body)) [outlineExpr obj, outlineStmt body]
  | .return arg => .node (.stmt (.return arg)) (outlineExpr? arg)
  | .labelled label body =>
    .node (.stmt (.labelled label body)) [leaf (.ident label), outlineStmt body]
  | .break label => .node (.stmt (.break label)) (outlineIdent? label)
  | .continue label => .node (.stmt (.continue label)) (outlineIdent? label)
  | .ite test yes no =>
    .node (.stmt (.ite test yes no)) (outlineExpr test :: outlineStmt yes :: outlineStmt? no)
  | .switch disc cases =>
    .node (.stmt (.switch disc cases)) (outlineExpr disc :: outlineCases cases)
  | .throw arg => .node (.stmt (.throw arg)) [outlineExpr arg]
  | .try body handler finalizer =>
    .node (.stmt (.try body handler finalizer))
      (outlineStmts body ++ outlineCatch? handler ++ outlineStmts? finalizer)
  | .while test body => .node (.stmt (.while test body)) [outlineExpr test, outlineStmt body]
  | .doWhile body test => .node (.stmt (.doWhile body test)) [outlineExpr test, outlineStmt body]
  | .for init test step body =>
    .node (.stmt (.for init test step body))
      (outlineHead init ++ outlineExpr? test ++ outlineExpr? step ++ [outlineStmt body])
  | .forIn head obj body =>
    .node (.stmt (.forIn head obj body)) (outlineHead head ++ [outlineExpr obj, outlineStmt body])
  | .forOf isAwait head obj body =>
    .node (.stmt (.forOf isAwait head obj body))
      (outlineHead head ++ [outlineExpr obj, outlineStmt body])
  | .decl d => .node (.stmt (.decl d)) (outlineDecl d)
  | .importDecl isType items source attrs =>
    .node (.stmt (.importDecl isType items source attrs))
      (items.map outlineImport ++ (leaf (.str source) :: outlineProperties? attrs))
  | .exportDecl d => .node (.stmt (.exportDecl d)) (outlineDecl d)
  | .exportNamed isType items source attrs =>
    .node (.stmt (.exportNamed isType items source attrs))
      (items.flatMap outlineExport ++ outlineStr? source ++ outlineProperties? attrs)
  | .exportAll isType source attrs =>
    .node (.stmt (.exportAll isType source attrs)) (leaf (.str source) :: outlineProperties? attrs)
  | .exportDefaultExpr e => .node (.stmt (.exportDefaultExpr e)) [outlineExpr e]
  | .exportDefaultFunc name f =>
    .node (.stmt (.exportDefaultFunc name f)) (outlineIdent? name ++ [outlineFunction f])
  | .exportDefaultClass name c =>
    .node (.stmt (.exportDefaultClass name c)) (outlineIdent? name ++ [outlineClass c])
  | .exportDefaultInterface i => .node (.stmt (.exportDefaultInterface i)) (outlineInterface i)

def outlineStmts : List Stmt → List Outline
  | [] => []
  | s :: ss => outlineStmt s :: outlineStmts ss

@[simp] def outlineStmt? : Option Stmt → List Outline
  | some s => [outlineStmt s]
  | none => []

@[simp] def outlineStmts? : Option (List Stmt) → List Outline
  | some ss => outlineStmts ss
  | none => []

def outlineCatch : Catch → Outline
  | .mk param body =>
    .node (.caught (.mk param body)) (outlinePat? param ++ outlineStmts body)

@[simp] def outlineCatch? : Option Catch → List Outline
  | some c => [outlineCatch c]
  | none => []

def outlineCase : Case → List Outline
  | .mk test body => outlineExpr? test ++ outlineStmts body

def outlineCases : List Case → List Outline
  | [] => []
  | c :: cs => outlineCase c ++ outlineCases cs

def outlineHead : ForHead → List Outline
  | .absent => []
  | .var d => [outlineVarDecl d]
  | .pat p => [outlinePat p]
  | .expr e => [outlineExpr e]

def outlineVarDecl : VarDecl → Outline
  | .mk kind decls => .node (.varDecl (.mk kind decls)) (outlineDeclarators decls)

def outlineDeclarator : Declarator → Outline
  | .mk target init definite =>
    .node (.declarator (.mk target init definite)) (outlinePat target :: outlineExpr? init)

def outlineDeclarators : List Declarator → List Outline
  | [] => []
  | d :: ds => outlineDeclarator d :: outlineDeclarators ds

def outlineDecl : Decl → List Outline
  | .func name f => [.node (.funcDecl name f) [leaf (.ident name), outlineFunction f]]
  | .cls name c => [.node (.classDecl name c) [leaf (.ident name), outlineClass c]]
  | .var d => [outlineVarDecl d]
  | .iface i => outlineInterface i
  | .typeAlias name typeParams t =>
    leaf (.ident name) :: (outlineTypeParams typeParams ++ outlineType t)
  | .enum _ name members => leaf (.ident name) :: outlineEnumMembers members
  | .ambient d => outlineDecl d

def outlineEnumMember : EnumMember → List Outline
  | .mk name init =>
    outlineModuleName name :: outlineExpr? init

def outlineEnumMembers : List EnumMember → List Outline
  | [] => []
  | m :: ms => outlineEnumMember m ++ outlineEnumMembers ms

end

theorem outlineStmts_eq_map (ss : List Stmt) : outlineStmts ss = ss.map outlineStmt := by
  induction ss with
  | nil => rfl
  | cons s ss ih => simp [outlineStmts, ih]

theorem outlineDeclarators_eq_map (ds : List Declarator) :
    outlineDeclarators ds = ds.map outlineDeclarator := by
  induction ds with
  | nil => rfl
  | cons d ds ih => simp [outlineDeclarators, ih]

def outlineProgram (p : Program) : List Outline := outlineStmts p.body

def Program.items (p : Program) : List Item := Outline.itemsOf (outlineProgram p)

/-! ## Occurrences of names -/

def Item.ident? : Item → Option Ident
  | .ident id => some id
  | _ => none

def identsOf (os : List Outline) : List Ident := (Outline.itemsOf os).filterMap Item.ident?

def Expr.mentions (e : Expr) : List Binding := (identsOf [outlineExpr e]).map Ident.binding

def Func.mentions (f : Func) : List Binding := (identsOf [outlineFunction f]).map Ident.binding

/-- The variables that a program mentions, once per occurrence. -/
def Program.references (p : Program) : List Binding :=
  (identsOf (outlineProgram p)).map Ident.binding

/-- The names that a program uses, once per occurrence. -/
def Program.names (p : Program) : List String := (identsOf (outlineProgram p)).map Ident.name

end Untangle
