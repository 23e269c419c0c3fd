import Untangle.Tree.Node

/-!
# Changing trees

Passes change trees from the inside out: the parts of a node first, then the node. `Edits` says what
to do where, and each edit may keep a tally in a state.

Where a node stands matters to some passes, so there are several edits for expressions and
statements. An expression under an access, a call or a tag, where parentheses around an optional
chain would end it, gets `base`, any other `expr`. A statement in a list is edited with the list;
one after a label gets `labelled`; any other gets `single`.
-/

namespace Untangle

/-- What to do with each kind of node, its parts being done. -/
structure Edits (σ : Type) where
  ident : Ident → StateM σ Ident := pure
  /-- For the labels of statements and jumps. -/
  label : Ident → StateM σ Ident := ident
  str : StrLit → StateM σ StrLit := pure
  num : NumLit → StateM σ NumLit := pure
  expr : Expr → StateM σ Expr := pure
  /-- For objects of accesses, callees and tags. -/
  base : Expr → StateM σ Expr := expr
  /-- For the functions of arrow expressions. -/
  arrow : Func → StateM σ Func := pure
  key : PropName → StateM σ PropName := pure
  access : MemberProp → StateM σ MemberProp := pure
  varDecl : VarDecl → StateM σ VarDecl := pure
  /-- For a statement that is the whole body or branch of another. -/
  single : Stmt → StateM σ Stmt := pure
  /-- For a statement after a label. -/
  labelled : Stmt → StateM σ Stmt := single
  /-- For the statements of a block or body. -/
  list : List Stmt → StateM σ (List Stmt) := pure

variable {σ : Type}

/-! ## Names, literals and types -/

def editLit (w : Edits σ) : Lit → StateM σ Lit
  | .str s => do return .str (← w.str s)
  | .num n => do return .num (← w.num n)
  | l => pure l

def editIdents (w : Edits σ) : List Ident → StateM σ (List Ident)
  | [] => pure []
  | id :: ids => do return (← w.ident id) :: (← editIdents w ids)

mutual

def editType (w : Edits σ) : TypeExpr → StateM σ TypeExpr
  | .keyword word => pure (.keyword word)
  | .ref path args => do return .ref (← editIdents w path) (← editTypes w args)
  | .union parts => do return .union (← editTypes w parts)
  | .intersection parts => do return .intersection (← editTypes w parts)
  | .array elem => do return .array (← editType w elem)
  | .tuple elems => do return .tuple (← editTypes w elems)
  | .lit l => do return .lit (← editLit w l)
  | .paren t => do return .paren (← editType w t)
  | .typeQuery path => do return .typeQuery (← editIdents w path)

def editTypes (w : Edits σ) : List TypeExpr → StateM σ (List TypeExpr)
  | [] => pure []
  | t :: ts => do return (← editType w t) :: (← editTypes w ts)

end

def editAnn (w : Edits σ) : Option TypeExpr → StateM σ (Option TypeExpr)
  | some t => do return some (← editType w t)
  | none => pure none

def editTypeParams (w : Edits σ) : List TypeParam → StateM σ (List TypeParam)
  | [] => pure []
  | t :: ts => do
    let name ← w.ident t.name
    let bound ← editAnn w t.bound
    let fallback ← editAnn w t.fallback
    return { name, bound, fallback } :: (← editTypeParams w ts)

def editBinding (w : Edits σ) (b : BindingName) : StateM σ BindingName := do
  let id ← w.ident b.id
  let ann ← editAnn w b.ann
  return { b with id, ann }

def editBindings (w : Edits σ) : List BindingName → StateM σ (List BindingName)
  | [] => pure []
  | b :: bs => do return (← editBinding w b) :: (← editBindings w bs)

def editSignatures (w : Edits σ) : List Signature → StateM σ (List Signature)
  | [] => pure []
  | .property isReadonly key optional type :: rest => do
    let type ← editAnn w type
    return .property isReadonly key optional type :: (← editSignatures w rest)
  | .method key optional params ret :: rest => do
    let params ← editBindings w params
    let ret ← editAnn w ret
    return .method key optional params ret :: (← editSignatures w rest)

def editInterface (w : Edits σ) (i : Interface) : StateM σ Interface := do
  let name ← w.ident i.name
  let typeParams ← editTypeParams w i.typeParams
  let bases ← editTypes w i.bases
  let members ← editSignatures w i.members
  return { name, typeParams, bases, members }

def editModuleName (w : Edits σ) : ModuleName → StateM σ ModuleName
  | .ident id => do return .ident (← w.ident id)
  | .str s => do return .str (← w.str s)

def editModuleName? (w : Edits σ) : Option ModuleName → StateM σ (Option ModuleName)
  | some n => do return some (← editModuleName w n)
  | none => pure none

def editImports (w : Edits σ) : List ImportItem → StateM σ (List ImportItem)
  | [] => pure []
  | .named isType imported binding :: rest => do
    let binding ← w.ident binding
    let imported ← editModuleName? w imported
    return .named isType imported binding :: (← editImports w rest)
  | .default binding :: rest => do
    return .default (← w.ident binding) :: (← editImports w rest)
  | .namespace binding :: rest => do
    return .namespace (← w.ident binding) :: (← editImports w rest)

def editExports (w : Edits σ) : List ExportItem → StateM σ (List ExportItem)
  | [] => pure []
  | .named isType item exported :: rest => do
    let item ← editModuleName w item
    let exported ← editModuleName? w exported
    return .named isType item exported :: (← editExports w rest)
  | .namespace name :: rest => do
    return .namespace (← editModuleName w name) :: (← editExports w rest)
  | .default name :: rest => do
    return .default (← w.ident name) :: (← editExports w rest)

def editIdent? (w : Edits σ) : Option Ident → StateM σ (Option Ident)
  | some id => do return some (← w.ident id)
  | none => pure none

def editLabel? (w : Edits σ) : Option Ident → StateM σ (Option Ident)
  | some id => do return some (← w.label id)
  | none => pure none

def editStr? (w : Edits σ) : Option StrLit → StateM σ (Option StrLit)
  | some s => do return some (← w.str s)
  | none => pure none

/-- A member of an object literal whose key and name were written as one. The key keeps its
spelling, so a name that has changed is written apart. -/
def Property.ofName (key : String) (id : Ident) : Property :=
  if id.name = key then .shorthand id else .keyValue (.name key) (.ident id)

def PatProp.ofName (key : String) (b : BindingName) (value : Option Expr) : PatProp :=
  if b.id.name = key then .assign b value
  else .keyValue (.name key) (match value with
    | some e => .assign (.name b) e
    | none => .name b)

/-! ## Expressions and statements -/

mutual

def editParts (w : Edits σ) : Expr → StateM σ Expr
  | .this => pure .this
  | .ident id => do return .ident (← w.ident id)
  | .lit l => do return .lit (← editLit w l)
  | .array elems => do return .array (← editExprs w elems)
  | .object props => do return .object (← editProperties w props)
  | .func name f => do
    let name ← editIdent? w name
    return .func name (← editFunc w f)
  | .arrow f => do
    let f ← editFunc w f
    return .arrow (← w.arrow f)
  | .cls name c => do
    let name ← editIdent? w name
    return .cls name (← editClass w c)
  | .unary op arg => do return .unary op (← w.expr (← editParts w arg))
  | .update op before arg => do return .update op before (← w.expr (← editParts w arg))
  | .binary op left right => do
    let left ← w.expr (← editParts w left)
    let right ← w.expr (← editParts w right)
    return .binary op left right
  | .assign op target value => do
    let target ← editTarget w target
    let value ← w.expr (← editParts w value)
    return .assign op target value
  | .cond test yes no => do
    let test ← w.expr (← editParts w test)
    let yes ← w.expr (← editParts w yes)
    let no ← w.expr (← editParts w no)
    return .cond test yes no
  | .seq exprs => do return .seq (← editExprs w exprs)
  | .member obj prop => do
    let obj ← w.base (← editParts w obj)
    return .member obj (← editAccess w prop)
  | .superMember prop => do return .superMember (← editAccess w prop)
  | .call callee args => do
    let callee ← w.base (← editParts w callee)
    return .call callee (← editExprs w args)
  | .superCall args => do return .superCall (← editExprs w args)
  | .importCall args => do return .importCall (← editExprs w args)
  | .new callee args => do
    let callee ← w.base (← editParts w callee)
    return .new callee (← editExprs? w args)
  | .chainMember optional obj prop => do
    let obj ← w.base (← editParts w obj)
    return .chainMember optional obj (← editAccess w prop)
  | .chainCall optional callee args => do
    let callee ← w.base (← editParts w callee)
    return .chainCall optional callee (← editExprs w args)
  | .template quasis exprs => do return .template quasis (← editExprs w exprs)
  | .tagged tag quasis exprs => do
    let tag ← w.base (← editParts w tag)
    return .tagged tag quasis (← editExprs w exprs)
  | .yield delegate arg => do return .yield delegate (← editExpr? w arg)
  | .await arg => do return .await (← w.expr (← editParts w arg))
  | .paren e => do return .paren (← w.expr (← editParts w e))
  | .spread e => do return .spread (← w.expr (← editParts w e))
  | .hole => pure .hole
  | .newTarget => pure .newTarget
  | .importMeta => pure .importMeta
  | .privateName name => pure (.privateName name)
  | .placeholder => pure .placeholder
  | .typed op e t => do
    let e ← w.expr (← editParts w e)
    return .typed op e (← editType w t)
  | .typeAssert t e => do
    let e ← w.expr (← editParts w e)
    return .typeAssert (← editType w t) e
  | .nonNull e => do return .nonNull (← w.expr (← editParts w e))

def editExpr? (w : Edits σ) : Option Expr → StateM σ (Option Expr)
  | some e => do return some (← w.expr (← editParts w e))
  | none => pure none

def editExprs (w : Edits σ) : List Expr → StateM σ (List Expr)
  | [] => pure []
  | e :: es => do
    let e ← w.expr (← editParts w e)
    return e :: (← editExprs w es)

def editExprs? (w : Edits σ) : Option (List Expr) → StateM σ (Option (List Expr))
  | some es => do return some (← editExprs w es)
  | none => pure none

def editProperty (w : Edits σ) : Property → StateM σ Property
  | .shorthand id => do return .ofName id.name (← w.ident id)
  | .keyValue key value => do
    let key ← editKey w key
    return .keyValue key (← w.expr (← editParts w value))
  | .initialized id value => do
    let id ← w.ident id
    return .initialized id (← w.expr (← editParts w value))
  | .getter key body => do
    let key ← editKey w key
    return .getter key (← w.list (← editStmts w body))
  | .setter key param body => do
    let key ← editKey w key
    let param ← editPat w param
    return .setter key param (← w.list (← editStmts w body))
  | .method key f => do
    let key ← editKey w key
    return .method key (← editFunc w f)
  | .spread e => do return .spread (← w.expr (← editParts w e))

def editProperties (w : Edits σ) : List Property → StateM σ (List Property)
  | [] => pure []
  | p :: ps => do
    let p ← editProperty w p
    return p :: (← editProperties w ps)

def editProperties? (w : Edits σ) : Option (List Property) → StateM σ (Option (List Property))
  | some ps => do return some (← editProperties w ps)
  | none => pure none

def editKey (w : Edits σ) : PropName → StateM σ PropName
  | .str s => do w.key (.str (← w.str s))
  | .num n => do w.key (.num (← w.num n))
  | .computed e => do w.key (.computed (← w.expr (← editParts w e)))
  | .name s => w.key (.name s)
  | .bigint raw => w.key (.bigint raw)
  | .privateName s => w.key (.privateName s)

def editAccess (w : Edits σ) : MemberProp → StateM σ MemberProp
  | .computed e => do w.access (.computed (← w.expr (← editParts w e)))
  | .name s => w.access (.name s)
  | .privateName s => w.access (.privateName s)

def editTarget (w : Edits σ) : AssignTarget → StateM σ AssignTarget
  | .name b => do return .name (← editBinding w b)
  | .member obj prop => do
    let obj ← w.base (← editParts w obj)
    return .member obj (← editAccess w prop)
  | .superMember prop => do return .superMember (← editAccess w prop)
  | .paren e => do return .paren (← w.expr (← editParts w e))
  | .chain e => do return .chain (← w.base (← editParts w e))
  | .typed e => do return .typed (← w.base (← editParts w e))
  | .pattern p => do return .pattern (← editPat w p)

def editPat (w : Edits σ) : Pat → StateM σ Pat
  | .name b => do return .name (← editBinding w b)
  | .array elems ann => do
    let elems ← editPats w elems
    return .array elems (← editAnn w ann)
  | .object props ann => do
    let props ← editPatProps w props
    return .object props (← editAnn w ann)
  | .rest p ann => do
    let p ← editPat w p
    return .rest p (← editAnn w ann)
  | .assign left right => do
    let left ← editPat w left
    return .assign left (← w.expr (← editParts w right))
  | .expr e => do return .expr (← w.expr (← editParts w e))
  | .hole => pure .hole
  | .field access isReadonly p => do return .field access isReadonly (← editPat w p)
  | .invalid => pure .invalid

def editPats (w : Edits σ) : List Pat → StateM σ (List Pat)
  | [] => pure []
  | p :: ps => do
    let p ← editPat w p
    return p :: (← editPats w ps)

def editPat? (w : Edits σ) : Option Pat → StateM σ (Option Pat)
  | some p => do return some (← editPat w p)
  | none => pure none

def editPatProp (w : Edits σ) : PatProp → StateM σ PatProp
  | .keyValue key value => do
    let key ← editKey w key
    return .keyValue key (← editPat w value)
  | .assign b value => do
    let b' ← editBinding w b
    return .ofName b.id.name b' (← editExpr? w value)
  | .rest p => do return .rest (← editPat w p)

def editPatProps (w : Edits σ) : List PatProp → StateM σ (List PatProp)
  | [] => pure []
  | p :: ps => do
    let p ← editPatProp w p
    return p :: (← editPatProps w ps)

def editFunc (w : Edits σ) : Func → StateM σ Func
  | .mk isAsync isGenerator typeParams params ret body => do
    let typeParams ← editTypeParams w typeParams
    let params ← editPats w params
    let ret ← editAnn w ret
    return .mk isAsync isGenerator typeParams params ret (← editBody w body)

def editBody (w : Edits σ) : Body → StateM σ Body
  | .absent => pure .absent
  | .expr e => do return .expr (← w.expr (← editParts w e))
  | .block stmts => do return .block (← w.list (← editStmts w stmts))

def editClass (w : Edits σ) : Class → StateM σ Class
  | .mk isAbstract typeParams base implemented members => do
    let typeParams ← editTypeParams w typeParams
    let base ← editExpr? w base
    let implemented ← editTypes w implemented
    return .mk isAbstract typeParams base implemented (← editMembers w members)

def editMember (w : Edits σ) : ClassMember → StateM σ ClassMember
  | .ctor mods key params body => do
    let key ← editKey w key
    let params ← editPats w params
    return .ctor mods key params (← editBody w body)
  | .method mods kind key f => do
    let key ← editKey w key
    return .method mods kind key (← editFunc w f)
  | .field mods key ann value => do
    let key ← editKey w key
    let ann ← editAnn w ann
    return .field mods key ann (← editExpr? w value)
  | .staticBlock body => do return .staticBlock (← w.list (← editStmts w body))
  | .empty => pure .empty

def editMembers (w : Edits σ) : List ClassMember → StateM σ (List ClassMember)
  | [] => pure []
  | m :: ms => do
    let m ← editMember w m
    return m :: (← editMembers w ms)

def editStmtParts (w : Edits σ) : Stmt → StateM σ Stmt
  | .expr e => do return .expr (← w.expr (← editParts w e))
  | .block body => do return .block (← w.list (← editStmts w body))
  | .empty => pure .empty
  | .debugger => pure .debugger
  | .with obj body => do
    let obj ← w.expr (← editParts w obj)
    return .with obj (← w.single (← editStmtParts w body))
  | .return arg => do return .return (← editExpr? w arg)
  | .labelled label body => do
    let label ← w.label label
    return .labelled label (← w.labelled (← editStmtParts w body))
  | .break label => do return .break (← editLabel? w label)
  | .continue label => do return .continue (← editLabel? w label)
  | .ite test yes no => do
    let test ← w.expr (← editParts w test)
    let yes ← w.single (← editStmtParts w yes)
    return .ite test yes (← editStmt? w no)
  | .switch disc cases => do
    let disc ← w.expr (← editParts w disc)
    return .switch disc (← editCases w cases)
  | .throw arg => do return .throw (← w.expr (← editParts w arg))
  | .try body handler finalizer => do
    let body ← w.list (← editStmts w body)
    let handler ← editCatch? w handler
    return .try body handler (← editList? w finalizer)
  | .while test body => do
    let test ← w.expr (← editParts w test)
    return .while test (← w.single (← editStmtParts w body))
  | .doWhile body test => do
    let test ← w.expr (← editParts w test)
    return .doWhile (← w.single (← editStmtParts w body)) test
  | .for init test step body => do
    let init ← editHead w init
    let test ← editExpr? w test
    let step ← editExpr? w step
    return .for init test step (← w.single (← editStmtParts w body))
  | .forIn head obj body => do
    let head ← editHead w head
    let obj ← w.expr (← editParts w obj)
    return .forIn head obj (← w.single (← editStmtParts w body))
  | .forOf isAwait head obj body => do
    let head ← editHead w head
    let obj ← w.expr (← editParts w obj)
    return .forOf isAwait head obj (← w.single (← editStmtParts w body))
  | .decl d => do return .decl (← editDecl w d)
  | .importDecl isType items source attrs => do
    let items ← editImports w items
    let source ← w.str source
    return .importDecl isType items source (← editProperties? w attrs)
  | .exportDecl d => do return .exportDecl (← editDecl w d)
  | .exportNamed isType items source attrs => do
    let items ← editExports w items
    let source ← editStr? w source
    return .exportNamed isType items source (← editProperties? w attrs)
  | .exportAll isType source attrs => do
    let source ← w.str source
    return .exportAll isType source (← editProperties? w attrs)
  | .exportDefaultExpr e => do return .exportDefaultExpr (← w.expr (← editParts w e))
  | .exportDefaultFunc name f => do
    let name ← editIdent? w name
    return .exportDefaultFunc name (← editFunc w f)
  | .exportDefaultClass name c => do
    let name ← editIdent? w name
    return .exportDefaultClass name (← editClass w c)
  | .exportDefaultInterface i => do return .exportDefaultInterface (← editInterface w i)

def editStmts (w : Edits σ) : List Stmt → StateM σ (List Stmt)
  | [] => pure []
  | s :: ss => do
    let s ← editStmtParts w s
    return s :: (← editStmts w ss)

def editStmt? (w : Edits σ) : Option Stmt → StateM σ (Option Stmt)
  | some s => do return some (← w.single (← editStmtParts w s))
  | none => pure none

def editList? (w : Edits σ) : Option (List Stmt) → StateM σ (Option (List Stmt))
  | some ss => do return some (← w.list (← editStmts w ss))
  | none => pure none

def editCatch (w : Edits σ) : Catch → StateM σ Catch
  | .mk param body => do
    let param ← editPat? w param
    return .mk param (← w.list (← editStmts w body))

def editCatch? (w : Edits σ) : Option Catch → StateM σ (Option Catch)
  | some c => do return some (← editCatch w c)
  | none => pure none

def editCase (w : Edits σ) : Case → StateM σ Case
  | .mk test body => do
    let test ← editExpr? w test
    return .mk test (← w.list (← editStmts w body))

def editCases (w : Edits σ) : List Case → StateM σ (List Case)
  | [] => pure []
  | c :: cs => do
    let c ← editCase w c
    return c :: (← editCases w cs)

def editHead (w : Edits σ) : ForHead → StateM σ ForHead
  | .absent => pure .absent
  | .var d => do return .var (← editVarDecl w d)
  | .pat p => do return .pat (← editPat w p)
  | .expr e => do return .expr (← w.expr (← editParts w e))

def editVarDecl (w : Edits σ) : VarDecl → StateM σ VarDecl
  | .mk kind decls => do w.varDecl (.mk kind (← editDeclarators w decls))

def editDeclarator (w : Edits σ) : Declarator → StateM σ Declarator
  | .mk target init definite => do
    let target ← editPat w target
    return .mk target (← editExpr? w init) definite

def editDeclarators (w : Edits σ) : List Declarator → StateM σ (List Declarator)
  | [] => pure []
  | d :: ds => do
    let d ← editDeclarator w d
    return d :: (← editDeclarators w ds)

def editDecl (w : Edits σ) : Decl → StateM σ Decl
  | .func name f => do
    let name ← w.ident name
    return .func name (← editFunc w f)
  | .cls name c => do
    let name ← w.ident name
    return .cls name (← editClass w c)
  | .var d => do return .var (← editVarDecl w d)
  | .iface i => do return .iface (← editInterface w i)
  | .typeAlias name typeParams t => do
    let name ← w.ident name
    let typeParams ← editTypeParams w typeParams
    return .typeAlias name typeParams (← editType w t)
  | .enum isConst name members => do
    let name ← w.ident name
    return .enum isConst name (← editEnumMembers w members)
  | .ambient d => do return .ambient (← editDecl w d)

def editEnumMember (w : Edits σ) : EnumMember → StateM σ EnumMember
  | .mk name init => do
    let name ← editModuleName w name
    return .mk name (← editExpr? w init)

def editEnumMembers (w : Edits σ) : List EnumMember → StateM σ (List EnumMember)
  | [] => pure []
  | m :: ms => do
    let m ← editEnumMember w m
    return m :: (← editEnumMembers w ms)

end

def editExpr (w : Edits σ) (e : Expr) : StateM σ Expr := do w.expr (← editParts w e)

def editList (w : Edits σ) (ss : List Stmt) : StateM σ (List Stmt) := do
  w.list (← editStmts w ss)

def editProgram (w : Edits σ) (p : Program) : StateM σ Program := do
  return { p with body := ← editList w p.body }

end Untangle
