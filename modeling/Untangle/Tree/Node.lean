import Untangle.Tree.Operator
import Untangle.Tree.TypeExpr

/-!
# Syntax trees

The trees that the reader makes, the passes change and the printer writes.
-/

namespace Untangle

/-- The three declaring keywords. -/
inductive VarKind
  | var | let | const
  deriving DecidableEq, Inhabited, Repr

def VarKind.text : VarKind → String
  | .var => "var"
  | .let => "let"
  | .const => "const"

/-- What a class or object method is. -/
inductive MethodKind
  | plain | getter | setter
  deriving DecidableEq, Inhabited, Repr

/-- A postfix type operator on expressions. -/
inductive TypeOp
  | ascribe | satisfies
  deriving DecidableEq, Inhabited, Repr

/-- A name in an import or export list: an identifier or a string. -/
inductive ModuleName
  | ident (id : Ident)
  | str (s : StrLit)
  deriving Inhabited

/-- One item of an import list. -/
inductive ImportItem
  | named (isType : Bool) (imported : Option ModuleName) (binding : Ident)
  | default (binding : Ident)
  | namespace (binding : Ident)
  deriving Inhabited

/-- One item of an export list. -/
inductive ExportItem
  | named (isType : Bool) (item : ModuleName) (exported : Option ModuleName)
  | namespace (name : ModuleName)
  | default (name : Ident)
  deriving Inhabited

mutual

/-- Expressions. -/
inductive Expr
  | this
  | ident (id : Ident)
  | lit (l : Lit)
  | array (elems : List Expr)
  | object (props : List Property)
  | func (name : Option Ident) (f : Func)
  | arrow (f : Func)
  | cls (name : Option Ident) (c : Class)
  | unary (op : UnaryOp) (arg : Expr)
  /-- `before` when the operator stands before its operand. -/
  | update (op : UpdateOp) (before : Bool) (arg : Expr)
  | binary (op : BinaryOp) (left right : Expr)
  | assign (op : AssignOp) (target : AssignTarget) (value : Expr)
  | cond (test yes no : Expr)
  | seq (exprs : List Expr)
  | member (obj : Expr) (prop : MemberProp)
  | superMember (prop : MemberProp)
  | call (callee : Expr) (args : List Expr)
  | superCall (args : List Expr)
  | importCall (args : List Expr)
  /-- `new A` has no argument list, `new A()` an empty one. -/
  | new (callee : Expr) (args : Option (List Expr))
  | chainMember (optional : Bool) (obj : Expr) (prop : MemberProp)
  | chainCall (optional : Bool) (callee : Expr) (args : List Expr)
  /-- One more fixed part than expressions. -/
  | template (quasis : List Quasi) (exprs : List Expr)
  | tagged (tag : Expr) (quasis : List Quasi) (exprs : List Expr)
  | yield (delegate : Bool) (arg : Option Expr)
  | await (arg : Expr)
  | paren (e : Expr)
  | spread (e : Expr)
  | hole
  | newTarget
  | importMeta
  /-- The left operand of a brand check `#x in o`. -/
  | privateName (name : String)
  /-- Source text that could not be read. -/
  | placeholder
  | typed (op : TypeOp) (e : Expr) (t : TypeExpr)
  | typeAssert (t : TypeExpr) (e : Expr)
  | nonNull (e : Expr)

/-- Members of an object literal. -/
inductive Property
  | shorthand (id : Ident)
  | keyValue (key : PropName) (value : Expr)
  /-- `a = 1`, allowed only where the literal turns out to be a pattern. -/
  | initialized (id : Ident) (value : Expr)
  | getter (key : PropName) (body : List Stmt)
  | setter (key : PropName) (param : Pat) (body : List Stmt)
  | method (key : PropName) (f : Func)
  | spread (e : Expr)

/-- Keys in object literals, patterns and classes. -/
inductive PropName
  | name (s : String)
  | str (s : StrLit)
  | num (n : NumLit)
  | bigint (raw : String)
  | computed (e : Expr)
  | privateName (s : String)

/-- What follows the object in a member access. -/
inductive MemberProp
  | name (s : String)
  | privateName (s : String)
  | computed (e : Expr)

/-- The left side of an assignment. -/
inductive AssignTarget
  | name (b : BindingName)
  | member (obj : Expr) (prop : MemberProp)
  | superMember (prop : MemberProp)
  | paren (e : Expr)
  /-- An optional chain, which the grammar lets through. -/
  | chain (e : Expr)
  /-- A type operator around a target. -/
  | typed (e : Expr)
  | pattern (p : Pat)

/-- Patterns. -/
inductive Pat
  | name (b : BindingName)
  | array (elems : List Pat) (ann : Option TypeExpr)
  | object (props : List PatProp) (ann : Option TypeExpr)
  | rest (p : Pat) (ann : Option TypeExpr)
  | assign (left : Pat) (right : Expr)
  /-- An assignment target inside a destructuring assignment. -/
  | expr (e : Expr)
  | hole
  /-- A constructor parameter that also declares a field. -/
  | field (access : Option Access) (isReadonly : Bool) (p : Pat)
  | invalid

/-- Members of an object pattern. -/
inductive PatProp
  | keyValue (key : PropName) (value : Pat)
  | assign (b : BindingName) (value : Option Expr)
  | rest (p : Pat)

/-- Parameters and body of a function. -/
inductive Func
  | mk (isAsync isGenerator : Bool) (typeParams : List TypeParam) (params : List Pat)
    (ret : Option TypeExpr) (body : Body)

/-- The body of a function. -/
inductive Body
  /-- A declaration without a body. -/
  | absent
  /-- The expression of an arrow. -/
  | expr (e : Expr)
  | block (stmts : List Stmt)

/-- What follows the name of a class. -/
inductive Class
  | mk (isAbstract : Bool) (typeParams : List TypeParam) (base : Option Expr)
    (implemented : List TypeExpr) (members : List ClassMember)

/-- Members of a class. -/
inductive ClassMember
  | ctor (mods : MemberMods) (key : PropName) (params : List Pat) (body : Body)
  | method (mods : MemberMods) (kind : MethodKind) (key : PropName) (f : Func)
  | field (mods : MemberMods) (key : PropName) (ann : Option TypeExpr) (value : Option Expr)
  | staticBlock (body : List Stmt)
  | empty

/-- Statements. -/
inductive Stmt
  | expr (e : Expr)
  | block (body : List Stmt)
  | empty
  | debugger
  | with (obj : Expr) (body : Stmt)
  | return (arg : Option Expr)
  | labelled (label : Ident) (body : Stmt)
  | break (label : Option Ident)
  | continue (label : Option Ident)
  | ite (test : Expr) (yes : Stmt) (no : Option Stmt)
  | switch (disc : Expr) (cases : List Case)
  | throw (arg : Expr)
  | try (body : List Stmt) (handler : Option Catch) (finalizer : Option (List Stmt))
  | while (test : Expr) (body : Stmt)
  | doWhile (body : Stmt) (test : Expr)
  | for (init : ForHead) (test : Option Expr) (step : Option Expr) (body : Stmt)
  | forIn (head : ForHead) (obj : Expr) (body : Stmt)
  | forOf (isAwait : Bool) (head : ForHead) (obj : Expr) (body : Stmt)
  | decl (d : Decl)
  | importDecl (isType : Bool) (items : List ImportItem) (source : StrLit)
    (attrs : Option (List Property))
  | exportDecl (d : Decl)
  | exportNamed (isType : Bool) (items : List ExportItem) (source : Option StrLit)
    (attrs : Option (List Property))
  | exportAll (isType : Bool) (source : StrLit) (attrs : Option (List Property))
  | exportDefaultExpr (e : Expr)
  | exportDefaultFunc (name : Option Ident) (f : Func)
  | exportDefaultClass (name : Option Ident) (c : Class)
  | exportDefaultInterface (i : Interface)

/-- A catch clause. -/
inductive Catch
  | mk (param : Option Pat) (body : List Stmt)

/-- A clause of a switch statement; the default clause has no test. -/
inductive Case
  | mk (test : Option Expr) (body : List Stmt)

/-- What stands before the first semicolon, or before `in` and `of`, of a loop head: nothing, a
declaration, a pattern assigned at each turn, or an expression evaluated once. -/
inductive ForHead
  | absent
  | var (d : VarDecl)
  | pat (p : Pat)
  | expr (e : Expr)

/-- A variable declaration. -/
inductive VarDecl
  | mk (kind : VarKind) (decls : List Declarator)

/-- One declared pattern and its initial value. -/
inductive Declarator
  | mk (target : Pat) (init : Option Expr) (definite : Bool)

/-- Declarations. -/
inductive Decl
  | func (name : Ident) (f : Func)
  | cls (name : Ident) (c : Class)
  | var (d : VarDecl)
  | iface (i : Interface)
  | typeAlias (name : Ident) (typeParams : List TypeParam) (t : TypeExpr)
  | enum (isConst : Bool) (name : Ident) (members : List EnumMember)
  /-- A declaration of something defined elsewhere. -/
  | ambient (d : Decl)

/-- A member of an enumeration. -/
inductive EnumMember
  | mk (name : ModuleName) (init : Option Expr)

end

instance : Inhabited Expr := ⟨.this⟩
instance : Inhabited Stmt := ⟨.empty⟩
instance : Inhabited Pat := ⟨.hole⟩
instance : Inhabited MemberProp := ⟨.name ""⟩
instance : Inhabited Case := ⟨.mk none []⟩
instance : Inhabited Declarator := ⟨.mk default none false⟩

/-- Which grammar a source was read with. -/
inductive Grammar
  | module | script
  deriving DecidableEq, Inhabited, Repr

def Grammar.text : Grammar → String
  | .module => "module"
  | .script => "script"

/-- A whole source. -/
structure Program where
  grammar : Grammar
  shebang : Option String := none
  body : List Stmt
  deriving Inhabited

def Program.isModule (p : Program) : Bool := p.grammar == .module

end Untangle
