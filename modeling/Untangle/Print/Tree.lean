import Untangle.Print.Types
import Untangle.Tree.Node

/-!
# Printing trees

One function per syntactic class, each giving the pieces of its node. Parentheses are printed where
the tree has them and nowhere else; adding the needed ones is for `Untangle.Print.Parens`.

The layout depends on the tree alone: statements, array elements, object members, class members and
switch clauses stand on lines of their own, patterns and argument lists on one line. A block
statement does not end its line, any other statement does.
-/

namespace Untangle.Print

/-! ## Parts without recursion -/

def blockDoc (stmts : List Doc) : Doc :=
  match stmts with
  | [] => text "\x7b\x7d"
  | _ => text "\x7b" ++ line ++ nested (joinDocs line stmts) ++ line ++ text "\x7d"

private def endsInHole : List Expr → Bool
  | [] => false
  | [.hole] => true
  | _ :: rest => endsInHole rest

private def patEndsInHole : List Pat → Bool
  | [] => false
  | [.hole] => true
  | _ :: rest => patEndsInHole rest

def needsBlank : UnaryOp → Expr → Bool
  | .plus, .update .increment true _ => true
  | .plus, .unary .plus _ => true
  | .minus, .update .decrement true _ => true
  | .minus, .unary .minus _ => true
  | _, _ => false

private def isWordOp : UnaryOp → Bool
  | .typeOf | .void | .delete => true
  | _ => false

def unaryGap (op : UnaryOp) (arg : Expr) : Doc :=
  if isWordOp op || needsBlank op arg then text " " else []

private def moduleNameDoc (v : EcmaVersion) : ModuleName → Doc
  | .ident id => text id.name
  | .str s => text (stringText v s)

private def typeMark (isType : Bool) : Doc := if isType then text "type " else []

private def importItemDoc (v : EcmaVersion) : ImportItem → Doc
  | .named isType imported binding =>
    typeMark isType ++
      (match imported with
        | some name => moduleNameDoc v name ++ text " as "
        | none => []) ++ text binding.name
  | .default binding => text binding.name
  | .namespace binding => text ("* as " ++ binding.name)

private def isNamedImport : ImportItem → Bool
  | .named .. => true
  | _ => false

/-- The items of an import, up to the name of the module. -/
def importItemsDoc (v : EcmaVersion) (items : List ImportItem) : Doc :=
  if items.isEmpty then []
  else
    let others := (items.filter (!isNamedImport ·)).map (importItemDoc v)
    let named := (items.filter isNamedImport).map (importItemDoc v)
    let braced := if named.isEmpty then [] else [text "\x7b " ++ commas named ++ text " \x7d"]
    commas (others ++ braced) ++ text " from "

private def exportItemDoc (v : EcmaVersion) : ExportItem → Doc
  | .named isType item exported =>
    typeMark isType ++ moduleNameDoc v item ++
      (match exported with
        | some name => text " as " ++ moduleNameDoc v name
        | none => [])
  | .namespace name => text "* as " ++ moduleNameDoc v name
  | .default name => text name.name

private def isNamedExport : ExportItem → Bool
  | .named .. => true
  | _ => false

def exportItemsDoc (v : EcmaVersion) (items : List ExportItem) : Doc :=
  let others := (items.filter (!isNamedExport ·)).map (exportItemDoc v)
  let named := (items.filter isNamedExport).map (exportItemDoc v)
  let braced :=
    if items.isEmpty then [text "\x7b \x7d"]
    else if named.isEmpty then []
    else [text "\x7b " ++ commas named ++ text " \x7d"]
  commas (others ++ braced)

private def modifiersDoc (m : MemberMods) : Doc :=
  text (if m.isDeclared then "declare " else "") ++
    (match m.access with
      | some a => text (a.text ++ " ")
      | none => []) ++
    text (if m.isStatic then "static " else "") ++
    text (if m.isAbstract then "abstract " else "") ++
    text (if m.isOverride then "override " else "") ++
    text (if m.isReadonly then "readonly " else "")

private def nameDoc : Option Ident → Doc
  | some id => text (" " ++ id.name)
  | none => []

/-- The marks of asynchronous functions and generators before a method's key. -/
private def methodMarks (isAsync isGenerator : Bool) : Doc :=
  text (if isAsync then "async " else "") ++ text (if isGenerator then "*" else "")

private def kindDoc : MethodKind → Doc
  | .plain => []
  | .getter => text "get "
  | .setter => text "set "

def templateDoc (quasis : List Quasi) (exprs : List Doc) : Doc :=
  text "`" ++ go quasis exprs ++ text "`"
where
  go : List Quasi → List Doc → Doc
    | [], _ => []
    | q :: qs, [] => text q.raw ++ go qs []
    | q :: qs, e :: es => text q.raw ++ text "$\x7b" ++ e ++ text "\x7d" ++ go qs es

private def isAbstractClass : Class → Bool
  | .mk isAbstract _ _ _ _ => isAbstract

private def isBlock : Stmt → Bool
  | .block _ => true
  | _ => false

/-- The dot that ends a number before the dot of an access. -/
private def memberDot (v : EcmaVersion) : Expr → MemberProp → Doc
  | .lit (.num n), .name _ | .lit (.num n), .privateName _ =>
    if needsDot v n then text "." else []
  | _, _ => []

private def inBraces (ds : List Doc) : Doc :=
  if ds.isEmpty then text "\x7b\x7d" else commaLines "\x7b" "\x7d" ds []

/-! ## The tree -/

mutual

def exprDoc (v : EcmaVersion) : Expr → Doc
  | .this => text "this"
  | .ident id => text id.name
  | .lit l => litDoc v l
  | .array elems =>
    if elems.isEmpty then text "[]"
    else commaLines "[" "]" (exprDocs v elems) (if endsInHole elems then text ", " else [])
  | .object props => inBraces (propertyDocs v props)
  | .func name f => functionDoc v f name
  | .arrow f =>
    match f with
    | .mk isAsync _ typeParams params ret body =>
      text (if isAsync then "async " else "") ++ typeParamsDoc v typeParams ++ text "(" ++
        commas (patDocs v params) ++ text ")" ++ annDoc v ret ++ text "=>" ++ bodyDoc v false body
  | .cls name c => text "class" ++ nameDoc name ++ classDoc v c
  | .unary op arg => text op.text ++ unaryGap op arg ++ exprDoc v arg
  | .update op before arg =>
    if before then text op.text ++ exprDoc v arg else exprDoc v arg ++ text op.text
  | .binary op left right =>
    exprDoc v left ++ text (" " ++ op.text ++ " ") ++ exprDoc v right
  | .assign op target value =>
    targetDoc v target ++ text (" " ++ op.text ++ " ") ++ exprDoc v value
  | .cond test yes no =>
    exprDoc v test ++ text " ? " ++ exprDoc v yes ++ text " : " ++ exprDoc v no
  | .seq exprs => commas (exprDocs v exprs)
  | .member obj prop => exprDoc v obj ++ memberDot v obj prop ++ memberPropDoc v prop
  | .superMember prop => text "super" ++ memberPropDoc v prop
  | .call callee args => exprDoc v callee ++ text "(" ++ commas (exprDocs v args) ++ text ")"
  | .superCall args => text "super(" ++ commas (exprDocs v args) ++ text ")"
  | .importCall args => text "import(" ++ commas (exprDocs v args) ++ text ")"
  | .new callee args =>
    text "new " ++ exprDoc v callee ++
      (match args with
        | some args => text "(" ++ commas (exprDocs v args) ++ text ")"
        | none => [])
  | .chainMember optional obj prop =>
    exprDoc v obj ++
      (if optional then
        match prop with
        | .name s => text ("?." ++ s)
        | .privateName s => text ("?.#" ++ s)
        | .computed e => text "?.[" ++ exprDoc v e ++ text "]"
      else memberPropDoc v prop)
  | .chainCall optional callee args =>
    exprDoc v callee ++ text (if optional then "?.(" else "(") ++ commas (exprDocs v args) ++
      text ")"
  | .template quasis exprs => templateDoc quasis (exprDocs v exprs)
  | .tagged tag quasis exprs => exprDoc v tag ++ templateDoc quasis (exprDocs v exprs)
  | .yield delegate arg =>
    text (if delegate then "yield*" else "yield") ++ exprDoc? v " " arg
  | .await arg => text "await " ++ exprDoc v arg
  | .paren e => text "(" ++ exprDoc v e ++ text ")"
  | .spread e => text "..." ++ exprDoc v e
  | .hole => []
  | .newTarget => text "new.target"
  | .importMeta => text "import.meta"
  | .privateName name => text ("#" ++ name)
  | .placeholder => text "<invalid>"
  | .typed op e t =>
    exprDoc v e ++ text (match op with
      | .ascribe => " as "
      | .satisfies => " satisfies ") ++ typeDoc v t
  | .typeAssert t e => text "<" ++ typeDoc v t ++ text ">" ++ exprDoc v e
  | .nonNull e => exprDoc v e ++ text "!"

/-- An expression after a text, if there is one. -/
def exprDoc? (v : EcmaVersion) (lead : String) : Option Expr → Doc
  | some e => text lead ++ exprDoc v e
  | none => []

def exprDocs (v : EcmaVersion) : List Expr → List Doc
  | [] => []
  | e :: es => exprDoc v e :: exprDocs v es

/-- A function with its keyword and, where it has one, its name. -/
def functionDoc (v : EcmaVersion) : Func → Option Ident → Doc
  | .mk isAsync isGenerator typeParams params ret body, name =>
    text (if isAsync then "async " else "") ++ text "function" ++
      text (if isGenerator then "*" else "") ++ nameDoc name ++ typeParamsDoc v typeParams ++
      text "(" ++ commas (patDocs v params) ++ text ")" ++ annDoc v ret ++ bodyDoc v true body

def propertyDoc (v : EcmaVersion) : Property → Doc
  | .shorthand id => text id.name
  | .keyValue key value => keyDoc v key ++ text ": " ++ exprDoc v value
  | .initialized id value => text (id.name ++ " = ") ++ exprDoc v value
  | .getter key body =>
    text "get " ++ keyDoc v key ++ text " () " ++ blockDoc (stmtDocs v body)
  | .setter key param body =>
    text "set " ++ keyDoc v key ++ text " (" ++ patDoc v param ++ text ")" ++
      blockDoc (stmtDocs v body)
  | .method key f =>
    match f with
    | .mk isAsync isGenerator typeParams params ret body =>
      methodMarks isAsync isGenerator ++ keyDoc v key ++ text " " ++ typeParamsDoc v typeParams ++
        text "(" ++ commas (patDocs v params) ++ text ")" ++ annDoc v ret ++ bodyDoc v true body
  | .spread e => text "..." ++ exprDoc v e

def propertyDocs (v : EcmaVersion) : List Property → List Doc
  | [] => []
  | p :: ps => propertyDoc v p :: propertyDocs v ps

def attributesDoc (v : EcmaVersion) : Option (List Property) → Doc
  | some ps => text " with " ++ inBraces (propertyDocs v ps)
  | none => []

def keyDoc (v : EcmaVersion) : PropName → Doc
  | .name s => text s
  | .str s => text (stringText v s)
  | .num n => text (numberText v n)
  | .bigint raw => text (bigintText v raw)
  | .computed e => text "[" ++ exprDoc v e ++ text "]"
  | .privateName s => text ("#" ++ s)

def memberPropDoc (v : EcmaVersion) : MemberProp → Doc
  | .name s => text ("." ++ s)
  | .privateName s => text (".#" ++ s)
  | .computed e => text "[" ++ exprDoc v e ++ text "]"

def targetDoc (v : EcmaVersion) : AssignTarget → Doc
  | .name b => bindingNameDoc v b
  | .member obj prop => exprDoc v obj ++ memberDot v obj prop ++ memberPropDoc v prop
  | .superMember prop => text "super" ++ memberPropDoc v prop
  | .paren e => text "(" ++ exprDoc v e ++ text ")"
  | .chain e => exprDoc v e
  | .typed e => exprDoc v e
  | .pattern p => patDoc v p

def patDoc (v : EcmaVersion) : Pat → Doc
  | .name b => bindingNameDoc v b
  | .array elems ann =>
    text "[" ++ commas (patDocs v elems) ++
      (if patEndsInHole elems then text ", " else []) ++ text "]" ++ annDoc v ann
  | .object props ann =>
    (if props.isEmpty then text "\x7b\x7d"
      else text "\x7b " ++ commas (patPropDocs v props) ++ text " \x7d") ++ annDoc v ann
  | .rest p ann => text "..." ++ patDoc v p ++ annDoc v ann
  | .assign left right => patDoc v left ++ text " = " ++ exprDoc v right
  | .expr e => exprDoc v e
  | .hole => []
  | .field access isReadonly p =>
    (match access with
      | some a => text (a.text ++ " ")
      | none => []) ++ text (if isReadonly then "readonly " else "") ++ patDoc v p
  | .invalid => text "<invalid>"

def patDocs (v : EcmaVersion) : List Pat → List Doc
  | [] => []
  | p :: ps => patDoc v p :: patDocs v ps

def patPropDoc (v : EcmaVersion) : PatProp → Doc
  | .keyValue key value => keyDoc v key ++ text ": " ++ patDoc v value
  | .assign b value => bindingNameDoc v b ++ exprDoc? v " = " value
  | .rest p => text "..." ++ patDoc v p

def patPropDocs (v : EcmaVersion) : List PatProp → List Doc
  | [] => []
  | p :: ps => patPropDoc v p :: patPropDocs v ps

/-- A body, after a blank if `spaced`. The expression of an arrow is one level deeper. -/
def bodyDoc (v : EcmaVersion) (spaced : Bool) : Body → Doc
  | .absent => text ";"
  | .expr e => nested (exprDoc v e)
  | .block stmts => text (if spaced then " " else "") ++ blockDoc (stmtDocs v stmts)

def classDoc (v : EcmaVersion) : Class → Doc
  | .mk _ typeParams base implemented members =>
    typeParamsDoc v typeParams ++ exprDoc? v " extends " base ++
      (if implemented.isEmpty then []
        else text " implements " ++ commas (typeDocs v implemented)) ++
      text " " ++ braceLines (classMemberDocs v members)

def classMemberDoc (v : EcmaVersion) : ClassMember → Doc
  | .ctor mods _ params body =>
    modifiersDoc mods ++ text "constructor(" ++ commas (patDocs v params) ++ text ")" ++
      bodyDoc v false body
  | .method mods kind key f =>
    match f with
    | .mk isAsync isGenerator typeParams params ret body =>
      modifiersDoc mods ++ methodMarks isAsync isGenerator ++ kindDoc kind ++ keyDoc v key ++
        text (if mods.optional then "?" else "") ++ typeParamsDoc v typeParams ++ text "(" ++
        commas (patDocs v params) ++ text ")" ++ annDoc v ret ++ bodyDoc v true body
  | .field mods key ann value =>
    modifiersDoc mods ++ keyDoc v key ++ text (if mods.optional then "?" else "") ++
      text (if mods.definite then "!" else "") ++ annDoc v ann ++ exprDoc? v " = " value ++ text ";"
  | .staticBlock body => text "static" ++ blockDoc (stmtDocs v body)
  | .empty => text ";"

def classMemberDocs (v : EcmaVersion) : List ClassMember → List Doc
  | [] => []
  | m :: ms => classMemberDoc v m :: classMemberDocs v ms

def stmtDoc (v : EcmaVersion) : Stmt → Doc
  | .expr e => exprDoc v e ++ text ";" ++ line
  | .block body => blockDoc (stmtDocs v body)
  | .empty => text ";" ++ line
  | .debugger => text "debugger;" ++ line
  | .with obj body =>
    text "with (" ++ exprDoc v obj ++ text ")" ++ stmtDoc v body ++ line
  | .return arg => text "return" ++ exprDoc? v " " arg ++ text ";" ++ line
  | .labelled label body => text (label.name ++ ": ") ++ stmtDoc v body ++ line
  | .break label => text "break" ++ nameDoc label ++ text ";" ++ line
  | .continue label => text "continue" ++ nameDoc label ++ text ";" ++ line
  | .ite test yes no =>
    text "if (" ++ exprDoc v test ++ text ") " ++ stmtDoc v yes ++
      (match no with
        | some s => (if isBlock yes then text " " else []) ++ text "else " ++ stmtDoc v s
        | none => []) ++ line
  | .switch disc cases =>
    text "switch(" ++ exprDoc v disc ++ text ")" ++ braceLines (caseDocs v cases) ++ line
  | .throw arg => text "throw " ++ exprDoc v arg ++ text ";" ++ line
  | .try body handler finalizer =>
    text "try " ++ blockDoc (stmtDocs v body) ++
      (match handler with
        | some c => text " " ++ catchDoc v c
        | none => []) ++
      (match finalizer with
        | some stmts => text " finally" ++ blockDoc (stmtDocs v stmts)
        | none => []) ++ line
  | .while test body => text "while(" ++ exprDoc v test ++ text ")" ++ stmtDoc v body ++ line
  | .doWhile body test =>
    text "do " ++ stmtDoc v body ++ text "while (" ++ exprDoc v test ++ text ")" ++
      (if v.olderThan .es2015 then text ";" else []) ++ line
  | .for init test step body =>
    text "for(" ++ forHeadDoc v init ++ text ";" ++ exprDoc? v " " test ++ text ";" ++
      exprDoc? v " " step ++ text ")" ++ stmtDoc v body ++ line
  | .forIn head obj body =>
    text "for(" ++ forHeadDoc v head ++ text " in " ++ exprDoc v obj ++ text ")" ++
      stmtDoc v body ++ line
  | .forOf isAwait head obj body =>
    text (if isAwait then "for await (" else "for (") ++ forHeadDoc v head ++ text " of " ++
      exprDoc v obj ++ text ")" ++ stmtDoc v body ++ line
  | .decl d => declDoc v d ++ line
  | .importDecl isType items source attrs =>
    text "import " ++ typeMark isType ++ importItemsDoc v items ++ text (stringText v source) ++
      attributesDoc v attrs ++ text ";" ++ line
  | .exportDecl d => text "export " ++ declDoc v d ++ line
  | .exportNamed isType items source attrs =>
    text "export " ++ typeMark isType ++ exportItemsDoc v items ++
      (match source with
        | some s => text " from " ++ text (stringText v s)
        | none => []) ++
      attributesDoc v attrs ++ text ";" ++ line
  | .exportAll isType source attrs =>
    text "export " ++ typeMark isType ++ text "* from " ++ text (stringText v source) ++
      attributesDoc v attrs ++ text ";" ++ line
  | .exportDefaultExpr e => text "export default " ++ exprDoc v e ++ text ";" ++ line
  | .exportDefaultFunc name f => text "export default " ++ functionDoc v f name ++ line
  | .exportDefaultClass name c =>
    text "export default " ++ text (if isAbstractClass c then "abstract " else "") ++
      text "class" ++ nameDoc name ++ classDoc v c ++ line
  | .exportDefaultInterface i => text "export default " ++ interfaceDoc v i ++ line

def stmtDocs (v : EcmaVersion) : List Stmt → List Doc
  | [] => []
  | s :: ss => stmtDoc v s :: stmtDocs v ss

def catchDoc (v : EcmaVersion) : Catch → Doc
  | .mk param body =>
    text "catch " ++
      (match param with
        | some p => text "(" ++ patDoc v p ++ text ")"
        | none => []) ++ text " " ++ blockDoc (stmtDocs v body)

def caseDoc (v : EcmaVersion) : Case → Doc
  | .mk test body =>
    (match test with
      | some e => text "case " ++ exprDoc v e
      | none => text "default") ++ text ":" ++
      (if body.isEmpty then [] else line ++ nested (joinDocs line (stmtDocs v body)))

def caseDocs (v : EcmaVersion) : List Case → List Doc
  | [] => []
  | c :: cs => caseDoc v c :: caseDocs v cs

def forHeadDoc (v : EcmaVersion) : ForHead → Doc
  | .absent => []
  | .var d => varDeclDoc v d
  | .pat p => patDoc v p
  | .expr e => exprDoc v e

def varDeclDoc (v : EcmaVersion) : VarDecl → Doc
  | .mk kind decls => text (kind.text ++ " ") ++ commas (declaratorDocs v decls)

def declaratorDoc (v : EcmaVersion) : Declarator → Doc
  | .mk target init _ => patDoc v target ++ exprDoc? v " = " init

def declaratorDocs (v : EcmaVersion) : List Declarator → List Doc
  | [] => []
  | d :: ds => declaratorDoc v d :: declaratorDocs v ds

def declDoc (v : EcmaVersion) : Decl → Doc
  | .func name f => functionDoc v f (some name)
  | .cls name c =>
    text (if isAbstractClass c then "abstract " else "") ++ text ("class " ++ name.name) ++
      classDoc v c
  | .var d => varDeclDoc v d ++ text ";"
  | .iface i => interfaceDoc v i
  | .typeAlias name params t =>
    text ("type " ++ name.name) ++ typeParamsDoc v params ++ text " = " ++ typeDoc v t ++ text ";"
  | .enum isConst name members =>
    text (if isConst then "const " else "") ++ text ("enum " ++ name.name ++ " ") ++
      (if members.isEmpty then braceLines []
        else commaLines "\x7b" "\x7d" (enumMemberDocs v members) [])
  | .ambient d => text "declare " ++ declDoc v d

def enumMemberDocs (v : EcmaVersion) : List EnumMember → List Doc
  | [] => []
  | m :: ms => enumMemberDoc v m :: enumMemberDocs v ms

def enumMemberDoc (v : EcmaVersion) : EnumMember → Doc
  | .mk name init => moduleNameDoc v name ++ exprDoc? v " = " init

end

def programDoc (v : EcmaVersion) (p : Program) : Doc :=
  (match p.shebang with
    | some s => text ("#!" ++ s) ++ line
    | none => []) ++ (stmtDocs v p.body).flatten

/-- The text of a program, with the parentheses of its tree and no others. -/
def emit (v : EcmaVersion) (p : Program) : String := render (programDoc v p)

end Untangle.Print
