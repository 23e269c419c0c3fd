import Untangle.Print.Literal
import Untangle.Print.Piece
import Untangle.Tree.TypeExpr

/-!
# Printing literals, names and types

The leaves that statements and expressions share.
-/

namespace Untangle.Print

def litDoc (v : EcmaVersion) : Lit → Doc
  | .str s => text (stringText v s)
  | .num n => text (numberText v n)
  | .bool b => text (if b then "true" else "false")
  | .null => text "null"
  | .bigint raw => text (bigintText v raw)
  | .regex body flags => text ("/" ++ body ++ "/" ++ flags)

private def pathDoc (path : List Ident) : Doc :=
  joinDocs (text ".") (path.map fun id => text id.name)

def angled (ds : List Doc) : Doc :=
  if ds.isEmpty then [] else text "<" ++ commas ds ++ text ">"

mutual

def typeDoc (v : EcmaVersion) : TypeExpr → Doc
  | .keyword w => text w
  | .ref path args => pathDoc path ++ angled (typeDocs v args)
  | .union parts => joinDocs (text " | ") (typeDocs v parts)
  | .intersection parts => joinDocs (text " & ") (typeDocs v parts)
  | .array elem => typeDoc v elem ++ text "[]"
  | .tuple elems => text "[" ++ commas (typeDocs v elems) ++ text "]"
  | .lit l => litDoc v l
  | .paren t => text "(" ++ typeDoc v t ++ text ")"
  | .typeQuery path => text "typeof " ++ pathDoc path

def typeDocs (v : EcmaVersion) : List TypeExpr → List Doc
  | [] => []
  | t :: ts => typeDoc v t :: typeDocs v ts

end

def annDoc (v : EcmaVersion) : Option TypeExpr → Doc
  | some t => text ": " ++ typeDoc v t
  | none => []

def bindingNameDoc (v : EcmaVersion) (b : BindingName) : Doc :=
  text b.id.name ++ (if b.optional then text "?" else []) ++ annDoc v b.ann

def typeParamsDoc (v : EcmaVersion) (ps : List TypeParam) : Doc :=
  angled (ps.map fun p =>
    text p.name.name ++
      (match p.bound with
        | some t => text " extends " ++ typeDoc v t
        | none => []) ++
      (match p.fallback with
        | some t => text " = " ++ typeDoc v t
        | none => []))

def signatureDoc (v : EcmaVersion) : Signature → Doc
  | .property isReadonly key optional type =>
    text (if isReadonly then "readonly " else "") ++ text key ++
      text (if optional then "?" else "") ++ annDoc v type ++ text ";"
  | .method key optional params ret =>
    text key ++ text (if optional then "?" else "") ++ text "(" ++
      commas (params.map (bindingNameDoc v)) ++ text ")" ++ annDoc v ret ++ text ";"

def interfaceDoc (v : EcmaVersion) (i : Interface) : Doc :=
  text ("interface " ++ i.name.name) ++ typeParamsDoc v i.typeParams ++
    (if i.bases.isEmpty then [] else text " extends " ++ commas (typeDocs v i.bases)) ++
    text " " ++ braceLines (i.members.map (signatureDoc v))

end Untangle.Print
