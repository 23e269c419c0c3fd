import Untangle.Number.Spelling
import Untangle.Text.IdentifierChar
import Untangle.Tree.Build

/-!
# Static keys and values

What an expression or key denotes without running anything.
-/

namespace Untangle

namespace Expr

/-- The text of a string literal, through parentheses. -/
def text? (e : Expr) : Option String :=
  match e.unparen with
  | .lit (.str s) => s.text?
  | _ => none

/-- The value of a number literal, possibly after a minus sign, through parentheses. -/
def number? (e : Expr) : Option Float :=
  match e.unparen with
  | .lit (.num n) => some n.value
  | .unary .minus arg =>
    match arg.unparen with
    | .lit (.num n) => some (-n.value)
    | _ => none
  | _ => none

end Expr

/-- The key of a member access: `a.b` and `a["b"]` both have the key `b`. -/
def MemberProp.key? : MemberProp → Option String
  | .name s => some s
  | .computed e => e.text?
  | .privateName _ => none

/-- The key of an object member; a number is spelled as it converts to a string. -/
def PropName.key? : PropName → Option String
  | .name s => some s
  | .str s => s.text?
  | .num n => Number.conversionText? n.value
  | .computed e => e.text?
  | .bigint _ => none
  | .privateName _ => none

/-- What an identifier may start with. -/
def isNameStart (c : Char) : Bool := c == '$' || c == '_' || Text.isAlphabetic c

/-- What an identifier may go on with. -/
def isNamePart (c : Char) : Bool :=
  c == '$' || c == '_' || c.toNat == 0x200C || c.toNat == 0x200D || Text.isAlphanumeric c

/-- Whether a text can stand after a dot. -/
def isIdentifierName (s : String) : Bool :=
  match s.toList with
  | [] => false
  | c :: cs => isNameStart c && cs.all isNamePart

/-- Names that no variable is given. -/
def reservedNames : List String :=
  ["await", "break", "case", "catch", "class", "const", "continue", "debugger", "default",
    "delete", "do", "else", "enum", "export", "extends", "false", "finally", "for", "function",
    "if", "implements", "import", "in", "instanceof", "interface", "let", "new", "null",
    "package", "private", "protected", "public", "return", "static", "super", "switch", "this",
    "throw", "true", "try", "typeof", "var", "void", "while", "with", "yield", "arguments",
    "eval", "undefined", "NaN", "Infinity"]

/-- Whether a name is kept from variables. -/
def isReservedName (s : String) : Bool := reservedNames.contains s

/-- Whether an operator only computes when its operand is a literal. -/
private def isQuiet : UnaryOp → Bool
  | .minus | .plus | .not | .void => true
  | _ => false

mutual

/-- Whether evaluating an expression can do nothing but give its value. -/
def Expr.isPure : Expr → Bool
  | .paren e => e.isPure
  | .lit (.regex ..) => false
  | .lit _ => true
  | .func .. | .arrow _ => true
  | .unary op arg =>
    isQuiet op && (match arg.unparen with
      | .lit _ => true
      | _ => false)
  | .array elems => arePure elems
  | _ => false

/-- Whether all elements of an array literal are pure; one left out is. -/
def arePure : List Expr → Bool
  | [] => true
  | .hole :: rest => arePure rest
  | e :: rest => e.isPure && arePure rest

end

end Untangle
