/-!
# Operators

The operators of expressions with their spelling, and for binary ones the binding strength that the
grammar and the printer share.
-/

namespace Untangle

/-- Operators before a single operand. -/
inductive UnaryOp
  | minus | plus | not | bitNot | typeOf | void | delete
  deriving DecidableEq, Inhabited, Repr

/-- Increment and decrement. -/
inductive UpdateOp
  | increment | decrement
  deriving DecidableEq, Inhabited, Repr

/-- Operators between two operands. -/
inductive BinaryOp
  | looseEq | looseNe | strictEq | strictNe
  | lt | le | gt | ge
  | shl | shr | ushr
  | add | sub | mul | div | mod
  | bitOr | bitXor | bitAnd
  | or | and
  | isIn | isInstance
  | exp | nullish
  deriving DecidableEq, Inhabited, Repr

/-- Plain assignment, or assignment of an operation's result. -/
inductive AssignOp
  | plain
  | combined (op : BinaryOp)
  deriving DecidableEq, Inhabited, Repr

def UnaryOp.text : UnaryOp → String
  | .minus => "-"
  | .plus => "+"
  | .not => "!"
  | .bitNot => "~"
  | .typeOf => "typeof"
  | .void => "void"
  | .delete => "delete"

def UpdateOp.text : UpdateOp → String
  | .increment => "++"
  | .decrement => "--"

def BinaryOp.text : BinaryOp → String
  | .looseEq => "=="
  | .looseNe => "!="
  | .strictEq => "==="
  | .strictNe => "!=="
  | .lt => "<"
  | .le => "<="
  | .gt => ">"
  | .ge => ">="
  | .shl => "<<"
  | .shr => ">>"
  | .ushr => ">>>"
  | .add => "+"
  | .sub => "-"
  | .mul => "*"
  | .div => "/"
  | .mod => "%"
  | .bitOr => "|"
  | .bitXor => "^"
  | .bitAnd => "&"
  | .or => "||"
  | .and => "&&"
  | .isIn => "in"
  | .isInstance => "instanceof"
  | .exp => "**"
  | .nullish => "??"

def AssignOp.text : AssignOp → String
  | .plain => "="
  | .combined op => op.text ++ "="

/-- How tightly a binary operator binds; larger is tighter. The logical or and the nullish operator
share the lowest place. -/
def BinaryOp.precedence : BinaryOp → Nat
  | .nullish => 1
  | .or => 1
  | .and => 2
  | .bitOr => 3
  | .bitXor => 4
  | .bitAnd => 5
  | .looseEq | .looseNe | .strictEq | .strictNe => 6
  | .lt | .le | .gt | .ge | .isIn | .isInstance => 7
  | .shl | .shr | .ushr => 8
  | .add | .sub => 9
  | .mul | .div | .mod => 10
  | .exp => 11

def BinaryOp.all : List BinaryOp :=
  [.looseEq, .looseNe, .strictEq, .strictNe, .lt, .le, .gt, .ge, .shl, .shr, .ushr, .add, .sub,
    .mul, .div, .mod, .bitOr, .bitXor, .bitAnd, .or, .and, .isIn, .isInstance, .exp, .nullish]

def BinaryOp.ofText? (s : String) : Option BinaryOp :=
  BinaryOp.all.find? (·.text == s)

def UnaryOp.ofText? (s : String) : Option UnaryOp :=
  [.minus, .plus, .not, .bitNot, .typeOf, .void, .delete].find? (UnaryOp.text · == s)

/-- The operators that `op=` may be made of. -/
def AssignOp.all : List AssignOp :=
  .plain :: [BinaryOp.add, .sub, .mul, .div, .mod, .shl, .shr, .ushr, .bitOr, .bitXor, .bitAnd,
    .exp, .and, .or, .nullish].map .combined

def AssignOp.ofText? (s : String) : Option AssignOp :=
  AssignOp.all.find? (·.text == s)

end Untangle
