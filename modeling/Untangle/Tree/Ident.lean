/-!
# Identifiers and bindings

Before resolution every occurrence is `unset`; labels, and names inside types, stay so. While
bindings are being resolved, occurrences are told apart by number.
-/

namespace Untangle

/-- The scope that an occurrence of a name belongs to. -/
inductive ScopeTag
  /-- Not resolved, or not a variable. -/
  | unset
  /-- Declared nowhere in the program. -/
  | free
  /-- Declared at the top level. -/
  | top
  /-- Declared in an inner scope, numbered in the order of entry. -/
  | inner (n : Nat)
  /-- Not resolved yet: the occurrence with this number in the tree. -/
  | occurrence (n : Nat)
  deriving DecidableEq, Inhabited, Repr, Hashable

/-- A variable: a name together with the scope that declares it. -/
structure Binding where
  name : String
  scope : ScopeTag
  deriving DecidableEq, Inhabited, Repr, Hashable

/-- An occurrence of a name. The position is the byte offset in the source, zero for names that
were made rather than read. -/
structure Ident where
  name : String
  scope : ScopeTag := .unset
  pos : Nat := 0
  deriving DecidableEq, Inhabited, Repr

/-- The variable an occurrence refers to. -/
def Ident.binding (id : Ident) : Binding := { name := id.name, scope := id.scope }

def Ident.withName (id : Ident) (name : String) : Ident := { id with name := name }

end Untangle
