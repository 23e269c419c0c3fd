import Untangle.Tree.Node

/-!
# Bound names

`Pat.bound` — the names that a pattern binds, from left to right. Targets that are expressions bind
nothing.
-/

namespace Untangle

mutual

def Pat.bound : Pat → List Ident
  | .name b => [b.id]
  | .array elems _ => patsBound elems
  | .object props _ => patPropsBound props
  | .rest p _ => p.bound
  | .assign left _ => left.bound
  | .expr _ => []
  | .hole => []
  | .field _ _ p => p.bound
  | .invalid => []

def patsBound : List Pat → List Ident
  | [] => []
  | p :: ps => p.bound ++ patsBound ps

def PatProp.bound : PatProp → List Ident
  | .keyValue _ value => value.bound
  | .assign b _ => [b.id]
  | .rest p => p.bound

def patPropsBound : List PatProp → List Ident
  | [] => []
  | p :: ps => p.bound ++ patPropsBound ps

end

def Declarator.bound : Declarator → List Ident
  | .mk target _ _ => target.bound

def Pat.binding? : Pat → Option Binding
  | .name b => some b.id.binding
  | _ => none

def Pat.isRest : Pat → Bool
  | .rest .. => true
  | _ => false

def Pat.isField : Pat → Bool
  | .field .. => true
  | _ => false

end Untangle
