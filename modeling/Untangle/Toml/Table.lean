import Untangle.Json.Basic

/-!
# Documents of tables

A settings document is a table of keys, whose values are tables again, lists of tables, or plain
values. How a table came about decides who may still add to it.

No key is defined twice, a header opens a table only once, and only dotted keys add to a table that
dotted keys have made.
-/

namespace Untangle.Toml

/-- How a table came about. -/
inductive Origin
  /-- On the way to another, in a header. -/
  | implied
  /-- On the way to a value, in a dotted key. -/
  | dotted
  /-- By a header of its own, or as the document. -/
  | opened
  deriving DecidableEq, Inhabited, Repr

/-- A value of a document. -/
inductive Node
  | value (j : Json)
  | table (origin : Origin) (members : List (String × Node))
  /-- A list of tables, latest first. -/
  | tables (items : List (List (String × Node)))
  deriving Inhabited

abbrev Members := List (String × Node)

def setMember (ms : Members) (key : String) (node : Node) : Members :=
  if ms.any fun m => m.1 == key then ms.map fun m => if m.1 == key then (key, node) else m
  else ms ++ [(key, node)]

/-! ## Dotted keys -/

def define (value : Json) : List String → Members → Option Members
  | [], _ => none
  | [key], ms => if (ms.lookup key).isSome then none else some (setMember ms key (.value value))
  | key :: path, ms =>
    match ms.lookup key with
    | none => (define value path []).map fun inner => setMember ms key (.table .dotted inner)
    | some (.table .opened _) => none
    | some (.table .implied inner) =>
      if path.length = 1 then none
      else (define value path inner).map fun inner => setMember ms key (.table .implied inner)
    | some (.table .dotted inner) =>
      (define value path inner).map fun inner => setMember ms key (.table .dotted inner)
    | some _ => none

/-! ## Headers -/

/-- A change to the table that a path leads to. Tables on the way are made if they are not there; of
a list of tables it is the latest. -/
def changeAt (change : Members → Option Members) : List String → Members → Option Members
  | [], ms => change ms
  | key :: path, ms =>
    match ms.lookup key with
    | none => (changeAt change path []).map fun inner => setMember ms key (.table .implied inner)
    | some (.table origin inner) =>
      (changeAt change path inner).map fun inner => setMember ms key (.table origin inner)
    | some (.tables (latest :: earlier)) =>
      (changeAt change path latest).map fun latest => setMember ms key (.tables (latest :: earlier))
    | some _ => none

def openKey (key : String) (ms : Members) : Option Members :=
  match ms.lookup key with
  | none => some (setMember ms key (.table .opened []))
  | some (.table .implied inner) => some (setMember ms key (.table .opened inner))
  | some _ => none

def openItemKey (key : String) (ms : Members) : Option Members :=
  match ms.lookup key with
  | none => some (setMember ms key (.tables [[]]))
  | some (.tables items) => some (setMember ms key (.tables ([] :: items)))
  | some _ => none

def openTable (path : List String) (ms : Members) : Option Members :=
  match path.getLast? with
  | some key => changeAt (openKey key) path.dropLast ms
  | none => none

def openItem (path : List String) (ms : Members) : Option Members :=
  match path.getLast? with
  | some key => changeAt (openItemKey key) path.dropLast ms
  | none => none

/-! ## Finished documents -/

mutual

def nodeJson : Node → Json
  | .value j => j
  | .table _ members => Json.ofMembers (membersJson members)
  | .tables items => .arr (itemsJson items).reverse

def membersJson : List (String × Node) → List (String × Json)
  | [] => []
  | (key, node) :: rest => (key, nodeJson node) :: membersJson rest

def itemsJson : List (List (String × Node)) → List Json
  | [] => []
  | ms :: rest => Json.ofMembers (membersJson ms) :: itemsJson rest

end

def Members.toJson (ms : Members) : Json := Json.ofMembers (membersJson ms)

end Untangle.Toml
