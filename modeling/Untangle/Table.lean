/-!
# Tables

`Table` — a finite map as a list of entries, each key once. Putting an entry replaces the one with
its key; look-up gives the entry that was put last.
-/

namespace Untangle

abbrev Table (κ α : Type) := List (κ × α)

namespace Table

variable {κ α : Type} [BEq κ]

def find? (t : Table κ α) (k : κ) : Option α := t.lookup k

def has (t : Table κ α) (k : κ) : Bool := (t.find? k).isSome

def erase (t : Table κ α) (k : κ) : Table κ α := t.filter fun e => !(e.1 == k)

def put (t : Table κ α) (k : κ) (a : α) : Table κ α := Table.erase t k ++ [(k, a)]

def change (t : Table κ α) (k : κ) (f : α → α) : Table κ α :=
  t.map fun e => if e.1 == k then (e.1, f e.2) else e

end Table

end Untangle
