/-!
# Structured values

The values that configurations and options are written in. Whole numbers and others are kept apart,
because an option that counts takes only the former. An object that is read has its members in the
order of their keys, each key once; one that is only written, such as a report, has them as it lists
them.
-/

namespace Untangle

/-- A structured value. -/
inductive Json
  | null
  | bool (b : Bool)
  | int (n : Int)
  | float (x : Float)
  | str (s : String)
  | arr (items : List Json)
  /-- Members with their keys, as they are written. -/
  | obj (members : List (String × Json))
  deriving Inhabited

namespace Json

/-- Puts a member in its place, replacing one with the same key. -/
def insertMember (key : String) (value : Json) : List (String × Json) → List (String × Json)
  | [] => [(key, value)]
  | (k, v) :: rest =>
    if key < k then (key, value) :: (k, v) :: rest
    else if key == k then (key, value) :: rest
    else (k, v) :: insertMember key value rest

def ofMembers (members : List (String × Json)) : Json :=
  .obj (members.foldl (fun acc m => insertMember m.1 m.2 acc) [])

def member? (j : Json) (key : String) : Option Json :=
  match j with
  | .obj members => (members.find? (·.1 == key)).map (·.2)
  | _ => none

def str? : Json → Option String
  | .str s => some s
  | _ => none

def bool? : Json → Option Bool
  | .bool b => some b
  | _ => none

end Json

end Untangle
