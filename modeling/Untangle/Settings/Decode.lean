import Untangle.Json.Write
import Untangle.Settings.Language
import Untangle.Text.Quoted

/-!
# Settings from structured values

A double is never taken for a whole number, whatever its value.
-/

namespace Untangle

/-- Why a structured value is not the setting asked for. -/
inductive DecodeError
  /-- A value of another kind. -/
  | wrongKind (found : Json) (expected : String)
  /-- A whole number that is not one of those allowed. -/
  | outOfRange (n : Int) (expected : String)
  | unknownField (name : String) (known : List String)
  | missingField (name : String)
  | unknownChoice (name : String) (known : List String)
  /-- A sequence of fields with too few or too many items. -/
  | wrongLength (n : Nat) (expected : String)
  /-- A choice written as an object with no or several members. -/
  | notOneMember
  /-- Neither a number of 32 bits nor a text where an edition is asked for. -/
  | noVersion
  | badVersion (e : ConfigError)
  deriving Inhabited

/-! ## Wording -/

def Json.describe : Json → String
  | .null => "null"
  | .bool b => "boolean \x60" ++ (if b then "true" else "false") ++ "\x60"
  | .int n => "integer \x60" ++ toString n ++ "\x60"
  | .float x => "floating point \x60" ++ Json.floatText x ++ "\x60"
  | .str s => "string " ++ Text.quoted s
  | .arr _ => "sequence"
  | .obj _ => "map"

def graved (name : String) : String := "\x60" ++ name ++ "\x60"

/-- The names to choose from; `none` is said when there are none. -/
def choices (none : String) : List String → String
  | [] => none
  | [a] => "expected " ++ graved a
  | [a, b] => "expected " ++ graved a ++ " or " ++ graved b
  | names => "expected one of " ++ String.intercalate ", " (names.map graved)

def DecodeError.message : DecodeError → String
  | .wrongKind found expected => "invalid type: " ++ found.describe ++ ", expected " ++ expected
  | .outOfRange n expected =>
    "invalid value: " ++ (Json.int n).describe ++ ", expected " ++ expected
  | .unknownField name known =>
    "unknown field " ++ graved name ++ ", " ++ choices "there are no fields" known
  | .missingField name => "missing field " ++ graved name
  | .unknownChoice name known =>
    "unknown variant " ++ graved name ++ ", " ++ choices "there are no variants" known
  | .wrongLength n expected => "invalid length " ++ toString n ++ ", expected " ++ expected
  | .notOneMember => "invalid value: map, expected map with a single key"
  | .noVersion => "data did not match any variant of untagged enum EcmaVersionRepr"
  | .badVersion e => e.message

/-! ## Plain kinds -/

def decodeBool : Json → Except DecodeError Bool
  | .bool b => .ok b
  | j => .error (.wrongKind j "a boolean")

def decodeText : Json → Except DecodeError String
  | .str s => .ok s
  | j => .error (.wrongKind j "a string")

def decodeCount : Json → Except DecodeError Nat
  | .int n => if 0 ≤ n ∧ n < Nat.pow 2 64 then .ok n.toNat else .error (.outOfRange n "usize")
  | j => .error (.wrongKind j "usize")

def decodeItems : Json → Except DecodeError (List Json)
  | .arr items => .ok items
  | j => .error (.wrongKind j "a sequence")

def decodeMembers : Json → Except DecodeError (List (String × Json))
  | .obj members => .ok members
  | j => .error (.wrongKind j "a map")

/-! ## Languages -/

def decodeVersion : Json → Except DecodeError EcmaVersion
  | .int n =>
    if 0 ≤ n ∧ n < Nat.pow 2 32 then
      match EcmaVersion.ofNumber? n.toNat with
      | some v => .ok v
      | none => .error (.badVersion (.invalidVersion (toString n)))
    else .error .noVersion
  | .str s => (EcmaVersion.ofText s).mapError .badVersion
  | _ => .error .noVersion

def sourceTypeNames : List String := [SourceType.module, .script, .both].map SourceType.text

/-- A way to read a source, by its exact name. -/
def sourceTypeNamed (s : String) : Except DecodeError SourceType :=
  match [SourceType.module, .script, .both].find? fun t => t.text == s with
  | some t => .ok t
  | none => .error (.unknownChoice s sourceTypeNames)

/-- A way to read a source: its name, or an object with the name as its one key and no value. -/
def decodeSourceType : Json → Except DecodeError SourceType
  | .str s => sourceTypeNamed s
  | .obj [(s, value)] => do
    let t ← sourceTypeNamed s
    match value with
    | .null => .ok t
    | j => .error (.wrongKind j "unit")
  | .obj _ => .error .notOneMember
  | j => .error (.wrongKind j "string or map")

end Untangle
