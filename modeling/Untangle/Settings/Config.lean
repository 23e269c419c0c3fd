import Untangle.Format
import Untangle.Pass.Kind

/-!
# Configurations

A configuration is an object whose members are read in the order of their keys, unknown ones being
passed over; or a sequence of the fields in the order `Config.fields`, missing ones at the end
having their defaults.
-/

namespace Untangle

/-- A pass that is asked for. -/
inductive PassSpec
  /-- A built-in pass; no options mean the defaults. -/
  | named (name : String) (options : Json)
  | given (pass : ResolvedPass)

/-- Everything a run can be told. -/
structure Config where
  version : EcmaVersion := .latest
  /-- Whether formatting drops parentheses around optional chains. -/
  unwrapChains : Bool := true
  /-- The passes to run in place of the standard ones, if there are any. -/
  passes : List PassSpec := []
  /-- Whether names are changed after the passes have run. -/
  rename : Bool := false
  sourceType : SourceType := .both
  loose : Bool := false
  typescript : Bool := false
  /-- Whether the output is formatted. -/
  format : Bool := true
  /-- Whether messages are kept back. -/
  quiet : Bool := false
  logger : Logger := keepAll
  formatter : Formatter := Untangle.format

namespace Config

def parseSettings (c : Config) : ParseSettings :=
  { version := c.version, sourceType := c.sourceType, loose := c.loose, typescript := c.typescript }

def formatSettings (c : Config) (grammar : Grammar) : FormatSettings :=
  { parse := { c.parseSettings with sourceType := .ofGrammar grammar }, chains := c.unwrapChains }

/-! ## Passes -/

def resolvePass : PassSpec → Except ConfigError ResolvedPass
  | .named name options => do (← PassKind.named name).build options
  | .given pass => .ok pass

/-- The passes of a configuration; the first that cannot be had is reported. -/
def resolvePasses (c : Config) : Except ConfigError (List ResolvedPass) :=
  if c.passes.isEmpty then PassKind.standard.mapM fun k => k.build .null
  else c.passes.mapM resolvePass

/-! ## Decoding -/

def decodePassMember (acc : Option String × Json) (m : String × Json) :
    Except DecodeError (Option String × Json) :=
  match m.1 with
  | "name" => do return (some (← decodeText m.2), acc.2)
  | "options" => do return (acc.1, .obj (← decodeMembers m.2))
  | _ => .ok acc

/-- A pass asked for by an object with its name and options, or by a sequence of them. -/
def decodePass : Json → Except DecodeError PassSpec
  | .obj members => do
    let (name, options) ← members.foldlM decodePassMember (none, .obj [])
    match name with
    | some name => .ok (.named name options)
    | none => .error (.missingField "name")
  | .arr [] => .error (.wrongLength 0 "struct NamedTransformer with 2 elements")
  | .arr (name :: rest) => do
    let name ← decodeText name
    match rest with
    | [] => .ok (.named name (.obj []))
    | options :: more =>
      let members ← decodeMembers options
      if more.isEmpty then .ok (.named name (.obj members))
      else .error (.wrongLength (more.length + 2) "fewer elements in array")
  | j => .error (.wrongKind j "struct NamedTransformer")

def fields : List String :=
  ["ecma_version", "transform_chain_expressions", "custom_transformers", "rename", "source_type",
    "loose", "typescript", "format", "quiet"]

def decodeField (c : Config) (m : String × Json) : Except DecodeError Config :=
  match m.1 with
  | "ecma_version" => do return { c with version := ← decodeVersion m.2 }
  | "transform_chain_expressions" => do return { c with unwrapChains := ← decodeBool m.2 }
  | "custom_transformers" => do
    return { c with passes := ← (← decodeItems m.2).mapM decodePass }
  | "rename" => do return { c with rename := ← decodeBool m.2 }
  | "source_type" => do return { c with sourceType := ← decodeSourceType m.2 }
  | "loose" => do return { c with loose := ← decodeBool m.2 }
  | "typescript" => do return { c with typescript := ← decodeBool m.2 }
  | "format" => do return { c with format := ← decodeBool m.2 }
  | "quiet" => do return { c with quiet := ← decodeBool m.2 }
  | _ => .ok c

def decode : Json → Except DecodeError Config
  | .obj members => members.foldlM decodeField {}
  | .arr items => do
    let c ← (fields.zip items).foldlM decodeField {}
    if fields.length < items.length then
      .error (.wrongLength items.length "fewer elements in array")
    else .ok c
  | j => .error (.wrongKind j "struct Config")

end Config

end Untangle
