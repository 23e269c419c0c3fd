import Untangle.Pass.Context
import Untangle.Pass.DeadCode
import Untangle.Pass.Dispatcher
import Untangle.Pass.MemberKeys
import Untangle.Pass.Proxy
import Untangle.Pass.Rename
import Untangle.Pass.Sequence
import Untangle.Pass.Simplify
import Untangle.Pass.StringArray
import Untangle.Settings.Decode

/-!
# The passes there are

Options are checked when a pass is built: each must be known and of the kind of its default, and the
first in the order of keys that is not is reported.
-/

namespace Untangle

/-- The built-in passes. -/
inductive PassKind
  | simplify | memberKeys | lookupObjects | deadCode | proxies | stringArrays | sequences
  | dispatchers | rename
  deriving DecidableEq, Inhabited, Repr

/-- The value of an option. -/
inductive OptionValue
  | flag (b : Bool)
  | count (n : Nat)
  deriving DecidableEq, Inhabited, Repr

abbrev PassOptions := List (String × OptionValue)

/-! ## Options -/

def OptionValue.toJson : OptionValue → Json
  | .flag b => .bool b
  | .count n => .int n

def OptionValue.decodeLike (d : OptionValue) (j : Json) : Except DecodeError OptionValue :=
  match d with
  | .flag _ => (decodeBool j).map .flag
  | .count _ => (decodeCount j).map .count

def flagOf (o : PassOptions) (name : String) : Bool :=
  match o.lookup name with
  | some (.flag b) => b
  | _ => false

def countOf (o : PassOptions) (name : String) : Nat :=
  match o.lookup name with
  | some (.count n) => n
  | _ => 0

namespace PassKind

def all : List PassKind :=
  [.simplify, .memberKeys, .lookupObjects, .deadCode, .proxies, .stringArrays, .sequences,
    .dispatchers, .rename]

def name : PassKind → String
  | .simplify => "Simplify"
  | .memberKeys => "MemberExpressionCleaner"
  | .lookupObjects => "LiteralMap"
  | .deadCode => "DeadCode"
  | .proxies => "Demangle"
  | .stringArrays => "StringDecoder"
  | .sequences => "Desequence"
  | .dispatchers => "ControlFlow"
  | .rename => "Rename"

def named (s : String) : Except ConfigError PassKind :=
  match all.find? fun k => k.name == s with
  | some k => .ok k
  | none => .error (.unknownPass s)

/-- The passes that run unless others are asked for. Those that tidy up come again after each that
makes work for them; the list is run once. -/
def standard : List PassKind :=
  [.simplify, .memberKeys, .lookupObjects, .deadCode, .proxies, .stringArrays, .simplify,
    .memberKeys, .sequences, .dispatchers, .sequences, .memberKeys, .simplify, .deadCode, .simplify,
    .deadCode]

def defaults : PassKind → PassOptions
  | .simplify => [("max_string_length", .count 1024)]
  | .memberKeys => [("object_keys", .flag true)]
  | .lookupObjects => [("remove_unused", .flag true)]
  | .deadCode => []
  | .proxies => [("remove_unused", .flag true), ("max_rounds", .count 8)]
  | .stringArrays => [("remove_decoders", .flag true)]
  | .sequences => []
  | .dispatchers => []
  | .rename => [("only_mangled", .flag false)]

def defaultOptions (k : PassKind) : Json :=
  Json.ofMembers (k.defaults.map fun o => (o.1, o.2.toJson))

/-! ## Running -/

/-- Renames, unless a call can see the names. -/
def renameNames (onlyMangled : Bool) : PassM Unit := do
  if (← get).hash.isNone then
    say .log "Rename: no source hash, positions may not match the text"
  if (← get).program.callsEval then
    say .log "Rename: direct eval found, names left as they are"
  else applying (Pass.rename onlyMangled)

def step (k : PassKind) (o : PassOptions) : PassM Unit :=
  match k with
  | .simplify => applying (Pass.simplify (countOf o "max_string_length"))
  | .memberKeys => applying (Pass.cleanMemberKeys (flagOf o "object_keys"))
  | .lookupObjects => applying (Pass.inlineLookups (flagOf o "remove_unused"))
  | .deadCode => applying Pass.removeDeadCode
  | .proxies =>
    applying (Pass.inlineProxies (flagOf o "remove_unused") (countOf o "max_rounds"))
  | .stringArrays => applying (Pass.decodeStrings (flagOf o "remove_decoders") {})
  | .sequences => applying Pass.splitSequences
  | .dispatchers => applying Pass.restoreControlFlow
  | .rename => renameNames (flagOf o "only_mangled")

/-! ## Building -/

def mergeOptions (k : PassKind) : Json → Except ConfigError (List (String × Json))
  | .null => .ok (overDefaults [])
  | .obj members => .ok (overDefaults members)
  | j => .error (.invalidOptions k.name ("expected an object, got " ++ j.compact))
where
  overDefaults (members : List (String × Json)) : List (String × Json) :=
    ((k.defaults.map fun o => (o.1, o.2.toJson)) ++ members).foldl
      (fun acc m => Json.insertMember m.1 m.2 acc) []

def decodeOption (k : PassKind) (m : String × Json) : Except DecodeError (String × OptionValue) :=
  match k.defaults.lookup m.1 with
  | some d => (d.decodeLike m.2).map fun v => (m.1, v)
  | none => .error (.unknownField m.1 (k.defaults.map Prod.fst))

/-- A pass from options, where nothing means the defaults. -/
def build (k : PassKind) (options : Json) : Except ConfigError ResolvedPass := do
  let merged ← k.mergeOptions options
  let decoded ← (merged.mapM k.decodeOption).mapError fun e => .invalidOptions k.name e.message
  pure { name := k.name, options := .obj merged, apply := k.step decoded }

end PassKind

end Untangle
