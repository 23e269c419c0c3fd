import Untangle.Cli.Args
import Untangle.Settings.Config

/-!
# Commands
-/

namespace Untangle.Cli

/-- What the program can be asked to do. -/
inductive CommandKind
  | deobfuscate | hash | passes
  deriving DecidableEq, Inhabited, Repr

/-- The options of the command that deobfuscates. -/
structure DeobfuscateArgs where
  input : String := "-"
  output : Option String := none
  rename : Bool := false
  loose : Bool := false
  sourceType : Option SourceType := none
  version : Option EcmaVersion := none
  typescript : Bool := false
  /-- Names of passes to run in place of the others, if there are any. -/
  passes : List String := []
  noFormat : Bool := false
  details : Bool := false
  verbose : Bool := false
  quiet : Bool := false
  deriving Inhabited

/-- A command with its options. -/
inductive Command
  | deobfuscate (args : DeobfuscateArgs)
  | hash (input : String) (hex : Bool)
  | passes (order json : Bool)
  deriving Inhabited

/-- What was asked for. -/
structure CommandLine where
  /-- The settings file that was named. -/
  configFile : Option String
  command : Command
  deriving Inhabited

/-! ## Options -/

/-- The option that every command takes. -/
def configOpt : Opt := { name := "config", value := some "FILE" }

def inputOperand : Opt := { name := "[INPUT]", value := some "INPUT", isOperand := true }

private def reasonOf {α : Type} : Except ConfigError α → Option String
  | .ok _ => none
  | .error e => some e.message

def CommandKind.opts : CommandKind → List Opt
  | .deobfuscate =>
    [inputOperand,
      { name := "output", short := some 'o', value := some "FILE" },
      { name := "rename" },
      { name := "loose" },
      { name := "source-type", value := some "TYPE", allowsEmpty := true
        refuses := fun s => reasonOf (SourceType.ofText s) },
      { name := "ecma-version", value := some "VERSION", allowsEmpty := true
        refuses := fun s => reasonOf (EcmaVersion.ofText s) },
      { name := "typescript" },
      { name := "transformer", short := some 't', value := some "NAME", repeats := true
        allowsEmpty := true },
      { name := "no-format" },
      { name := "details" },
      { name := "verbose", short := some 'v' },
      { name := "quiet", short := some 'q' },
      configOpt]
  | .hash => [inputOperand, { name := "hex" }, configOpt]
  | .passes => [{ name := "order" }, { name := "json" }, configOpt]

def CommandKind.named? : String → Option CommandKind
  | "deobfuscate" | "d" => some .deobfuscate
  | "hash" => some .hash
  | "transformers" => some .passes
  | _ => none

def CommandKind.build (k : CommandKind) (g : Given) : Command :=
  let input := (g.value? inputOperand.name).getD "-"
  match k with
  | .deobfuscate => .deobfuscate {
      input := input
      output := g.value? "output"
      rename := g.has "rename"
      loose := g.has "loose"
      sourceType := (g.value? "source-type").bind fun s => (SourceType.ofText s).toOption
      version := (g.value? "ecma-version").bind fun s => (EcmaVersion.ofText s).toOption
      typescript := g.has "typescript"
      passes := g.values "transformer"
      noFormat := g.has "no-format"
      details := g.has "details"
      verbose := g.has "verbose"
      quiet := g.has "quiet" }
  | .hash => .hash input (g.has "hex")
  | .passes => .passes (g.has "order") (g.has "json")

/-! ## Command lines -/

/-- Whether an argument is an option by its looks: a hyphen and more. -/
def isOption (arg : String) : Bool := arg.toList.head? == some '-' && arg != "-"

def splitCommand : List String → ArgState → Except UsageError (Given × CommandKind × List String)
  | [], s => do
    let s ← s.settle
    throw (if s.given.isEmpty then .noArguments else .noCommand)
  | arg :: rest, s =>
    if s.operandsOnly then
      .error (if (CommandKind.named? arg).isSome then .unexpected arg else .unknownCommand arg)
    else if s.awaits || isOption arg then do splitCommand rest (← s.step [configOpt] arg)
    else
      match CommandKind.named? arg with
      | some k => do return ((← s.settle).given, k, rest)
      | none => .error (.unknownCommand arg)

/-- Arguments to a command. A settings file named after the command wins over one named before it.
-/
def CommandLine.read (args : List String) : Except UsageError CommandLine := do
  let (before, kind, rest) ← splitCommand args {}
  let given ← readArgs kind.opts rest
  let file := match given.value? "config" with
    | some path => some path
    | none => before.value? "config"
  return { configFile := file, command := kind.build given }

/-! ## Laying options over a configuration -/

/-- A configuration with the options of a command laid over it. -/
def DeobfuscateArgs.applyTo (a : DeobfuscateArgs) (c : Config) : Config :=
  { c with
    rename := a.rename || c.rename
    loose := a.loose || c.loose
    typescript := a.typescript || c.typescript
    sourceType := a.sourceType.getD c.sourceType
    version := a.version.getD c.version
    passes := if a.passes.isEmpty then c.passes else a.passes.map fun n => .named n .null
    format := !a.noFormat && c.format
    quiet := a.quiet || c.quiet }

end Untangle.Cli
