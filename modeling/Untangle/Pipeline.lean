import Untangle.Print.Generate
import Untangle.Settings.Config
import Untangle.Source.Fingerprint

/-!
# Runs

A run takes a program through the passes of a configuration and then, if asked to, through a second
stage in which names are changed. For the second stage the program is printed and read again, so
that the places of its names are those of the text that they stand in.

Every run gives what its logger has kept beside its result.
-/

namespace Untangle

/-- Why a run failed. -/
inductive RunError
  | parse (e : ParseError)
  | config (e : ConfigError)
  | pass (e : PassError)
  /-- The program could not be read again for the second stage. -/
  | regenerate (e : ParseError)
  deriving DecidableEq, Inhabited, Repr

def RunError.message : RunError → String
  | .parse e => e.text
  | .config e => e.message
  | .pass e => e.message
  | .regenerate e => "Regenerated source failed to parse: " ++ e.text

/-- The result of a run, and what was found on the way. -/
structure Deobfuscated (α : Type) where
  output : α
  findings : List Finding
  deriving DecidableEq

/-- A run, which says things and may fail. -/
abbrev RunM := ExceptT RunError (StateM (List Message))

/-! ## Stages -/

/-- One pass, and a line on how much it found. -/
def runPass (pass : ResolvedPass) : PassM Unit := do
  let before := (← get).findings.length
  pass.apply
  let found := (← get).findings.length - before
  say .info (pass.name ++ ": " ++ toString found ++ " finding(s)")

/-- Passes in order; the first that fails ends the run. -/
def runPasses : List ResolvedPass → PassM Unit
  | [] => pure ()
  | pass :: rest => do
    runPass pass
    runPasses rest

/-- What a stage gives once its passes have come to an end. -/
def stageResult : Except PassError Unit × Context → Except RunError (Deobfuscated Program)
  | (.ok (), c) => .ok { output := c.program, findings := c.findings }
  | (.error e, _) => .error (.pass e)

/-- A stage of a run: passes over a fresh context, whose logger goes on from what it has kept. -/
def runStage (passes : List ResolvedPass) (c : Context) : RunM (Deobfuscated Program) :=
  ExceptT.mk do
    let ended := (runPasses passes).run { c with messages := ← get }
    set ended.2.messages
    return stageResult ended

/-! ## Runs -/

/-- A configuration with its passes resolved. -/
structure Deobfuscator where
  config : Config
  passes : List ResolvedPass
  /-- The passes of the second stage. -/
  renamePasses : List ResolvedPass

namespace Deobfuscator

def ofConfig (c : Config) : Except ConfigError Deobfuscator := do
  let passes ← c.resolvePasses
  let rename ← PassKind.rename.build .null
  pure { config := c, passes := passes, renamePasses := [rename] }

def context (d : Deobfuscator) (p : Program) : Context :=
  { program := p, quiet := d.config.quiet, logger := d.config.logger }

/-- The second stage. The program is read again with the grammar that it was read with first. -/
def renameStage (d : Deobfuscator) (p : Program) (grammar : Grammar) :
    RunM (Deobfuscated Program) := do
  let code := generate p d.config.version
  match parse code { d.config.parseSettings with sourceType := .ofGrammar grammar } with
  | .error e => throw (.regenerate e)
  | .ok parsed =>
    runStage d.renamePasses { d.context parsed.program with hash := some (fingerprint code) }

def process (d : Deobfuscator) (p : Program) (grammar : Grammar) :
    RunM (Deobfuscated Program) := do
  let main ← runStage d.passes (d.context p)
  if d.config.rename then
    let renamed ← d.renameStage main.output grammar
    pure { output := renamed.output, findings := main.findings ++ renamed.findings }
  else pure main

/-- A run on a tree, whose grammar is that of the tree. -/
def runProgram (d : Deobfuscator) (p : Program) : RunM (Deobfuscated Program) :=
  d.process p p.grammar

/-- Formatted code, or the code as it is if it cannot be formatted. -/
def finish (d : Deobfuscator) (grammar : Grammar) (code : String) : RunM String := do
  if d.config.format then
    match d.config.formatter (d.config.formatSettings grammar) code with
    | .ok formatted => pure formatted
    | .error e =>
      modify fun kept => d.config.logger.told d.config.quiet kept
        [⟨.log, "Formatting failed, output left unformatted: " ++ e.message⟩]
      pure code
  else pure code

/-- A run on a text, whose grammar is the one that the text was read with. -/
def runSource (d : Deobfuscator) (source : String) : RunM (Deobfuscated String) := do
  match parse source d.config.parseSettings with
  | .error e => throw (.parse e)
  | .ok parsed =>
    let done ← d.process parsed.program parsed.grammar
    let output ← d.finish parsed.grammar (generate done.output d.config.version)
    pure { output := output, findings := done.findings }

/-- A run from its start: the result, and what the logger has kept of the messages. -/
def listen {α : Type} (_ : Deobfuscator) (run : RunM α) : Except RunError α × List Message :=
  run.run []

end Deobfuscator

/-! ## Configured runs -/

/-- A run on a text under a configuration, whose passes are resolved first. -/
def deobfuscate (c : Config) (source : String) :
    Except RunError (Deobfuscated String) × List Message :=
  match Deobfuscator.ofConfig c with
  | .ok d => d.listen (d.runSource source)
  | .error e => (.error (.config e), [])

def deobfuscateProgram (c : Config) (p : Program) :
    Except RunError (Deobfuscated Program) × List Message :=
  match Deobfuscator.ofConfig c with
  | .ok d => d.listen (d.runProgram p)
  | .error e => (.error (.config e), [])

end Untangle
