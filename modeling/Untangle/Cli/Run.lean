import Untangle.Cli.Command
import Untangle.Pipeline
import Untangle.Toml.Read

/-!
# Running commands

Settings are looked for in the working directory and then in each directory above it; the command's
own options are laid over them.
-/

namespace Untangle.Cli

/-- Why a file could not be read or written. -/
inductive FileError
  | notFound | isDirectory | notDirectory | notText
  | other (text : String)
  deriving DecidableEq, Inhabited, Repr

def FileError.message : FileError → String
  | .notFound => "No such file or directory (os error 2)"
  | .isDirectory => "Is a directory (os error 21)"
  | .notDirectory => "Not a directory (os error 20)"
  | .notText => "stream did not contain valid UTF-8"
  | .other text => text

/-- What a command needs of its surroundings. -/
structure World (m : Type → Type) where
  /-- The working directory and those above it, nearest first, each with its final slash. -/
  directories : m (List String)
  isFile : String → m Bool
  readFile : String → m (Except FileError String)
  writeFile : String → String → m (Except FileError Unit)
  readInput : m (Except FileError String)

/-- What a command leaves behind. -/
structure Outcome where
  status : Nat := 0
  stdout : String := ""
  stderr : String := ""
  deriving DecidableEq, Inhabited, Repr

/-- A failure: what could not be done, and why. -/
structure Failure where
  text : String
  cause : Option String := none
  deriving DecidableEq, Inhabited, Repr

def Failure.shown (f : Failure) : String :=
  "Error: " ++ f.text ++ "\n" ++ match f.cause with
    | some cause => "\nCaused by:\n    " ++ cause ++ "\n"
    | none => ""

/-! ## Settings files -/

/-- What a settings file holds. -/
structure FileSettings where
  config : Config := {}
  details : Bool := false

def decodeOutputMember (_ : Bool) (m : String × Json) : Except DecodeError Bool :=
  if m.1 == "details" then decodeBool m.2 else .error (.unknownField m.1 ["details"])

def decodeOutput : Json → Except DecodeError Bool
  | .obj members => members.foldlM decodeOutputMember false
  | .arr [] => .ok false
  | .arr (details :: _) => decodeBool details
  | j => .error (.wrongKind j "struct OutputConfig")

def FileSettings.decodeSection (s : FileSettings) (m : String × Json) :
    Except DecodeError FileSettings :=
  match m.1 with
  | "deobfuscate" => do return { s with config := ← Config.decode m.2 }
  | "output" => do return { s with details := ← decodeOutput m.2 }
  | name => .error (.unknownField name ["deobfuscate", "output"])

/-- The settings that a file's text holds, or why there are none. -/
def FileSettings.ofText (text : String) : Except String FileSettings :=
  match Toml.read? text with
  | some (.obj members) => (members.foldlM decodeSection {}).mapError DecodeError.message
  | _ => .error "invalid document"

/-- The directories from a path up to the root, each with its final slash. -/
def upward (path : String) : List String :=
  let parts := (path.splitOn "/").filter fun p => !p.isEmpty
  (List.range (parts.length + 1)).reverse.map fun n =>
    "/" ++ String.join ((parts.take n).map (· ++ "/"))

def settingsNames : List String := ["unshroud.toml", ".unshroud.toml"]

variable {m : Type → Type} [Monad m]

def firstFile? (w : World m) : List String → m (Option String)
  | [] => pure none
  | path :: rest => do
    if ← w.isFile path then return some path else firstFile? w rest

def nearestSettings? (w : World m) : m (Option String) := do
  let dirs ← w.directories
  firstFile? w (dirs.flatMap fun d => settingsNames.map fun name => d ++ name)

/-- The settings to start from: those of the named file, else of the nearest, else the defaults. -/
def loadSettings (w : World m) (named : Option String) : ExceptT Failure m FileSettings := do
  let path? ← match named with
    | some path => pure (some path)
    | none => ExceptT.lift (nearestSettings? w)
  match path? with
  | none => return {}
  | some path =>
    match ← w.readFile path with
    | .error e => throw { text := "Failed to read " ++ path ++ ": " ++ e.message }
    | .ok text =>
      match FileSettings.ofText text with
      | .ok s => return s
      | .error e => throw { text := "Failed to parse " ++ path ++ ": TOML parse error: " ++ e }

/-! ## Commands -/

def readSource (w : World m) (path : String) : ExceptT Failure m String := do
  if path == "-" then
    match ← w.readInput with
    | .ok text => return text
    | .error e => throw { text := "Failed to read stdin", cause := some e.message }
  else
    match ← w.readFile path with
    | .ok text => return text
    | .error e => throw { text := "Failed to read " ++ path, cause := some e.message }

def findingJson (f : Finding) : Json :=
  .obj [("transformer", .str f.pass), ("technique", .str f.technique),
    ("occurrences", .int f.occurrences)]

def unlines (lines : List String) : String := String.join (lines.map (· ++ "\n"))

/-- The command that deobfuscates. The state is what has gone to standard error. -/
def runDeobfuscate (w : World m) (configFile : Option String) (a : DeobfuscateArgs) :
    ExceptT Failure (StateT String m) String := do
  let lift {α : Type} (x : ExceptT Failure m α) : ExceptT Failure (StateT String m) α :=
    ExceptT.mk (StateT.lift x.run)
  let settings ← lift (loadSettings w configFile)
  let source ← lift (readSource w a.input)
  let (result, messages) := deobfuscate (a.applyTo settings.config) source
  if a.verbose then
    modify (· ++ unlines (messages.map Message.text))
  match result with
  | .error e => throw { text := "Failed to deobfuscate " ++ a.input, cause := some e.message }
  | .ok done =>
    let stdout ← match a.output with
      | none => pure done.output
      | some path =>
        match ← lift (ExceptT.lift (w.writeFile path done.output)) with
        | .ok () => pure ""
        | .error e => throw { text := "Failed to write " ++ path, cause := some e.message }
    if a.details || settings.details then
      modify (· ++ (Json.arr (done.findings.map findingJson)).pretty ++ "\n")
    return stdout

def hexText (h : UInt32) : String :=
  "0x" ++ String.ofList (Text.hexDigits 8 h.toNat)

def runHash (w : World m) (input : String) (hex : Bool) : ExceptT Failure m String := do
  let h := fingerprint (← readSource w input)
  return (if hex then hexText h else toString h.toNat) ++ "\n"

def padded (width : Nat) (s : String) : String :=
  s ++ String.ofList (List.replicate (width - s.length) ' ')

def passList (order json : Bool) : String :=
  let names := PassKind.standard.map PassKind.name
  if order then
    if json then (Json.arr (names.map Json.str)).pretty else String.intercalate "\n" names
  else if json then
    (Json.ofMembers (PassKind.all.map fun k => (k.name, k.defaultOptions))).pretty
  else
    String.intercalate "\n"
      (PassKind.all.map fun k => padded 24 k.name ++ " " ++ k.defaultOptions.compact)

def outcomeOf : Except Failure String → Outcome
  | .ok stdout => { stdout := stdout }
  | .error f => { status := 1, stderr := f.shown }

def runCommand (w : World m) (line : CommandLine) : m Outcome :=
  match line.command with
  | .deobfuscate a => do
    let (result, said) ← (runDeobfuscate w line.configFile a).run.run ""
    let outcome := outcomeOf result
    return { outcome with stderr := said ++ outcome.stderr }
  | .hash input hex => do return outcomeOf (← (runHash w input hex).run)
  | .passes order json => return { stdout := passList order json ++ "\n" }

def run (w : World m) (args : List String) : m Outcome :=
  match CommandLine.read args with
  | .ok line => runCommand w line
  | .error e => return { status := 2, stderr := e.message ++ "\n" }

end Untangle.Cli
