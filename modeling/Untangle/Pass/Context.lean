import Untangle.Json.Basic
import Untangle.Pass.Finding
import Untangle.Tree.Node

/-!
# What passes work on

A pass sees the whole context, so that one given by a caller may look at whether anybody listens.
Those of this library only say things.
-/

namespace Untangle

/-! ## Messages -/

/-- How a message is meant. -/
inductive Level
  | log | info
  deriving DecidableEq, Inhabited, Repr

/-- Something a pass says. -/
structure Message where
  level : Level
  text : String
  deriving DecidableEq, Inhabited, Repr

def audible (quiet : Bool) (messages : List Message) : List Message :=
  if quiet then [] else messages

/-- A listener: what it has kept and the next message give what it keeps from then on. -/
abbrev Logger := List Message → Message → List Message

def keepAll : Logger := fun kept m => kept ++ [m]

/-- What a listener has kept after some more messages, unless they are held back. -/
def Logger.told (logger : Logger) (quiet : Bool) (kept messages : List Message) : List Message :=
  (audible quiet messages).foldl logger kept

/-! ## Passes -/

/-- What passes work on. -/
structure Context where
  program : Program
  /-- The fingerprint of the source that the program was read from, if it is known. -/
  hash : Option UInt32 := none
  findings : List Finding := []
  /-- Whether messages are held back. -/
  quiet : Bool := false
  logger : Logger := keepAll
  /-- What the logger has kept. -/
  messages : List Message := []

/-- The failure of a pass. -/
structure PassError where
  pass : String
  detail : String
  deriving DecidableEq, Inhabited, Repr

def PassError.message (e : PassError) : String :=
  "Transformer " ++ e.pass ++ " failed: " ++ e.detail

abbrev PassM := ExceptT PassError (StateM Context)

/-- A pass ready to run. -/
structure ResolvedPass where
  name : String
  options : Json
  apply : PassM Unit

def say (level : Level) (text : String) : PassM Unit :=
  modify fun c => { c with messages := c.logger.told c.quiet c.messages [⟨level, text⟩] }

/-- Reports what was found; a technique met nowhere is no finding. -/
def report (found : List Finding) : PassM Unit :=
  modify fun c =>
    { c with findings := c.findings ++ found.filter fun f => f.occurrences != 0 }

/-- A step that changes the program and reports what was found. -/
def applying (f : Program → Program × List Finding) : PassM Unit := do
  let (p, found) := f (← get).program
  modify fun c => { c with program := p }
  report found

end Untangle
