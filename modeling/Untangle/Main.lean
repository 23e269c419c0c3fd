import Untangle.Cli.Run

/-!
# The program

Runs a command in the surroundings of the process: its directory, its files and its streams.
-/

namespace Untangle.Cli

def FileError.ofSystem : IO.Error → FileError
  | .noFileOrDirectory .. => .notFound
  | .inappropriateType _ 21 _ => .isDirectory
  | .inappropriateType _ 20 _ => .notDirectory
  | e => .other (toString e)

def caught {α : Type} (x : IO α) : IO (Except FileError α) := do
  try return .ok (← x)
  catch e => return .error (.ofSystem e)

def asText (bytes : ByteArray) : Except FileError String :=
  match String.fromUTF8? bytes with
  | some s => .ok s
  | none => .error .notText

def processWorld : World IO where
  directories := do return upward (← IO.currentDir).toString
  isFile := fun path => do
    match ← caught (IO.FS.readBinFile path) with
    | .ok _ => return true
    | .error _ => return false
  readFile := fun path => do
    match ← caught (IO.FS.readBinFile path) with
    | .ok bytes => return asText bytes
    | .error e => return .error e
  writeFile := fun path text => caught (IO.FS.writeFile path text)
  readInput := caught (do (← IO.getStdin).readToEnd)

end Untangle.Cli

def main (args : List String) : IO UInt32 := do
  let outcome ← Untangle.Cli.run Untangle.Cli.processWorld args
  IO.print outcome.stdout
  IO.eprint outcome.stderr
  return outcome.status.toUInt32
