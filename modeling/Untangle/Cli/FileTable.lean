import Untangle.Cli.Run

/-!
# Files in memory

Surroundings without a process: a table of files below one directory, in which a command can be run
as a function.

Paths are followed as the tables of a file system would have it: a step up leaves the directory, a
path through a file or to a directory is refused, and a file is written only where its directory is.
-/

namespace Untangle.Cli

/-- A path from the root, by its steps. -/
abbrev Steps := List String

/-- Files and directories by their paths, and the text of standard input. -/
structure FileTable where
  files : List (Steps × String) := []
  directories : List Steps := []
  input : String := ""
  deriving Inhabited

/-- The steps of a path, without idle ones, and with steps up taken. -/
def steps (path : String) : Steps :=
  (path.splitOn "/").foldl (fun acc step =>
    if step.isEmpty || step == "." then acc
    else if step == ".." then acc.dropLast
    else acc ++ [step]) []

def locate (directory path : String) : Steps :=
  if path.startsWith "/" then steps path else steps (directory ++ "/" ++ path)

namespace FileTable

def find? (t : FileTable) (path : Steps) : Option String := t.files.lookup path

/-- Whether a path leads to a directory: the root, one that is listed, or one with a file below. -/
def isDirectory (t : FileTable) (path : Steps) : Bool :=
  path.isEmpty || t.directories.any (fun d => path.isPrefixOf d) ||
    t.files.any fun f => path.isPrefixOf f.1 && path != f.1

/-- Why a path leads to no file. -/
def fault (t : FileTable) (path : Steps) : FileError :=
  if t.isDirectory path then .isDirectory
  else if t.files.any fun f => f.1.isPrefixOf path then .notDirectory
  else .notFound

def read (t : FileTable) (path : Steps) : Except FileError String :=
  match t.find? path with
  | some text => .ok text
  | none => .error (t.fault path)

def write (t : FileTable) (path : Steps) (text : String) : Except FileError FileTable :=
  if t.isDirectory path then .error .isDirectory
  else if t.isDirectory path.dropLast then
    .ok { t with files := (path, text) :: t.files.filter fun f => f.1 != path }
  else .error (t.fault path.dropLast)

/-- The surroundings that a table is, seen from a working directory. -/
def world (directory : String) : World (StateM FileTable) where
  directories := pure (upward directory)
  isFile := fun path => do return ((← get).find? (locate directory path)).isSome
  readFile := fun path => do
    if path.isEmpty then return .error .notFound
    return (← get).read (locate directory path)
  writeFile := fun path text => do
    if path.isEmpty then return .error .notFound
    match (← get).write (locate directory path) text with
    | .ok t =>
      set t
      return .ok ()
    | .error e => return .error e
  readInput := do return .ok (← get).input

end FileTable

def runIn (directory : String) (args : List String) (t : FileTable) : Outcome × FileTable :=
  (run (FileTable.world directory) args).run t

end Untangle.Cli
