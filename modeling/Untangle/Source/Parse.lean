import Untangle.Settings.Language
import Untangle.Source.Grammar.Module
import Untangle.Source.Loose

/-!
# Parsing

When either grammar will do, the module grammar is tried first, and strictly. The reader of programs
is a parameter: `parseWith` parses with any, `parse` with that of this library, which reads the same
whatever the version.
-/

namespace Untangle

/-- How a source is to be parsed. -/
structure ParseSettings where
  version : EcmaVersion := .latest
  sourceType : SourceType := .both
  loose : Bool := false
  typescript : Bool := false
  deriving DecidableEq, Inhabited, Repr

/-- Why a source was refused, and by which grammar. -/
structure ParseError where
  position : Nat
  cause : SyntaxError
  grammar : Grammar
  deriving DecidableEq, Inhabited, Repr

/-- The cause alone. -/
def ParseError.message (e : ParseError) : String := e.cause.message

/-- The whole wording, with the place. -/
def ParseError.text (e : ParseError) : String :=
  "Syntax error at offset " ++ toString e.position ++ " (" ++ e.grammar.text ++ "): " ++ e.message

/-- The byte offsets of a top-level statement. -/
structure Extent where
  start : Nat
  stop : Nat
  deriving DecidableEq, Inhabited, Repr

/-- A parsed source. -/
structure Parsed where
  program : Program
  /-- The grammar that the source was read with. -/
  grammar : Grammar
  /-- The places of the statements of the program, in order. -/
  extents : List Extent
  deriving Inhabited

def SourceType.ofGrammar : Grammar → SourceType
  | .module => .module
  | .script => .script

/-- The statement that stands for text that could not be read. -/
def placeholderStmt : Stmt := .expr .placeholder

namespace Source

/-- The range of a text between two byte offsets, read on its own. -/
def rangeCursor (text : Cursor) (start stop : Nat) : Cursor :=
  { rest := (dropTo text.rest text.pos).charsTo stop, pos := start }
where
  dropTo : List Char → Nat → Cursor
    | [], pos => ⟨[], pos⟩
    | c :: rest, pos => if pos < start then dropTo rest (pos + c.utf8Size) else ⟨c :: rest, pos⟩

/-- A reader of programs: what a text holds, or the place and cause of the error it stops at. -/
abbrev ProgramReader := ReadMode → Cursor → Except Located Reading

/-- What is read from a text or from the ranges of one, put together. -/
def assemble (grammar : Grammar) (shebang : Option String) (body : List (Spanned Stmt)) : Parsed :=
  { program := { grammar := grammar, shebang := shebang, body := body.map (·.value) }
    grammar := grammar
    extents := body.map fun s => { start := s.start, stop := s.stop } }

/-- Parses under one grammar, and refuses a text with any error in it. -/
def parseStrict (read : ProgramReader) (source : String) (typescript : Bool) (grammar : Grammar) :
    Except ParseError Parsed :=
  let text := Cursor.ofString source
  let refused (e : Located) : ParseError :=
    { position := e.pos, cause := e.error, grammar := grammar }
  match read { grammar := grammar, typescript := typescript } text with
  | .error e => .error (refused e)
  | .ok r =>
    match r.noted with
    | e :: _ => .error (refused e)
    | [] => .ok (assemble grammar r.shebang r.body)

/-- Parses around errors under one grammar. The program read from the start of the text owns the
interpreter line. -/
def parseLoose (read : ProgramReader) (source : String) (typescript : Bool) (grammar : Grammar) :
    Parsed :=
  let text := Cursor.ofString source
  let bytes := source.toUTF8.data
  let readRange (start stop : Nat) : Except Nat Reading :=
    match read { grammar := grammar, typescript := typescript } (rangeCursor text start stop) with
    | .ok r => .ok r
    | .error e => .error (min e.pos bytes.size)
  let pieces := coverRanges bytes readRange
  let body := pieces.flatMap fun p => match p.items with
    | some r => r.body
    | none => [{ value := placeholderStmt, start := p.start, stop := p.stop }]
  let shebang := pieces.findSome? fun p => match p.items with
    | some r => if p.start = 0 then some r.shebang else none
    | none => none
  assemble grammar (shebang.getD none) body

def parseAs (read : ProgramReader) (source : String) (loose typescript : Bool)
    (grammar : Grammar) : Except ParseError Parsed :=
  if loose then .ok (parseLoose read source typescript grammar)
  else parseStrict read source typescript grammar

end Source

/-- Parses with the reader for the version that is set. -/
def parseWith (reader : EcmaVersion → Source.ProgramReader) (source : String)
    (settings : ParseSettings) : Except ParseError Parsed :=
  let read := reader settings.version
  match settings.sourceType with
  | .module => Source.parseAs read source settings.loose settings.typescript .module
  | .script => Source.parseAs read source settings.loose settings.typescript .script
  | .both =>
    match Source.parseStrict read source settings.typescript .module with
    | .ok p => .ok p
    | .error _ => Source.parseAs read source settings.loose settings.typescript .script

/-- Parses a source. Every version is read alike. -/
def parse (source : String) (settings : ParseSettings) : Except ParseError Parsed :=
  parseWith (fun _ => Source.readProgram) source settings

end Untangle
