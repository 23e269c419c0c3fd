import Untangle.Source.Error
import Untangle.Tree.Literal

/-!
# Tokens
-/

namespace Untangle

/-- The unread characters and the byte offset of the first. -/
structure Cursor where
  rest : List Char
  pos : Nat
  deriving DecidableEq, Inhabited

namespace Cursor

def ofString (s : String) : Cursor := { rest := s.toList, pos := 0 }

/-- Past `n` characters. -/
def skip (c : Cursor) : Nat → Cursor
  | 0 => c
  | n + 1 => match c.rest with
    | [] => c
    | ch :: rest => skip { rest := rest, pos := c.pos + ch.utf8Size } n

/-- Past a run of characters that satisfy `p`, with the run. -/
def takeRun (c : Cursor) (p : Char → Bool) : List Char × Cursor :=
  let run := c.rest.takeWhile p
  let stop := run.foldl (fun pos ch => pos + ch.utf8Size) c.pos
  (run, { rest := c.rest.drop run.length, pos := stop })

/-- The characters from here up to a byte offset. -/
def charsTo (c : Cursor) (stop : Nat) : List Char :=
  go c.rest c.pos
where
  go : List Char → Nat → List Char
    | [], _ => []
    | ch :: rest, pos => if pos < stop then ch :: go rest (pos + ch.utf8Size) else []

def textTo (c : Cursor) (stop : Cursor) : String := String.ofList (c.charsTo stop.pos)

end Cursor

/-- Tokens. -/
inductive Token
  /-- An identifier or a keyword; a plain one is an identifier whatever its name. -/
  | word (name : String) (plain : Bool)
  | punct (text : String)
  | num (n : NumLit)
  | bigint (raw : String)
  | str (s : StrLit)
  /-- The opening of a template. -/
  | backquote
  | eof
  /-- Characters that make no token. -/
  | error (e : Located)
  deriving DecidableEq, Inhabited

/-- A token in its place. -/
structure Lexeme where
  token : Token
  /-- Where the token starts; a comment of the old kind before it counts as part of it. -/
  start : Nat
  /-- The cursor at the token's first character. -/
  here : Cursor
  /-- The cursor after the token. -/
  after : Cursor
  /-- Whether a line ended between the previous token and this one. -/
  newline : Bool
  /-- Errors that did not stop the scan. -/
  recovered : List Located
  deriving Inhabited

def Lexeme.stop (l : Lexeme) : Nat := l.after.pos

def Lexeme.isPunct (l : Lexeme) (p : String) : Bool := l.token == .punct p

/-- Whether a token is this word and not plainly an identifier. -/
def Lexeme.isWord (l : Lexeme) (w : String) : Bool := l.token == .word w false

def reservedWords : List String :=
  ["break", "case", "catch", "class", "const", "continue", "debugger", "default", "delete", "do",
    "else", "enum", "export", "extends", "false", "finally", "for", "function", "if", "import",
    "in",
    "instanceof", "new", "null", "return", "super", "switch", "this", "throw", "true", "try",
    "typeof", "var", "void", "while", "with"]

def strictReservedWords : List String :=
  ["implements", "interface", "let", "package", "private", "protected", "public", "static"]

/-- Words with a meaning in some places, which an error message names as they are. -/
def contextualWords : List String :=
  ["abstract", "accessor", "any", "as", "assert", "asserts", "async", "await", "bigint", "boolean",
    "declare", "from", "get", "global", "implements", "infer", "interface", "intrinsic", "is",
    "keyof", "let", "meta", "module", "namespace", "never", "number", "object", "of", "out",
    "override", "package", "private", "protected", "public", "readonly", "require", "satisfies",
    "set", "static", "string", "symbol", "target", "type", "undefined", "unique", "unknown",
    "using", "yield"]

def Token.describe : Token → String
  | .word name plain =>
    if !plain && (reservedWords.contains name || contextualWords.contains name) then name
    else "ident"
  | .punct text => text
  | .num _ => "numeric literal"
  | .bigint _ => "bigint literal"
  | .str _ => "string literal"
  | .backquote => "`"
  | .eof => "<eof>"
  | .error _ => "<lexing error>"

end Untangle
