import Untangle.Source.Grammar.Statement

/-!
# Imports and exports

The declarations that only modules have, the grammar as a whole, and the reading of one source
under one grammar.
-/

namespace Untangle.Source

/-! ## Parts -/

def moduleSource : Parser StrLit := do
  match ← curToken with
  | .str s => bump; return s
  | _ => unexpected "a string literal"

private def moduleAttributes (r : Rules) : Parser (Option (List Property)) := do
  if !(← newlineBefore) && ((← isWord "with") || (← isWord "assert")) then
    bump
    let (members, _) ← objectMembers r
    return some (members.map (·.1))
  else return none

private def moduleName : Parser ModuleName := do
  let pos ← curStart
  match ← curToken with
  | .str s => bump; return .str s
  | .word w _ => bump; return .ident { name := w, pos := pos }
  | _ => unexpected "identifier or string"

private def importItem : Parser ImportItem := do
  let isType ←
    if (← read).typescript && (← isWord "type") && !(← peek).isPunct "," &&
        !(← peek).isPunct "\x7d" && !(← peek).isWord "as" then
      bump
      pure true
    else pure false
  let pos ← curStart
  let name ← moduleName
  if ← eatWord "as" then
    let id ← bindingIdentifier
    return .named isType (some name) id
  else match name with
    | .ident id =>
      if (← read).reservesName id.name then failAt pos .reservedImport
      return .named isType none id
    | .str s => failAt pos (.importedString (s.text?.getD ""))

private def exportItem : Parser (Spanned ExportItem) := do
  let start ← curStart
  let isType ←
    if (← read).typescript && (← isWord "type") && !(← peek).isPunct "," &&
        !(← peek).isPunct "\x7d" && !(← peek).isWord "as" then
      bump
      pure true
    else pure false
  let name ← moduleName
  if ← eatWord "as" then spanned start (.named isType name (some (← moduleName)))
  else spanned start (.named isType name none)

/-! ## Imports -/

/-- The word `type` at the start of an import list, unless it is a name there. -/
private def importsTypes : Parser Bool := do
  if (← read).typescript && (← isWord "type") && !(← peek).isWord "from" then
    bump
    return true
  else return false

private def importedItems (hasDefault : Bool) : Parser (List ImportItem) := do
  if ← onlyIf hasDefault (isWord "from") then return []
  else
    if hasDefault then expectPunct ","
    if ← eatPunct "*" then
      expectWord "as"
      let id ← bindingIdentifier
      return [.namespace id]
    else if ← eatPunct "\x7b" then commaSeparated "\x7d" importItem
    else return []

def importDeclaration (r : Rules) : Parser Stmt := do
  expectWord "import"
  match ← curToken with
  | .str s =>
    bump
    let attrs ← moduleAttributes r
    expectSemicolon
    return .importDecl false [] s attrs
  | _ =>
    let isType ← importsTypes
    let default? ← binding? bindingIdentifier
    let rest ← importedItems default?.isSome
    expectWord "from"
    let source ← moduleSource
    let attrs ← moduleAttributes r
    expectSemicolon
    return .importDecl isType (default?.toList.map ImportItem.default ++ rest) source attrs

/-! ## Exports -/

/-- The module that is exported from, to the end of the declaration. -/
private def fromClause (r : Rules) : Parser (StrLit × Option (List Property)) := do
  expectWord "from"
  let source ← moduleSource
  let attrs ← moduleAttributes r
  expectSemicolon
  return (source, attrs)

/-- What is exported from here is named by identifiers. -/
private def checkExported (item : Spanned ExportItem) : Parser Unit := do
  match item.value with
  | .named _ (.ident id) _ =>
    if reservedWords.contains id.name then note id.pos (.exportWithoutSource id.name)
  | .named _ (.str _) _ => note item.start .exportedString
  | _ => pure ()

def exportDefault (r : Rules) : Parser Stmt := do
  expectWord "default"
  let function (isAsync : Bool) : Parser Stmt := do
    expectWord "function"
    let isGenerator ← eatPunct "*"
    let name ← binding? bindingIdentifier
    let f ← plainFunctionTail r isAsync isGenerator
    return .exportDefaultFunc name f
  let next ← peek
  if ← isWord "function" then function false
  else if (← isWord "async") && next.isWord "function" && !next.newline then
    bump
    function true
  else if (← isWord "class") then
    let (name, c) ← classFrom r (binding? blockIdentifier) false
    return .exportDefaultClass name c
  else if (← read).typescript && (← isWord "abstract") && next.isWord "class" then
    bump
    let (name, c) ← classFrom r (binding? blockIdentifier) true
    return .exportDefaultClass name c
  else if (← read).typescript && (← isWord "interface") then
    bump
    return .exportDefaultInterface (← interfaceTail r)
  else
    let c ← allowingIn r.assignment
    expectSemicolon
    return .exportDefaultExpr c.expr

private def exportsDeclaration : Parser Bool := do
  let next ← peek
  if ← isWord "class" then return true
  else if ← isWord "function" then return true
  else if (← isWord "async") && next.isWord "function" && !next.newline then return true
  else if (← read).typescript && (← isWord "const") && next.isWord "enum" then return false
  else return (← declarationKind?).isSome

/-- Names that are exported, in braces, from here or from another module. -/
def exportedNames (r : Rules) (isTypeList : Bool) : Parser Stmt := do
  expectPunct "\x7b"
  let items ← commaSeparated "\x7d" exportItem
  let names := items.map (·.value)
  if ← isWord "from" then
    let (source, attrs) ← fromClause r
    return .exportNamed isTypeList names (some source) attrs
  else
    items.forM checkExported
    let _ ← eatSemicolon
    return .exportNamed isTypeList names none none

/-- An export after its keyword and the mark that it is one of types. -/
def exportTail (r : Rules) (isTypeList : Bool) : Parser Stmt := do
  if ← isWord "default" then exportDefault r
  else if ← eatPunct "*" then
    if ← eatWord "as" then
      let name ← moduleName
      let (source, attrs) ← fromClause r
      return .exportNamed isTypeList [.namespace name] (some source) attrs
    else
      let (source, attrs) ← fromClause r
      return .exportAll isTypeList source attrs
  else if ← exportsDeclaration then
    let s ← r.statement true false
    match s.value with
    | .decl d => return .exportDecl d
    | _ => failAt s.start .exportAfterDecorator
  else
    match ← typedDeclaration? r with
    | some d => return .exportDecl d
    | none => exportedNames r isTypeList

def exportDeclaration (r : Rules) : Parser Stmt := do
  expectWord "export"
  let next ← peek
  let isTypeList := (← read).typescript && (← isWord "type") &&
    (next.isPunct "\x7b" || next.isPunct "*")
  if isTypeList then bump
  exportTail r isTypeList

/-- Whether the word `import` starts an expression. -/
private def importsValue : Parser Bool := do
  if ← isWord "import" then
    let next ← peek
    return next.isPunct "(" || next.isPunct "."
  else return false

/-- A statement that starts with an import expression, after which a semicolon may be left out
anywhere. -/
def importStatement (r : Rules) (start : Nat) : Parser (Spanned Stmt) := do
  let c ← expression r
  let _ ← eatSemicolon
  spanned start (.expr c.expr)

def itemRule (r : Rules) (decls top : Bool) : Parser (Spanned Stmt) := do
  let start ← curStart
  if ← importsValue then importStatement r start
  else if (← isWord "import") || (← isWord "export") then
    if !top || !(← read).isModule then failHere .importExportInScript
    else
      let s ← if ← isWord "import" then importDeclaration r else exportDeclaration r
      spanned start s
  else statementRule r decls

/-! ## The grammar -/

/-- The rules in terms of themselves. -/
def Rules.unroll (r : Rules) : Rules where
  assignment := assignmentRule r
  unary := unaryRule r
  binaryTail := binaryTailRule r
  member := memberRule r
  leftHand := leftHandRule r
  pattern := patternRule r
  statement := itemRule r
  type := typeRule r

def grammar : Nat → Rules
  | 0 => Rules.none
  | n + 1 => (grammar n).unroll

/-! ## Whole sources -/

/-- What a reading gives: statements in their places, and the errors noted on the way in the order
they were met. -/
structure Reading where
  shebang : Option String
  body : List (Spanned Stmt)
  noted : List Located
  deriving Inhabited

/-- The first line of a source that names an interpreter. -/
def shebang? (c : Cursor) : Option (String × Cursor) :=
  match c.rest with
  | '#' :: '!' :: _ =>
    let (line, after) := (c.skip 2).takeRun fun ch => !Text.isLineEnd ch
    some (String.ofList line, after)
  | _ => none

/-- How a source is to be read. -/
structure ReadMode where
  grammar : Grammar
  typescript : Bool
  deriving DecidableEq, Inhabited

/-- Between two tokens the rules pass through each other at most this often. -/
def rulesPerToken : Nat := 6

def readProgram (mode : ReadMode) (source : Cursor) : Except Located Reading :=
  let limit := source.rest.length + 8
  let isModule := mode.grammar == .module
  let ctx : Context :=
    { strict := isModule, isModule := isModule, typescript := mode.typescript, limit := limit }
  let (shebang, start) := match shebang? source with
    | some (line, after) => (some line, after)
    | none => (none, source)
  let state : State :=
    { cur := scan ctx.mode true start, prevEnd := start.pos, noted := [], arrowStart := none }
  let body : Parser (List (Spanned Stmt)) := do
    let body ← sourceStatements (grammar (rulesPerToken * limit))
    flushRemarks
    return body
  match body.run ctx state with
  | .done body s => .ok { shebang := shebang, body := body, noted := s.noted.reverse }
  | .stopped e _ => .error e

end Untangle.Source
