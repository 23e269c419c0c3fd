import Untangle.Source.Grammar.Expression

/-!
# Statements

Early errors that are noted, not fatal: jumps without a target, repeated labels, uninitialized
constants, a declaration where only a statement may stand.

Decorators before a declaration are read and dropped: the tree has no place for them. Namespaces of
typed sources are not read.
-/

namespace Untangle.Source

/-! ## Declarations -/

def functionDeclaration (r : Rules) (isAsync : Bool) : Parser (Ident × Func) := do
  expectWord "function"
  let isGenerator ← eatPunct "*"
  let name ← bindingIdentifier
  let f ← plainFunctionTail r isAsync isGenerator
  return (name, f)

def classDeclaration (r : Rules) (isAbstract : Bool) : Parser (Ident × Class) :=
  classFrom r blockIdentifier isAbstract

private def atLoopOver : Parser Bool := do
  return (← isWord "of") || (← isWord "in")

/-- What a declarator without a value is refused for; a constant in the head of a counting loop is
let through. -/
private def checkUninitialized (kind : VarKind) (inLoop : Bool) (start : Nat) (p : Pat) :
    Parser Unit := do
  unless (← read).ambient do
    match kind == .const && !inLoop, p with
    | true, _ => note start .constUninitialized
    | false, .name _ => pure ()
    | false, _ => failAt start .patternUninitialized

/-- One declarator. Before the `in` or `of` of a loop head it has no value. -/
def declarator (r : Rules) (kind : VarKind) (inLoop : Bool) : Parser (Spanned Declarator) := do
  let start ← curStart
  if kind != .var && (← isWord "let") then
    unexpected "let is reserved in const, let, class declaration"
  let p ← r.pattern
  let typescript := (← read).typescript
  let definite ← if typescript then eatPunct "!" else pure false
  let ann ← annotation r
  let p := if ann.isSome then Pat.annotate ann false p else p
  if ← onlyIf inLoop atLoopOver then spanned start (.mk p none definite)
  else if ← eatPunct "=" then
    let c ← r.assignment
    spanned start (.mk p (some c.expr) definite)
  else
    checkUninitialized kind inLoop start p
    spanned start (.mk p none definite)

/-- Skips to the next semicolon after a declaration that lacks one, or to what is no token. -/
private def skipToSemicolon : Nat → Parser Unit
  | 0 => failHere .limit
  | n + 1 => do
    if ← eatSemicolon then pure ()
    else
      bump
      match ← curToken with
      | .error _ => pure ()
      | _ => skipToSemicolon n

/-- The declarators after a keyword that ends at `keywordEnd`. One missing before a semicolon is
noted. -/
private def declarators (r : Rules) (kind : VarKind) (inLoop : Bool) (keywordEnd : Nat) :
    Parser (List (Spanned Declarator)) := do
  let (decls, _) ← iterateWhileSome (fun (decls, comma) => do
    match comma with
    | none => return none
    | some pos =>
      if ← isPunct ";" then
        note pos .trailingComma
        return some (decls, none)
      else
        let d ← declarator r kind inLoop
        let next ← curStart
        if ← eatPunct "," then return some (d :: decls, some next)
        else return some (d :: decls, none)) ([], some keywordEnd)
  return decls.reverse

private def declared (r : Rules) (kind : VarKind) (inLoop : Bool) :
    Parser (List (Spanned Declarator)) := do
  bump
  let keywordEnd := (← curState).prevEnd
  withReader (fun c => { c with allowIn := kind != .var || !inLoop }) do
    declarators r kind inLoop keywordEnd

/-- Past the end of a declaration. One without its semicolon is noted, and reading goes on after
the next one. -/
private def declarationEnd (r : Rules) : Parser Unit := do
  unless ← eatSemicolon do
    note (← curStart) .semicolonExpected
    try
      let _ ← expression r
    catch _ => pure ()
    skipToSemicolon ((← read).limit + 2)

def variableDeclaration (r : Rules) (kind : VarKind) : Parser VarDecl := do
  let decls ← declared r kind false
  declarationEnd r
  return .mk kind (decls.map (·.value))

/-! ## Declarations of typed sources -/

private def enumTail (r : Rules) (isConst : Bool) : Parser Decl := do
  expectWord "enum"
  let name ← identifier
  expectPunct "\x7b"
  let members ← commaSeparated "\x7d" do
    let pos ← curStart
    let key ← match ← curToken with
      | .str s => do bump; pure (ModuleName.str s)
      | _ => do
        let w ← anyWord
        pure (.ident { name := w, pos := pos })
    let init ←
      if ← eatPunct "=" then
        let c ← r.assignment
        pure (some c.expr)
      else pure none
    return EnumMember.mk key init
  return .enum isConst name members

private def aliasTail (r : Rules) : Parser Decl := do
  let name ← identifier
  let params ← typeParameters r
  expectPunct "="
  let t ← r.type
  expectSemicolon
  return .typeAlias name params t

private def wordFollows : Parser Bool := do
  let next ← peek
  match next.token with
  | .word .. => return !next.newline
  | _ => return false

/-- A declaration that only typed sources have, if the current word starts one. -/
def typedDeclaration? (r : Rules) : Parser (Option Decl) := do
  if !(← read).typescript then return none
  else if (← isWord "interface") && (← wordFollows) then
    bump
    some <$> (.iface <$> interfaceTail r)
  else if (← isWord "type") && (← wordFollows) then
    bump
    some <$> aliasTail r
  else if ← isWord "enum" then some <$> enumTail r false
  else if (← isWord "const") && (← peek).isWord "enum" then
    bump
    some <$> enumTail r true
  else if (← isWord "abstract") && (← peek).isWord "class" then
    bump
    let (name, c) ← classDeclaration r true
    return some (.cls name c)
  else if (← isWord "declare") && (← wordFollows) then
    bump
    withReader (fun c => { c with ambient := true }) do
      if (← isWord "const") && !(← peek).isWord "enum" then
        return some (.ambient (.var (← variableDeclaration r .const)))
      else if ← isWord "let" then
        return some (.ambient (.var (← variableDeclaration r .let)))
      else if ← isWord "var" then
        return some (.ambient (.var (← variableDeclaration r .var)))
      else if ← isWord "function" then
        let (name, f) ← functionDeclaration r false
        return some (.ambient (.func name f))
      else if ← isWord "class" then
        let (name, c) ← classDeclaration r false
        return some (.ambient (.cls name c))
      else if ← isWord "interface" then
        bump
        return some (.ambient (.iface (← interfaceTail r)))
      else if ← isWord "type" then
        bump
        return some (.ambient (← aliasTail r))
      else
        return some (.ambient (← enumTail r false))
  else return none

/-! ## Simple statements -/

/-- The keyword of the declaration that starts here. `let` is one only before a name or a
pattern. -/
def declarationKind? : Parser (Option VarKind) := do
  if ← isWord "var" then return some .var
  else if ← isWord "const" then return some .const
  else if ← isWord "let" then
    match (← peek).token with
    | .punct "[" => return some .let
    | .punct "\x7b" => return some .let
    | .word w plain => return if !plain && reservedWords.contains w then none else some .let
    | _ => return none
  else return none

/-- The label that a jump goes to, if it names one, to the end of the statement. -/
def jumpLabel : Parser (Option Ident) := do
  if ← eatSemicolon then return none
  else
    let id ← labelName
    expectSemicolon
    return some id

/-- A jump out of or to the next turn of a statement. -/
def jump (start : Nat) (isBreak : Bool) : Parser (Spanned Stmt) := do
  bump
  let ctx ← read
  let label ← jumpLabel
  let known := label.all fun id => ctx.labels.contains id.name
  if isBreak then
    if !known then note start .breakLabel
    else if !ctx.breakAllowed then note start .breakOutside
    spanned start (.break label)
  else
    if !ctx.continueAllowed then note start .continueOutside
    else if !known then note start .continueLabel
    spanned start (.continue label)

def Context.enterLoop (c : Context) : Context :=
  { c with breakAllowed := true, continueAllowed := true }

def bodyStatement (r : Rules) : Parser Stmt := do
  let s ← withReader (fun c => { c with topLevel := false }) (r.statement false false)
  return s.value

def loopBody (r : Rules) : Parser Stmt :=
  withReader (·.enterLoop) (bodyStatement r)

def headExpression (r : Rules) : Parser Expr := do
  expectPunct "("
  let c ← allowingIn (expression r)
  expectPunct ")"
  return c.expr

/-! ## Loops -/

/-- What follows the head of a loop over the keys or values of an object. -/
def loopOver (r : Rules) (isAwait : Bool) (head : ForHead) : Parser Stmt := do
  if ← eatWord "of" then
    let c ← allowingIn r.assignment
    expectPunct ")"
    return .forOf isAwait head c.expr (← loopBody r)
  else
    expectWord "in"
    let c ← allowingIn (expression r)
    expectPunct ")"
    return .forIn head c.expr (← loopBody r)

private def loopTest (r : Rules) : Parser (Option Expr) := do
  if ← eatPunct ";" then return none
  else
    let c ← allowingIn (expression r)
    expectPunct ";"
    return some c.expr

private def loopStep (r : Rules) : Parser (Option Expr) := do
  if ← isPunct ")" then return none
  else
    let c ← allowingIn (expression r)
    return some c.expr

def countingLoop (r : Rules) (init : ForHead) : Parser Stmt := do
  let test ← loopTest r
  let step ← loopStep r
  expectPunct ")"
  return .for init test step (← loopBody r)

/-- A loop over an object declares one variable, which gets its value from the object. -/
private def checkLoopVariables (decls : List (Spanned Declarator)) : Parser Unit := do
  match decls with
  | [{ value := .mk _ (some _) _, start := start, stop := _ }] =>
    if (← isWord "of") || (← read).strict then note start .loopVariableInitialized
  | _ => (decls.drop 1).forM fun d => note d.start .severalLoopVariables

def loopAfterHead (r : Rules) (isAwait : Bool) : Parser Stmt := do
  let inHead {α : Type} (p : Parser α) : Parser α :=
    withReader (fun c => { c with inLoopHead := true, inAwaitLoopHead := isAwait }) p
  match ← declarationKind? with
  | some kind =>
    let decls ← inHead (declared r kind true)
    let head := ForHead.var (.mk kind (decls.map (·.value)))
    if ← atLoopOver then
      checkLoopVariables decls
      loopOver r isAwait head
    else
      expectPunct ";"
      countingLoop r head
  | none =>
    if ← eatPunct ";" then countingLoop r .absent
    else
      let c ← inHead (withReader (fun c => { c with allowIn := false }) (expression r))
      if ← atLoopOver then
        let p ← loopPattern c
        loopOver r isAwait (.pat p)
      else
        expectPunct ";"
        countingLoop r (.expr c.expr)

/-- A loop with a head. Only a loop over values can wait for each of them. -/
def forLoop (r : Rules) : Parser Stmt := do
  expectWord "for"
  let pos ← curStart
  let isAwait ← eatWord "await"
  expectPunct "("
  let s ← loopAfterHead r isAwait
  match isAwait, s with
  | true, .forOf .. => return s
  | true, _ => failAt pos .awaitLoop
  | false, _ => return s

/-! ## Compound statements -/

def ifStatement (r : Rules) : Parser Stmt := do
  expectWord "if"
  let test ← headExpression r
  let yes ← bodyStatement r
  if ← eatWord "else" then
    let no ← bodyStatement r
    return .ite test yes (some no)
  else return .ite test yes none

private def clauseBody (r : Rules) : Parser (List Stmt) :=
  repeatWhileSome do
    if (← isWord "case") || (← isWord "default") || (← isPunct "\x7d") then return none
    else
      let s ← withReader (fun c => { c with topLevel := false }) (r.statement true false)
      return some s.value

def switchStatement (r : Rules) : Parser Stmt := do
  expectWord "switch"
  let disc ← headExpression r
  expectPunct "\x7b"
  let (cases, _) ← withReader (fun c => { c with breakAllowed := true }) <|
    iterateWhileSome (fun (acc, hasDefault) => do
      if ← eatWord "case" then
        let c ← allowingIn (expression r)
        expectPunct ":"
        let body ← clauseBody r
        return some (Case.mk (some c.expr) body :: acc, hasDefault)
      else if ← eatWord "default" then
        if hasDefault then failHere .multipleDefaults
        expectPunct ":"
        let body ← clauseBody r
        return some (Case.mk none body :: acc, true)
      else return none) ([], false)
  expectPunct "\x7d"
  return .switch disc cases.reverse

private def catchClause (r : Rules) : Parser (Option Catch) := do
  if ← eatWord "catch" then
    let param ←
      if ← eatPunct "(" then
        let p ← r.pattern
        let ann ← annotation r
        expectPunct ")"
        pure (some (if ann.isSome then Pat.annotate ann false p else p))
      else pure none
    return some (.mk param (← block r))
  else return none

private def finallyClause (r : Rules) : Parser (Option (List Stmt)) := do
  if ← eatWord "finally" then some <$> block r else return none

def tryStatement (r : Rules) : Parser Stmt := do
  expectWord "try"
  let body ← block r
  let afterBody ← curStart
  let handler ← catchClause r
  let finalizer ← finallyClause r
  if handler.isNone && finalizer.isNone then note afterBody .semicolonExpected
  return .try body handler finalizer

/-- A clause of a try statement without its block, which is noted and left open. -/
def strayClause (r : Rules) : Parser Stmt := do
  note (← curStart) .semicolonExpected
  try
    let _ ← catchClause r
  catch _ => pure ()
  try
    let _ ← finallyClause r
  catch _ => pure ()
  return .expr .placeholder

def throwStatement (r : Rules) : Parser Stmt := do
  expectWord "throw"
  if ← newlineBefore then failHere .lineBreakInThrow
  let c ← allowingIn (expression r)
  expectSemicolon
  return .throw c.expr

/-- The value that is returned, if there is one, to the end of the statement. -/
private def returnedValue (r : Rules) : Parser (Option Expr) := do
  if ← eatSemicolon then return none
  else
    let c ← allowingIn (expression r)
    expectSemicolon
    return some c.expr

def returnStatement (r : Rules) (start : Nat) : Parser Stmt := do
  let ctx ← read
  expectWord "return"
  let arg ← returnedValue r
  if !ctx.inFunction && (ctx.isModule || ctx.typescript) then note start .returnOutside
  return .return arg

def withStatement (r : Rules) (start : Nat) : Parser Stmt := do
  if (← read).typescript then note start .withInTyped
  noteStrict start .withInStrict
  expectWord "with"
  let obj ← headExpression r
  let body ← withReader (fun c => { c with inFunction := true }) (bodyStatement r)
  return .with obj body

def doWhileStatement (r : Rules) : Parser Stmt := do
  expectWord "do"
  let body ← loopBody r
  expectWord "while"
  let test ← headExpression r
  let _ ← eatPunct ";"
  return .doWhile body test

def labelledFunction (r : Rules) : Parser Stmt := do
  let start ← curStart
  let (name, f) ← functionDeclaration r false
  noteStrict start .labelledFunctionInStrict
  match f with
  | .mk _ isGenerator .. => if isGenerator then note start .labelledGenerator
  return .decl (.func name f)

def labelledStatement (r : Rules) (label : Ident) : Parser Stmt := do
  let known := (← read).labels.contains label.name
  let body ← withReader (fun c => { c with
      breakAllowed := true, labels := label.name :: c.labels }) do
    if ← isWord "function" then labelledFunction r else bodyStatement r
  if known then note label.pos (.labelRepeated label.name)
  return .labelled label body

/-- The end of a statement that is an expression. An operator that cannot go on with it is noted. -/
def expressionEnd (r : Rules) (start : Nat) (c : Cover) : Parser (Spanned Stmt) := do
  if ← eatSemicolon then spanned start (.expr c.expr)
  else match ← binaryOp? with
    | some _ =>
      note (← curStart) .semicolonExpected
      let c ← r.binaryTail 0 { expr := c.expr, start := c.start, stop := c.stop }
      spanned start (.expr c.expr)
    | none => failHere .semicolonAfterExpression

def expressionStatement (r : Rules) (start : Nat) : Parser (Spanned Stmt) := do
  let c ← allowingIn (expression r)
  match c.expr with
  | .ident id =>
    if ← eatPunct ":" then
      let s ← labelledStatement r id
      spanned start s
    else expressionEnd r start c
  | _ => expressionEnd r start c

/-- An expression after an at sign, which marks the declaration that follows. -/
private def decorator (r : Rules) : Parser Unit := do
  expectPunct "@"
  let start ← curStart
  if ← isPunct "(" then
    let _ ← headExpression r
  else
    let id ← identifier
    let c ← cover start (.ident id)
    let _ ← subscripts r false c

/-- A statement that starts with a keyword, or anything else. -/
def plainStatement (r : Rules) (decls : Bool) (start : Nat) : Parser (Spanned Stmt) := do
  let here (p : Parser Stmt) : Parser (Spanned Stmt) := do
    let s ← p
    spanned start s
  let notHere : Parser Unit := do
    unless decls do note (← curStart) .declarationNotAllowed
  match ← curToken with
  | .punct "\x7b" => here (.block <$> block r)
  | .punct ";" =>
    bump
    spanned start .empty
  | .word "break" false => jump start true
  | .word "continue" false => jump start false
  | .word "debugger" false => here do
    bump
    expectSemicolon
    return .debugger
  | .word "do" false => here (doWhileStatement r)
  | .word "for" false => here (forLoop r)
  | .word "while" false => here do
    bump
    let test ← headExpression r
    return .while test (← loopBody r)
  | .word "function" false => here do
    notHere
    let (name, f) ← functionDeclaration r false
    return .decl (.func name f)
  | .word "class" false => here do
    notHere
    let (name, c) ← classDeclaration r false
    return .decl (.cls name c)
  | .word "if" false => here (ifStatement r)
  | .word "return" false => here (returnStatement r start)
  | .word "switch" false => here (switchStatement r)
  | .word "throw" false => here (throwStatement r)
  | .word "try" false => here (tryStatement r)
  | .word "catch" false => here (strayClause r)
  | .word "finally" false => here (strayClause r)
  | .word "with" false => here (withStatement r start)
  | _ =>
    let next ← peek
    if (← isWord "async") && next.isWord "function" && !next.newline then
      bump
      here do
        let (name, f) ← functionDeclaration r true
        return .decl (.func name f)
    else match ← declarationKind? with
      | some kind =>
        if decls || kind == .var then here (.decl <$> .var <$> variableDeclaration r kind)
        else expressionStatement r start
      | none => expressionStatement r start

/-- A statement; where `decls` holds, also a declaration. -/
def statementRule (r : Rules) (decls : Bool) : Parser (Spanned Stmt) := do
  let start ← curStart
  let _ ← repeatWhileSome do
    if ← isPunct "@" then
      decorator r
      return some ()
    else return none
  match ← typedDeclaration? r with
  | some d => spanned start (.decl d)
  | none => plainStatement r decls start

end Untangle.Source
