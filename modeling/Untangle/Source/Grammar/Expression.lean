import Untangle.Source.Grammar.Class

/-!
# Expressions

From the tightest to the loosest: primary expressions, accesses and calls, operators before and
after an operand, binary operators by precedence, the conditional, assignment.

An arrow function is recognised where its head stands, as a primary expression, and is then passed
up unchanged: nothing may be applied to it without parentheses.

Type arguments of calls are not read.
-/

namespace Untangle.Source

/-! ## Functions and classes as expressions -/

def functionExpression (r : Rules) (start : Nat) (isAsync : Bool) : Parser Cover := do
  expectWord "function"
  let isGenerator ← eatPunct "*"
  let name ← withReader (fun c => { c with inAsync := isAsync, inGenerator := isGenerator })
    (binding? bindingIdentifier)
  let f ← plainFunctionTail r isAsync isGenerator
  cover start (.func name f)

def classExpression (r : Rules) (start : Nat) : Parser Cover := do
  let (name, c) ← classFrom r (binding? blockIdentifier) false
  cover start (.cls name c)

/-! ## Lists -/

def coverParts (start : Nat) (e : Expr) (parts : List Cover) (comma : Option Nat) :
    Parser Cover := do
  let c ← cover start e
  return { c with parts := parts, comma := comma }

def spreadable (r : Rules) : Parser Cover := do
  let start ← curStart
  if ← eatPunct "..." then
    let c ← allowingIn r.assignment
    coverParts start (.spread c.expr) [c] none
  else allowingIn r.assignment

def arguments (r : Rules) : Parser (List Expr) := do
  expectPunct "("
  commaSeparated ")" do
    let c ← spreadable r
    return c.expr

def arrayLiteral (r : Rules) : Parser Cover := do
  let start ← curStart
  expectPunct "["
  let (elems, comma) ← iterateWhileSome (fun (elems, _) => do
    let pos ← curStart
    if ← isPunct "]" then return none
    else if ← eatPunct "," then
      let hole ← cover pos .hole
      return some (hole :: elems, none)
    else
      let c ← spreadable r
      if ← isPunct "]" then return some (c :: elems, none)
      else
        let comma ← curStart
        expectPunct ","
        return some (c :: elems, some comma)) ([], none)
  expectPunct "]"
  let parts := elems.reverse
  coverParts start (.array (parts.map (·.expr))) parts comma

/-! ## Object literals -/

private def objectMethod (r : Rules) (key : PropName) (isAsync isGenerator : Bool) :
    Parser Property := do
  let f ← methodTail r isAsync isGenerator anyParameters
  return .method key f

private def bodyStatements : Func → List Stmt
  | .mk _ _ _ _ _ (.block stmts) => stmts
  | _ => []

private def firstParameter : Func → Pat
  | .mk _ _ _ (p :: _) _ _ => p
  | _ => .invalid

private def objectAccessor (r : Rules) (marker : String) : Parser Property := do
  let keyPos ← curStart
  let key ← propertyKey r
  if marker == "get" then
    let f ← methodTail r false false (checkAccessor .getter keyPos)
    return .getter key (bodyStatements f)
  else
    let f ← methodTail r false false (checkAccessor .setter keyPos)
    return .setter key (firstParameter f) (bodyStatements f)

/-- A member of an object literal after a key that nothing has been made of yet. -/
private def memberOfKey (r : Rules) (start : Nat) (key : PropName) : Parser Property := do
  match key with
  | .name w =>
    if (← isPunct "=") || (← isPunct ",") || (← isPunct "\x7d") then
      if (← read).reservesName w then note start .reservedInShorthand
      let id : Ident := { name := w, pos := start }
      if ← eatPunct "=" then
        let c ← allowingIn r.assignment
        return .initialized id c.expr
      else return .shorthand id
    else if w == "get" || w == "set" then objectAccessor r w
    else if w == "async" then
      let isGenerator ← eatPunct "*"
      let key ← propertyKey r
      objectMethod r key true isGenerator
    else unexpected "... , *,  (, [, :, , ?, = or an identifier"
  | _ => unexpected "identifier"

private def objectMember (r : Rules) : Parser (Property × List Cover) := do
  let start ← curStart
  if ← eatPunct "..." then
    let c ← allowingIn r.assignment
    return (.spread c.expr, [c])
  else if ← eatPunct "*" then
    let key ← propertyKey r
    return (← objectMethod r key false true, [])
  else
    let key ← propertyKey r
    let mark ← curStart
    if ← eatPunct "?" then note mark .optionalProperty
    if ← eatPunct ":" then
      let c ← allowingIn r.assignment
      return (.keyValue key c.expr, [c])
    else if (← isPunct "(") || (← isPunct "<") then
      return (← objectMethod r key false false, [])
    else return (← memberOfKey r start key, [])

def objectMembers (r : Rules) : Parser (List (Property × Cover) × Option Nat) := do
  expectPunct "\x7b"
  commaListed "\x7d" do
    let start ← curStart
    let (p, inner) ← objectMember r
    let c ← coverParts start .hole inner none
    return (p, c)

def objectLiteral (r : Rules) : Parser Cover := do
  let start ← curStart
  let (members, comma) ← objectMembers r
  coverParts start (.object (members.map (·.1))) (members.map (·.2)) comma

/-! ## Templates and regular expressions -/

private def liftExcept {α : Type} : Except Located α → Parser α
  | .ok a => pure a
  | .error e => throw e

private def noteAll (es : List Located) : Parser Unit := es.forM fun e => note e.pos e.error

/-- The fixed part of a template at a cursor. Only a tag makes sense of escapes that cannot be
read. -/
private def templatePart (isTagged : Bool) (start : Nat) (c : Cursor) : Parser TemplatePart := do
  let part ← liftExcept (scanTemplate (← read).mode start c)
  noteAll part.notes
  match isTagged, part.fault with
  | false, some e => throw e
  | _, _ => return part

/-- The fixed parts and expressions of a template whose opening mark is the current token. -/
def template (r : Rules) (isTagged : Bool) : Parser (List Quasi × List Expr) := do
  let first := (← curState).cur
  let part ← templatePart isTagged first.start first.after
  let (part, quasis, exprs) ← iterateWhileSome (fun (part, quasis, exprs) => do
    if part.opens then
      resumeAt part.after
      let c ← allowingIn (expression r)
      let close := (← curState).cur
      unless close.isPunct "\x7d" do unexpected "\x60\x7d\x60"
      flushRemarks
      let next ← templatePart isTagged close.start close.after
      return some (next, part.quasi :: quasis, c.expr :: exprs)
    else return none) (part, [], [])
  resumeAt part.after
  return ((part.quasi :: quasis).reverse, exprs.reverse)

/-- A regular expression whose opening slash is the current token; the slash of one that is not
closed is no operator either. -/
def regexLiteral : Parser Cover := do
  let cur := (← curState).cur
  match scanRegex (← read).mode cur.here with
  | .ok r =>
    noteAll (r.notes ++ r.flagRemarks cur.start)
    resumeAt r.after
    cover cur.start (.lit (.regex r.body r.flags))
  | .error e =>
    .update (fun s => { s with cur := { cur with token := .error e } }) fun _ => List.suffix_rfl
    throw e

/-! ## Parentheses and arrow functions -/

def arrowTail (r : Rules) (start : Nat) (isAsync : Bool) (params : List Pat)
    (ret : Option TypeExpr) : Parser Cover := do
  let body ← arrowBody r isAsync params
  cover start (.arrow (.mk isAsync false [] params ret body))

/-- The head and body of an arrow function with annotated parameters. -/
def typedArrow (r : Rules) (start : Nat) (isAsync : Bool) : Parser Cover := do
  let params ← parameters r
  let ret ← annotation r
  expectPunct "=>"
  arrowTail r start isAsync (params.map (·.value)) ret

/-- Members `a = 1` of an object literal that is no pattern. -/
private def checkInitialized (c : Cover) : Parser Unit :=
  match c.expr with
  | .object props => (props.zip c.parts).forM fun (p, place) =>
    match p with
    | .initialized .. => note place.start .initializedProperty
    | _ => pure ()
  | _ => pure ()

/-- What stands in parentheses that no arrow follows. -/
def parenthesisedItems (start stop : Nat) (items : List Cover) : Parser Cover := do
  let spread? (c : Cover) : Option Cover := match c.expr with
    | .spread _ => c.parts.head?
    | _ => none
  match items.findSome? spread?, items with
  | some c, _ => failAt c.start .spreadInParen
  | none, [] => failAt start .emptyParen
  | none, [c] => return { expr := .paren c.expr, start := start, stop := stop }
  | none, _ => return { expr := .paren (.seq (items.map (·.expr))), start := start, stop := stop }

/-- The expression inside parentheses, or the parameters of an arrow function without annotations.
`callee` is the word `async` if it stands before the parenthesis. -/
def parenthesisedPlain (r : Rules) (start : Nat) (canBeArrow : Bool) (callee : Option Ident) :
    Parser Cover := do
  expectPunct "("
  let (items, comma) ← commaListed ")" (spreadable r)
  let stop := (← curState).prevEnd
  if ← isPunct "=>" then
    if ← newlineBefore then failAt start .lineBreakBeforeArrow
    unless canBeArrow do failAt start .arrowNotAllowed
    expectPunct "=>"
    let params ← arrowParameters items comma
    arrowTail r start callee.isSome params none
  else
    items.forM checkInitialized
    match callee with
    | some id => cover start (.call (.ident id) (items.map (·.expr)))
    | none => parenthesisedItems start stop items

/-- The same where parameters may be annotated. -/
def parenthesised (r : Rules) (start : Nat) (canBeArrow : Bool) (callee : Option Ident) :
    Parser Cover := do
  let typed ←
    if (← read).typescript && canBeArrow then (typedArrow r start callee.isSome).attempt
    else pure none
  match typed with
  | some c => return c
  | none => parenthesisedPlain r start canBeArrow callee

/-- An arrow function after the word `async`, whose one parameter has no parentheses. In the head
of a loop, `async of` is the start of one only before an arrow. -/
def asyncArrow (r : Rules) (start : Nat) (id : Ident) : Parser Cover := do
  let ctx ← read
  if ctx.inLoopHead && (← isWord "of") && !(← peek).isPunct "=>" then
    unless ctx.inAwaitLoopHead do note id.pos .asyncLoopVariable
    cover start (.ident id)
  else
    let p ← bindingIdentifier
    expectPunct "=>"
    arrowTail r start true [.name (.ofIdent p)] none

def identifierExpression (r : Rules) (start : Nat) (canBeArrow : Bool) : Parser Cover := do
  let next ← peek
  if (← isWord "async") && next.isWord "function" && !next.newline then
    bump
    functionExpression r start true
  else
    let isAsyncWord ← isWord "async"
    let id ← identifier
    let sameLine := !(← newlineBefore)
    if isAsyncWord && canBeArrow && sameLine && (← atName) then asyncArrow r start id
    else if isAsyncWord && canBeArrow && sameLine && (← isPunct "(") then
      parenthesised r start canBeArrow (some id)
    else if ← onlyIf (canBeArrow && sameLine) (eatPunct "=>") then
      checkDeclaredName id.pos id.name
      arrowTail r start false [.name (.ofIdent id)] none
    else cover start (.ident id)

/-! ## Primary expressions -/

def literal (start : Nat) (l : Lit) : Parser Cover := do
  bump
  cover start (.lit l)

def primary (r : Rules) : Parser Cover := do
  let start ← curStart
  let canBeArrow := (← curState).arrowStart == some start
  match ← curToken with
  | .error e => throw e
  | .num n => literal start (.num n)
  | .bigint raw => literal start (.bigint raw)
  | .str s => literal start (.str s)
  | .backquote =>
    let (quasis, exprs) ← template r false
    cover start (.template quasis exprs)
  | .punct "[" => arrayLiteral r
  | .punct "\x7b" => objectLiteral r
  | .punct "(" => parenthesised r start canBeArrow none
  | .punct "/" => regexLiteral
  | .punct "/=" => regexLiteral
  | .punct "#" =>
    bump
    let name ← anyWord
    cover start (.privateName name)
  | .word "this" false => bump; cover start .this
  | .word "null" false => literal start .null
  | .word "true" false => literal start (.bool true)
  | .word "false" false => literal start (.bool false)
  | .word "function" false => functionExpression r start false
  | .word "class" false => classExpression r start
  | _ =>
    if (← isWord "let") || (← atName) then identifierExpression r start canBeArrow
    else failHere .expressionExpected

/-! ## Accesses and calls -/

def isChain : Expr → Bool
  | .chainMember .. => true
  | .chainCall .. => true
  | _ => false

def isArrow : Expr → Bool
  | .arrow _ => true
  | _ => false

/-- A member access, inside a chain if its object is in one. -/
def access (optional : Bool) (obj : Expr) (prop : MemberProp) : Expr :=
  if optional || isChain obj then .chainMember optional obj prop else .member obj prop

def memberName : Parser MemberProp := do
  if ← isPunct "#" then return .privateName (← privateName)
  else return .name (← anyWord)

def index (r : Rules) : Parser MemberProp := do
  expectPunct "["
  let c ← allowingIn (expression r)
  expectPunct "]"
  return .computed c.expr

def optionalSubscript (r : Rules) (c : Cover) : Parser Cover := do
  if ← isPunct "[" then
    let prop ← index r
    cover c.start (access true c.expr prop)
  else if ← isPunct "(" then
    let args ← arguments r
    cover c.start (.chainCall true c.expr args)
  else
    let prop ← memberName
    cover c.start (access true c.expr prop)

/-- One access, call or tag after an expression, if there is one. -/
def subscript (r : Rules) (noCall : Bool) (c : Cover) : Parser (Option Cover) := do
  if ← eatPunct "?." then some <$> optionalSubscript r c
  else if ← isPunct "[" then
    let prop ← index r
    some <$> cover c.start (access false c.expr prop)
  else if (← isPunct "(") && !noCall then
    let args ← arguments r
    some <$> cover c.start
      (if isChain c.expr then .chainCall false c.expr args else .call c.expr args)
  else if ← eatPunct "." then
    let prop ← memberName
    some <$> cover c.start (access false c.expr prop)
  else if (← curToken) == .backquote then
    let (quasis, exprs) ← template r true
    if isChain c.expr then note c.start .templateInChain
    some <$> cover c.start (.tagged c.expr quasis exprs)
  else if (← read).typescript && (← isPunct "!") && !(← newlineBefore) then
    bump
    some <$> cover c.start (.nonNull c.expr)
  else return none

def subscripts (r : Rules) (noCall : Bool) (c : Cover) : Parser Cover :=
  iterateWhileSome (subscript r noCall) c

/-- An access of `super`, which only methods have. -/
def superAccess (start : Nat) (prop : MemberProp) : Parser Cover := do
  if !(← read).inMethod then failAt start .invalidSuper
  else match prop with
    | .privateName _ => failHere .invalidSuperCall
    | _ => cover start (.superMember prop)

/-- `super` and what has to follow it. -/
def superExpression (r : Rules) (noCall : Bool) : Parser Cover := do
  let start ← curStart
  let fault := if noCall then SyntaxError.invalidSuperCall else .invalidSuper
  expectWord "super"
  if ← eatPunct "?." then
    if ← isPunct "(" then
      let _ ← arguments r
      failHere .optionalSuperCall
    else
      let _ ← if ← isPunct "[" then index r else memberName
      failAt start (if (← read).inMethod then fault else .invalidSuper)
  else if ← isPunct "[" then
    let prop ← index r
    superAccess start prop
  else if (← isPunct "(") && !noCall then
    let args ← arguments r
    cover start (.superCall args)
  else if ← eatPunct "." then
    let prop ← memberName
    superAccess start prop
  else failHere fault

/-- `import` as an expression. -/
def importExpression (r : Rules) (noCall : Bool) : Parser Cover := do
  let start ← curStart
  expectWord "import"
  if ← eatPunct "." then
    let word ← anyWord
    if word == "meta" then
      unless (← read).isModule do note start .importMetaInScript
      cover start .importMeta
    else unexpected "meta"
  else if (← isPunct "(") && !noCall then
    let args ← arguments r
    cover start (.importCall args)
  else failHere .importNotAllowed

/-- A constructor must not be reached through an optional chain. -/
private def checkConstructed (callee : Cover) : Parser Unit :=
  match callee.expr with
  | .chainMember .. | .chainCall .. => failAt callee.start .chainAfterNew
  | .member obj _ => if isChain obj then failAt callee.start .chainAfterNew else pure ()
  | _ => pure ()

/-- A construction with the accesses after it, or a primary expression with them. -/
def memberRule (r : Rules) : Parser Cover := do
  let start ← curStart
  if ← eatWord "new" then
    if ← eatPunct "." then
      if ← eatWord "target" then
        let ctx ← read
        unless ctx.inPlainFunction || ctx.inParameters || ctx.inClass do
          note start .newTargetOutside
        let c ← cover start .newTarget
        subscripts r true c
      else unexpected "target"
    else
      let callee ← r.member
      if isArrow callee.expr then return callee
      else
        checkConstructed callee
        if ← isPunct "(" then
          let args ← arguments r
          let c ← cover start (.new callee.expr (some args))
          subscripts r true c
        else cover start (.new callee.expr none)
  else if ← isWord "super" then
    let c ← superExpression r true
    subscripts r true c
  else if ← isWord "import" then
    let c ← importExpression r true
    subscripts r true c
  else
    let c ← primary r
    if isArrow c.expr then return c else subscripts r true c

def leftHandRule (r : Rules) : Parser Cover := do
  if ← isWord "super" then
    let c ← superExpression r false
    subscripts r false c
  else if ← isWord "import" then
    let c ← importExpression r false
    subscripts r false c
  else
    let c ← memberRule r
    match c.expr with
    | .arrow _ => return c
    | .new _ none => return c
    | _ => if ← isPunct "(" then subscripts r false c else return c

/-! ## Operators -/

/-- Whether the word `await` before the current token is only a name. -/
private def awaitIsName : Parser Bool := do
  if (← read).inAsync then return false
  else if ← atSemicolon then return true
  else match ← curToken with
    | .punct p => return [")", "]", ","].contains p
    | _ => return false

/-- The word `await`, which waits for a value unless it has to be a name. -/
def awaitExpression (r : Rules) (start : Nat) : Parser Cover := do
  expectWord "await"
  if ← isPunct "*" then failHere .awaitStar
  let ctx ← read
  if ← awaitIsName then
    if ctx.isModule then note start .awaitAsName
    cover start (.ident { name := "await", pos := start })
  else
    if ctx.topLevel && !ctx.isModule then note start .topLevelAwait
    if ctx.inFunction && !ctx.inAsync then note start .awaitInFunction
    if ctx.inParameters && !ctx.inFunction then note start .awaitInParameter
    let arg ← r.unary
    cover start (.await arg.expr)

private def updateOp? : Token → Option UpdateOp
  | .punct "++" => some .increment
  | .punct "--" => some .decrement
  | _ => none

private def unaryOp? : Token → Option UnaryOp
  | .punct "+" => some .plus
  | .punct "-" => some .minus
  | .punct "!" => some .not
  | .punct "~" => some .bitNot
  | .word "typeof" false => some .typeOf
  | .word "void" false => some .void
  | .word "delete" false => some .delete
  | _ => none

private def checkUpdateTarget (c : Cover) : Parser Unit := do
  unless isSimpleTarget (← read).strict c.expr do note c.start .targetNotReference

/-- The operand of an operator that stands before it; one that cannot be read is noted and left
open. -/
def operand (r : Rules) : Parser Cover := do
  try r.unary
  catch e =>
    note e.pos e.error
    return { expr := .placeholder, start := e.pos, stop := e.pos }

private def checkDeleted (c : Cover) : Parser Unit := do
  match c.expr with
  | .ident id => noteStrict id.pos .deleteInStrict
  | _ => pure ()
  if (← read).typescript && !isDeletable c.expr then note c.start .deleteOfValue
where
  isDeletable : Expr → Bool
    | .member .. | .chainMember .. | .chainCall .. => true
    | .paren e => isDeletable e
    | _ => false

def unaryRule (r : Rules) : Parser Cover := do
  let start ← curStart
  let tok ← curToken
  match updateOp? tok, unaryOp? tok with
  | some op, _ =>
    bump
    let c ← r.unary
    checkUpdateTarget c
    cover start (.update op true c.expr)
  | none, some op =>
    bump
    let arg ← operand r
    if op == .delete then checkDeleted arg
    cover start (.unary op arg.expr)
  | none, none =>
    if (← read).typescript && (← isPunct "<") then
      bump
      let t ← r.type
      expectPunct ">"
      let c ← r.unary
      cover start (.typeAssert t c.expr)
    else if ← isWord "await" then awaitExpression r start
    else
      let c ← r.leftHand
      if isArrow c.expr || (← newlineBefore) then return c
      else match updateOp? (← curToken) with
        | some op =>
          checkUpdateTarget c
          bump
          cover start (.update op false c.expr)
        | none => return c

def binaryOp? : Parser (Option BinaryOp) := do
  match ← curToken with
  | .word "in" false => return if (← read).allowIn then some .isIn else none
  | .word "instanceof" false => return some .isInstance
  | .punct p => return BinaryOp.ofText? p
  | _ => return none

private def isLogical : Expr → Bool
  | .binary .or _ _ => true
  | .binary .and _ _ => true
  | _ => false

private def isNullish : Expr → Bool
  | .binary .nullish _ _ => true
  | _ => false

private def isUnaryOrAwait : Expr → Bool
  | .unary .. => true
  | .await _ => true
  | _ => false

/-- One operator with its right operand, if it binds tighter than `least`. -/
def binaryStep (r : Rules) (least : Nat) (left : Cover) : Parser (Option Cover) := do
  let isAs ← isWord "as"
  if (← read).typescript && !(← newlineBefore) && (isAs || (← isWord "satisfies")) then
    bump
    let t ← r.type
    some <$> cover left.start (.typed (if isAs then .ascribe else .satisfies) left.expr t)
  else match ← binaryOp? with
    | none => return none
    | some op =>
      if op.precedence ≤ least then return none
      else
        bump
        if op == .exp && isUnaryOrAwait left.expr then failHere .powerOfUnary
        let first ← r.unary
        let right ← r.binaryTail (if op == .exp then op.precedence - 1 else op.precedence) first
        match op with
        | .nullish =>
          if isLogical left.expr then note left.start .nullishMixed
          if isLogical right.expr then note right.start .nullishMixed
        | .or | .and =>
          if isNullish left.expr then note left.start .nullishMixed
          if isNullish right.expr then note right.start .nullishMixed
        | _ => pure ()
        some <$> cover left.start (.binary op left.expr right.expr)

/-- The operators that follow an operand and bind tighter than `least`. -/
def binaryTailRule (r : Rules) (least : Nat) (left : Cover) : Parser Cover :=
  if isArrow left.expr then pure left else iterateWhileSome (binaryStep r least) left

/-- An expression of binary operators. A missing first operand is noted and left open. -/
def binaryExpression (r : Rules) : Parser Cover := do
  let left ← do
    try r.unary
    catch e =>
      match ← binaryOp? with
      | some _ =>
        note (← curStart) .expressionExpected
        pure { expr := .placeholder, start := e.pos, stop := e.pos }
      | none => throw e
  r.binaryTail 0 left

def conditional (r : Rules) : Parser Cover := do
  let test ← binaryExpression r
  if isArrow test.expr then return test
  else if ← eatPunct "?" then
    let yes ← allowingIn r.assignment
    expectPunct ":"
    let no ← r.assignment
    cover test.start (.cond test.expr yes.expr no.expr)
  else return test

/-! ## Assignment -/

private def notStartingWords : List String :=
  ["break", "case", "catch", "const", "continue", "debugger", "default", "do", "else", "enum",
    "export", "extends", "finally", "for", "if", "in", "instanceof", "return", "switch", "try",
    "var", "while", "with"]

private def startsExpression (t : Token) : Bool :=
  match t with
  | .word w plain => plain || !notStartingWords.contains w
  | .punct p =>
    ["!", "~", "++", "--", "+", "-", "(", "[", "\x7b", "*", "/", "/=", "<"].contains p
  | .num _ | .bigint _ | .str _ | .backquote => true
  | .eof | .error _ => false

def yieldExpression (r : Rules) (start : Nat) : Parser Cover := do
  expectWord "yield"
  let ctx ← read
  if ctx.inParameters && !ctx.inFunction then failAt start .yieldInParameter
  if (← atSemicolon) || !startsExpression (← curToken) then cover start (.yield false none)
  else
    let delegate ← eatPunct "*"
    let c ← r.assignment
    cover start (.yield delegate (some c.expr))

private def assignOp? : Token → Option AssignOp
  | .punct p => AssignOp.ofText? p
  | _ => none

private def endsAssignment : Expr → Bool
  | .arrow _ | .cond .. | .binary .. | .unary .. | .update .. => true
  | _ => false

/-- Keeps in mind that an arrow function may start here. -/
def arrowMayStart (start : Nat) : Parser Unit :=
  .update (fun s => { s with arrowStart := some start }) fun _ => List.suffix_rfl

def plainAssignment (r : Rules) : Parser Cover := do
  let c ← conditional r
  if endsAssignment c.expr then return c
  else match assignOp? (← curToken) with
    | none => return c
    | some op =>
      let target ← if op == .plain then assignTarget c else combinedTarget c
      bump
      let value ← r.assignment
      cover c.start (.assign op target value.expr)

/-- An expression without a comma at its top. -/
def assignmentRule (r : Rules) : Parser Cover := do
  let start ← curStart
  if (← read).inGenerator && (← isWord "yield") then yieldExpression r start
  else
    match ← curToken with
    | .punct "(" => arrowMayStart start
    | .word .. => arrowMayStart start
    | _ => pure ()
    plainAssignment r

end Untangle.Source
