import Untangle.Source.Grammar.Target
import Untangle.Source.Grammar.Types

/-!
# Keys, patterns, parameters and bodies
-/

namespace Untangle.Source

/-! ## Keys -/

/-- A key: a word, a literal, or an expression in brackets. -/
def propertyKey (r : Rules) : Parser PropName := do
  match ← curToken with
  | .word w _ => bump; return .name w
  | .str s => bump; return .str s
  | .num n => bump; return .num n
  | .bigint raw => bump; return .bigint raw
  | .punct "[" =>
    bump
    let c ← allowingIn r.assignment
    expectPunct "]"
    return .computed c.expr
  | _ => unexpected "identifier, string literal, numeric literal or [ for the computed key"

/-! ## Patterns -/

def withDefault (r : Rules) (p : Pat) : Parser Pat := do
  if ← eatPunct "=" then
    let c ← allowingIn r.assignment
    return .assign p c.expr
  else return p

def Pat.annotate (ann : Option TypeExpr) (optional : Bool) : Pat → Pat
  | .name b => .name { b with ann := ann, optional := optional }
  | .array elems _ => .array elems ann
  | .object props _ => .object props ann
  | .rest p _ => .rest p ann
  | p => p

/-- A rest element that is not the last is remarked on once for each element after it. -/
private def checkRestLast (e : SyntaxError) (rest : Option Nat) : Parser Unit :=
  match rest with
  | some pos => note pos e
  | none => pure ()

/-- Past the comma after an element, if one follows; none may follow a rest element. -/
private def elementEnd (close : String) (isRest : Bool) : Parser Unit := do
  unless ← isPunct close do
    let comma ← curStart
    expectPunct ","
    if isRest && (← isPunct close) then note comma .commaAfterRest

def arrayPattern (r : Rules) : Parser Pat := do
  expectPunct "["
  let (elems, _) ← iterateWhileSome (fun (elems, rest) => do
    if ← isPunct "]" then return none
    else if ← eatPunct "," then return some (Pat.hole :: elems, rest)
    else
      checkRestLast .restNotLast rest
      let start ← curStart
      if ← eatPunct "..." then
        let inner ← r.pattern
        elementEnd "]" true
        return some (.rest inner none :: elems, some start)
      else
        let inner ← r.pattern
        let p ← withDefault r inner
        elementEnd "]" false
        return some (p :: elems, rest)) ([], none)
  expectPunct "]"
  return .array elems.reverse none

private def patternMember (r : Rules) : Parser PatProp := do
  if ← eatPunct "..." then return .rest (← r.pattern)
  else
    let pos ← curStart
    let key ← propertyKey r
    if ← eatPunct ":" then
      let p ← r.pattern
      return .keyValue key (← withDefault r p)
    else match key with
      | .name w =>
        let name := BindingName.ofIdent { name := w, pos := pos }
        if ← eatPunct "=" then
          let c ← allowingIn r.assignment
          return .assign name (some c.expr)
        else
          if (← read).reservesName w then note pos .reservedInShorthand
          return .assign name none
      | _ => unexpected "an identifier"

/-- What remains of an object is the last member of its pattern, and goes to a name. -/
private def checkMembers (comma : Option Nat) : List (Spanned PatProp) → Parser Unit
  | [] => pure ()
  | [{ value := .rest p, start := start, stop := _ }] => do
    match p, comma with
    | .name _, some pos => note pos .commaAfterRest
    | .name _, none => pure ()
    | _, _ => failAt start .restNotIdentifier
  | m :: ms => do
    match m.value, ms with
    | .rest _, _ :: _ => note m.start .restNotLast
    | _, _ => pure ()
    checkMembers comma ms

def objectPattern (r : Rules) : Parser Pat := do
  expectPunct "\x7b"
  let (members, comma) ← commaListed "\x7d" do
    let start ← curStart
    let m ← patternMember r
    spanned start m
  checkMembers comma members
  return .object (members.map (·.value)) none

def patternRule (r : Rules) : Parser Pat := do
  match ← curToken with
  | .punct "[" => arrayPattern r
  | .punct "\x7b" => objectPattern r
  | .word .. => return .name (.ofIdent (← bindingIdentifier))
  | _ => unexpected "yield, an identifier, [ or \x7b"

/-! ## Parameters -/

/-- The words that make a constructor parameter a field. -/
private def fieldMarks : Parser (Option Access × Bool) := do
  if (← read).typescript then
    let marked (w : String) : Parser Bool := do
      if ← isWord w then
        match (← peek).token with
        | .word .. | .punct "[" | .punct "\x7b" => bump; return true
        | _ => return false
      else return false
    let access ←
      if ← marked "public" then pure (some Access.isPublic)
      else if ← marked "protected" then pure (some Access.isProtected)
      else if ← marked "private" then pure (some Access.isPrivate)
      else pure none
    return (access, ← marked "readonly")
  else return (none, false)

private def plainParameter (r : Rules) : Parser Pat := do
  let (access, isReadonly) ← fieldMarks
  let p ← r.pattern
  let optional ← if (← read).typescript then eatPunct "?" else pure false
  let ann ← annotation r
  let p ← withDefault r (if optional || ann.isSome then Pat.annotate ann optional p else p)
  return if access.isSome || isReadonly then .field access isReadonly p else p

private def restParameter (r : Rules) : Parser Pat := do
  expectPunct "..."
  let start ← curStart
  let p ← r.pattern
  let p ←
    if ← eatPunct "=" then
      let c ← r.assignment
      note start .restInitialized
      pure (Pat.assign p c.expr)
    else pure p
  return .rest p (← annotation r)

def parameters (r : Rules) : Parser (List (Spanned Pat)) := do
  expectPunct "("
  let (params, _) ← iterateWhileSome (fun (params, rest) => do
    if ← isPunct ")" then return none
    else
      checkRestLast .restParameterNotLast rest
      let start ← curStart
      let isRest ← isPunct "..."
      let p ← if isRest then restParameter r else plainParameter r
      let p ← spanned start p
      elementEnd ")" isRest
      return some (p :: params, if isRest then some start else rest)) ([], none)
  expectPunct ")"
  return params.reverse

/-- A getter takes no parameter, a setter exactly one that is no rest. The position is reported for
a wrong number. -/
def checkAccessor (kind : MethodKind) (pos : Nat) (params : List (Spanned Pat)) : Parser Unit := do
  match kind with
  | .getter => unless params.isEmpty do note pos .getterParameters
  | .setter =>
    unless params.length = 1 do note pos .setterParameters
    match params with
    | { value := .rest .., start := start, stop := _ } :: _ => note start .setterRest
    | _ => pure ()
  | .plain => pure ()

/-! ## Bodies -/

def directive? : Stmt → Option String
  | .expr (.lit (.str s)) => s.raw
  | _ => none

def asksForStrict (raw : String) : Bool := raw == "\"use strict\"" || raw == "'use strict'"

private def atStrictDirective : Parser Bool := do
  match ← curToken with
  | .str s => return s.raw.any asksForStrict
  | _ => return false

/-- The statements of a body, which its first token may make strict. -/
def underDirective {α : Type} (body : Parser α) : Parser α := do
  if ← atStrictDirective then withReader (fun c => { c with strict := true }) body else body

/-- Statements up to a closing brace or the end. -/
def statements (r : Rules) (top : Bool) : Parser (List (Spanned Stmt)) :=
  repeatWhileSome do
    if (← atEof) || (!top && (← isPunct "\x7d")) then return none
    else some <$> r.statement true top

def sourceStatements (r : Rules) : Parser (List (Spanned Stmt)) :=
  underDirective (statements r true)

/-- The rest of a block after its opening brace. A brace missing at the end of the source is
noted. -/
private def blockTail (r : Rules) : Parser (List (Spanned Stmt)) := do
  let body ← statements r false
  if ← atEof then note (← curStart) (.expected "\x7d" "<eof>")
  else expectPunct "\x7d"
  return body

private def Context.leaveTop (c : Context) : Context := { c with topLevel := false }

def block (r : Rules) : Parser (List Stmt) := do
  expectPunct "\x7b"
  let body ← withReader Context.leaveTop (blockTail r)
  return body.map (·.value)

/-- The context of a function's head and body. -/
def Context.enterFunction (c : Context) (isAsync isGenerator : Bool) : Context :=
  { c with inAsync := isAsync, inGenerator := isGenerator, inField := false, allowIn := true }

def Context.enterParameters (c : Context) : Context :=
  { c with inParameters := true, inFunction := false }

def Context.enterBody (c : Context) : Context :=
  { c with
    inFunction := true
    inParameters := false
    inStaticBlock := false
    topLevel := false
    breakAllowed := false
    continueAllowed := false
    labels := [] }

def simpleParameters (params : List Pat) : Bool :=
  params.all fun p => match p with
    | .name _ => true
    | _ => false

/-- A function whose parameters are more than names cannot make itself strict. -/
private def checkDirectives (params : List Pat) (body : List (Spanned Stmt)) : Parser Unit := do
  let head := body.takeWhile fun s => (directive? s.value).isSome
  match head.find? fun s => (directive? s.value).any asksForStrict with
  | some s => unless simpleParameters params do note s.start .strictInComplexFunction
  | none => pure ()

def functionTail (r : Rules) (isAsync isGenerator : Bool)
    (checkParams : List (Spanned Pat) → Parser Unit) : Parser Func :=
  withReader (·.enterFunction isAsync isGenerator) do
    let typeParams ← typeParameters r
    let params ← withReader (·.enterParameters) do
      let params ← parameters r
      checkParams params
      return params.map (·.value)
    let ret ← annotation r
    if (← read).typescript && !(← isPunct "\x7b") then
      expectSemicolon
      return .mk isAsync isGenerator typeParams params ret .absent
    else
      let body ← withReader (fun c => { c.enterBody with inPlainFunction := true }) do
        expectPunct "\x7b"
        let body ← underDirective (blockTail r)
        checkDirectives params body
        return body
      return .mk isAsync isGenerator typeParams params ret (.block (body.map (·.value)))

def anyParameters (_ : List (Spanned Pat)) : Parser Unit := pure ()

def plainFunctionTail (r : Rules) (isAsync isGenerator : Bool) : Parser Func :=
  withReader (fun c => { c with inMethod := false }) do
    functionTail r isAsync isGenerator anyParameters

/-- A function in which `super` may be accessed. -/
def methodTail (r : Rules) (isAsync isGenerator : Bool)
    (checkParams : List (Spanned Pat) → Parser Unit) : Parser Func :=
  withReader (fun c => { c with inMethod := true }) do
    functionTail r isAsync isGenerator checkParams

/-- The body of an arrow function, whose statements are never directives. -/
def arrowBody (r : Rules) (isAsync : Bool) (params : List Pat) : Parser Body :=
  withReader (fun c => { c.enterBody with inAsync := isAsync, inGenerator := false }) do
    if ← isPunct "\x7b" then
      withReader (fun c => { c with allowIn := true }) do
        expectPunct "\x7b"
        let body ← blockTail r
        checkDirectives params body
        return .block (body.map (·.value))
    else
      let c ← r.assignment
      return .expr c.expr

end Untangle.Source
