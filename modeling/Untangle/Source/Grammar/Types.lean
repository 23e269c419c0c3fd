import Untangle.Source.Grammar.Rules

/-!
# Types

Annotations in typed sources: built-in types, references with arguments, unions, intersections,
arrays, tuples, literals. Object types and function types are not read.
-/

namespace Untangle.Source

def typeKeywords : List String :=
  ["any", "unknown", "number", "object", "boolean", "bigint", "string", "symbol", "void",
    "undefined", "null", "never", "intrinsic"]

/-- A dotted name, of any words. -/
def typePath : Parser (List Ident) := do
  let start ← curStart
  let first : Ident := { name := ← anyWord, pos := start }
  let rest ← repeatWhileSome do
    if ← eatPunct "." then
      let pos ← curStart
      let w ← anyWord
      return some { name := w, pos := pos }
    else return none
  return first :: rest

def typeArguments (r : Rules) : Parser (List TypeExpr) := do
  if ← eatPunct "<" then commaSeparated ">" r.type else return []

def simpleType (r : Rules) : Parser TypeExpr := do
  match ← curToken with
  | .word w _ =>
    if w == "typeof" then
      bump
      return .typeQuery (← typePath)
    else if w == "true" then
      bump
      return .lit (.bool true)
    else if w == "false" then
      bump
      return .lit (.bool false)
    else if w == "this" then
      bump
      return .keyword "this"
    else if typeKeywords.contains w && !(← peek).isPunct "." then
      bump
      return .keyword w
    else
      let path ← typePath
      return .ref path (← typeArguments r)
  | .str s => bump; return .lit (.str s)
  | .num n => bump; return .lit (.num n)
  | .bigint raw => bump; return .lit (.bigint raw)
  | .punct "(" =>
    bump
    let t ← r.type
    expectPunct ")"
    return .paren t
  | .punct "[" =>
    bump
    return .tuple (← commaSeparated "]" r.type)
  | _ => failHere .expressionExpected

def arrayType (r : Rules) : Parser TypeExpr := do
  let t ← simpleType r
  iterateWhileSome (fun t => do
    if (← isPunct "[") && !(← newlineBefore) then
      bump
      expectPunct "]"
      return some (.array t)
    else return none) t

/-- Parts of a type joined by an operator, which may also stand before the first. -/
def joinedTypes (operator : String) (part : Parser TypeExpr)
    (join : List TypeExpr → TypeExpr) : Parser TypeExpr := do
  let _ ← eatPunct operator
  let first ← part
  let rest ← repeatWhileSome do
    if ← eatPunct operator then return some (← part) else return none
  return if rest.isEmpty then first else join (first :: rest)

def typeRule (r : Rules) : Parser TypeExpr :=
  joinedTypes "|" (joinedTypes "&" (arrayType r) .intersection) .union

def annotation (r : Rules) : Parser (Option TypeExpr) := do
  if (← read).typescript && (← isPunct ":") then
    bump
    return some (← r.type)
  else return none

/-- The declared type parameters, if a bracket follows in a typed source. -/
def typeParameters (r : Rules) : Parser (List TypeParam) := do
  if ← onlyIf (← read).typescript (eatPunct "<") then
    commaSeparated ">" do
      let name ← identifier
      let bound ← if ← eatWord "extends" then some <$> r.type else pure none
      let fallback ← if ← eatPunct "=" then some <$> r.type else pure none
      return { name := name, bound := bound, fallback := fallback }
  else return []

private def memberEnd : Parser Unit := do
  unless ← eatPunct "," do
    unless ← eatSemicolon do expectPunct ";"

def interfaceBody (r : Rules) : Parser (List Signature) := do
  expectPunct "\x7b"
  let members ← repeatWhileSome do
    if ← isPunct "\x7d" then return none
    else
      let isReadonly ← do
        if (← isWord "readonly") && !(← peek).isPunct ":" && !(← peek).isPunct "?" then
          bump
          pure true
        else pure false
      let key ← anyWord
      let optional ← eatPunct "?"
      if ← eatPunct "(" then
        let params ← commaSeparated ")" do
          let id ← identifier
          let optional ← eatPunct "?"
          let ann ← annotation r
          return { id := id, optional := optional, ann := ann }
        let ret ← annotation r
        memberEnd
        return some (.method key optional params ret)
      else
        let ann ← annotation r
        memberEnd
        return some (.property isReadonly key optional ann)
  expectPunct "\x7d"
  return members

def interfaceTail (r : Rules) : Parser Interface := do
  let name ← identifier
  let params ← typeParameters r
  let bases ←
    if ← eatWord "extends" then
      let first ← simpleType r
      let rest ← repeatWhileSome do
        if ← eatPunct "," then return some (← simpleType r) else return none
      pure (first :: rest)
    else pure []
  let members ← interfaceBody r
  return { name := name, typeParams := params, bases := bases, members := members }

end Untangle.Source
