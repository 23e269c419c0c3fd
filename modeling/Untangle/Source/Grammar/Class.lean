import Untangle.Source.Grammar.Function

/-!
# Classes

* `classTail` — everything after the name of a class.

Decorators of members are not read.
-/

namespace Untangle.Source

def classKey (r : Rules) : Parser PropName := do
  let pos ← curStart
  if ← isPunct "#" then
    let name ← privateName
    if name == "constructor" then note pos .privateConstructor
    return .privateName name
  else propertyKey r

private def atMethod : Parser Bool := do
  return (← isPunct "(") || ((← read).typescript && (← isPunct "<"))

private def atField : Parser Bool := do
  let typescript := (← read).typescript
  match ← curToken with
  | .punct p =>
    return ["=", ";", "\x7d"].contains p || (typescript && ["!", ":", "?"].contains p)
  | _ => return false

/-- Whether what follows the current word shows that the word is itself the key. -/
private def endsKey (l : Lexeme) : Bool :=
  match l.token with
  | .punct p => ["(", "=", ";", "\x7d", ":", "?", "!", "<", ","].contains p
  | .eof => true
  | _ => false

/-- Past a marker word of typed sources, unless it is a key. -/
private def eatMarker (w : String) (sameLine : Bool) : Parser Bool := do
  if ← isWord w then
    let next ← peek
    if endsKey next || (sameLine && next.newline) then return false
    else
      bump
      return true
  else return false

/-- Markers of typed sources before a class member. -/
private def typedMarks : Nat → MemberMods → Parser MemberMods
  | 0, mods => return mods
  | n + 1, mods => do
    if ← onlyIf (mods.access.isNone) (eatMarker "public" true) then
      typedMarks n { mods with access := some .isPublic }
    else if ← onlyIf (mods.access.isNone) (eatMarker "protected" true) then
      typedMarks n { mods with access := some .isProtected }
    else if ← onlyIf (mods.access.isNone) (eatMarker "private" true) then
      typedMarks n { mods with access := some .isPrivate }
    else if ← onlyIf (!mods.isStatic) (eatMarker "static" false) then
      typedMarks n { mods with isStatic := true }
    else if ← onlyIf (!mods.isAbstract) (eatMarker "abstract" true) then
      typedMarks n { mods with isAbstract := true }
    else if ← onlyIf (!mods.isOverride) (eatMarker "override" true) then
      typedMarks n { mods with isOverride := true }
    else if ← onlyIf (!mods.isReadonly) (eatMarker "readonly" true) then
      typedMarks n { mods with isReadonly := true }
    else if ← onlyIf (!mods.isDeclared) (eatMarker "declare" true) then
      typedMarks n { mods with isDeclared := true }
    else return mods

private def isConstructorKey : PropName → Bool
  | .name "constructor" => true
  | .str s => s.text? == some "constructor"
  | _ => false

private def classMethod (r : Rules) (mods : MemberMods) (kind : MethodKind) (key : PropName)
    (pos : Nat) (isAsync isGenerator : Bool) : Parser ClassMember := do
  let f ← methodTail r isAsync isGenerator (checkAccessor kind pos)
  return .method mods kind key f

private def classField (r : Rules) (mods : MemberMods) (key : PropName) (keyPos : Nat) :
    Parser ClassMember := do
  if isConstructorKey key then failAt keyPos .constructorField
  let typescript := (← read).typescript
  let optional ← if typescript then eatPunct "?" else pure false
  let definite ← if typescript && !optional then eatPunct "!" else pure false
  let ann ← annotation r
  let value ←
    if ← eatPunct "=" then
      withReader (fun c => { c with inField := true, inMethod := true, allowIn := true }) do
        let c ← r.assignment
        pure (some c.expr)
    else pure none
  unless ← eatSemicolon do note (← curStart) .semicolonExpected
  return .field { mods with optional := optional, definite := definite } key ann value

private def classConstructor (r : Rules) (mods : MemberMods) (key : PropName) :
    Parser ClassMember := do
  let .mk _ _ _ params _ body ← methodTail r false false anyParameters
  return .ctor mods key params body

private def atGeneratorLine : Parser Bool := do
  return (← newlineBefore) && (← isPunct "*")

/-- A member after its markers and its first word or key. A word such as `async` or `get` is a
marker only when a key can still follow it. -/
private def memberAfterKey (r : Rules) (mods : MemberMods) (key : PropName) (keyPos : Nat) :
    Parser ClassMember := do
  if ← atMethod then
    if isConstructorKey key && !mods.isStatic then classConstructor r mods key
    else classMethod r mods .plain key keyPos false false
  else
    let accessor : Option MethodKind ← do
      if (← atField) || (← atGeneratorLine) then pure none
      else match key with
        | .name "get" => pure (some .getter)
        | .name "set" => pure (some .setter)
        | _ => pure none
    match accessor, key with
    | some kind, _ =>
      let key ← classKey r
      if isConstructorKey key && !mods.isStatic then note keyPos .constructorAccessor
      classMethod r mods kind key keyPos false false
    | none, .name "async" =>
      if (← atField) || (← atSemicolon) then classField r mods key keyPos
      else
        let isGenerator ← eatPunct "*"
        let keyPos ← curStart
        let key ← classKey r
        if isConstructorKey key && !mods.isStatic then failAt keyPos .asyncConstructor
        classMethod r mods .plain key keyPos true isGenerator
    | none, _ =>
      if (← atField) || (← atSemicolon) then classField r mods key keyPos
      else unexpected "* for generator, private key, identifier or async"

private def memberTail (r : Rules) (start : Nat) (mods : MemberMods) : Parser ClassMember := do
  if ← eatPunct "*" then
    let keyPos ← curStart
    let key ← classKey r
    if isConstructorKey key && !mods.isStatic then note start .generatorConstructor
    classMethod r mods .plain key keyPos false true
  else
    let keyPos ← curStart
    let key ← classKey r
    memberAfterKey r mods key keyPos

private def staticBlock (r : Rules) : Parser ClassMember :=
  withReader (fun c => { c with inStaticBlock := true, inField := true, inMethod := true }) do
    return .staticBlock (← block r)

def classMember (r : Rules) : Parser ClassMember := do
  let start ← curStart
  if ← eatPunct ";" then return .empty
  else if (← read).typescript then
    if (← isWord "static") && (← peek).isPunct "\x7b" then
      bump
      staticBlock r
    else
      let mods ← typedMarks 8 {}
      memberTail r start mods
  else if ← eatWord "static" then
    if (← atMethod) || (← atField) then memberAfterKey r {} (.name "static") start
    else if ← isPunct "\x7b" then staticBlock r
    else memberTail r start { isStatic := true }
  else memberTail r start {}

private def isCtorMember : ClassMember → Bool
  | .ctor _ _ _ .absent => false
  | .ctor .. => true
  | _ => false

def classBody (r : Rules) : Parser (List ClassMember) := do
  expectPunct "\x7b"
  let (members, _) ← iterateWhileSome (fun (acc, hasCtor) => do
    if ← isPunct "\x7d" then return none
    else
      let pos ← curStart
      let m ← classMember r
      if hasCtor && isCtorMember m then note pos .duplicateConstructor
      return some (m :: acc, hasCtor || isCtorMember m)) ([], false)
  expectPunct "\x7d"
  return members.reverse

/-- The class that another one extends. A second such clause is remarked on and dropped. -/
private def classBase (r : Rules) : Parser (Option Expr) := do
  if ← eatWord "extends" then
    let base ← r.leftHand
    if ← isWord "extends" then
      note (← curStart) .repeatedExtends
      bump
      let _ ← r.leftHand
    return some base.expr
  else return none

/-- A class from its keyword on, whose name is read by `name`. All of it is strict. -/
def classFrom {ν : Type} (r : Rules) (name : Parser ν) (isAbstract : Bool) : Parser (ν × Class) :=
  withReader (fun c => { c with strict := true, inClass := true, allowIn := true }) do
    expectWord "class"
    let name ← name
    let typeParams ← typeParameters r
    let base ← classBase r
    let implemented ←
      if ← onlyIf (← read).typescript (eatWord "implements") then
        let first ← simpleType r
        let rest ← repeatWhileSome do
          if ← eatPunct "," then return some (← simpleType r) else return none
        pure (first :: rest)
      else pure []
    let members ← classBody r
    return (name, Class.mk isAbstract typeParams base implemented members)

end Untangle.Source
