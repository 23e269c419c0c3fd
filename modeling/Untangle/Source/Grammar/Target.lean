import Untangle.Source.Grammar.Rules

/-!
# Expressions read as assignment targets

The head of an arrow function, and the left side of an assignment, are read as expressions first
and turned into patterns once the arrow or the equals sign is seen. What is wrong with a pattern is
remarked on where the offending part stands.
-/

namespace Untangle.Source

open Untangle

/-- Which patterns are wanted: ones that declare names, or ones that assign to what exists. -/
inductive PatternRole
  | declaring | assigning
  deriving DecidableEq

def isSimpleTarget (strict : Bool) : Expr → Bool
  | .ident id => !(strict && (id.name == "eval" || id.name == "arguments"))
  | .member _ _ => true
  | .superMember _ => true
  | .paren e => isSimpleTarget strict e
  | .typed _ e _ => isSimpleTarget strict e
  | .typeAssert _ e => isSimpleTarget strict e
  | .nonNull e => isSimpleTarget strict e
  | _ => false

/-- The pattern for a left side that has already been read as one. -/
def targetAsPattern : AssignTarget → Pat
  | .name b => .name b
  | .member obj prop => .expr (.member obj prop)
  | .superMember prop => .expr (.superMember prop)
  | .paren e => .expr (.paren e)
  | .chain e => .expr e
  | .typed e => .expr e
  | .pattern p => p

/-- Whether an expression in an assigning pattern stands for itself. -/
private def standsForItself : Expr → Bool
  | .member .. | .superMember .. | .call .. | .superCall .. | .importCall .. | .new .. | .lit ..
  | .func .. | .cls .. | .paren .. | .template .. | .typed .. | .nonNull .. | .typeAssert .. => true
  | _ => false

private def isHole (c : Cover) : Bool := match c.expr with
  | .hole => true
  | _ => false

private def isAssignment : Expr → Bool
  | .assign .. => true
  | _ => false

/-- A rest element has no value of its own, and nothing follows it. -/
private def checkRest (start : Nat) (inner : Expr) (comma : Option Nat) : Parser Unit := do
  if isAssignment inner then note start .restInitialized
  match comma with
  | some pos => note pos .commaAfterRest
  | none => pure ()

/-- The pattern of an expression that is neither a literal of elements nor an assignment. -/
private def leafAsPattern (role : PatternRole) (start : Nat) (e : Expr) : Parser Pat := do
  let simple := isSimpleTarget (← read).strict e
  match role, e with
  | .declaring, .ident id => return .name (.ofIdent id)
  | .assigning, .ident id =>
    unless simple do note start .notSimpleTarget
    return .name (.ofIdent id)
  | .assigning, e =>
    if standsForItself e then
      unless simple do note start .notSimpleTarget
      return .expr e
    else
      note start .invalidPattern
      return .invalid
  | .declaring, _ =>
    note start .invalidPattern
    return .invalid

mutual

def coverAsPattern (role : PatternRole) : Cover → Parser Pat
  | ⟨.array _, _, _, parts, comma⟩ => do
    return .array (← elementsAsPatterns role comma parts) none
  | ⟨.object props, _, _, parts, comma⟩ => do
    return .object (← membersAsPatterns role comma props parts) none
  | ⟨.spread _, _, _, [inner], _⟩ => do
    return .rest (← coverAsPattern role inner) none
  | ⟨.assign .plain target value, _, _, _, _⟩ => return .assign (targetAsPattern target) value
  | ⟨e, start, _, _, _⟩ => leafAsPattern role start e

/-- The patterns of array elements. Holes at the end are not kept, and neither is a rest element
that is not the last. -/
def elementsAsPatterns (role : PatternRole) (comma : Option Nat) :
    List Cover → Parser (List Pat)
  | [] => return []
  | c :: rest => do
    if isHole c then
      if rest.all isHole then return []
      else return .hole :: (← elementsAsPatterns role comma rest)
    else match c.expr with
      | .spread inner =>
        if rest.isEmpty then
          checkRest c.start inner comma
          return [← coverAsPattern role c]
        else
          note c.start .restNotLast
          elementsAsPatterns role comma rest
      | _ =>
        let p ← coverAsPattern role c
        return p :: (← elementsAsPatterns role comma rest)

def membersAsPatterns (role : PatternRole) (comma : Option Nat) :
    List Property → List Cover → Parser (List PatProp)
  | .shorthand id :: ps, _ :: cs => do
    return .assign (.ofIdent id) none :: (← membersAsPatterns role comma ps cs)
  | .initialized id value :: ps, _ :: cs => do
    return .assign (.ofIdent id) (some value) :: (← membersAsPatterns role comma ps cs)
  | .keyValue key _ :: ps, ⟨_, _, _, [value], _⟩ :: cs => do
    let p ← coverAsPattern role value
    return .keyValue key p :: (← membersAsPatterns role comma ps cs)
  | .spread e :: ps, ⟨_, start, _, [inner], _⟩ :: cs => do
    unless ps.isEmpty do note start .restNotLast
    match ps.isEmpty, comma with
    | true, some pos => note pos .commaAfterRest
    | _, _ => pure ()
    let p ← match role, e with
      | .declaring, .ident id => pure (Pat.name (.ofIdent id))
      | .declaring, _ => do
        note start .restNotIdentifier
        pure .invalid
      | .assigning, _ => coverAsPattern role inner
    match p with
    | .assign .. => note start .restInitialized
    | _ => pure ()
    return .rest p :: (← membersAsPatterns role comma ps cs)
  | _ :: _, c :: _ => failAt c.start .invalidPattern
  | _, _ => return []

end

def assignTarget (c : Cover) : Parser AssignTarget := do
  match c.expr with
  | .array _ => return .pattern (← coverAsPattern .assigning c)
  | .object _ => return .pattern (← coverAsPattern .assigning c)
  | e =>
    unless isSimpleTarget (← read).strict e do note c.start .targetNotReference
    simpleTarget e
where
  simpleTarget (e : Expr) : Parser AssignTarget :=
    match e with
    | .ident id => return .name (.ofIdent id)
    | .member obj prop => return .member obj prop
    | .superMember prop => return .superMember prop
    | .paren inner => return .paren inner
    | .chainMember .. | .chainCall .. => return .chain e
    | .typed .. | .typeAssert .. | .nonNull .. => return .typed e
    | _ => failAt c.start .invalidTarget

/-- The left side of an assignment of an operation's result. -/
def combinedTarget (c : Cover) : Parser AssignTarget := do
  let ctx ← read
  unless isSimpleTarget ctx.strict c.expr do
    note c.start (if ctx.typescript then .targetNotReference else .notSimpleTarget)
  assignTarget.simpleTarget c c.expr

def loopPattern (c : Cover) : Parser Pat := do
  match ← assignTarget c with
  | .paren e => return .expr (.paren e)
  | t => return targetAsPattern t

/-! ## Parameters of arrow functions -/

private def parametersFrom (comma : Option Nat) : List Cover → Parser (List Pat)
  | [] => return []
  | c :: rest => do
    match c.expr with
    | .spread inner =>
      if rest.isEmpty then
        checkRest c.start inner comma
        return [← coverAsPattern .declaring c]
      else
        note c.start .restParameterNotLast
        parametersFrom comma rest
    | _ =>
      let p ← coverAsPattern .declaring c
      return p :: (← parametersFrom comma rest)

mutual

/-- Remarks on the names a pattern declares that strict code keeps for itself. Names that stand for
their own key are let through. -/
def checkDeclared : Pat → Parser Unit
  | .name b => checkDeclaredName b.id.pos b.id.name
  | .array elems _ => checkDeclaredList elems
  | .object props _ => checkDeclaredMembers props
  | .rest p _ => checkDeclared p
  | .assign p _ => checkDeclared p
  | _ => return ()

def checkDeclaredList : List Pat → Parser Unit
  | [] => return ()
  | p :: ps => do
    checkDeclared p
    checkDeclaredList ps

def checkDeclaredMembers : List PatProp → Parser Unit
  | [] => return ()
  | .keyValue _ p :: ps => do
    checkDeclared p
    checkDeclaredMembers ps
  | .rest p :: ps => do
    checkDeclared p
    checkDeclaredMembers ps
  | .assign .. :: ps => checkDeclaredMembers ps

end

/-- The parameters of an arrow function, from the expressions in its head. -/
def arrowParameters (items : List Cover) (comma : Option Nat) : Parser (List Pat) := do
  let params ← parametersFrom comma items
  checkDeclaredList params
  return params

end Untangle.Source
