import Untangle.Tree.Bound

/-!
# Scopes

Declarations are met twice: a statement list first declares what is hoisted to it, then its
statements are gone through in order. The occurrence keeps the tag it was given first.
-/

namespace Untangle

/-- How a name was declared last. -/
inductive DeclKind
  | lexical | param | var | func
  deriving DecidableEq, Inhabited, Repr

/-- The names declared in one function or block. -/
structure Scope where
  tag : ScopeTag
  isFunction : Bool
  /-- Latest first. -/
  declared : List (String × DeclKind) := []

/-- What is known while bindings are being resolved. -/
structure Resolution where
  /-- Innermost first. -/
  scopes : List Scope
  nextScope : Nat := 0
  /-- Tags of numbered occurrences. -/
  tags : List (Nat × ScopeTag) := []
  /-- Names that declarations in a handler have taken over, for the handlers around, innermost
  first. -/
  overtaken : List (List String) := []

def Scope.kind? (s : Scope) (name : String) : Option DeclKind := s.declared.lookup name

def Scope.add (s : Scope) (name : String) (kind : DeclKind) : Scope :=
  { s with declared := (name, kind) :: s.declared }

/-- The tag of the innermost scope that declares a name, the search ending at a function if told
to. -/
def findScope? (stopAtFunction : Bool) (name : String) : List Scope → Option ScopeTag
  | [] => none
  | s :: rest =>
    if (s.kind? name).isSome then some s.tag
    else if stopAtFunction && s.isFunction then none
    else findScope? stopAtFunction name rest

def findKind? (name : String) (scopes : List Scope) : Option DeclKind :=
  scopes.findSome? fun s => s.kind? name

def Ident.number? (id : Ident) : Option Nat :=
  match id.scope with
  | .occurrence n => some n
  | _ => none

/-- Names of the global object that no script can redefine. -/
def isFixedGlobal (name : String) : Bool :=
  name == "undefined" || name == "NaN" || name == "Infinity"

/-! ## Steps -/

/-- Where a statement stands in the list that hoists it. -/
structure HoistSite where
  strict : Bool
  /-- How caught values are declared. -/
  kind : DeclKind
  inBlock : Bool := false
  inHandler : Bool := false
  /-- The caught values of the handlers around. -/
  caught : List Ident := []

def HoistSite.catches (site : HoistSite) (name : String) : Bool :=
  site.caught.any fun id => id.name == name

/-- The caught values of one more handler. -/
def HoistSite.catching (site : HoistSite) (ids : List Ident) : HoistSite :=
  { site with inHandler := false, caught := ids ++ site.caught }

/-- Inside the handler that catches them. -/
def HoistSite.handling (site : HoistSite) (ids : List Ident) : HoistSite :=
  { site.catching ids with inBlock := true, inHandler := true }

/-- What resolution does at one point of a program. -/
inductive Step
  | enter (isFunction : Bool)
  | leave
  | declare (kind : DeclKind) (id : Ident)
  | refer (isModule : Bool) (id : Ident)
  /-- A variable is declared in the scope that it is hoisted to. -/
  | hoistVar (site : HoistSite) (kind : DeclKind) (id : Ident)
  /-- A function is. -/
  | hoistFunc (site : HoistSite) (id : Ident)
  /-- What is hoisted is looked for in another statement list. -/
  | startList
  | startHandler
  | endHandler

namespace Resolution

/-- Whether an occurrence is still without a tag. -/
def isOpen (r : Resolution) (n : Nat) : Bool := (r.tags.lookup n).isNone

/-- Binds an occurrence to the innermost scope, unless it is bound already. A parameter that was bound
there ahead of its default values gets its kind when it is reached. -/
def declare (r : Resolution) (kind : DeclKind) (id : Ident) : Resolution :=
  match id.number?, r.scopes with
  | some n, s :: rest =>
    if r.isOpen n then
      { r with scopes := s.add id.name kind :: rest, tags := (n, s.tag) :: r.tags }
    else if r.tags.lookup n == some s.tag && s.kind? id.name == some .param then
      { r with scopes := s.add id.name kind :: rest }
    else r
  | _, _ => r

def tagOf (r : Resolution) (isModule : Bool) (name : String) : ScopeTag :=
  match findScope? false name r.scopes with
  | some tag => if tag == .top && !isModule && isFixedGlobal name then .free else tag
  | none => .free

/-- Binds an occurrence to the innermost scope that declares its name, or to none. -/
def refer (r : Resolution) (isModule : Bool) (id : Ident) : Resolution :=
  match id.number? with
  | some n =>
    if r.isOpen n then { r with tags := (n, r.tagOf isModule id.name) :: r.tags } else r
  | none => r

/-- Whether a declaration in the handler under consideration has taken over a name. -/
def isOvertaken (r : Resolution) (name : String) : Bool := (r.overtaken.headD []).contains name

/-- Whether a variable is not hoisted for its name. One declared in a handler under the name of the
caught value is the caught value if the name is already taken outside. -/
def keepsVar (r : Resolution) (site : HoistSite) (name : String) : Bool :=
  site.catches name &&
    if site.inHandler then (findScope? true name r.scopes).isSome else !r.isOvertaken name

/-- Whether a function is not hoisted. One in an inner block stays there in strict code, or where its
name already is a lexical declaration or a parameter. -/
def keepsFunc (r : Resolution) (site : HoistSite) (name : String) : Bool :=
  site.catches name || site.inBlock && (site.strict ||
    findKind? name r.scopes == some .lexical || findKind? name r.scopes == some .param)

/-- A name in the handler under consideration is taken over. -/
def overtake (r : Resolution) (name : String) : Resolution :=
  { r with overtaken := (name :: r.overtaken.headD []) :: r.overtaken.tail }

end Resolution

def Step.run (r : Resolution) : Step → Resolution
  | .enter isFunction =>
    { r with
      scopes := { tag := .inner r.nextScope, isFunction } :: r.scopes
      nextScope := r.nextScope + 1 }
  | .leave => { r with scopes := r.scopes.tail }
  | .declare kind id => r.declare kind id
  | .refer isModule id => r.refer isModule id
  | .hoistVar site kind id =>
    if r.keepsVar site id.name then r
    else if site.inHandler then (r.overtake id.name).declare kind id
    else r.declare kind id
  | .hoistFunc site id => if r.keepsFunc site id.name then r else r.declare .func id
  | .startList => { r with overtaken := [] }
  | .startHandler => { r with overtaken := [] :: r.overtaken }
  | .endHandler => { r with overtaken := r.overtaken.tail }

def inScope (isFunction : Bool) (body : List Step) : List Step :=
  .enter isFunction :: (body ++ [.leave])

end Untangle
