import Untangle.Pass.LookupObject

/-!
# Proxy functions

Obfuscators hide operators and calls behind small functions, by themselves or as members of a lookup
object. A call of such a function is replaced by its body with the arguments put in, where that
keeps what is evaluated and in which order. Functions that nothing calls any more are removed.
-/

namespace Untangle.Pass

/-- A function that returns an expression over its parameters. -/
structure Proxy where
  params : List Binding
  body : Expr
  /-- The index of each reference to a parameter, in the order of evaluation. -/
  uses : List Nat
  /-- Whether an operand may be skipped. -/
  isConditional : Bool

/-- Whether an expression is a literal that can be repeated or dropped. -/
def isFreeLiteral (e : Expr) : Bool :=
  match e.unparen with
  | .lit (.regex ..) => false
  | .lit _ => true
  | e => e.number?.isSome

def isSimpleArg (e : Expr) : Bool :=
  isFreeLiteral e || match e.unparen with
    | .ident _ => true
    | _ => false

def isSpread : Expr → Bool
  | .spread _ => true
  | _ => false

def placesOf (uses : List Nat) (i : Nat) : List Nat :=
  (uses.zipIdx.filter fun u => u.1 == i).map Prod.snd

/-- Whether every argument that is no literal is used just once, and in order: `next` is the first
parameter to look at, `last` the place of the use before it. -/
def inOrder (uses : List Nat) : List Expr → Nat → Option Nat → Bool
  | [], _, _ => true
  | arg :: args, next, last =>
    if isFreeLiteral arg then inOrder uses args (next + 1) last
    else match placesOf uses next with
      | [place] =>
        (match last with
          | some l => l ≤ place
          | none => true) && inOrder uses args (next + 1) (some place)
      | _ => false

def Proxy.admits (f : Proxy) (args : List Expr) : Bool :=
  let taken := args.take f.params.length
  let simple := args.all isSimpleArg
  !args.any isSpread &&
    (args.drop f.params.length).all Expr.isPure &&
    taken.zipIdx.all (fun a => f.uses.contains a.2 || simple || a.1.isPure) &&
    (simple || (!f.isConditional && inOrder f.uses taken 0 none))

/-- Parameters with their arguments; those left out are undefined. -/
def bindArgs : List Binding → List Expr → Table Binding Expr
  | [], _ => []
  | b :: bs, [] => (b, .undefined) :: bindArgs bs []
  | b :: bs, a :: as => (b, a) :: bindArgs bs as

/-- The body of a proxy with the arguments of a call put in. -/
def Proxy.inline? (f : Proxy) (args : List Expr) : Option Expr :=
  if f.admits args then some (f.body.substitute (bindArgs f.params args)) else none

/-! ## Which functions are proxies -/

def plainParams? (params : List Pat) : Option (List Binding) := params.mapM Pat.binding?

def returned? : Body → Option Expr
  | .expr e => some e
  | .block [.return (some e)] => some e
  | _ => none

/-- Parameters and returned expression of a function that is neither asynchronous nor a generator.
-/
def shape? : Func → Option (List Binding × Expr)
  | .mk isAsync isGenerator _ params _ body =>
    if isAsync || isGenerator then none
    else do
      let ps ← plainParams? params
      let e ← returned? body
      some (ps, e)

def exprShape? (e : Expr) : Option (List Binding × Expr) :=
  match e.unparen with
  | .func _ f => shape? f
  | .arrow f => shape? f
  | _ => none

/-- What is known of a body while it is looked through. -/
structure BodyReport where
  uses : List Nat := []
  isConditional : Bool := false
  valid : Bool := true

/-- What an item says about the body that holds it. -/
def BodyReport.note (params holders : List Binding) (r : BodyReport) : Item → BodyReport
  | .ident id =>
    match params.findIdx? (· == id.binding) with
    | some i => { r with uses := r.uses ++ [i] }
    | none => if holders.contains id.binding then r else { r with valid := false }
  | .expr (.binary .and ..) => { r with isConditional := true }
  | .expr (.binary .or ..) => { r with isConditional := true }
  | .expr (.binary .nullish ..) => { r with isConditional := true }
  | .expr (.cond ..) => { r with isConditional := true }
  | .expr (.chainMember ..) => { r with isConditional := true }
  | .expr (.chainCall ..) => { r with isConditional := true }
  | .property (.shorthand _) => { r with valid := false }
  | .func _ => { r with valid := false }
  | .cls _ => { r with valid := false }
  | .superAccess _ => { r with valid := false }
  | .expr (.arrow _) => { r with valid := false }
  | .expr .this => { r with valid := false }
  | .expr .newTarget => { r with valid := false }
  | .expr .importMeta => { r with valid := false }
  | .expr (.yield ..) => { r with valid := false }
  | .expr (.await _) => { r with valid := false }
  | _ => r

/-- A function as a proxy: its body may only mention its parameters and variables that hold proxies,
and must not depend on where it runs. -/
def proxy? (holders : List Binding) (shape : List Binding × Expr) : Option Proxy :=
  let (params, body) := shape
  if params.eraseDups.length != params.length then none
  else
    let r := (outlineExpr body).items.foldl (BodyReport.note params holders) {}
    if r.valid then some { params, body, uses := r.uses, isConditional := r.isConditional }
    else none

/-! ## Proxies of a program -/

/-- The shapes of functions by the variables that hold them. -/
def heldShapes : Item → List (Binding × Option (List Binding × Expr))
  | .funcDecl name f => [(name.binding, shape? f)]
  | .declarator (.mk target init _) =>
    (target.binding?.map fun b => (b, init.bind exprShape?)).toList
  | _ => []

def boundIn (os : List Outline) : List Binding :=
  (Outline.itemsOf os).filterMap fun
    | .binding b => some b.id.binding
    | _ => none

def writtenVars : Item → List Binding
  | .expr (.assign _ (.name b) _) => [b.id.binding]
  | .expr (.assign _ (.pattern p) _) => boundIn [outlinePat p]
  | .expr (.update _ _ arg) =>
    match arg.unparen with
    | .ident id => [id.binding]
    | _ => []
  | .stmt (.forIn head _ _) => boundIn (outlineHead head)
  | .stmt (.forOf _ head _ _) => boundIn (outlineHead head)
  | _ => []

def exportedHolders : Item → List Binding
  | .stmt (.exportDecl d) => match d.plain with
    | .func name _ => [name.binding]
    | .var (.mk _ decls) => decls.flatMap fun
      | .mk target _ _ => boundIn [outlinePat target]
    | _ => []
  | _ => []

/-- The proxies of a program. -/
structure Proxies where
  functions : Table Binding Proxy
  objects : Table Binding (Table String Proxy)
  /-- Variables whose declaration can go once nothing refers to them. -/
  removable : List Binding

def Proxies.isEmpty (ps : Proxies) : Bool := ps.functions.isEmpty && ps.objects.isEmpty

/-- Variables that are declared once, never assigned, and hold a function of proxy shape. -/
def functionShapes (items : List Item) : Table Binding (List Binding × Expr) :=
  let declared := items.flatMap heldShapes
  let written := items.flatMap writtenVars
  declared.filterMap fun (b, shape) => do
    let s ← shape
    if (declared.map Prod.fst).count b == 1 && !written.contains b then some (b, s) else none

def Proxies.collect (p : Program) : Proxies :=
  let items := p.items
  let exported := items.flatMap exportedHolders
  let shapes := functionShapes items
  let objs := lookupObjects p
  let holders := shapes.map Prod.fst ++ objs.map Prod.fst
  let functions := shapes.filterMap fun (b, s) => (proxy? holders s).map fun f => (b, f)
  let objects := objs.filterMap fun (b, o) =>
    let members := o.values.filterMap fun (k, v) => do
      let f ← proxy? holders (← exprShape? v)
      some (k, f)
    if members.isEmpty then none else some (b, members)
  { functions
    objects
    removable :=
      (functions.map Prod.fst).filter (fun b => !exported.contains b) ++
        (objects.map Prod.fst).filter fun b => match objs.find? b with
          | some o => o.isPure
          | none => false }

/-! ## The pass -/

/-- The proxy that an expression names, with the variable that holds it. -/
def Proxies.resolve? (ps : Proxies) (callee : Expr) : Option (Binding × Proxy) :=
  match callee.unparen with
  | .ident id => (ps.functions.find? id.binding).map fun f => (id.binding, f)
  | .member obj prop =>
    match obj.unparen with
    | .ident id => do
      let members ← ps.objects.find? id.binding
      let f ← members.find? (← prop.key?)
      some (id.binding, f)
    | _ => none
  | _ => none

def Proxies.inlineCall? (ps : Proxies) : Expr → Option (Binding × Expr)
  | .call callee args => do
    let (holder, f) ← ps.resolve? callee
    let e ← f.inline? args
    some (holder, e)
  | _ => none

/-- The holders of the calls replaced so far, latest first. -/
abbrev ProxyTally := List Binding

def proxyEdits (ps : Proxies) : Edits ProxyTally where
  expr := fun e => do
    match ps.inlineCall? e with
    | some (holder, e') =>
      modify (holder :: ·)
      return e'
    | none => return e

/-- Replaces calls until a round replaces none, in at most so many rounds. -/
def inlineRounds (ps : Proxies) : Nat → Program → ProxyTally → Program × ProxyTally
  | 0, p, used => (p, used)
  | n + 1, p, used =>
    let (p', used') := (editProgram (proxyEdits ps) p).run used
    if used'.length == used.length then (p', used') else inlineRounds ps n p' used'

/-- The pass on a resolved program: how many calls were replaced and functions removed. -/
def inlineProxiesResolved (removeUnused : Bool) (maxRounds : Nat) (p : Program) :
    Program × Nat × Nat :=
  let ps := Proxies.collect p
  if ps.isEmpty then (p, 0, 0)
  else
    let (p', used) := inlineRounds ps maxRounds p []
    if removeUnused then
      let refs := p'.references
      let unused := used.eraseDups.filter fun b => refs.count b == 1 && ps.removable.contains b
      let (p'', removed) := p'.removeDecls unused
      (p'', used.length, removed)
    else (p', used.length, 0)

/-- Replaces calls of proxy functions by what they do. -/
def inlineProxies (removeUnused : Bool) (maxRounds : Nat) (p : Program) : Program × List Finding :=
  let (p', inlined, removed) := inlineProxiesResolved removeUnused maxRounds p.resolved
  (p'.untagged, findings "Demangle" [("proxy-calls", inlined), ("proxy-functions", removed)])

end Untangle.Pass
