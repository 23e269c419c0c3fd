import Untangle.Binding.References
import Untangle.Binding.Resolve
import Untangle.Pass.Finding

/-!
# Lookup objects

Obfuscators move literals into an object and read them back by key. Where such an object is only
ever read through keys that it has, each read of a literal is replaced by the literal, and the
object is removed once nothing refers to it.
-/

namespace Untangle.Pass

/-- The members of a lookup object. -/
structure LookupObject where
  values : Table String Expr
  /-- No value does anything when evaluated. -/
  isPure : Bool

/-- The values of an object literal whose members are all plain and have distinct static keys. -/
def staticEntries? : List Property → Option (Table String Expr)
  | [] => some []
  | .keyValue key value :: rest => do
    let k ← key.key?
    let entries ← staticEntries? rest
    if entries.has k then none else some ((k, value) :: entries)
  | _ :: _ => none

def isThis : Item → Bool
  | .expr .this => true
  | _ => false

/-- Whether an expression reads `this` anywhere. -/
def usesThis (e : Expr) : Bool := (outlineExpr e).items.any isThis

def lookupObject? (init : Expr) : Option LookupObject :=
  match init.unparen with
  | .object props => do
    let values ← staticEntries? props
    if values.any fun v => usesThis v.2 then none
    else some { values, isPure := values.all fun v => v.2.isPure }
  | _ => none

/-! ## Declarations -/

/-- The variable that a declarator declares by a plain name, with its initial value. -/
def declaredVar? : Item → Option (Binding × Option Expr)
  | .declarator (.mk target init _) => target.binding?.map fun b => (b, init)
  | _ => none

def exportedVars : Item → List Binding
  | .stmt (.exportDecl d) => match d.plain with
    | .var (.mk _ decls) => decls.filterMap fun
      | .mk target _ _ => target.binding?
    | _ => []
  | _ => []

/-- Variables that are declared just once, not exported, and start as a lookup object. -/
def declaredObjects (p : Program) : Table Binding LookupObject :=
  let declared := p.items.filterMap declaredVar?
  let exported := p.items.flatMap exportedVars
  declared.filterMap fun (b, init) => do
    let obj ← lookupObject? (← init)
    if (declared.map Prod.fst).count b == 1 && !exported.contains b then some (b, obj) else none

/-! ## Uses -/

def objectOf? (objs : Table Binding LookupObject) (e : Expr) : Option (Binding × LookupObject) :=
  match e.unparen with
  | .ident id => (objs.find? id.binding).map fun o => (id.binding, o)
  | _ => none

def accessedObject (objs : Table Binding LookupObject) (e : Expr) : List Binding :=
  match e.unparen with
  | .member obj _ => ((objectOf? objs obj).map Prod.fst).toList
  | _ => []

def LookupObject.knows (o : LookupObject) (prop : MemberProp) : Bool :=
  match prop.key? with
  | some k => o.values.has k
  | none => false

mutual

/-- The objects used other than to read a key they have: by themselves, through an unknown key, or
as something that is written. -/
def misused (objs : Table Binding LookupObject) : Outline → List Binding
  | .node item parts =>
    match item with
    | .declarator (.mk target _ _) =>
      match target.binding? with
      | some b =>
        if objs.has b then
          match parts with
          | _ :: rest => misusedOf objs rest
          | [] => []
        else misusedOf objs parts
      | none => misusedOf objs parts
    | .access obj prop =>
      match objectOf? objs obj with
      | some (b, o) =>
        (if o.knows prop then [] else [b]) ++
          match parts with
          | _ :: rest => misusedOf objs rest
          | [] => []
      | none => misusedOf objs parts
    | .expr (.assign _ (.member obj _) _) =>
      ((objectOf? objs obj).map Prod.fst).toList ++ misusedOf objs parts
    | .expr (.update _ _ arg) => accessedObject objs arg ++ misusedOf objs parts
    | .expr (.unary .delete arg) => accessedObject objs arg ++ misusedOf objs parts
    | .pat (.expr e) => accessedObject objs e ++ misusedOf objs parts
    | .ident id => (if objs.has id.binding then [id.binding] else []) ++ misusedOf objs parts
    | _ => misusedOf objs parts

def misusedOf (objs : Table Binding LookupObject) : List Outline → List Binding
  | [] => []
  | o :: os => misused objs o ++ misusedOf objs os

end

def lookupObjects (p : Program) : Table Binding LookupObject :=
  let objs := declaredObjects p
  let bad := misusedOf objs (outlineProgram p)
  objs.filter fun e => !bad.contains e.1

/-! ## The pass -/

/-- Whether a value can stand in for the look-up. -/
def isInlineable (e : Expr) : Bool :=
  match e.unparen with
  | .lit (.regex ..) => false
  | .lit _ => true
  | .unary .void (.lit (.num _)) => true
  | e => e.number?.isSome

def lookup? (objs : Table Binding LookupObject) : Expr → Option Expr
  | .member obj prop => do
    let (_, o) ← objectOf? objs obj
    let value ← o.values.find? (← prop.key?)
    if isInlineable value then some value else none
  | _ => none

def lookupEdits (objs : Table Binding LookupObject) : Edits Nat where
  expr := fun e => do
    match lookup? objs e with
    | some value =>
      modify (· + 1)
      return value
    | none => return e

/-- The pass on a resolved program: how many reads were replaced and objects removed. -/
def inlineLookupsResolved (removeUnused : Bool) (p : Program) : Program × Nat × Nat :=
  let objs := lookupObjects p
  if objs.isEmpty then (p, 0, 0)
  else
    let (p', inlined) := (editProgram (lookupEdits objs) p).run 0
    if removeUnused then
      let refs := p'.references
      let unused := (objs.filter fun e => e.2.isPure && refs.count e.1 == 1).map Prod.fst
      let (p'', removed) := p'.removeDecls unused
      (p'', inlined, removed)
    else (p', inlined, 0)

def inlineLookups (removeUnused : Bool) (p : Program) : Program × List Finding :=
  let (p', inlined, removed) := inlineLookupsResolved removeUnused p.resolved
  (p'.untagged, findings "LiteralMap"
    [("literal-map-lookups", inlined), ("literal-map-objects", removed)])

end Untangle.Pass
