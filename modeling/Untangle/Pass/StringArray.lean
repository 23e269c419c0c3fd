import Untangle.Binding.References
import Untangle.Binding.Resolve
import Untangle.Codec.Keystream
import Untangle.Constant.Evaluate
import Untangle.Number.Leading
import Untangle.Pass.Finding

/-!
# String arrays

Obfuscators move all strings into an array, often rotated at the start of the program, and read them
back through functions. The pass finds the array, works out the rotation, learns how each function
turns its argument into an index and decodes the string, and replaces calls with constant arguments
by the strings they give. Nothing is run: the shapes of the parts are recognised.
-/

namespace Untangle.Pass

/-- How the strings of an array are hidden. -/
inductive Encoding
  | plain | base64 | keyed
  deriving DecidableEq, Inhabited

/-- A function that reads an array. -/
structure Decoder where
  array : Binding
  /-- Subtracted from the argument to get the index. -/
  offset : Float
  encoding : Encoding

/-- A function that calls another with arguments made from its own. -/
structure Wrapper where
  params : List Binding
  target : Binding
  args : List Expr

/-- How an array is rotated at the start. -/
inductive Rotation
  /-- To the left so many times. -/
  | count (n : Float)
  /-- To the left until an expression has a value. -/
  | checksum (e : Expr) (target : Float)

/-- An order to go through a list in, where none is laid down. -/
structure Arrangement (α : Type) where
  arrange : List α → List α
  perm : ∀ xs, (arrange xs).Perm xs

def Arrangement.asListed {α : Type} : Arrangement α := ⟨id, List.Perm.refl⟩

/-- The orders in which the variables that a function mentions, the rotations and the arrays are gone
through. The first matters for a function that mentions several arrays, the second where a checksum
reads another array, the third where decoders mention each other. -/
structure Orders where
  mentions : Arrangement Binding := .asListed
  rotations : Arrangement (Binding × Rotation) := .asListed
  arrays : Arrangement (Binding × List String) := .asListed

/-- The string arrays of a program, and what leads to them. -/
structure StringTables where
  orders : Orders := {}
  arrays : Table Binding (List String) := []
  rotations : Table Binding Rotation := []
  decoders : Table Binding Decoder := []
  wrappers : Table Binding Wrapper := []
  aliases : Table Binding Binding := []

/-! ## Arrays -/

def elementText? : Expr → Option String
  | .lit (.str s) => s.text?
  | _ => none

/-- The strings of an array literal that holds nothing else. -/
def stringArray? (e : Expr) : Option (List String) :=
  match e.unparen with
  | .array elems => if elems.isEmpty then none else elems.mapM elementText?
  | _ => none

/-- The array that the first variable of a declaration starts as. -/
def declaredArray? : Stmt → Option (List String)
  | .decl d => match d.plain with
    | .var (.mk _ (.mk _ (some init) _ :: _)) => stringArray? init
    | _ => none
  | _ => none

def arrayInside? : Func → Option (List String)
  | .mk _ _ _ _ _ (.block stmts) =>
    if 4 < stmts.length then none else stmts.findSome? declaredArray?
  | _ => none

/-- The string array that a statement declares: a variable of its own, or a function that keeps the
array and refers to itself. -/
def arrayDecl? : Stmt → Option (Binding × List String)
  | .decl d => match d.plain with
    | .var (.mk _ [.mk target (some init) _]) => do
      let b ← target.binding?
      let strings ← stringArray? init
      some (b, strings)
    | .func name f => do
      let strings ← arrayInside? f
      if f.mentions.contains name.binding then some (name.binding, strings) else none
    | _ => none
  | _ => none

/-! ## Decoders -/

def literalNumber? (e : Expr) : Option Float :=
  match e.unparen with
  | .lit (.num n) => some n.value
  | _ => none

def offsetOf? : Item → Option Float
  | .expr (.assign (.combined .sub) (.name _) value) => literalNumber? value
  | .expr (.assign (.combined .add) (.name _) value) => (literalNumber? value).map fun x => -x
  | .expr (.assign .plain (.name b) value) =>
    match value.unparen with
    | .binary op left right =>
      match left.unparen with
      | .ident id =>
        if id.name != b.id.name then none
        else if op == .sub then literalNumber? right
        else if op == .add then (literalNumber? right).map fun x => -x
        else none
      | _ => none
    | _ => none
  | _ => none

def isAlphabet : Item → Bool
  | .str s => s.text? == some Base64.alphabet
  | _ => false

def isStateSize : Item → Bool
  | .num n => n.value == 256
  | _ => false

def paramCount : Func → Nat
  | .mk _ _ _ params _ _ => params.length

def decoderOf (f : Func) (array : Binding) : Decoder :=
  let items := (outlineFunction f).items
  { array
    offset := (items.findSome? offsetOf?).getD 0
    encoding :=
      if !items.any isAlphabet then .plain
      else if items.any isStateSize && 2 ≤ paramCount f then .keyed
      else .base64 }

def declaredFunc? : Stmt → Option (Binding × Func)
  | .decl d => match d.plain with
    | .func name f => some (name.binding, f)
    | .var (.mk _ [.mk target (some init) _]) => do
      let b ← target.binding?
      match init.unparen with
      | .func _ f => some (b, f)
      | _ => none
    | _ => none
  | _ => none

/-- The function of a call, through parentheses, that names a variable. -/
def calledName? (callee : Expr) : Option Ident :=
  match callee.unparen with
  | .ident id => some id
  | _ => none

/-- A function that only calls another, with arguments that mention its parameters alone. -/
def wrapper? : Func → Option Wrapper
  | .mk _ _ _ params _ (.block [.return (some e)]) =>
    match e.unparen with
    | .call callee args => do
      let ps ← params.mapM Pat.binding?
      let target ← calledName? callee
      if args.all fun a => match a with
        | .spread _ => false
        | a => a.mentions.all ps.contains
      then some { params := ps, target := target.binding, args }
      else none
    | _ => none
  | _ => none

/-! ## Rotations -/

/-- An argument without the mark that it is a list of arguments. -/
def unspread : Expr → Expr
  | .spread e => e
  | e => e

def rotationCall? : Stmt → Option (Binding × Func × Float)
  | .expr e =>
    match e.unparen with
    | .call callee [array, count] =>
      match callee.unparen, (unspread array).unparen, (unspread count).unparen with
      | .func _ f, .ident id, .lit (.num n) => some (id.binding, f, n.value)
      | _, _, _ => none
    | _ => none
  | _ => none

def keyRead? : Item → Option String
  | .access _ prop => prop.key?
  | _ => none

/-- Whether a function takes elements from one end of an array and puts them at the other. -/
def rotates (f : Func) : Bool :=
  let keys := (outlineFunction f).items.filterMap keyRead?
  keys.contains "push" && keys.contains "shift"

def isParseInt : Item → Bool
  | .expr (.call callee _) => match calledName? callee with
    | some id => id.name == "parseInt"
    | none => false
  | _ => false

def readsInteger (e : Expr) : Bool := (outlineExpr e).items.any isParseInt

/-- The expression of an item that a rotation waits for. -/
def checksumAt? : Item → Option Expr
  | .declarator (.mk _ (some init) _) => if readsInteger init then some init else none
  | .expr (.assign _ _ value) => if readsInteger value then some value else none
  | _ => none

def rotationOf (f : Func) (n : Float) : Rotation :=
  match (outlineFunction f).items.findSome? checksumAt? with
  | some e => .checksum e n
  | none => .count n

/-! ## Reading the strings -/

def Decoder.read? (d : Decoder) (strings : List String) (index : Float) (key : Option String) :
    Option String :=
  let position := index - d.offset
  if 0 ≤ position && Number.isWhole position then do
    let hidden ← strings[Number.wholeMagnitude position]?
    match d.encoding with
    | .plain => some hidden
    | .base64 => Base64.decodeText? hidden
    | .keyed => Keystream.decode? hidden (← key)
  else none

/-- Values as literals by parameter; those left out are undefined. -/
def bindValues? : List Binding → List Value → Option (Table Binding Expr)
  | [], _ => some []
  | b :: bs, vs => do
    let e ← (vs.head?.getD .undefined).toExpr?
    let rest ← bindValues? bs vs.tail
    some (if rest.has b then rest else (b, e) :: rest)

/-- How many steps lead to a decoder at most. -/
def maxIndirection : Nat := 16

/-- The string that a call gives, in at most `fuel` steps through aliases and wrappers. -/
def StringTables.invokeAtFuel (t : StringTables) :
    Nat → Binding → List Value → Option String
  | 0, _, _ => none
  | fuel + 1, callee, args =>
    match t.aliases.find? callee with
    | some target => t.invokeAtFuel fuel target args
    | none =>
      match t.decoders.find? callee with
      | some d => do
        let strings ← t.arrays.find? d.array
        let index ← args.head?
        let key := (args[1]?.bind Value.toText?).bind Units.toString?
        d.read? strings index.toNumber key
      | none => do
        let w ← t.wrappers.find? callee
        let values ← bindValues? w.params args
        let forwarded ← w.args.mapM fun a => evaluate? (a.substitute values)
        t.invokeAtFuel fuel w.target forwarded

def StringTables.invoke? (t : StringTables) (callee : Binding) (args : List Value) :
    Option String :=
  t.invokeAtFuel (maxIndirection + 1) callee args

/-- The constant value of an argument; a list of arguments has none. -/
def argValue? : Expr → Option Value
  | .spread _ => none
  | e => evaluate? e

def StringTables.decodeCall? (t : StringTables) (callee : Expr) (args : List Expr) :
    Option String := do
  let id ← calledName? callee
  let values ← args.mapM argValue?
  t.invoke? id.binding values

/-! ## Working out rotations -/

/-- The value of a checksum: arithmetic over integers read from strings. A string that cannot be
decoded reads as not a number; any other shape has no value. -/
def StringTables.checksum? (t : StringTables) : Expr → Option Float
  | .paren e => t.checksum? e
  | .lit (.num n) => some n.value
  | .unary op arg => do
    let v ← t.checksum? arg
    match op with
    | .minus => some (-v)
    | .plus => some v
    | _ => none
  | .binary op left right => do
    let a ← t.checksum? left
    let b ← t.checksum? right
    match op with
    | .add => some (a + b)
    | .sub => some (a - b)
    | .mul => some (a * b)
    | .div => some (a / b)
    | .mod => some (Number.remainder a b)
    | _ => none
  | .call callee (arg :: _) => do
    let id ← calledName? callee
    if id.name != "parseInt" then none
    else match (unspread arg).unparen with
      | .call inner args =>
        some (match t.decodeCall? inner args with
          | some s => Number.leadingInteger s
          | none => 0.0 / 0.0)
      | _ => none
  | _ => none

def rotateOnce : List String → List String
  | [] => []
  | s :: ss => ss ++ [s]

/-- Rotates an array until the checksum fits, at most so many times; gives it up if it never does or
has no value. -/
def StringTables.seekRotation (array : Binding) (e : Expr) (target : Float) :
    Nat → StringTables → StringTables
  | 0, t => { t with arrays := Table.erase t.arrays array }
  | n + 1, t =>
    match t.checksum? e with
    | some v =>
      if v == target then t
      else seekRotation array e target n { t with arrays := t.arrays.change array rotateOnce }
    | none => { t with arrays := Table.erase t.arrays array }

def rotateLeft (n : Nat) (ss : List String) : List String := ss.drop n ++ ss.take n

def StringTables.applyRotation (t : StringTables) (array : Binding) : Rotation → StringTables
  | .count n =>
    if n < 0 || !Number.isWhole n then { t with arrays := Table.erase t.arrays array }
    else
      let turn (ss : List String) := rotateLeft (Number.wholeMagnitude n % ss.length) ss
      { t with arrays := t.arrays.change array turn }
  | .checksum e target =>
    match t.arrays.find? array with
    | some ss => t.seekRotation array e target ss.length
    | none => t

def StringTables.applyRotations (t : StringTables) : StringTables :=
  (t.orders.rotations.arrange t.rotations).foldl (fun t r => t.applyRotation r.1 r.2) t

/-! ## Collecting -/

def StringTables.addArray (t : StringTables) (s : Stmt) : StringTables :=
  match arrayDecl? s with
  | some (b, strings) => { t with arrays := t.arrays.put b strings }
  | none => t

def StringTables.addDecoder (t : StringTables) (s : Stmt) : StringTables :=
  match declaredFunc? s with
  | some (b, f) =>
    if t.arrays.has b then t
    else match (t.orders.mentions.arrange f.mentions).find? t.arrays.has with
      | some array => { t with decoders := t.decoders.put b (decoderOf f array) }
      | none => t
  | none => t

def StringTables.addRotation (t : StringTables) (s : Stmt) : StringTables :=
  match rotationCall? s with
  | some (array, f, n) =>
    if t.arrays.has array && rotates f then
      { t with rotations := t.rotations.put array (rotationOf f n) }
    else t
  | none => t

/-- Notes another name for something, or a function that leads on to it. -/
def StringTables.addIndirection (t : StringTables) : Item → StringTables
  | .declarator (.mk target (some init) _) =>
    match target.binding? with
    | some b =>
      match init.unparen with
      | .ident id => { t with aliases := t.aliases.put b id.binding }
      | .func _ f => match wrapper? f with
        | some w => { t with wrappers := t.wrappers.put b w }
        | none => t
      | _ => t
    | none => t
  | .funcDecl name f =>
    if t.decoders.has name.binding then t
    else match wrapper? f with
      | some w => { t with wrappers := t.wrappers.put name.binding w }
      | none => t
  | _ => t

def StringTables.collect? (p : Program) (o : Orders := {}) : Option StringTables :=
  let stmts := p.body.filter fun s => !s.isModuleDecl
  let t : StringTables := stmts.foldl StringTables.addArray { orders := o }
  if t.arrays.isEmpty then none
  else
    let t := stmts.foldl (fun t s => (t.addDecoder s).addRotation s) t
    let t := (p.items.foldl StringTables.addIndirection t).applyRotations
    if t.arrays.isEmpty then none else some t

/-! ## Replacing calls -/

/-- Whether a call of a variable may lead to a decoder. -/
def StringTables.isAccessor (t : StringTables) (b : Binding) : Bool :=
  t.decoders.has b || t.wrappers.has b || t.aliases.has b

def StringTables.decode? (t : StringTables) : Expr → Option String
  | .call callee args => do
    let id ← calledName? callee
    if t.isAccessor id.binding then t.decodeCall? callee args else none
  | _ => none

def decodeEdits (t : StringTables) : Edits Nat where
  expr := fun e => do
    match t.decode? e with
    | some s =>
      modify (· + 1)
      return .ofText s
    | none => return e

/-- Whether a statement only declares, or rotates, some of these variables. -/
def isOwnedBy (ids : List Binding) (s : Stmt) : Bool :=
  match rotationCall? s with
  | some (array, _, _) => ids.contains array
  | none =>
    match s with
    | .decl d => match d.plain with
      | .func name _ => ids.contains name.binding
      | .var (.mk _ decls) => !decls.isEmpty && decls.all fun d => d.declaresOneOf ids
      | _ => false
    | _ => false

/-- Replaces calls in the statements that are not part of the tables. -/
def decodeOutside (t : StringTables) (ids : List Binding) : List Stmt → StateM Nat (List Stmt)
  | [] => return []
  | s :: ss => do
    let s ← if isOwnedBy ids s then pure s else editStmtParts (decodeEdits t) s
    return s :: (← decodeOutside t ids ss)

/-! ## Removing the tables -/

/-- Whether a chain of aliases and wrappers ends in a decoder, in at most `fuel` steps. -/
def StringTables.reachesAtFuel (t : StringTables) : Nat → Binding → Bool
  | 0, _ => false
  | fuel + 1, b =>
    t.decoders.has b ||
      match t.aliases.find? b with
      | some target => t.reachesAtFuel fuel target
      | none =>
        match t.wrappers.find? b with
        | some w => t.reachesAtFuel fuel w.target
        | none => false

/-- Whether a chain of aliases and wrappers ends in a decoder. -/
def StringTables.reachesDecoder (t : StringTables) (b : Binding) : Bool :=
  t.reachesAtFuel (maxIndirection + 1) b

/-- The aliases and wrappers of decoders. -/
def StringTables.indirections (t : StringTables) : List Binding :=
  (t.aliases.map Prod.fst ++ t.wrappers.map Prod.fst).filter t.reachesDecoder

/-- The aliases and wrappers of decoders that nothing uses any more. -/
def StringTables.idle (t : StringTables) (p : Program) : List Binding :=
  let refs := p.references
  t.indirections.filter fun b => refs.count b == 1

/-- Removes idle aliases and wrappers until there are none, in at most so many rounds. -/
def StringTables.removeIdleAtFuel (t : StringTables) : Nat → Program → Nat → Program × Nat
  | 0, p, removed => (p, removed)
  | fuel + 1, p, removed =>
    let (p', n) := p.removeDecls (t.idle p)
    if n == 0 then (p', removed) else t.removeIdleAtFuel fuel p' (removed + n)

/-- Removes idle aliases and wrappers until there are none. Each round takes an occurrence of a name
away, so their number bounds the rounds. -/
def StringTables.removeIdle (t : StringTables) (p : Program) : Program × Nat :=
  t.removeIdleAtFuel (p.references.length + 1) p 0

/-- Removes an array with its rotation and decoders, if nothing else refers to them. -/
def StringTables.removeArray (t : StringTables) (p : Program) (array : Binding) : Program × Nat :=
  let ids := array :: (t.decoders.filter fun d => d.2.array == array).map Prod.fst
  let rest := { p with body := p.body.filter fun s => s.isModuleDecl || !isOwnedBy ids s }
  let refs := rest.references
  if ids.any refs.contains then (p, 0) else (rest, p.body.length - rest.body.length)

/-- Removes what the tables no longer need; also how many declarations and statements went. -/
def StringTables.removeUnused (t : StringTables) (p : Program) : Program × Nat :=
  (t.orders.arrays.arrange t.arrays).foldl (fun acc array =>
    let (p', n) := t.removeArray acc.1 array.1
    (p', acc.2 + n)) (t.removeIdle p)

/-! ## The pass -/

/-- The pass on a resolved program: how many calls were replaced and declarations removed. -/
def decodeStringsResolved (removeDecoders : Bool) (p : Program) (o : Orders := {}) :
    Program × Nat × Nat :=
  match StringTables.collect? p o with
  | none => (p, 0, 0)
  | some t =>
    let owned := t.arrays.map Prod.fst ++ t.decoders.map Prod.fst
    let (body, decoded) := (decodeOutside t owned p.body).run 0
    let p' := { p with body }
    if removeDecoders then
      let (p'', removed) := t.removeUnused p'
      (p'', decoded, removed)
    else (p', decoded, 0)

/-- Replaces calls that read a string array by the strings they give. -/
def decodeStrings (removeDecoders : Bool) (o : Orders) (p : Program) : Program × List Finding :=
  let (p', decoded, removed) := decodeStringsResolved removeDecoders p.resolved o
  (p'.untagged, findings "StringDecoder"
    [("string-array", decoded), ("string-array-decoders", removed)])

end Untangle.Pass
