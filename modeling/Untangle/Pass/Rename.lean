import Untangle.Binding.References
import Untangle.Binding.Resolve
import Untangle.Pass.Finding

/-!
# Renaming

Gives variables names that tell what they hold. Every variable is renamed at all its occurrences at
once, and no new name occurs in the program already, so none is captured.
-/

namespace Untangle.Pass

/-! ## Names -/

/-- The names that are taken, and the last number used after each hint. -/
structure Namer where
  taken : List String
  numbers : Table String Nat := []

def Namer.refuses (n : Namer) (name : String) : Bool :=
  n.taken.contains name || isReservedName name

def numberedName (hint : String) (k : Nat) : String := hint ++ "_" ++ toString k

/-- The first number after `k` that makes a free name of a hint, of the next `fuel` numbers. -/
def Namer.seek (n : Namer) (hint : String) : Nat → Nat → Nat
  | 0, k => k + 1
  | fuel + 1, k =>
    if n.refuses (numberedName hint (k + 1)) then n.seek hint fuel (k + 1) else k + 1

/-- A free name from a hint: the hint itself, or the hint with the first number that is free after
those used before. As many numbers as there are names to avoid are enough. -/
def Namer.fresh (n : Namer) (hint : String) : String × Namer :=
  let last := (n.numbers.find? hint).getD 0
  if n.refuses hint then
    let k := n.seek hint (n.taken.length + reservedNames.length) last
    let name := numberedName hint k
    (name, { taken := name :: n.taken, numbers := n.numbers.put hint k })
  else (hint, { n with taken := hint :: n.taken })

def isHexDigit (c : Char) : Bool := (Text.digit? 16 c).isSome

/-- Whether a name looks made by a machine: `_0x` and hexadecimal digits, or at most two characters.
-/
def isMangled (name : String) : Bool :=
  (match name.toList with
    | '_' :: '0' :: 'x' :: rest => !rest.isEmpty && rest.all isHexDigit
    | _ => false) || name.length ≤ 2

/-! ## Hints -/

/-- The words of a text: runs of ASCII letters and digits; `word` is the run so far, backwards. -/
def words : List Char → List Char → List (List Char)
  | word, [] => if word.isEmpty then [] else [word.reverse]
  | word, c :: rest =>
    if c.isAlphanum then words (c :: word) rest
    else if word.isEmpty then words [] rest
    else word.reverse :: words [] rest

def capitalized : List Char → List Char
  | [] => []
  | c :: cs => c.toUpper :: cs

def lastPart (cs : List Char) : List Char :=
  (cs.reverse.takeWhile fun c => c != '/' && c != ':').reverse

/-- A file name without `.js`. -/
def fileStem (cs : List Char) : List Char :=
  match cs.reverse with
  | 's' :: 'j' :: '.' :: rest => rest.reverse
  | _ => cs

/-- The variable name for a module: the words of its file name, the later ones with capitals. -/
def moduleName? (specifier : String) : Option String :=
  let name := match words [] (fileStem (lastPart specifier.toList)) with
    | [] => ""
    | w :: ws => String.ofList (w ++ (ws.map capitalized).flatten)
  if isIdentifierName name && !isReservedName name then some name else none

def lowerFirst? (name : String) : Option String :=
  match name.toList with
  | c :: cs =>
    if c.isUpper then
      let lowered := String.ofList (c.toLower :: cs)
      if isReservedName lowered then none else some lowered
    else none
  | [] => none

def requiredModule? (callee : Expr) (args : List Expr) : Option String :=
  match callee.unparen, args with
  | .ident id, arg :: _ =>
    if id.name == "require" then
      (match arg with
        | .spread e => e
        | e => e).text?.bind moduleName?
    else none
  | _, _ => none

def initHint : Option Expr → String
  | none => "var"
  | some e =>
    match e.unparen with
    | .call callee args => (requiredModule? callee args).getD "var"
    | .new callee _ =>
      match callee.unparen with
      | .ident id => (lowerFirst? id.name).getD "obj"
      | _ => "obj"
    | .array _ => "arr"
    | .object _ => "obj"
    | .lit (.str _) => "str"
    | .template .. => "str"
    | .lit (.num _) => "num"
    | .func .. => "func"
    | .arrow _ => "func"
    | .cls .. => "Class"
    | _ => "var"

/-! ## Declarations -/

/-- A variable to be renamed: where it is first declared, and the name it suggests. -/
structure Declared where
  position : Nat
  hint : String

/-- The variables that a program declares, and those that keep their names. -/
structure Declarations where
  declared : Table Binding Declared := []
  fixed : List Binding := []

/-- Notes a declaration; the first hint counts, and the smallest position. -/
def Declarations.declare (d : Declarations) (hint : String) (id : Ident) : Declarations :=
  match d.declared.find? id.binding with
  | some v =>
    { d with declared := d.declared.put id.binding { v with position := min v.position id.pos } }
  | none => { d with declared := d.declared.put id.binding { position := id.pos, hint } }

def Declarations.declareAll (d : Declarations) (hint : String) (ids : List Ident) : Declarations :=
  ids.foldl (fun d id => d.declare hint id) d

def Declarations.fix (d : Declarations) (ids : List Ident) : Declarations :=
  { d with fixed := d.fixed ++ ids.map Ident.binding }

def exportedNames (d : Decl) : List Ident :=
  match d.plain with
  | .func name _ => [name]
  | .cls name _ => [name]
  | .var (.mk _ decls) => decls.flatMap Declarator.bound
  | _ => []

def localNames (items : List ExportItem) : List Ident :=
  items.filterMap fun
    | .named _ (.ident id) _ => some id
    | _ => none

def Declarations.note (d : Declarations) : Item → Declarations
  | .declarator (.mk target init _) =>
    match target with
    | .name b => d.declare (initHint init) b.id
    | target => d.declareAll "var" target.bound
  | .funcDecl name _ => d.declare "func" name
  | .expr (.func (some name) _) => d.declare "func" name
  | .classDecl name _ => d.declare "Class" name
  | .expr (.cls (some name) _) => d.declare "Class" name
  | .param p => d.declareAll "arg" p.bound
  | .expr (.arrow (.mk _ _ _ params _ _)) => d.declareAll "arg" (patsBound params)
  | .property (.setter _ param _) => d.declareAll "arg" param.bound
  | .caught (.mk (some p) _) => d.declareAll "err" p.bound
  | .importItem (.named _ _ binding) => d.fix [binding]
  | .importItem (.default binding) => d.fix [binding]
  | .importItem (.namespace binding) => d.fix [binding]
  | .stmt (.exportDecl e) => d.fix (exportedNames e)
  | .stmt (.exportDefaultFunc (some name) _) => d.fix [name]
  | .stmt (.exportDefaultClass (some name) _) => d.fix [name]
  | .stmt (.exportNamed _ items none _) => d.fix (localNames items)
  | .stmt (.with _ body) => d.fix (identsOf [outlineStmt body])
  | _ => d

def Declarations.collect (p : Program) : Declarations := p.items.foldl Declarations.note {}

/-! ## The pass -/

/-- Whether one declaration comes before another: by position, then by name. -/
def comesBefore (a b : Binding × Declared) : Bool :=
  a.2.position < b.2.position || (a.2.position == b.2.position && a.1.name ≤ b.1.name)

def Declarations.targets (d : Declarations) (isModule onlyMangled : Bool) :
    List (Binding × Declared) :=
  (d.declared.filter fun e =>
    !d.fixed.contains e.1 && (isModule || e.1.scope != .top) &&
      (!onlyMangled || isMangled e.1.name)).mergeSort comesBefore

def newNames : Namer → List (Binding × Declared) → Table Binding String
  | _, [] => []
  | n, (b, d) :: rest =>
    let (name, n') := n.fresh d.hint
    (b, name) :: newNames n' rest

def renamed? (names : Table Binding String) (id : Ident) : Option Ident :=
  (names.find? id.binding).map id.withName

def renameEdits (names : Table Binding String) : Edits Unit where
  ident := fun id => pure ((renamed? names id).getD id)

/-- The pass on a resolved program, and how many variables were renamed. -/
def renameResolved (onlyMangled : Bool) (p : Program) : Program × Nat :=
  let targets := (Declarations.collect p).targets p.isModule onlyMangled
  let names := newNames { taken := p.names } targets
  (((editProgram (renameEdits names) p).run ()).1, names.length)

/-- Renames the variables of a program that does not call `eval` by its bare name. -/
def rename (onlyMangled : Bool) (p : Program) : Program × List Finding :=
  let (p', n) := renameResolved onlyMangled p.resolved
  (p'.untagged, findings "Rename" [("mangled-names", n)])

end Untangle.Pass
