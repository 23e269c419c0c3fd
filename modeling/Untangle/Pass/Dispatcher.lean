import Untangle.Binding.References
import Untangle.Binding.Resolve
import Untangle.Constant.Evaluate
import Untangle.Pass.Finding

/-!
# Flattened control flow

Flattened code runs its statements through a dispatcher: an endless loop around a switch on
`order[counter++]`, where `order` is a list of case keys. The pass follows the order and puts the
case bodies back in a row.
-/

namespace Untangle.Pass

/-- The parts of a dispatcher loop. -/
structure Dispatcher where
  order : Binding
  counter : Binding
  /-- The head of the loop. -/
  init : ForHead
  cases : List Case

def readNext? (disc : Expr) : Option (Binding × Binding) :=
  match disc.unparen with
  | .member obj (.computed e) =>
    match obj.unparen, e.unparen with
    | .ident order, .update .increment false arg =>
      match arg.unparen with
      | .ident counter => some (order.binding, counter.binding)
      | _ => none
    | _, _ => none
  | _ => none

/-- The dispatcher of an endless loop with this head and body. -/
def dispatcherOf? (init : ForHead) : Stmt → Option Dispatcher
  | .block [.switch disc cases, .break none] =>
    (readNext? disc).map fun (order, counter) => { order, counter, init, cases }
  | _ => none

def dispatcher? : Stmt → Option Dispatcher
  | .while test body => if truthiness? test == some true then dispatcherOf? .absent body else none
  | .for init test none body =>
    match test with
    | some e => if truthiness? e == some true then dispatcherOf? init body else none
    | none => dispatcherOf? init body
  | _ => none

/-! ## Orders -/

/-- The key that a case test matches, as the order holds it. -/
def caseKey? (e : Expr) : Option String :=
  match e.unparen with
  | .lit (.str s) => s.text?
  | .lit (.num n) => Number.conversionText? n.value
  | _ => none

/-- The pieces of a text between occurrences of a separator: `skip` characters are still part of the
last occurrence, `piece` is the piece so far, backwards. -/
def splitAt (sep : List Char) : Nat → List Char → List Char → List (List Char)
  | _, piece, [] => [piece.reverse]
  | skip + 1, piece, _ :: rest => splitAt sep skip piece rest
  | 0, piece, c :: rest =>
    if sep.isPrefixOf (c :: rest) then piece.reverse :: splitAt sep (sep.length - 1) [] rest
    else splitAt sep 0 (c :: piece) rest

/-- A text split at a separator; an empty one splits between all characters. -/
def splitText (text sep : String) : List String :=
  if sep.isEmpty then text.toList.map String.singleton
  else (splitAt sep.toList 0 [] text.toList).map String.ofList

def orderKeys? (e : Expr) : Option (List String) :=
  match e.unparen with
  | .call callee args =>
    match callee.unparen, args with
    | .member obj prop, [sep] => do
      let key ← prop.key?
      if key != "split" then none
      else do
        let text ← obj.text?
        let sep ← sep.text?
        some (splitText text sep)
    | _, _ => none
  | .array elems => elems.mapM caseKey?
  | _ => none

/-! ## Cases -/

/-- How a case leaves the dispatcher. -/
inductive Exit
  /-- On to the next key. -/
  | next
  /-- Out of the function. -/
  | leave
  /-- Past the last case, out of the loop. -/
  | finish
  deriving DecidableEq, Inhabited

def exit? (body : List Stmt) (isLast : Bool) : Option Exit :=
  match body.getLast? with
  | some (.continue none) => some .next
  | some (.return _) => some .leave
  | some (.throw _) => some .leave
  | _ => if isLast then some .finish else none

def bodyOf (body : List Stmt) : Exit → List Stmt
  | .next => body.dropLast
  | _ => body

mutual

/-- Whether a part of the tree has a jump without a label that leaves it: a `continue` outside all
loops in it, or a `break` outside all loops and switches. -/
def straysAt (loops switches : Bool) : Outline → Bool
  | .node item parts =>
    match item with
    | .stmt (.while ..) => strayIn true switches parts
    | .stmt (.doWhile ..) => strayIn true switches parts
    | .stmt (.for ..) => strayIn true switches parts
    | .stmt (.forIn ..) => strayIn true switches parts
    | .stmt (.forOf ..) => strayIn true switches parts
    | .stmt (.switch ..) => strayIn loops true parts
    | .stmt (.break none) => !loops && !switches
    | .stmt (.continue none) => !loops
    | .stmt (.break (some _)) => false
    | .stmt (.continue (some _)) => false
    | .func _ => false
    | .expr (.arrow _) => false
    | _ => strayIn loops switches parts

def strayIn (loops switches : Bool) : List Outline → Bool
  | [] => false
  | o :: os => straysAt loops switches o || strayIn loops switches os

end

def hasStrayJump (ss : List Stmt) : Bool := strayIn false false (outlineStmts ss)

/-! ## Plans -/

/-- A case to run: its body, and how it is left. -/
structure Step where
  body : List Stmt
  exit : Exit

/-- The cases by key; none if a test is missing, not a literal, or repeated. -/
def caseTable? : List Case → Option (Table String (List Stmt × Bool))
  | [] => some []
  | .mk test body :: rest => do
    let key ← caseKey? (← test)
    let table ← caseTable? rest
    if table.has key then none else some ((key, body, rest.isEmpty) :: table)

/-- The steps for some keys; none if a key repeats or a body leaves in another way. A key without a
case ends the loop. -/
def steps? (table : Table String (List Stmt × Bool)) : List String → List String →
    Option (List Step)
  | [], _ => some []
  | key :: keys, seen =>
    if seen.contains key then none
    else match table.find? key with
      | none => some []
      | some (body, isLast) => do
        let exit ← exit? body isLast
        if hasStrayJump (bodyOf body exit) then none
        else if exit == .next then do
          let rest ← steps? table keys (key :: seen)
          some ({ body, exit } :: rest)
        else some [{ body, exit }]

/-- The variable declarations at the end of the statements before the loop, last first. -/
def trailingDecls (before : List Stmt) : List VarDecl :=
  (before.reverse.map fun
    | .decl d => match d.plain with
      | .var v => some v
      | _ => none
    | _ => none).takeWhile Option.isSome |>.filterMap id

def declaratorOf? (b : Binding) : VarDecl → Option Declarator
  | .mk _ decls => decls.find? fun
    | .mk target _ _ => target.binding? == some b

/-- The initial value of a variable: the first declarator of it counts. -/
def initOf? (decls : List VarDecl) (b : Binding) : Option Expr :=
  match decls.findSome? (declaratorOf? b) with
  | some (.mk _ init _) => init
  | none => none

/-- What to do with a dispatcher loop. -/
structure Plan where
  order : Binding
  counter : Binding
  steps : List Step

/-- The plan for a statement after others, if it is a dispatcher whose order and counter are each
mentioned only where they are declared and in the switch. -/
def plan? (refs : List Binding) (before : List Stmt) (s : Stmt) : Option Plan := do
  let d ← dispatcher? s
  if d.order == d.counter || refs.count d.order != 2 || refs.count d.counter != 2 then none
  else do
    let own := match d.init with
      | .var v => [v]
      | _ => []
    let decls := own ++ trailingDecls before
    let keys ← orderKeys? (← initOf? decls d.order)
    let start ← Expr.number? (← initOf? decls d.counter)
    if start < 0 || !Number.isWhole start then none
    else do
      let table ← caseTable? d.cases
      let steps ← steps? table (keys.drop (Number.wholeMagnitude start)) []
      some { order := d.order, counter := d.counter, steps }

/-! ## Restoring -/

def Plan.owns (p : Plan) (d : Declarator) : Bool := d.declaresOneOf [p.order, p.counter]

def Plan.prune (p : Plan) : VarDecl → VarDecl
  | .mk kind decls => .mk kind (decls.filter fun d => !p.owns d)

def Plan.headStmts (p : Plan) : ForHead → List Stmt
  | .var d => match p.prune d with
    | .mk _ [] => []
    | d' => [.decl (.var d')]
  | .expr e => [.expr e]
  | _ => []

/-- A declaration statement without the order and the counter; none if nothing is left. -/
def Plan.pruneStmt? (p : Plan) : Decl → Option Decl
  | .var d => match p.prune d with
    | .mk _ [] => none
    | d' => some (.var d')
  | .ambient d => (p.pruneStmt? d).map .ambient
  | d => some d

def isVarStmt : Stmt → Bool
  | .decl d => match d.plain with
    | .var _ => true
    | _ => false
  | _ => false

/-- The statements before the loop, the declarations at their end pruned; the argument is in reverse
order. -/
def Plan.pruneTrailing (p : Plan) : List Stmt → List Stmt
  | [] => []
  | s :: rest =>
    if isVarStmt s then
      match s with
      | .decl d => ((p.pruneStmt? d).map Stmt.decl).toList ++ p.pruneTrailing rest
      | s => s :: rest
    else s :: rest

/-- The statements that take the place of the loop and those before it. -/
def Plan.restore (p : Plan) (before : List Stmt) (init : ForHead) : List Stmt :=
  let stmts := p.headStmts init ++ p.steps.flatMap fun s => bodyOf s.body s.exit
  let before' := (p.pruneTrailing before.reverse).reverse
  if stmts.any Stmt.isLexical then before' ++ [.block stmts] else before' ++ stmts

def loopHead : Stmt → ForHead
  | .for init _ _ _ => init
  | _ => .absent

/-- A statement list with its dispatchers restored, after the statements already done. -/
def restoreList (refs : List Binding) : List Stmt → List Stmt → StateM Nat (List Stmt)
  | done, [] => return done
  | done, s :: rest => do
    match plan? refs done s with
    | some p =>
      modify (· + 1)
      restoreList refs (p.restore done (loopHead s)) rest
    | none => restoreList refs (done ++ [s]) rest

def dispatcherEdits (refs : List Binding) : Edits Nat where
  list := restoreList refs []

/-- Puts the bodies of dispatcher loops back in order. -/
def restoreControlFlow (p : Program) : Program × List Finding :=
  let q := p.resolved
  let (q', n) := (editProgram (dispatcherEdits q.references) q).run 0
  (q'.untagged, findings "ControlFlow" [("control-flow-flattening", n)])

end Untangle.Pass
