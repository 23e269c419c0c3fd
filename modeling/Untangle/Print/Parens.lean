import Untangle.Tree.Node

/-!
# Parentheses

Passes leave trees whose nesting a bare printing would lose: a sequence as an argument, a
conditional as an operand. `fixProgram` drops every parenthesis of a tree and puts back those that
are needed, so that the printed text reads as the same tree.

What an expression needs depends on where it stands:

* `start` — at the start of a statement or of an arrow's body, where a brace or a keyword would be
  taken for something else;
* `callee` — under a call or a construction;
* `item` — where a comma separates, as among arguments;
* `free` — anywhere else.

Sequences are flattened on the way, and of their dropped values those that cannot be observed go.
-/

namespace Untangle.Print

/-- Where an expression stands. -/
inductive Position
  | start
  | callee (isNew : Bool)
  | item
  | free
  deriving DecidableEq, Inhabited

/-- What a subtree has to know of its surroundings. -/
structure Site where
  /-- Where the node itself stands. -/
  outer : Position := .start
  /-- Where its leftmost part stands. -/
  inner : Position := .start
  inLoopHead : Bool := false
  inChain : Bool := false

/-- Whether the leftmost part of an expression at the start of a statement is itself there. -/
def startsWithPart : Expr → Bool
  | .chainMember .. | .chainCall .. | .member .. | .superMember .. | .binary .. | .assign ..
  | .seq .. | .cond .. | .tagged .. => true
  | .update _ before _ => !before
  | _ => false

def Site.at (s : Site) (p : Position) (e : Expr) : Site :=
  { s with
    outer := p
    inner := if p == .start && !startsWithPart e then .free else p }

def Site.outsideLoopHead (s : Site) : Site := { s with inLoopHead := false }

def wrapIf (b : Bool) (e : Expr) : Expr := if b then .paren e else e

/-! ## Which expressions need parentheses where -/

private def isSeq : Expr → Bool
  | .seq _ => true
  | _ => false

private def isFunc : Expr → Bool
  | .func .. => true
  | _ => false

private def isChainExpr : Expr → Bool
  | .chainMember .. | .chainCall .. => true
  | _ => false

private def isYield : Expr → Bool
  | .yield .. => true
  | _ => false

/-- An object, function or class, which cannot start a statement. -/
def isBraced : Expr → Bool
  | .object _ | .func .. | .cls .. => true
  | _ => false

def wrapsAsObject (s : Site) : Expr → Bool
  | .object _ => s.inner != .item
  | .func .. | .cond .. | .unary .. | .seq _ | .update .. | .binary .. | .assign .. | .arrow _
  | .cls .. | .yield .. | .await _ => true
  | .new _ none => true
  | .chainMember .. | .chainCall .. => !s.inChain
  | _ => false

def wrapsAsCallee : Expr → Bool
  | .lit (.num _) | .lit (.str _) => false
  | .lit _ | .cond .. | .binary .. | .unary .. | .object _ | .await _ | .yield .. | .cls .. | .seq _
  | .arrow _ | .assign .. => true
  | _ => false

def wrapsAsConstructor : Expr → Bool
  | .call .. | .superCall _ | .importCall _ | .await _ | .yield .. | .binary .. | .assign ..
  | .seq _ | .unary .. | .lit _ | .arrow _ => true
  | _ => false

def wrapsAsOperand : Expr → Bool
  | .assign .. | .binary .. | .seq _ | .cond .. | .arrow _ | .yield .. => true
  | _ => false

/-- As the operand of `await`. -/
def wrapsAsAwaited : Expr → Bool
  | .cond .. | .assign .. | .binary .. | .yield .. => true
  | _ => false

def wrapsAsTag : Expr → Bool
  | .object _ | .cls .. | .func .. | .chainMember .. | .chainCall .. | .arrow _ | .binary ..
  | .seq _
  | .cond .. | .unary .. | .yield .. | .await _ | .assign .. => true
  | _ => false

def wrapsAsBase : Expr → Bool
  | .seq _ | .await _ | .yield .. | .binary .. | .cond .. | .assign .. | .unary .. => true
  | _ => false

def wrapsAsTest (outer : Position) : Expr → Bool
  | .seq _ | .assign .. | .cond .. | .arrow _ | .yield .. => true
  | e => isBraced e && outer == .start

private def isEquality : BinaryOp → Bool
  | .looseEq | .looseNe | .strictEq | .strictNe => true
  | _ => false

private def isShortCircuit : BinaryOp → Bool
  | .and | .or | .nullish => true
  | _ => false

def wrapsAsLeft (op : BinaryOp) : Expr → Bool
  | .binary inner _ _ =>
    (op == .nullish) != (inner == .nullish) ||
      inner.precedence < op.precedence || (op == .exp && inner == .exp)
  | .unary .void _ => !isEquality op
  | .unary .delete _ => true
  | .unary .. => op == .exp
  | .seq _ | .yield .. | .cond .. | .assign .. | .arrow _ => true
  | .object _ => op == .isInstance || isEquality op
  | _ => false

def wrapsAsRight (op : BinaryOp) : Expr → Bool
  | .assign .. | .seq _ | .yield .. | .cond .. | .arrow _ => true
  | .binary inner _ _ =>
    if inner == op then !(isShortCircuit op || op == .exp)
    else inner.precedence ≤ op.precedence || (op == .nullish && inner == .and)
  | _ => false

def endsInSeq : Expr → Bool
  | .assign _ _ value => endsInSeq value
  | .seq _ => true
  | _ => false

/-! ## Sequences -/

mutual

/-- What is left of an expression whose value is dropped. A literal or function stays once, to keep
the sequence one. -/
def dropValue : Bool → Expr → Option Expr × Bool
  | padded, .func n f => if padded then (none, true) else (some (.func n f), true)
  | padded, .arrow f => if padded then (none, true) else (some (.arrow f), true)
  | padded, .lit l => if padded then (none, true) else (some (.lit l), true)
  | padded, .seq es =>
    match dropButLast padded es with
    | ([], padded') => (none, padded')
    | ([e], padded') => (some e, padded')
    | (es', padded') => (some (.seq es'), padded')
  | padded, .unary .void arg => dropValue padded arg
  | padded, e => (some e, padded)

def dropButLast : Bool → List Expr → List Expr × Bool
  | padded, [] => ([], padded)
  | padded, [e] => ([e], padded)
  | padded, e :: rest =>
    let (kept, padded') := dropValue padded e
    let (rest', padded'') := dropButLast padded' rest
    (kept.toList ++ rest', padded'')

end

/-- Removes literals and functions before the last of three or more expressions. -/
def dropPadding (es : List Expr) : List Expr :=
  if 2 < es.length then go es else es
where
  go : List Expr → List Expr
    | [] => []
    | [e] => [e]
    | e :: rest => match e with
      | .func .. | .arrow _ | .lit _ => go rest
      | e => e :: go rest

def fixSeq (outer : Position) (es : List Expr) : Expr :=
  let flat := es.flatMap fun e => match e with
    | .seq inner => inner
    | e => [e]
  match (dropButLast false flat).1 with
  | [e] => e
  | es' =>
    let e := Expr.seq (dropPadding es')
    wrapIf (outer == .item) e

/-! ## Statements -/

/-- The head of a loop over values; the word that would be taken for the start of a function is
wrapped. -/
def asLoopHead (isAwait : Bool) : ForHead → ForHead
  | .pat (.name b) =>
    if b.id.name == "async" && !isAwait then .pat (.expr (.paren (.ident b.id)))
    else .pat (.name b)
  | .pat (.expr (.ident id)) =>
    .pat (.expr (wrapIf (id.name == "async" && !isAwait) (.ident id)))
  | head => head

/-- Whether an `else` after a statement would be taken by an `if` inside it. -/
def takesElse : Stmt → Bool
  | .ite _ _ none => true
  | .ite _ _ (some s) => takesElse s
  | .labelled _ s => takesElse s
  | .while _ s => takesElse s
  | .for _ _ _ s => takesElse s
  | .forIn _ _ s => takesElse s
  | .forOf _ _ _ s => takesElse s
  | _ => false

/-- An expression that starts a statement, wrapped if it starts with a brace or keyword. -/
def asStart : Expr → Expr
  | .object ps => .paren (.object ps)
  | .cls n c => .paren (.cls n c)
  | .func n f => .paren (.func n f)
  | .assign op (.pattern (.object ps ann)) value =>
    .paren (.assign op (.pattern (.object ps ann)) value)
  | e => e

/-- An expression as a statement. Of a sequence every expression but the last is wrapped like the
first. -/
def asStatement : Expr → Expr
  | .seq es => .seq (items es)
  | e => asStart e
where
  items : List Expr → List Expr
    | [] => []
    | [e] => [e]
    | e :: rest => asStart e :: items rest

/-! ## The tree -/

def fixCall (outer : Position) (callee : Expr) (rebuild : Expr → Expr) : Expr :=
  let whole :=
    if isFunc callee then
      match outer with
      | .item | .free => rebuild callee
      | .callee true => rebuild callee
      | _ => rebuild (.paren callee)
    else rebuild callee
  wrapIf (outer == .callee true) whole

mutual

def fixExpr (s : Site) : Expr → Expr
  | .paren e => fixExpr s e
  | .seq es => match es with
    | [e] => fixExpr s e
    | es => fixSeq s.outer (fixSeqItems s es)
  | .array elems => .array (fixItems s elems)
  | .object props => .object (fixProperties s props)
  | .func name f => .func name (fixFunc s f)
  | .arrow f => .arrow (fixFunc { s with outer := .start, inner := .start } f)
  | .cls name c => .cls name (fixClass s c)
  | .unary op arg =>
    let arg' := fixExpr (s.at .free arg) arg
    .unary op (wrapIf (wrapsAsOperand arg') arg')
  | .update op before arg => .update op before (fixExpr (s.at s.inner arg) arg)
  | .binary op left right =>
    let left' := fixExpr (s.at s.inner left) left
    let right' := fixExpr (s.at .free right) right
    let left'' :=
      wrapIf (wrapsAsLeft op left' || (isBraced left' && s.outer == .start)) left'
    wrapIf (op == .isIn && s.inLoopHead)
      (.binary op left'' (wrapIf (wrapsAsRight op right') right'))
  | .assign op target value =>
    let value' := fixExpr (s.at .free value) value
    .assign op (fixTarget s target) (wrapIf (endsInSeq value') value')
  | .cond test yes no =>
    let test' := fixExpr (s.at s.inner test) test
    let yes' := fixExpr (s.at .free yes) yes
    let no' := fixExpr (s.at .free no) no
    wrapIf (s.outer == .callee true)
      (.cond (wrapIf (wrapsAsTest s.outer test') test') (wrapIf (isSeq yes') yes')
        (wrapIf (isSeq no') no'))
  | .member obj prop =>
    let obj' := fixExpr (s.at s.inner obj) obj
    .member (wrapIf (wrapsAsObject s obj') obj') (fixMemberProp s prop)
  | .superMember prop => .superMember (fixMemberProp s prop)
  | .call callee args =>
    let callee' := fixExpr (s.at (.callee false) callee) callee
    let callee'' := wrapIf (wrapsAsCallee callee' || (isChainExpr callee' && !s.inChain)) callee'
    let args' := fixItems s args
    fixCall s.outer callee'' fun c => .call c args'
  | .superCall args => .superCall (fixItems s args)
  | .importCall args => .importCall (fixItems s args)
  | .new callee args =>
    let callee' := fixExpr (s.at (.callee true) callee) callee
    .new (wrapIf (wrapsAsConstructor callee') callee')
      (match args with
        | some args => some (fixItems s args)
        | none => none)
  | .chainMember optional obj prop =>
    let s' := { s with inChain := true }
    let obj' := fixExpr (s'.at s.inner obj) obj
    .chainMember optional (wrapIf (wrapsAsObject s' obj') obj') (fixMemberProp s prop)
  | .chainCall optional callee args =>
    let s' := { s with inChain := true }
    let callee' := fixExpr (s'.at (.callee false) callee) callee
    let args' := fixItems s args
    fixCall s.outer (wrapIf (wrapsAsCallee callee') callee') fun c => .chainCall optional c args'
  | .template quasis exprs => .template quasis (fixParts s exprs)
  | .tagged tag quasis exprs =>
    let tag' := fixExpr (s.at s.inner tag) tag
    .tagged (wrapIf (wrapsAsTag tag') tag') quasis (fixParts s exprs)
  | .yield delegate arg => .yield delegate (fixExpr? s .item arg)
  | .await arg =>
    let arg' := fixExpr (s.at .item arg) arg
    .await (wrapIf (wrapsAsAwaited arg') arg')
  | .spread e => .spread (fixExpr (s.at .item e) e)
  | .typed op e t => .typed op (fixExpr (s.at s.inner e) e) t
  | .typeAssert t e => .typeAssert t (fixExpr (s.at s.inner e) e)
  | .nonNull e => .nonNull (fixExpr (s.at s.inner e) e)
  | e => e

def fixExpr? (s : Site) (p : Position) : Option Expr → Option Expr
  | some e => some (fixExpr (s.at p e) e)
  | none => none

/-- The parts of a sequence: the first where the sequence stands, the others free. -/
def fixSeqItems (s : Site) : List Expr → List Expr
  | [] => []
  | e :: rest => fixExpr (s.at s.inner e) e :: fixFree s rest

def fixFree (s : Site) : List Expr → List Expr
  | [] => []
  | e :: rest => fixExpr (s.at .free e) e :: fixFree s rest

/-- Expressions where a template holds them. -/
def fixParts (s : Site) : List Expr → List Expr
  | [] => []
  | e :: rest => fixExpr (s.at s.inner e) e :: fixParts s rest

def fixItems (s : Site) : List Expr → List Expr
  | [] => []
  | e :: rest =>
    let e' := fixExpr (s.at .item e) e
    wrapIf (isYield e') e' :: fixItems s rest

def fixProperty (s : Site) : Property → Property
  | .shorthand id => .shorthand id
  | .keyValue key value => .keyValue (fixKey s key) (fixExpr (s.at .item value) value)
  | .initialized id value => .initialized id (fixExpr (s.at .item value) value)
  | .getter key body => .getter (fixKey s key) (fixStmts s.outsideLoopHead body)
  | .setter key param body =>
    .setter (fixKey s key) (fixPat s param) (fixStmts s.outsideLoopHead body)
  | .method key f => .method (fixKey s key) (fixFunc s f)
  | .spread e => .spread (fixExpr (s.at .item e) e)

def fixProperties (s : Site) : List Property → List Property
  | [] => []
  | p :: ps => fixProperty s p :: fixProperties s ps

def fixKey (s : Site) : PropName → PropName
  | .computed e =>
    let e' := fixExpr (s.at .item e) e
    .computed (wrapIf (isSeq e') e')
  | k => k

def fixMemberProp (s : Site) : MemberProp → MemberProp
  | .computed e => .computed (fixExpr ({ s with inChain := false }.at .free e) e)
  | p => p

/-- The left side of an assignment; parentheses around it are dropped. -/
def fixTarget (s : Site) : AssignTarget → AssignTarget
  | .name b => .name b
  | .member obj prop =>
    let obj' := fixExpr (s.at s.inner obj) obj
    .member (wrapIf (wrapsAsObject s obj') obj') (fixMemberProp s prop)
  | .superMember prop => .superMember (fixMemberProp s prop)
  | .paren e =>
    match fixExpr (s.at s.inner e) e with
    | .ident id => .name (.ofIdent id)
    | .member obj prop => .member obj prop
    | .superMember prop => .superMember prop
    | e' => .paren e'
  | .chain e => .chain (fixExpr (s.at s.inner e) e)
  | .typed e => .typed (fixExpr (s.at s.inner e) e)
  | .pattern p => .pattern (fixPat s p)

def fixPat (s : Site) : Pat → Pat
  | .array elems ann => .array (fixPats s elems) ann
  | .object props ann => .object (fixPatProps s props) ann
  | .rest p ann => .rest (fixPat s p) ann
  | .assign left right => .assign (fixPat s left) (fixExpr (s.at .item right) right)
  | .expr e => .expr (fixExpr (s.at s.inner e) e)
  | .field access isReadonly p => .field access isReadonly (fixPat s p)
  | p => p

def fixPats (s : Site) : List Pat → List Pat
  | [] => []
  | p :: ps => fixPat s p :: fixPats s ps

def fixPatProps (s : Site) : List PatProp → List PatProp
  | [] => []
  | p :: ps => fixPatProp s p :: fixPatProps s ps

def fixPatProp (s : Site) : PatProp → PatProp
  | .keyValue key value => .keyValue (fixKey s key) (fixPat s value)
  | .assign b value => .assign b (fixExpr? s .item value)
  | .rest p => .rest (fixPat s p)

def fixFunc (s : Site) : Func → Func
  | .mk isAsync isGenerator typeParams params ret body =>
    .mk isAsync isGenerator typeParams (fixPats s params) ret (fixBody s body)

/-- A body; the expression of an arrow that is an object or a sequence is wrapped. -/
def fixBody (s : Site) : Body → Body
  | .absent => .absent
  | .expr e =>
    let e' := fixExpr (s.at .start e) e
    let needs := match e' with
      | .object _ | .seq _ => true
      | .assign _ (.pattern _) _ => true
      | _ => false
    .expr (wrapIf needs e')
  | .block stmts => .block (fixStmts s.outsideLoopHead stmts)

def fixClass (s : Site) : Class → Class
  | .mk isAbstract typeParams base implemented members =>
    .mk isAbstract typeParams
      (match base with
        | some e =>
          let e' := fixExpr (s.at .start e) e
          some (wrapIf (wrapsAsBase e') e')
        | none => none)
      implemented (fixClassMembers s members)

def fixClassMembers (s : Site) : List ClassMember → List ClassMember
  | [] => []
  | m :: ms => fixClassMember s m :: fixClassMembers s ms

def fixClassMember (s : Site) : ClassMember → ClassMember
  | .ctor mods key params body => .ctor mods (fixKey s key) (fixPats s params) (fixBody s body)
  | .method mods kind key f => .method mods kind (fixKey s key) (fixFunc s f)
  | .field mods key ann value =>
    .field mods (fixKey s key) ann (fixExpr? s .item value)
  | .staticBlock body => .staticBlock (fixStmts s.outsideLoopHead body)
  | .empty => .empty

def fixStmt (s : Site) : Stmt → Stmt
  | .expr e => .expr (asStatement (fixExpr (s.at .start e) e))
  | .block body => .block (fixStmts s.outsideLoopHead body)
  | .with obj body => .with (fixExpr (s.at .free obj) obj) (fixStmt s body)
  | .return arg => .return (fixExpr? s .free arg)
  | .labelled label body => .labelled label (fixStmt s body)
  | .ite test yes no =>
    let yes' := fixStmt s yes
    .ite (fixExpr (s.at .free test) test) (if takesElse yes' then .block [yes'] else yes')
      (match no with
        | some n => some (fixStmt s n)
        | none => none)
  | .switch disc cases => .switch (fixExpr (s.at .free disc) disc) (fixCases s cases)
  | .throw arg => .throw (fixExpr (s.at .free arg) arg)
  | .try body handler finalizer =>
    .try (fixStmts s.outsideLoopHead body)
      (match handler with
        | some c => some (fixCatch s c)
        | none => none)
      (match finalizer with
        | some stmts => some (fixStmts s.outsideLoopHead stmts)
        | none => none)
  | .while test body => .while (fixExpr (s.at .free test) test) (fixStmt s body)
  | .doWhile body test => .doWhile (fixStmt s body) (fixExpr (s.at .free test) test)
  | .for init test step body =>
    .for (fixForHead { s with inLoopHead := true } init) (fixExpr? s .free test)
      (fixExpr? s .free step) (fixStmt s body)
  | .forIn head obj body =>
    .forIn (fixForHead { s with inLoopHead := true } head) (fixExpr (s.at .free obj) obj)
      (fixStmt s body)
  | .forOf isAwait head obj body =>
    let obj' := fixExpr (s.at .free obj) obj
    .forOf isAwait (asLoopHead isAwait (fixForHead { s with inLoopHead := true } head))
      (wrapIf (isSeq obj') obj') (fixStmt s body)
  | .decl d => .decl (fixDecl s d)
  | .exportDecl d => .exportDecl (fixDecl s d)
  | .exportDefaultExpr e =>
    let e' := fixExpr (s.at .start e) e
    let needs := match e' with
      | .arrow _ | .seq _ => true
      | _ => false
    .exportDefaultExpr (wrapIf needs e')
  | .exportDefaultFunc name f => .exportDefaultFunc name (fixFunc s f)
  | .exportDefaultClass name c => .exportDefaultClass name (fixClass s c)
  | stmt => stmt

def fixStmts (s : Site) : List Stmt → List Stmt
  | [] => []
  | t :: ts => fixStmt s t :: fixStmts s ts

def fixCatch (s : Site) : Catch → Catch
  | .mk param body =>
    .mk
      (match param with
        | some p => some (fixPat s p)
        | none => none)
      (fixStmts s.outsideLoopHead body)

def fixCases (s : Site) : List Case → List Case
  | [] => []
  | c :: cs => fixCase s c :: fixCases s cs

def fixCase (s : Site) : Case → Case
  | .mk test body => .mk (fixExpr? s .free test) (fixStmts s body)

def fixForHead (s : Site) : ForHead → ForHead
  | .absent => .absent
  | .var d => .var (fixVarDecl s d)
  | .pat p => .pat (fixPat s p)
  | .expr e => .expr (fixExpr (s.at .free e) e)

def fixVarDecl (s : Site) : VarDecl → VarDecl
  | .mk kind decls => .mk kind (fixDeclarators s decls)

def fixDeclarators (s : Site) : List Declarator → List Declarator
  | [] => []
  | d :: ds => fixDeclarator s d :: fixDeclarators s ds

def fixDeclarator (s : Site) : Declarator → Declarator
  | .mk target init definite => .mk (fixPat s target) (fixExpr? s .item init) definite

def fixDecl (s : Site) : Decl → Decl
  | .func name f => .func name (fixFunc s f)
  | .cls name c => .cls name (fixClass s c)
  | .var d => .var (fixVarDecl s d)
  | .enum isConst name members => .enum isConst name (fixEnumMembers s members)
  | .ambient d => .ambient (fixDecl s d)
  | d => d

def fixEnumMembers (s : Site) : List EnumMember → List EnumMember
  | [] => []
  | m :: ms => fixEnumMember s m :: fixEnumMembers s ms

def fixEnumMember (s : Site) : EnumMember → EnumMember
  | .mk name init => .mk name (fixExpr? s .item init)

end

/-- A program with exactly the parentheses it needs. -/
def fixProgram (p : Program) : Program := { p with body := fixStmts {} p.body }

end Untangle.Print
