import Untangle.Proofs.Execution

/-!
# Evaluating expressions

Expressions are evaluated from left to right over **any** host: what a variable holds, what a call
does and which value an operator gives is up to the host, and it may answer differently each time.

A host that tells two orders of evaluation apart is a host like any other. So two expressions that
are equal over every host read, write and call the same things in the same order; at
`Host.watched` the equality is one of the lists of all that was done.

Literals, functions, arrays of such and signs before numbers are silent. What a function does when it is called is
left to the host, which is given the syntax.
-/

namespace Untangle

variable {ω V α β γ : Type}

/-! ### Computations -/

/-- What a computation can do: from which state it can give what in which state. -/
abbrev Comp (ω V α : Type) : Type := ω → Answer V α → ω → Prop

/-- What an act gives that ends like this. -/
def Answer.ofCompletion : Completion V → Answer V α
  | .throw v => .throw v
  | _ => .stopped

/-- Three things in a row, of which the first two make up one act. -/
theorem succeed_succeed {ρ : Type} (fail : Completion V → ρ) (x : Comp ω V α)
    (k : α → Comp ω V β) (f : β → ω → ρ → ω → Prop) :
    succeed fail (succeed Answer.ofCompletion x k) f =
      succeed fail x fun v => succeed fail (k v) f := by
  funext a r b
  apply propext
  constructor
  · rintro (⟨w, n, ⟨v, m, hm, hn⟩ | ⟨v, hv, -⟩ | ⟨hv, -⟩, hb⟩ |
      ⟨w, rfl, ⟨v, m, hm, hb⟩ | ⟨v, hv, hb⟩ | ⟨hv, -⟩⟩ |
      ⟨rfl, ⟨v, m, hm, hb⟩ | ⟨v, hv, -⟩ | ⟨-, hb⟩⟩)
    · exact .inl ⟨v, m, hm, .inl ⟨w, n, hn, hb⟩⟩
    · cases hv
    · cases hv
    · exact .inl ⟨v, m, hm, .inr (.inl ⟨w, rfl, hb⟩)⟩
    · cases hv
      exact .inr (.inl ⟨w, rfl, hb⟩)
    · cases hv
    · exact .inl ⟨v, m, hm, .inr (.inr ⟨rfl, hb⟩)⟩
    · cases hv
    · exact .inr (.inr ⟨rfl, hb⟩)
  · rintro (⟨v, m, hm, ⟨w, n, hn, hb⟩ | ⟨w, rfl, hb⟩ | ⟨rfl, hb⟩⟩ | ⟨v, rfl, hb⟩ | ⟨rfl, hb⟩)
    · exact .inl ⟨w, n, .inl ⟨v, m, hm, hn⟩, hb⟩
    · exact .inr (.inl ⟨w, rfl, .inl ⟨v, m, hm, hb⟩⟩)
    · exact .inr (.inr ⟨rfl, .inl ⟨v, m, hm, hb⟩⟩)
    · exact .inr (.inl ⟨v, rfl, .inr (.inl ⟨v, rfl, hb⟩)⟩)
    · exact .inr (.inr ⟨rfl, .inr (.inr ⟨rfl, hb⟩)⟩)

namespace Comp

instance : Monad (Comp ω V) where
  pure v := fun a r b => r = .value v ∧ b = a
  bind x k := succeed Answer.ofCompletion x k

theorem bind_give (x : Comp ω V α) : (x >>= fun v => pure v) = x := by
  funext a r b
  apply propext
  constructor
  · rintro (⟨v, m, hm, rfl, rfl⟩ | ⟨v, rfl, hb⟩ | ⟨rfl, hb⟩)
    · exact hm
    · exact hb
    · exact hb
  · intro hb
    cases r with
    | value v => exact .inl ⟨v, b, hb, rfl, rfl⟩
    | throw v => exact .inr (.inl ⟨v, rfl, hb⟩)
    | stopped => exact .inr (.inr ⟨rfl, hb⟩)

instance : LawfulMonad (Comp ω V) :=
  .mk' _ bind_give (fun _ k => succeed_silent _ (fun _ _ _ => Iff.rfl) k)
    (fun x k l => succeed_succeed _ x k l)

theorem bind_value_iff {x : Comp ω V α} {k : α → Comp ω V β} {a b : ω} {v : β} :
    (x >>= k) a (.value v) b ↔ ∃ u m, x a (.value u) m ∧ k u m (.value v) b := by
  constructor
  · rintro (h | ⟨u, hu, -⟩ | ⟨hu, -⟩)
    · exact h
    · cases hu
    · cases hu
  · exact .inl

end Comp

open Behaviour

theorem after_bind (x : Comp ω V α) (k : α → Comp ω V β) (f : β → Behaviour ω V) :
    after (x >>= k) f = after x fun v => after (k v) f := succeed_succeed id x k f

theorem after_pure (v : α) (f : α → Behaviour ω V) : after (pure v : Comp ω V α) f = f v :=
  after_silent (fun _ _ _ => Iff.rfl) f

/-! ### Hosts -/

/-- What is done with values that are there already. -/
inductive Operation
  | this | newTarget | importMeta | superBase | placeholder
  | unary (op : UnaryOp)
  | binary (op : BinaryOp)
  | update (op : UpdateOp)
  | toNumeric | toText | toKey
  /-- The elements of a value among arguments, in an array or in an object. -/
  | spread
  | typeOfName (x : Binding)
  | deleteName (x : Binding)
  | regex (body flags : String)
  | template (quasis : List Quasi)
  /-- An object with these keys, none for a spread. -/
  | object (keys : List (Option PropName))
  | cls (name : Option Ident) (c : Class)
  | superCall | importCall
  | yield (delegate : Bool)
  | await
  /-- Gives a value to what cannot have one. -/
  | invalidTarget

/-- The key of a property. -/
inductive Key (V : Type)
  | name (s : String)
  | privateName (s : String)
  | value (v : V)

/-- The values that a host works with, and what can be told of them without any act. -/
structure Values (V : Type) where
  /-- A literal or a function. -/
  constant : Expr → V
  /-- A method or accessor of an object. -/
  method : Property → V
  array : List V → V
  hole : V
  undefined : V
  ofBool : Bool → V
  truthy : V → Bool
  isNullish : V → Bool
  isNumber : V → Bool
  isNumber_literal : ∀ n, isNumber (constant (.lit (.num n))) = true
  /-- A sign before a number. -/
  signed : UnaryOp → V → V
  same : V → V → Bool

/-- What a host does. -/
structure Host (ω V : Type) extends Values V where
  read : Binding → Comp ω V V
  write : Binding → V → Comp ω V Unit
  get : V → Key V → Comp ω V V
  set : V → Key V → V → Comp ω V Unit
  delete : V → Key V → Comp ω V V
  /-- Calls a function with a receiver. The first argument says whether it was called by the bare
  name `eval`. -/
  call : Bool → V → V → List V → Comp ω V V
  construct : V → List V → Comp ω V V
  perform : Operation → List V → Comp ω V V
  /-- Binds a value to a pattern: declares its names, or assigns to them if no kind is given. -/
  bind : Option VarKind → Pat → V → Comp ω V Unit
  /-- The next element of a value that is walked over, or none at its end. -/
  next : V → Comp ω V (Option V)

/-- What an expression comes to before its value is asked for. -/
inductive Ref (V : Type)
  | value (v : V)
  | name (x : Binding)
  | prop (obj : V) (key : Key V)
  /-- An optional chain that was cut short. -/
  | short

namespace Ref

/-- A parenthesis ends an optional chain. -/
def closed (H : Host ω V) : Ref V → Ref V
  | .short => .value H.undefined
  | r => r

def isShort : Ref V → Bool
  | .short => true
  | _ => false

def receiver (H : Host ω V) : Ref V → V
  | .prop obj _ => obj
  | _ => H.undefined

/-- Whether a callee is the bare name `eval`. -/
def isEval : Ref V → Bool
  | .name x => x.name == "eval"
  | _ => false

end Ref

namespace Host

def load (H : Host ω V) : Ref V → Comp ω V V
  | .value v => pure v
  | .name x => H.read x
  | .prop obj key => H.get obj key
  | .short => pure H.undefined

@[simp] theorem load_value (H : Host ω V) (v : V) : H.load (.value v) = pure v := rfl

def store (H : Host ω V) (v : V) : Ref V → Comp ω V Unit
  | .name x => H.write x v
  | .prop obj key => H.set obj key v
  | _ => do
    let _ ← H.perform .invalidTarget []

def typeOf (H : Host ω V) : Ref V → Comp ω V V
  | .name x => H.perform (.typeOfName x) []
  | r => do H.perform (.unary .typeOf) [← H.load r]

def remove (H : Host ω V) : Ref V → Comp ω V V
  | .name x => H.perform (.deleteName x) []
  | .prop obj key => H.delete obj key
  | _ => pure (H.ofBool true)

/-- Whether a logical operator has its value from the left operand alone. -/
def settles (H : Host ω V) (op : BinaryOp) (v : V) : Bool :=
  match op with
  | .and => !H.truthy v
  | .or => H.truthy v
  | .nullish => !H.isNullish v
  | _ => false

end Host

/-- Whether the right operand of an operator may be skipped. -/
def BinaryOp.isLogical : BinaryOp → Bool
  | .and | .or | .nullish => true
  | _ => false

def UnaryOp.isSign : UnaryOp → Bool
  | .minus | .plus => true
  | _ => false

/-- The value that an assignment that combines gives to its target. -/
def Host.combine (H : Host ω V) (op : BinaryOp) (old v : V) : Comp ω V V :=
  if op.isLogical then pure v else H.perform (.binary op) [old, v]

/-- A unary operator on a value. Only a sign before a number, a negation and a dropped value are sure
to do nothing else. -/
def Host.applyUnary (H : Host ω V) (op : UnaryOp) (v : V) : Comp ω V V :=
  match op with
  | .void => pure H.undefined
  | .not => pure (H.ofBool (!H.truthy v))
  | op => if op.isSign && H.isNumber v then pure (H.signed op v) else H.perform (.unary op) [v]

/-- A unary operator on what its operand came to. -/
def Host.unary (H : Host ω V) (op : UnaryOp) (r : Ref V) : Comp ω V V :=
  match op with
  | .typeOf => H.typeOf r
  | .delete => H.remove r
  | op => H.load r >>= H.applyUnary op

/-- A key as the host needs it: a computed one has its value apart. -/
def PropName.shape : PropName → PropName
  | .computed _ => .computed .hole
  | key => key

def Property.shape : Property → Option PropName
  | .shorthand id => some (.name id.name)
  | .keyValue key _ => some key.shape
  | .initialized id _ => some (.name id.name)
  | .getter key _ => some key.shape
  | .setter key _ _ => some key.shape
  | .method key _ => some key.shape
  | .spread _ => none

/-- Gives a value to the left side of an assignment, whose parts were evaluated before. -/
def Host.assign (H : Host ω V) (v : V) (r : Ref V) : AssignTarget → Comp ω V Unit
  | .pattern p => H.bind none p v
  | _ => H.store v r

/-! ### Expressions -/

namespace Host

variable (H : Host ω V)

mutual

/-- Evaluates an expression as far as what its value is read from. -/
def refer : Expr → Comp ω V (Ref V)
  | .this => .value <$> H.perform .this []
  | .ident id => pure (.name id.binding)
  | .lit (.regex body flags) => .value <$> H.perform (.regex body flags) []
  | .lit l => pure (.value (H.constant (.lit l)))
  | .array elems => do
    let vs ← values elems
    return .value (H.array vs)
  | .object props => do
    let vs ← propertyValues props
    .value <$> H.perform (.object (props.map Property.shape)) vs
  | .func name f => pure (.value (H.constant (.func name f)))
  | .arrow f => pure (.value (H.constant (.arrow f)))
  | .cls name c => .value <$> H.perform (.cls name c) []
  | .unary op arg => do
    let r ← refer arg
    .value <$> H.unary op r
  | .update op before arg => do
    let r ← refer arg
    let old ← H.perform .toNumeric [← H.load r]
    let new ← H.perform (.update op) [old]
    H.store new r
    return .value (if before then new else old)
  | .binary op left right => do
    let v ← refer left >>= H.load
    if op.isLogical then
      if H.settles op v then return .value v
      else .value <$> (refer right >>= H.load)
    else do
      let w ← refer right >>= H.load
      .value <$> H.perform (.binary op) [v, w]
  | .assign op target value => do
    let r ← place target
    match op with
    | .plain => do
      let v ← refer value >>= H.load
      H.assign v r target
      return .value v
    | .combined op => do
      let old ← H.load r
      if H.settles op old then return .value old
      else do
        let v ← refer value >>= H.load
        let new ← H.combine op old v
        H.assign new r target
        return .value new
  | .cond test yes no => do
    let v ← refer test >>= H.load
    if H.truthy v then .value <$> (refer yes >>= H.load)
    else .value <$> (refer no >>= H.load)
  | .seq exprs => do
    let vs ← values exprs
    return .value (vs.getLastD H.undefined)
  | .member obj prop => do
    let v ← refer obj >>= H.load
    return .prop v (← access prop)
  | .superMember prop => do
    let v ← H.perform .superBase []
    return .prop v (← access prop)
  | .call callee args => do
    let r ← refer callee
    let f ← H.load r
    let vs ← values args
    .value <$> H.call r.isEval (r.receiver H) f vs
  | .superCall args => do
    let vs ← values args
    .value <$> H.perform .superCall vs
  | .importCall args => do
    let vs ← values args
    .value <$> H.perform .importCall vs
  | .new callee none => do
    let f ← refer callee >>= H.load
    .value <$> H.construct f []
  | .new callee (some args) => do
    let f ← refer callee >>= H.load
    let vs ← values args
    .value <$> H.construct f vs
  | .chainMember optional obj prop => do
    let r ← refer obj
    if r.isShort then return .short
    else do
      let v ← H.load r
      if optional && H.isNullish v then return .short
      else return .prop v (← access prop)
  | .chainCall optional callee args => do
    let r ← refer callee
    if r.isShort then return .short
    else do
      let f ← H.load r
      if optional && H.isNullish f then return .short
      else do
        let vs ← values args
        .value <$> H.call r.isEval (r.receiver H) f vs
  | .template quasis exprs => do
    let vs ← texts exprs
    .value <$> H.perform (.template quasis) vs
  | .tagged tag quasis exprs => do
    let r ← refer tag
    let f ← H.load r
    let vs ← values exprs
    .value <$> H.call false (r.receiver H) f (H.constant (.template quasis []) :: vs)
  | .yield delegate none => .value <$> H.perform (.yield delegate) []
  | .yield delegate (some arg) => do
    let v ← refer arg >>= H.load
    .value <$> H.perform (.yield delegate) [v]
  | .await arg => do
    let v ← refer arg >>= H.load
    .value <$> H.perform .await [v]
  | .paren e => do
    let r ← refer e
    return r.closed H
  | .spread e => do
    let v ← refer e >>= H.load
    .value <$> H.perform .spread [v]
  | .hole => pure (.value H.hole)
  | .newTarget => .value <$> H.perform .newTarget []
  | .importMeta => .value <$> H.perform .importMeta []
  | .privateName name => pure (.value (H.constant (.privateName name)))
  | .placeholder => .value <$> H.perform .placeholder []
  | .typed _ e _ => refer e
  | .typeAssert _ e => refer e
  | .nonNull e => refer e

def values : List Expr → Comp ω V (List V)
  | [] => pure []
  | e :: es => do
    let v ← refer e >>= H.load
    return v :: (← values es)

/-- The same as texts, each value being made a text before the next is evaluated. -/
def texts : List Expr → Comp ω V (List V)
  | [] => pure []
  | e :: es => do
    let v ← refer e >>= H.load
    let t ← H.perform .toText [v]
    return t :: (← texts es)

/-- The computed key and the value of a member of an object literal. -/
def propertyValue : Property → Comp ω V (List V)
  | .shorthand id => do return [← H.read id.binding]
  | .keyValue key value => do
    let ks ← keyValue key
    let v ← refer value >>= H.load
    return ks ++ [v]
  | .initialized _ value => do
    let v ← refer value >>= H.load
    return [v]
  | .getter key body => do
    let ks ← keyValue key
    return ks ++ [H.method (.getter key body)]
  | .setter key param body => do
    let ks ← keyValue key
    return ks ++ [H.method (.setter key param body)]
  | .method key f => do
    let ks ← keyValue key
    return ks ++ [H.method (.method key f)]
  | .spread e => do
    let v ← refer e >>= H.load
    return [← H.perform .spread [v]]

def propertyValues : List Property → Comp ω V (List V)
  | [] => pure []
  | p :: ps => do
    let vs ← propertyValue p
    return vs ++ (← propertyValues ps)

def keyValue : PropName → Comp ω V (List V)
  | .computed e => do
    let v ← refer e >>= H.load
    return [← H.perform .toKey [v]]
  | _ => pure []

def access : MemberProp → Comp ω V (Key V)
  | .name s => pure (.name s)
  | .privateName s => pure (.privateName s)
  | .computed e => do
    let v ← refer e >>= H.load
    return .value v

/-- The left side of an assignment as far as it is evaluated before the right side. -/
def place : AssignTarget → Comp ω V (Ref V)
  | .name b => pure (.name b.id.binding)
  | .member obj prop => do
    let v ← refer obj >>= H.load
    return .prop v (← access prop)
  | .superMember prop => do
    let v ← H.perform .superBase []
    return .prop v (← access prop)
  | .paren e => refer e
  | .chain e => refer e
  | .typed e => refer e
  | .pattern _ => pure .short

end

def value (e : Expr) : Comp ω V V := H.refer e >>= H.load

/-- The machine that runs statements over a host. -/
def machine : Machine ω V where
  eval := H.value
  bind := H.bind
  next := H.next
  truthy := H.truthy
  same := H.same
  undefined := H.undefined

/-! ### Values of some expressions -/

theorem load_closed (r : Ref V) : H.load (r.closed H) = H.load r := by
  cases r <;> rfl

theorem value_paren (e : Expr) : H.value (.paren e) = H.value e := by
  simp [value, refer, load_closed]

theorem values_cons (e : Expr) (es : List Expr) :
    H.values (e :: es) = (do
      let v ← H.value e
      let vs ← H.values es
      return v :: vs) := rfl

theorem value_seq (es : List Expr) :
    H.value (.seq es) = (do
      let vs ← H.values es
      return vs.getLastD H.undefined) := by
  simp [value, refer]

theorem value_seq_singleton (e : Expr) : H.value (.seq [e]) = H.value e := by
  rw [value_seq, values_cons, show H.values [] = pure [] from rfl]
  simp only [bind_assoc, pure_bind, List.getLastD_cons, List.getLastD_nil, bind_pure]

theorem value_seq_cons (e f : Expr) (es : List Expr) :
    H.value (.seq (e :: f :: es)) = (do
      let _ ← H.value e
      H.value (.seq (f :: es))) := by
  simp only [value_seq, values_cons, bind_assoc, pure_bind, List.getLastD_cons]

theorem value_assign_name (b : BindingName) (e : Expr) :
    H.value (.assign .plain (.name b) e) = (do
      let v ← H.value e
      H.write b.id.binding v
      return v) := by
  simp [value, refer, place, assign, store]

theorem value_unparen (e : Expr) : H.value e.unparen = H.value e := by
  induction e using Expr.unparen_induct with
  | paren e ih => exact ih.trans (H.value_paren e).symm
  | bare e hbare => rw [hbare]

end Host

/-! ### Hosts with variables -/

/-- Variables, and what is still to come of calls and all else that a host is asked for: an answer,
and a change to the variables. -/
structure Memory (V : Type) where
  vars : Binding → V
  outcomes : List (Answer V V × ((Binding → V) → Binding → V))

/-- What comes of the next act; without an outcome it is watched no further. -/
def Memory.outcome (f : V → α) : Comp (Memory V) V α := fun a r b =>
  match a.outcomes with
  | [] => r = .stopped ∧ b = a
  | (.value v, change) :: rest => r = .value (f v) ∧ b = ⟨change a.vars, rest⟩
  | (.throw v, change) :: rest => r = .throw v ∧ b = ⟨change a.vars, rest⟩
  | (.stopped, change) :: rest => r = .stopped ∧ b = ⟨change a.vars, rest⟩

/-- The host that keeps variables itself and is told all other outcomes. -/
def Values.host (A : Values V) : Host (Memory V) V :=
  { A with
    read := fun x a r b => r = .value (a.vars x) ∧ b = a
    write := fun x v a r b =>
      r = .value () ∧ b = { a with vars := fun y => if y = x then v else a.vars y }
    get := fun _ _ => Memory.outcome id
    set := fun _ _ _ => Memory.outcome fun _ => ()
    delete := fun _ _ => Memory.outcome id
    call := fun _ _ _ _ => Memory.outcome id
    construct := fun _ _ => Memory.outcome id
    perform := fun _ _ => Memory.outcome id
    bind := fun _ _ _ => Memory.outcome fun _ => ()
    next := fun _ => Memory.outcome fun v => if A.truthy v then some v else none }

/-- Values that are known only by how they were made. -/
inductive Datum
  | undefined
  | hole
  | bool (b : Bool)
  | constant (e : Expr)
  | signed (op : UnaryOp) (v : Datum)
  | method (p : Property)
  | array (elems : List Datum)

def Values.made : Values Datum where
  constant := .constant
  method := .method
  array := .array
  hole := .hole
  undefined := .undefined
  ofBool := .bool
  truthy
    | .undefined | .hole => false
    | .bool b => b
    | .constant e => (truthiness? e).getD true
    | _ => true
  isNullish
    | .undefined | .hole | .constant (.lit .null) => true
    | _ => false
  isNumber
    | .constant (.lit (.num _)) | .signed _ _ => true
    | _ => false
  isNumber_literal _ := rfl
  signed := .signed
  same
    | .undefined, .undefined => true
    | .bool b, .bool c => b == c
    | _, _ => false

/-- What a host can be asked to do. -/
inductive Deed (V : Type)
  | read (x : Binding)
  | write (x : Binding) (v : V)
  | get (obj : V) (key : Key V)
  | set (obj : V) (key : Key V) (v : V)
  | delete (obj : V) (key : Key V)
  | call (isEval : Bool) (receiver f : V) (args : List V)
  | construct (f : V) (args : List V)
  | perform (op : Operation) (args : List V)
  | bind (kind : Option VarKind) (p : Pat) (v : V)
  | next (v : V)

/-- A computation that is written down. -/
def Comp.noted (x : Comp ω V α) (d : Deed V) : Comp (ω × List (Deed V)) V α := fun a r b =>
  x a.1 r b.1 ∧ b.2 = a.2 ++ [d]

/-- A host that writes down all it is asked to do. -/
def Host.watched (H : Host ω V) : Host (ω × List (Deed V)) V :=
  { H.toValues with
    read := fun x => (H.read x).noted (.read x)
    write := fun x v => (H.write x v).noted (.write x v)
    get := fun o k => (H.get o k).noted (.get o k)
    set := fun o k v => (H.set o k v).noted (.set o k v)
    delete := fun o k => (H.delete o k).noted (.delete o k)
    call := fun isEval o f vs => (H.call isEval o f vs).noted (.call isEval o f vs)
    construct := fun f vs => (H.construct f vs).noted (.construct f vs)
    perform := fun op vs => (H.perform op vs).noted (.perform op vs)
    bind := fun kind p v => (H.bind kind p v).noted (.bind kind p v)
    next := fun v => (H.next v).noted (.next v) }

end Untangle
