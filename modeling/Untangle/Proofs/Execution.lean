import Untangle.Constant.Evaluate

/-!
# Running statements

A big-step account of statements over **any** way of evaluating expressions.

The last way to end, `stopped`, says that the run was watched no further. No code can see it, so a
run that never ends is known by all its beginnings.

A loop answers to every label that stands around it, up to the next loop outwards. The language
allows a jump to the next turn only to a label that stands right before a loop, and for those this
is the usual rule.
-/

namespace Untangle

/-- How the run of a statement ends. -/
inductive Completion (V : Type)
  | normal
  | break (label : Option String)
  | continue (label : Option String)
  | return (value : Option V)
  | throw (value : V)
  /-- The run was watched no further. -/
  | stopped

/-- What a single act gives. -/
inductive Answer (V α : Type)
  | value (a : α)
  | throw (v : V)
  | stopped

/-- What the world does with expressions, patterns and values. -/
structure Machine (ω V : Type) where
  eval : Expr → ω → Answer V V → ω → Prop
  /-- Binds a value to a pattern: declares its names, or assigns to them if no kind is given. -/
  bind : Option VarKind → Pat → V → ω → Answer V Unit → ω → Prop
  /-- The next element of a value that is walked over, or none at its end. -/
  next : V → ω → Answer V (Option V) → ω → Prop
  truthy : V → Bool
  same : V → V → Bool
  undefined : V

/-- Expressions of known truth do nothing but give a value that counts as what is known. -/
def Machine.KnowsTruth {ω V : Type} (M : Machine ω V) : Prop :=
  ∀ e t, truthiness? e = some t →
    ∃ v, M.truthy v = t ∧ ∀ a r b, M.eval e a r b ↔ r = .value v ∧ b = a

/-- What a machine may keep a record of: an expression is evaluated, a pattern takes a value apart,
the next element is asked for. -/
inductive Event
  | expr (e : Expr)
  | bind (p : Pat)
  | next

/-- What running a piece of code can do. -/
abbrev Behaviour (ω V : Type) := ω → Completion V → ω → Prop

/-- What one turn of a loop can do: go on, or leave the loop in some way. -/
abbrev Turn (ω V : Type) := ω → Option (Completion V) → ω → Prop

variable {ω V α ρ : Type}

/-- What follows from the value of an act, if the act gives one; what it throws goes into the outcome
of the whole. -/
def succeed (fail : Completion V → ρ) (x : ω → Answer V α → ω → Prop) (k : α → ω → ρ → ω → Prop) :
    ω → ρ → ω → Prop := fun a r b =>
  (∃ v m, x a (.value v) m ∧ k v m r b) ∨ (∃ v, r = fail (.throw v) ∧ x a (.throw v) b) ∨
    (r = fail .stopped ∧ x a .stopped b)

namespace Completion

/-- Whether a loop with these labels goes on after its body ended like this. -/
def GoesOn (labels : List String) : Completion V → Prop
  | .normal => True
  | .continue none => True
  | .continue (some l) => l ∈ labels
  | _ => False

/-- How a loop ends that does not go on after its body ended like this. -/
def leaving : Completion V → Completion V
  | .break none => .normal
  | c => c

end Completion

namespace Behaviour

/-- Does nothing but end like this. -/
def ends (c : Completion V) : Behaviour ω V := fun a c' b => c' = c ∧ b = a

/-- One after the other, unless the first does not end normally. -/
def andThen (d e : Behaviour ω V) : Behaviour ω V := fun a c b =>
  (∃ m, d a .normal m ∧ e m c b) ∨ (c ≠ .normal ∧ d a c b)

/-- An act, and what follows from its value. -/
def after (x : ω → Answer V α → ω → Prop) (k : α → Behaviour ω V) : Behaviour ω V := succeed id x k

/-- Takes some ways to end for a normal end. -/
def absorbing (P : Completion V → Prop) (d : Behaviour ω V) : Behaviour ω V := fun a c b =>
  (c = .normal ∧ ∃ c', P c' ∧ d a c' b) ∨ (¬P c ∧ d a c b)

def handling (d : Behaviour ω V) (handler : V → Behaviour ω V) : Behaviour ω V := fun a c b =>
  (∃ v m, d a (.throw v) m ∧ handler v m c b) ∨ ((∀ v, c ≠ .throw v) ∧ d a c b)

/-- Runs something at the end in any case; its own end counts unless it is normal. -/
def finalizing (d e : Behaviour ω V) : Behaviour ω V := fun a c b =>
  (c = .stopped ∧ d a .stopped b) ∨
    ∃ c' m, c' ≠ .stopped ∧ d a c' m ∧ ((c = c' ∧ e m .normal b) ∨ (c ≠ .normal ∧ e m c b))

end Behaviour

namespace Turn

def again : Turn ω V := fun a r b => r = none ∧ b = a

def leave : Turn ω V := fun a r b => r = some .normal ∧ b = a

/-- An act, and what follows from its value in this turn. -/
def after (x : ω → Answer V α → ω → Prop) (k : α → Turn ω V) : Turn ω V := succeed some x k

/-- The body of a loop, and what follows in the same turn if the loop goes on. -/
def body (labels : List String) (d : Behaviour ω V) (k : Turn ω V) : Turn ω V := fun a r b =>
  ∃ c m, d a c m ∧
    ((c.GoesOn labels ∧ k m r b) ∨ (¬c.GoesOn labels ∧ r = some c.leaving ∧ b = m))

end Turn

/-- Turn after turn until one leaves the loop. -/
inductive Looping (turn : Turn ω V) : Behaviour ω V
  | leave {a c b} : turn a (some c) b → Looping turn a c b
  | again {a m c b} : turn a none m → Looping turn m c b → Looping turn a c b

open Behaviour

/-! ### Declarations and loop heads -/

/-- Declarators from left to right. One without a value does nothing in a `var` declaration, for
which the name is there already, and else declares the name without a value. -/
def runDeclarators (M : Machine ω V) (kind : VarKind) : List Declarator → Behaviour ω V
  | [] => ends .normal
  | .mk target (some e) _ :: rest =>
    after (M.eval e) fun v => after (M.bind (some kind) target v) fun _ =>
      runDeclarators M kind rest
  | .mk target none _ :: rest =>
    if kind = .var then runDeclarators M kind rest
    else after (M.bind (some kind) target M.undefined) fun _ => runDeclarators M kind rest

def runVarDecl (M : Machine ω V) : VarDecl → Behaviour ω V
  | .mk kind decls => runDeclarators M kind decls

def runEnumMembers (M : Machine ω V) : List EnumMember → Behaviour ω V
  | [] => ends .normal
  | .mk _ none :: rest => runEnumMembers M rest
  | .mk _ (some e) :: rest => after (M.eval e) fun _ => runEnumMembers M rest

/-- A class is made like the value of an expression, and bound to its name if it has one. -/
def runClass (M : Machine ω V) (name : Option Ident) (c : Class) : Behaviour ω V :=
  after (M.eval (.cls name c)) fun v =>
    match name with
    | some id => after (M.bind (some .let) (.name (.ofIdent id)) v) fun _ => ends .normal
    | none => ends .normal

def runDecl (M : Machine ω V) : Decl → Behaviour ω V
  | .func .. => ends .normal
  | .cls name c => runClass M (some name) c
  | .var d => runVarDecl M d
  | .iface _ => ends .normal
  | .typeAlias .. => ends .normal
  | .enum _ _ members => runEnumMembers M members
  | .ambient d => runDecl M d

/-- What stands before the first semicolon of a loop head. -/
def runHead (M : Machine ω V) : ForHead → Behaviour ω V
  | .var d => runVarDecl M d
  | .expr e => after (M.eval e) fun _ => ends .normal
  | _ => ends .normal

/-- The value that a `var` in the head of a loop over elements may have at first. -/
def startHead (M : Machine ω V) : ForHead → Behaviour ω V
  | .var (.mk _ decls) => runDeclarators M .var decls
  | _ => ends .normal

def bindHead (M : Machine ω V) (v : V) : ForHead → ω → Answer V Unit → ω → Prop
  | .var (.mk kind (.mk target _ _ :: _)) => M.bind (some kind) target v
  | .pat p => M.bind none p v
  | _ => fun a r b => r = .value () ∧ b = a

/-- The test of a counting loop, and what follows if it holds. -/
def forTest (M : Machine ω V) : Option Expr → Turn ω V → Turn ω V
  | none, k => k
  | some e, k => Turn.after (M.eval e) fun v => if M.truthy v then k else Turn.leave

def forStep (M : Machine ω V) : Option Expr → Turn ω V
  | none => Turn.again
  | some e => Turn.after (M.eval e) fun _ => Turn.again

def elementTurn (M : Machine ω V) (labels : List String) (head : ForHead) (d : Behaviour ω V)
    (v : V) : Turn ω V :=
  Turn.after (M.next v) fun
    | none => Turn.leave
    | some element => Turn.after (bindHead M element head) fun _ => Turn.body labels d Turn.again

/-! ### Statements -/

mutual

def run (M : Machine ω V) (labels : List String) : Stmt → Behaviour ω V
  | .expr e => after (M.eval e) fun _ => ends .normal
  | .block body => runList M labels body
  | .empty => ends .normal
  | .debugger => ends .normal
  | .with obj body => after (M.eval obj) fun _ => run M labels body
  | .return none => ends (.return none)
  | .return (some e) => after (M.eval e) fun v => ends (.return (some v))
  | .labelled l body => absorbing (· = .break (some l.name)) (run M (l.name :: labels) body)
  | .break l => ends (.break (l.map Ident.name))
  | .continue l => ends (.continue (l.map Ident.name))
  | .ite test yes none =>
    after (M.eval test) fun v => if M.truthy v then run M labels yes else ends .normal
  | .ite test yes (some no) =>
    after (M.eval test) fun v => if M.truthy v then run M labels yes else run M labels no
  | .switch disc cases => after (M.eval disc) fun v =>
    absorbing (· = .break none) (runChosen M labels v (runDefault M labels cases) cases)
  | .throw e => after (M.eval e) fun v => ends (.throw v)
  | .try body none none => runList M labels body
  | .try body (some c) none => handling (runList M labels body) (runCatch M labels c)
  | .try body none (some f) => finalizing (runList M labels body) (runList M labels f)
  | .try body (some c) (some f) =>
    finalizing (handling (runList M labels body) (runCatch M labels c)) (runList M labels f)
  | .while test body => Looping (Turn.after (M.eval test) fun v =>
    if M.truthy v then Turn.body labels (run M [] body) Turn.again else Turn.leave)
  | .doWhile body test => Looping (Turn.body labels (run M [] body)
    (Turn.after (M.eval test) fun v => if M.truthy v then Turn.again else Turn.leave))
  | .for init test step body => andThen (runHead M init)
    (Looping (forTest M test (Turn.body labels (run M [] body) (forStep M step))))
  | .forIn head obj body => andThen (startHead M head) (after (M.eval obj) fun v =>
    Looping (elementTurn M labels head (run M [] body) v))
  | .forOf _ head obj body => andThen (startHead M head) (after (M.eval obj) fun v =>
    Looping (elementTurn M labels head (run M [] body) v))
  | .decl d => runDecl M d
  | .importDecl .. => ends .normal
  | .exportDecl d => runDecl M d
  | .exportNamed .. => ends .normal
  | .exportAll .. => ends .normal
  | .exportDefaultExpr e => after (M.eval e) fun _ => ends .normal
  | .exportDefaultFunc .. => ends .normal
  | .exportDefaultClass name c => runClass M name c
  | .exportDefaultInterface _ => ends .normal

def runList (M : Machine ω V) (labels : List String) : List Stmt → Behaviour ω V
  | [] => ends .normal
  | s :: ss => andThen (run M labels s) (runList M labels ss)

def runCatch (M : Machine ω V) (labels : List String) : Catch → V → Behaviour ω V
  | .mk none body => fun _ => runList M labels body
  | .mk (some p) body => fun v => after (M.bind (some .let) p v) fun _ => runList M labels body

/-- Runs the clauses of a switch from the first one given, each falling through to the next. -/
def runClauses (M : Machine ω V) (labels : List String) : List Case → Behaviour ω V
  | [] => ends .normal
  | .mk _ body :: rest => andThen (runList M labels body) (runClauses M labels rest)

def runDefault (M : Machine ω V) (labels : List String) : List Case → Behaviour ω V
  | [] => ends .normal
  | .mk none body :: rest => andThen (runList M labels body) (runClauses M labels rest)
  | .mk (some _) _ :: rest => runDefault M labels rest

/-- Runs the clauses from the first one on whose test gives the same value, or what is to be done
if there is none. -/
def runChosen (M : Machine ω V) (labels : List String) (v : V) (otherwise : Behaviour ω V) :
    List Case → Behaviour ω V
  | [] => otherwise
  | .mk none _ :: rest => runChosen M labels v otherwise rest
  | .mk (some e) body :: rest => after (M.eval e) fun t =>
    if M.same v t then andThen (runList M labels body) (runClauses M labels rest)
    else runChosen M labels v otherwise rest

end

def runBody (M : Machine ω V) : Body → Behaviour ω V
  | .absent => ends .normal
  | .expr e => after (M.eval e) fun v => ends (.return (some v))
  | .block stmts => runList M [] stmts

/-! ### Laws of behaviours -/

variable {x : ω → Answer V α → ω → Prop} {k : α → Behaviour ω V} {v : α}

namespace Behaviour

variable {d e f : Behaviour ω V}

@[simp] theorem ends_andThen : andThen (ends .normal) d = d := by
  funext a c b
  apply propext
  constructor
  · rintro (⟨m, ⟨-, rfl⟩, hb⟩ | ⟨hc, rfl, -⟩)
    · exact hb
    · exact absurd rfl hc
  · intro hb
    exact .inl ⟨a, ⟨rfl, rfl⟩, hb⟩

@[simp] theorem andThen_ends : andThen d (ends .normal) = d := by
  funext a c b
  apply propext
  constructor
  · rintro (⟨m, hm, rfl, rfl⟩ | ⟨-, hb⟩)
    · exact hm
    · exact hb
  · intro hb
    by_cases hc : c = .normal
    · subst hc
      exact .inl ⟨b, hb, rfl, rfl⟩
    · exact .inr ⟨hc, hb⟩

theorem andThen_assoc : andThen (andThen d e) f = andThen d (andThen e f) := by
  funext a c b
  apply propext
  constructor
  · rintro (⟨m, ⟨n, hn, hm⟩ | ⟨h, -⟩, hb⟩ | ⟨hc, ⟨m, hm, hb⟩ | ⟨-, hb⟩⟩)
    · exact .inl ⟨n, hn, .inl ⟨m, hm, hb⟩⟩
    · exact absurd rfl h
    · exact .inl ⟨m, hm, .inr ⟨hc, hb⟩⟩
    · exact .inr ⟨hc, hb⟩
  · rintro (⟨n, hn, ⟨m, hm, hb⟩ | ⟨hc, hb⟩⟩ | ⟨hc, hb⟩)
    · exact .inl ⟨m, .inl ⟨n, hn, hm⟩, hb⟩
    · exact .inr ⟨hc, .inl ⟨n, hn, hb⟩⟩
    · exact .inr ⟨hc, .inr ⟨hc, hb⟩⟩

theorem andThen_of_abrupt (h : ∀ a b, ¬d a .normal b) : andThen d e = d := by
  funext a c b
  apply propext
  constructor
  · rintro (⟨m, hm, -⟩ | ⟨-, hb⟩)
    · exact absurd hm (h a m)
    · exact hb
  · intro hb
    refine .inr ⟨?_, hb⟩
    rintro rfl
    exact h a b hb

theorem after_andThen : andThen (after x k) d = after x fun v => andThen (k v) d := by
  funext a c b
  apply propext
  constructor
  · rintro (⟨m, ⟨v, n, hn, hm⟩ | ⟨v, h, -⟩ | ⟨h, -⟩, hb⟩ | ⟨hc, ⟨v, n, hn, hb⟩ | h | h⟩)
    · exact .inl ⟨v, n, hn, .inl ⟨m, hm, hb⟩⟩
    · cases h
    · cases h
    · exact .inl ⟨v, n, hn, .inr ⟨hc, hb⟩⟩
    · exact .inr (.inl h)
    · exact .inr (.inr h)
  · rintro (⟨v, n, hn, ⟨m, hm, hb⟩ | ⟨hc, hb⟩⟩ | ⟨v, rfl, hb⟩ | ⟨rfl, hb⟩)
    · exact .inl ⟨m, .inl ⟨v, n, hn, hm⟩, hb⟩
    · exact .inr ⟨hc, .inl ⟨v, n, hn, hb⟩⟩
    · exact .inr ⟨by simp, .inr (.inl ⟨v, rfl, hb⟩)⟩
    · exact .inr ⟨by simp, .inr (.inr ⟨rfl, hb⟩)⟩

end Behaviour

/-- An act that does nothing but give a value hands it on. -/
theorem succeed_silent (fail : Completion V → ρ) (hx : ∀ a r b, x a r b ↔ r = .value v ∧ b = a)
    (k : α → ω → ρ → ω → Prop) : succeed fail x k = k v := by
  funext a r b
  simp [succeed, hx, and_assoc]

theorem after_silent (hx : ∀ a r b, x a r b ↔ r = .value v ∧ b = a) (k : α → Behaviour ω V) :
    after x k = k v :=
  succeed_silent id hx k

theorem turnAfter_silent (hx : ∀ a r b, x a r b ↔ r = .value v ∧ b = a) (k : α → Turn ω V) :
    Turn.after x k = k v :=
  succeed_silent some hx k

@[simp] theorem looping_leave : Looping (Turn.leave : Turn ω V) = ends .normal := by
  funext a c b
  apply propext
  constructor
  · rintro (⟨hc, rfl⟩ | ⟨⟨h, -⟩, -⟩)
    · exact ⟨Option.some_inj.1 hc, rfl⟩
    · cases h
  · rintro ⟨rfl, rfl⟩
    exact .leave ⟨rfl, rfl⟩

@[simp] theorem runList_nil (M : Machine ω V) (labels : List String) :
    runList M labels [] = ends .normal := rfl

@[simp] theorem runList_cons (M : Machine ω V) (labels : List String) (s : Stmt)
    (ss : List Stmt) : runList M labels (s :: ss) = andThen (run M labels s) (runList M labels ss) :=
  rfl

theorem runList_append (M : Machine ω V) (labels : List String) (ss ts : List Stmt) :
    runList M labels (ss ++ ts) = andThen (runList M labels ss) (runList M labels ts) := by
  induction ss with
  | nil => simp
  | cons s ss ih => simp [ih, andThen_assoc]

/-! ### One run that follows another -/

section Follows

variable {ω' : Type} {R : ω → ω' → Prop}

/-- Whatever the first can do, the second can do from a related state, with the same outcome and to a
related state. -/
def Follows (R : ω → ω' → Prop) (x : ω → ρ → ω → Prop) (y : ω' → ρ → ω' → Prop) : Prop :=
  ∀ ⦃a a' r b⦄, R a a' → x a r b → ∃ b', y a' r b' ∧ R b b'

theorem ends_follows (c : Completion V) : Follows R (ends c) (ends c) := by
  rintro a a' r b h ⟨rfl, rfl⟩
  exact ⟨a', ⟨rfl, rfl⟩, h⟩

variable {d e : Behaviour ω V} {d' e' : Behaviour ω' V} {y : ω' → Answer V α → ω' → Prop}
  {k' : Turn ω' V} {head : ForHead}

theorem Follows.andThen (hd : Follows R d d') (he : Follows R e e') :
    Follows R (andThen d e) (andThen d' e') := by
  rintro a a' c b h (⟨m, hm, hb⟩ | ⟨hc, hb⟩)
  · obtain ⟨m', hm', h'⟩ := hd h hm
    obtain ⟨b', hb', h''⟩ := he h' hb
    exact ⟨b', .inl ⟨m', hm', hb'⟩, h''⟩
  · obtain ⟨b', hb', h'⟩ := hd h hb
    exact ⟨b', .inr ⟨hc, hb'⟩, h'⟩

theorem Follows.succeed (fail : Completion V → ρ) {k : α → ω → ρ → ω → Prop}
    {k' : α → ω' → ρ → ω' → Prop} (hx : Follows R x y) (hk : ∀ v, Follows R (k v) (k' v)) :
    Follows R (succeed fail x k) (succeed fail y k') := by
  rintro a a' r b h (⟨v, m, hm, hb⟩ | ⟨v, rfl, hb⟩ | ⟨rfl, hb⟩)
  · obtain ⟨m', hm', h'⟩ := hx h hm
    obtain ⟨b', hb', h''⟩ := hk v h' hb
    exact ⟨b', .inl ⟨v, m', hm', hb'⟩, h''⟩
  · obtain ⟨b', hb', h'⟩ := hx h hb
    exact ⟨b', .inr (.inl ⟨v, rfl, hb'⟩), h'⟩
  · obtain ⟨b', hb', h'⟩ := hx h hb
    exact ⟨b', .inr (.inr ⟨rfl, hb'⟩), h'⟩

theorem Follows.after {k' : α → Behaviour ω' V} (hx : Follows R x y)
    (hk : ∀ v, Follows R (k v) (k' v)) : Follows R (after x k) (after y k') :=
  Follows.succeed id hx hk

theorem Follows.turnAfter {k : α → Turn ω V} {k' : α → Turn ω' V} (hx : Follows R x y)
    (hk : ∀ v, Follows R (k v) (k' v)) : Follows R (Turn.after x k) (Turn.after y k') :=
  Follows.succeed some hx hk

theorem Follows.absorbing (P : Completion V → Prop) (hd : Follows R d d') :
    Follows R (absorbing P d) (absorbing P d') := by
  rintro a a' c b h (⟨rfl, c', hc, hb⟩ | ⟨hc, hb⟩)
  · obtain ⟨b', hb', h'⟩ := hd h hb
    exact ⟨b', .inl ⟨rfl, c', hc, hb'⟩, h'⟩
  · obtain ⟨b', hb', h'⟩ := hd h hb
    exact ⟨b', .inr ⟨hc, hb'⟩, h'⟩

theorem Follows.handling {k : V → Behaviour ω V} {k' : V → Behaviour ω' V} (hd : Follows R d d')
    (hk : ∀ v, Follows R (k v) (k' v)) : Follows R (handling d k) (handling d' k') := by
  rintro a a' c b h (⟨v, m, hm, hb⟩ | ⟨hc, hb⟩)
  · obtain ⟨m', hm', h'⟩ := hd h hm
    obtain ⟨b', hb', h''⟩ := hk v h' hb
    exact ⟨b', .inl ⟨v, m', hm', hb'⟩, h''⟩
  · obtain ⟨b', hb', h'⟩ := hd h hb
    exact ⟨b', .inr ⟨hc, hb'⟩, h'⟩

theorem Follows.finalizing (hd : Follows R d d') (he : Follows R e e') :
    Follows R (finalizing d e) (finalizing d' e') := by
  rintro a a' c b h (⟨rfl, hb⟩ | ⟨c', m, hc, hm, hb⟩)
  · obtain ⟨b', hb', h'⟩ := hd h hb
    exact ⟨b', .inl ⟨rfl, hb'⟩, h'⟩
  · obtain ⟨m', hm', h'⟩ := hd h hm
    obtain ⟨rfl, hb⟩ | ⟨hn, hb⟩ := hb
    · obtain ⟨b', hb', h''⟩ := he h' hb
      exact ⟨b', .inr ⟨c, m', hc, hm', .inl ⟨rfl, hb'⟩⟩, h''⟩
    · obtain ⟨b', hb', h''⟩ := he h' hb
      exact ⟨b', .inr ⟨c', m', hc, hm', .inr ⟨hn, hb'⟩⟩, h''⟩

theorem again_follows : Follows R (Turn.again (V := V)) Turn.again := by
  rintro a a' r b h ⟨rfl, rfl⟩
  exact ⟨a', ⟨rfl, rfl⟩, h⟩

theorem leave_follows : Follows R (Turn.leave (V := V)) Turn.leave := by
  rintro a a' r b h ⟨rfl, rfl⟩
  exact ⟨a', ⟨rfl, rfl⟩, h⟩

theorem Follows.body (labels : List String) {k : Turn ω V} (hd : Follows R d d')
    (hk : Follows R k k') : Follows R (Turn.body labels d k) (Turn.body labels d' k') := by
  rintro a a' r b h ⟨c, m, hm, ⟨hc, hb⟩ | ⟨hc, rfl, rfl⟩⟩
  · obtain ⟨m', hm', h'⟩ := hd h hm
    obtain ⟨b', hb', h''⟩ := hk h' hb
    exact ⟨b', ⟨c, m', hm', .inl ⟨hc, hb'⟩⟩, h''⟩
  · obtain ⟨m', hm', h'⟩ := hd h hm
    exact ⟨m', ⟨c, m', hm', .inr ⟨hc, rfl, rfl⟩⟩, h'⟩

theorem Follows.looping {t : Turn ω V} {t' : Turn ω' V} (ht : Follows R t t') :
    Follows R (Looping t) (Looping t') := by
  intro a a' c b h hb
  induction hb generalizing a' with
  | leave hb =>
    obtain ⟨b', hb', h'⟩ := ht h hb
    exact ⟨b', .leave hb', h'⟩
  | again hm _ ih =>
    obtain ⟨m', hm', h'⟩ := ht h hm
    obtain ⟨b', hb', h''⟩ := ih h'
    exact ⟨b', .again hm' hb', h''⟩

/-! ### The acts of some code -/

/-- What code asks of the machine, apart from the next element. -/
inductive Act
  | eval (e : Expr)
  | bind (p : Pat)

def Declarator.acts : Declarator → List Act
  | .mk target (some e) _ => [.eval e, .bind target]
  | .mk target none _ => [.bind target]

def VarDecl.acts : VarDecl → List Act
  | .mk _ decls => decls.flatMap Declarator.acts

def EnumMember.acts : EnumMember → List Act
  | .mk _ (some e) => [.eval e]
  | .mk _ none => []

def Class.acts (name : Option Ident) (c : Class) : List Act :=
  .eval (.cls name c) :: (name.map fun id => Act.bind (.name (.ofIdent id))).toList

def Decl.acts : Decl → List Act
  | .cls name c => Class.acts (some name) c
  | .var d => d.acts
  | .enum _ _ members => members.flatMap EnumMember.acts
  | .ambient d => d.acts
  | _ => []

def ForHead.acts : ForHead → List Act
  | .absent => []
  | .var d => d.acts
  | .pat p => [.bind p]
  | .expr e => [.eval e]

mutual

/-- The acts that a statement may ask for, those inside functions and classes apart. -/
def Stmt.acts : Stmt → List Act
  | .expr e | .return (some e) | .throw e | .exportDefaultExpr e => [.eval e]
  | .block body => stmtsActs body
  | .with e body | .while e body | .doWhile body e => .eval e :: body.acts
  | .labelled _ body => body.acts
  | .ite test yes none => .eval test :: yes.acts
  | .ite test yes (some no) => .eval test :: (yes.acts ++ no.acts)
  | .switch disc cases => .eval disc :: casesActs cases
  | .try body none none => stmtsActs body
  | .try body (some c) none => stmtsActs body ++ c.acts
  | .try body none (some f) => stmtsActs body ++ stmtsActs f
  | .try body (some c) (some f) => stmtsActs body ++ c.acts ++ stmtsActs f
  | .for init test step body =>
    init.acts ++ (test.map .eval).toList ++ (step.map .eval).toList ++ body.acts
  | .forIn head obj body | .forOf _ head obj body => .eval obj :: (head.acts ++ body.acts)
  | .decl d | .exportDecl d => d.acts
  | .exportDefaultClass name c => Class.acts name c
  | _ => []

def stmtsActs : List Stmt → List Act
  | [] => []
  | s :: ss => s.acts ++ stmtsActs ss

def Catch.acts : Catch → List Act
  | .mk none body => stmtsActs body
  | .mk (some p) body => .bind p :: stmtsActs body

def casesActs : List Case → List Act
  | [] => []
  | .mk none body :: rest => stmtsActs body ++ casesActs rest
  | .mk (some e) body :: rest => .eval e :: (stmtsActs body ++ casesActs rest)

end

variable {M : Machine ω V} {N : Machine ω' V}

/-- The second machine can follow the first through an act. -/
def Act.Follows (R : ω → ω' → Prop) (M : Machine ω V) (N : Machine ω' V) : Act → Prop
  | .eval e => Untangle.Follows R (M.eval e) (N.eval e)
  | .bind p => ∀ kind v, Untangle.Follows R (M.bind kind p v) (N.bind kind p v)

/-- The second machine takes values for the same as the first, and can follow it from element to
element. -/
structure Machine.Alike (R : ω → ω' → Prop) (M : Machine ω V) (N : Machine ω' V) : Prop where
  next : ∀ v, Untangle.Follows R (M.next v) (N.next v)
  truthy : N.truthy = M.truthy
  same : N.same = M.same
  undefined : N.undefined = M.undefined

theorem runEnumMembers_follows {ms : List EnumMember}
    (h : ∀ x ∈ ms.flatMap EnumMember.acts, x.Follows R M N) :
    Follows R (runEnumMembers M ms) (runEnumMembers N ms) := by
  induction ms with
  | nil => exact ends_follows _
  | cons m ms ih =>
    simp only [List.flatMap_cons, List.mem_append, or_imp, forall_and] at h
    obtain ⟨name, init⟩ := m
    cases init with
    | none => exact ih h.2
    | some e => exact (h.1 (.eval e) (by simp [EnumMember.acts])).after fun _ => ih h.2

theorem runClass_follows {name : Option Ident} {c : Class}
    (h : ∀ x ∈ Class.acts name c, x.Follows R M N) :
    Follows R (runClass M name c) (runClass N name c) := by
  refine Follows.after (h (.eval _) (by simp [Class.acts])) fun v => ?_
  cases name with
  | none => exact ends_follows _
  | some id =>
    exact (h (.bind _) (by simp [Class.acts]) (some .let) v).after fun _ => ends_follows _

theorem bindHead_follows (h : ∀ x ∈ head.acts, x.Follows R M N) (v : V) :
    Follows R (bindHead M v head) (bindHead N v head) := by
  have hskip : Follows R (fun a (r : Answer V Unit) b => r = .value () ∧ b = a)
      (fun a r b => r = .value () ∧ b = a) := by
    rintro a a' r b haa ⟨rfl, rfl⟩
    exact ⟨a', ⟨rfl, rfl⟩, haa⟩
  match head with
  | .var (.mk kind (.mk target init _ :: _)) =>
    exact h (.bind target) (by cases init <;> simp [ForHead.acts, VarDecl.acts, Declarator.acts]) _ v
  | .var (.mk _ []) => exact hskip
  | .expr _ => exact hskip
  | .absent => exact hskip
  | .pat p => exact h (.bind p) (by simp [ForHead.acts]) _ v

section Code

variable (hMN : M.Alike R N)

include hMN

theorem runDeclarators_follows {kind : VarKind} {ds : List Declarator}
    (h : ∀ x ∈ ds.flatMap Declarator.acts, x.Follows R M N) :
    Follows R (runDeclarators M kind ds) (runDeclarators N kind ds) := by
  induction ds with
  | nil => exact ends_follows _
  | cons d ds ih =>
    simp only [List.flatMap_cons, List.mem_append, or_imp, forall_and] at h
    obtain ⟨target, init, definite⟩ := d
    cases init with
    | some e =>
      simp only [Declarator.acts, List.mem_cons, List.not_mem_nil, or_false, forall_eq_or_imp,
        forall_eq] at h
      exact h.1.1.after fun v => (h.1.2 _ v).after fun _ => ih h.2
    | none =>
      simp only [Declarator.acts, List.mem_singleton, forall_eq] at h
      simp only [runDeclarators, hMN.undefined]
      split
      · exact ih h.2
      · exact (h.1 _ _).after fun _ => ih h.2

theorem runVarDecl_follows {d : VarDecl} (h : ∀ x ∈ d.acts, x.Follows R M N) :
    Follows R (runVarDecl M d) (runVarDecl N d) := by
  obtain ⟨kind, ds⟩ := d
  exact runDeclarators_follows hMN h

theorem runDecl_follows : ∀ d : Decl, (∀ x ∈ d.acts, x.Follows R M N) →
    Follows R (runDecl M d) (runDecl N d)
  | .func .., _ | .iface _, _ | .typeAlias .., _ => ends_follows _
  | .cls .., h => runClass_follows h
  | .var _, h => runVarDecl_follows hMN h
  | .enum .., h => runEnumMembers_follows h
  | .ambient d, h => runDecl_follows d h

theorem runHead_follows (h : ∀ x ∈ head.acts, x.Follows R M N) :
    Follows R (runHead M head) (runHead N head) := by
  cases head with
  | var d => exact runVarDecl_follows hMN h
  | expr e => exact (h (.eval e) (by simp [ForHead.acts])).after fun _ => ends_follows _
  | absent => exact ends_follows _
  | pat p => exact ends_follows _

theorem startHead_follows (h : ∀ x ∈ head.acts, x.Follows R M N) :
    Follows R (startHead M head) (startHead N head) := by
  cases head with
  | var d =>
    obtain ⟨kind, ds⟩ := d
    exact runDeclarators_follows hMN h
  | expr e => exact ends_follows _
  | absent => exact ends_follows _
  | pat p => exact ends_follows _

theorem Follows.branch {x x' : ω → ρ → ω → Prop} {y y' : ω' → ρ → ω' → Prop} (hx : Follows R x y)
    (hx' : Follows R x' y') {v : V} :
    Follows R (if M.truthy v then x else x') (if N.truthy v then y else y') := by
  rw [hMN.truthy]
  split
  · exact hx
  · exact hx'

theorem elementTurn_follows {labels : List String} (h : ∀ x ∈ head.acts, x.Follows R M N)
    (hd : Follows R d d') (v : V) :
    Follows R (elementTurn M labels head d v) (elementTurn N labels head d' v) := by
  refine (hMN.next v).turnAfter fun element => ?_
  cases element with
  | none => exact leave_follows
  | some u => exact (bindHead_follows h u).turnAfter fun _ => hd.body labels again_follows

theorem forTest_follows {test : Option Expr} {k : Turn ω V}
    (h : ∀ x ∈ (test.map Act.eval).toList, x.Follows R M N) (hk : Follows R k k') :
    Follows R (forTest M test k) (forTest N test k') := by
  cases test with
  | none => exact hk
  | some e => exact Follows.turnAfter (h (.eval e) (by simp)) fun _ => .branch hMN hk leave_follows

end Code

mutual

theorem run_follows (hMN : M.Alike R N) {labels : List String} : ∀ s : Stmt,
    (∀ x ∈ s.acts, x.Follows R M N) → Follows R (run M labels s) (run N labels s)
  | .expr e, h | .return (some e), h | .throw e, h | .exportDefaultExpr e, h =>
    (h (.eval e) (by simp [Stmt.acts])).after fun _ => ends_follows _
  | .block body, h | .try body none none, h => runList_follows hMN body h
  | .empty, _ | .debugger, _ | .return none, _ | .break _, _ | .continue _, _ => ends_follows _
  | .with obj body, h => by
    simp only [Stmt.acts, List.forall_mem_cons] at h
    exact h.1.after fun _ => run_follows hMN body h.2
  | .labelled _ body, h => (run_follows hMN body h).absorbing _
  | .ite test yes none, h => by
    simp only [Stmt.acts, List.forall_mem_cons] at h
    exact h.1.after fun _ => .branch hMN (run_follows hMN yes h.2) (ends_follows _)
  | .ite test yes (some no), h => by
    simp only [Stmt.acts, List.forall_mem_cons, List.forall_mem_append] at h
    exact h.1.after fun _ => .branch hMN (run_follows hMN yes h.2.1) (run_follows hMN no h.2.2)
  | .switch disc cases, h => by
    simp only [Stmt.acts, List.forall_mem_cons] at h
    exact h.1.after fun v =>
      (runChosen_follows hMN cases h.2 (runDefault_follows hMN cases h.2)).absorbing _
  | .try body (some c) none, h => by
    simp only [Stmt.acts, List.forall_mem_append] at h
    exact (runList_follows hMN body h.1).handling (runCatch_follows hMN c h.2)
  | .try body none (some f), h => by
    simp only [Stmt.acts, List.forall_mem_append] at h
    exact (runList_follows hMN body h.1).finalizing (runList_follows hMN f h.2)
  | .try body (some c) (some f), h => by
    simp only [Stmt.acts, List.forall_mem_append] at h
    exact ((runList_follows hMN body h.1.1).handling (runCatch_follows hMN c h.1.2)).finalizing
      (runList_follows hMN f h.2)
  | .while test body, h => by
    simp only [Stmt.acts, List.forall_mem_cons] at h
    exact Follows.looping (h.1.turnAfter fun _ =>
      .branch hMN ((run_follows hMN body h.2).body labels again_follows) leave_follows)
  | .doWhile body test, h => by
    simp only [Stmt.acts, List.forall_mem_cons] at h
    exact Follows.looping ((run_follows hMN body h.2).body labels
      (h.1.turnAfter fun _ => .branch hMN again_follows leave_follows))
  | .for init test step body, h => by
    simp only [Stmt.acts, List.forall_mem_append] at h
    obtain ⟨⟨⟨hinit, htest⟩, hstep⟩, hbody⟩ := h
    have hturn : Follows R (forStep M step) (forStep N step) := by
      cases step with
      | none => exact again_follows
      | some e => exact Follows.turnAfter (hstep (.eval e) (by simp)) fun _ => again_follows
    exact (runHead_follows hMN hinit).andThen
      (forTest_follows hMN htest ((run_follows hMN body hbody).body labels hturn)).looping
  | .forIn head obj body, h | .forOf _ head obj body, h => by
    simp only [Stmt.acts, List.forall_mem_cons, List.forall_mem_append] at h
    exact (startHead_follows hMN h.2.1).andThen (h.1.after fun v =>
      (elementTurn_follows hMN h.2.1 (run_follows hMN body h.2.2) v).looping)
  | .decl d, h | .exportDecl d, h => runDecl_follows hMN d h
  | .importDecl .., _ | .exportNamed .., _ | .exportAll .., _ | .exportDefaultFunc .., _
  | .exportDefaultInterface _, _ => ends_follows _
  | .exportDefaultClass _ _, h => runClass_follows h

theorem runList_follows (hMN : M.Alike R N) {labels : List String} : ∀ ss : List Stmt,
    (∀ x ∈ stmtsActs ss, x.Follows R M N) → Follows R (runList M labels ss) (runList N labels ss)
  | [], _ => ends_follows _
  | s :: ss, h => by
    simp only [stmtsActs, List.forall_mem_append] at h
    exact (run_follows hMN s h.1).andThen (runList_follows hMN ss h.2)

theorem runCatch_follows (hMN : M.Alike R N) {labels : List String} : ∀ c : Catch,
    (∀ x ∈ c.acts, x.Follows R M N) → ∀ v, Follows R (runCatch M labels c v) (runCatch N labels c v)
  | .mk none body, h, _ => runList_follows hMN body h
  | .mk (some p) body, h, v => by
    simp only [Catch.acts, List.forall_mem_cons] at h
    exact (h.1 _ v).after fun _ => runList_follows hMN body h.2

theorem runClauses_follows (hMN : M.Alike R N) {labels : List String} : ∀ cs : List Case,
    (∀ x ∈ casesActs cs, x.Follows R M N) →
      Follows R (runClauses M labels cs) (runClauses N labels cs)
  | [], _ => ends_follows _
  | .mk none body :: rest, h => by
    simp only [casesActs, List.forall_mem_append] at h
    exact (runList_follows hMN body h.1).andThen (runClauses_follows hMN rest h.2)
  | .mk (some _) body :: rest, h => by
    simp only [casesActs, List.forall_mem_cons, List.forall_mem_append] at h
    exact (runList_follows hMN body h.2.1).andThen (runClauses_follows hMN rest h.2.2)

theorem runDefault_follows (hMN : M.Alike R N) {labels : List String} : ∀ cs : List Case,
    (∀ x ∈ casesActs cs, x.Follows R M N) →
      Follows R (runDefault M labels cs) (runDefault N labels cs)
  | [], _ => ends_follows _
  | .mk none body :: rest, h => by
    simp only [casesActs, List.forall_mem_append] at h
    exact (runList_follows hMN body h.1).andThen (runClauses_follows hMN rest h.2)
  | .mk (some _) _ :: rest, h => by
    simp only [casesActs, List.forall_mem_cons, List.forall_mem_append] at h
    exact runDefault_follows hMN rest h.2.2

theorem runChosen_follows (hMN : M.Alike R N) {labels : List String} {v : V} {d : Behaviour ω V}
    {d' : Behaviour ω' V} : ∀ cs : List Case, (∀ x ∈ casesActs cs, x.Follows R M N) →
      Follows R d d' → Follows R (runChosen M labels v d cs) (runChosen N labels v d' cs)
  | [], _, hd => hd
  | .mk none body :: rest, h, hd => by
    simp only [casesActs, List.forall_mem_append] at h
    exact runChosen_follows hMN rest h.2 hd
  | .mk (some e) body :: rest, h, hd => by
    simp only [casesActs, List.forall_mem_cons, List.forall_mem_append] at h
    refine h.1.after fun t => ?_
    rw [hMN.same]
    split
    · exact (runList_follows hMN body h.2.1).andThen (runClauses_follows hMN rest h.2.2)
    · exact runChosen_follows hMN rest h.2.2 hd

end

def Body.acts : Body → List Act
  | .absent => []
  | .expr e => [.eval e]
  | .block stmts => stmtsActs stmts

theorem runBody_follows (hMN : M.Alike R N) : ∀ b : Body, (∀ x ∈ b.acts, x.Follows R M N) →
    Follows R (runBody M b) (runBody N b)
  | .absent, _ => ends_follows _
  | .expr e, h => (h (.eval e) (by simp [Body.acts])).after fun _ => ends_follows _
  | .block stmts, h => runList_follows hMN stmts h

/-! ### Two runs that follow each other -/

def Matches (R : ω → ω' → Prop) (x : ω → ρ → ω → Prop) (y : ω' → ρ → ω' → Prop) : Prop :=
  Untangle.Follows R x y ∧ Untangle.Follows (fun a' a => R a a') y x

/-- Each of two machines can follow the other through an act. -/
def Act.Matches (R : ω → ω' → Prop) (M : Machine ω V) (N : Machine ω' V) (x : Act) : Prop :=
  x.Follows R M N ∧ x.Follows (fun a' a => R a a') N M

/-- Two machines that take values for the same and can follow each other from element to element. -/
structure Machine.Matching (R : ω → ω' → Prop) (M : Machine ω V) (N : Machine ω' V) : Prop where
  next : ∀ v, Untangle.Matches R (M.next v) (N.next v)
  truthy : N.truthy = M.truthy
  same : N.same = M.same
  undefined : N.undefined = M.undefined

theorem Machine.Matching.alike (h : M.Matching R N) : M.Alike R N :=
  ⟨fun v => (h.next v).1, h.truthy, h.same, h.undefined⟩

theorem Machine.Matching.alike_back (h : M.Matching R N) : N.Alike (fun a' a => R a a') M :=
  ⟨fun v => (h.next v).2, h.truthy.symm, h.same.symm, h.undefined.symm⟩

theorem runList_matches (hMN : M.Matching R N) {labels : List String} {ss : List Stmt}
    (h : ∀ x ∈ stmtsActs ss, x.Matches R M N) :
    Matches R (runList M labels ss) (runList N labels ss) :=
  ⟨runList_follows hMN.alike ss fun x hx => (h x hx).1,
    runList_follows hMN.alike_back ss fun x hx => (h x hx).2⟩

theorem runBody_matches (hMN : M.Matching R N) {b : Body} (h : ∀ x ∈ b.acts, x.Matches R M N) :
    Matches R (runBody M b) (runBody N b) :=
  ⟨runBody_follows hMN.alike b fun x hx => (h x hx).1,
    runBody_follows hMN.alike_back b fun x hx => (h x hx).2⟩

end Follows

end Untangle
