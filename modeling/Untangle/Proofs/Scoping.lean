import Untangle.Proofs.LiftedNames

/-!
# What names refer to

A name refers to the innermost scope around it that declares it. The scopes of a program form a tree
with the occurrences of names in it; a program whose occurrences carry the tags of their variables
is well bound if each of them finds its tag in this way, from its spelling alone.

Functions, blocks, loop heads, cases, catch clauses and the names of function and class expressions
have scopes. Parameters see each other, and the body of a function sees them and its own names. A
branch or body of a statement that is no block has a scope of its own. A name that is declared, as a
variable, parameter, function or class, is no occurrence but listed with its scope. Labels, names in
types and keys belong to no scope.

* `Program.scopes`, `Program.WellBound` — the tree, and what is asked of it.
-/

namespace Untangle

/-! ### Trees of scopes -/

/-- A scope, or an occurrence of a name. -/
inductive ScopeTree
  /-- An occurrence that declares nothing; `isRead` where it stands as an expression. -/
  | occurs (isRead : Bool) (id : Ident)
  /-- What a scope declares, the parts that see it, what it declares besides, and the parts that see
  all of this. -/
  | scope (declared : List Ident) (head : List ScopeTree) (added : List Ident)
    (body : List ScopeTree)

/-- A scope all of whose parts see all that it declares. -/
def ScopeTree.block (declared : List Ident) (parts : List ScopeTree) : ScopeTree :=
  .scope declared parts [] []

/-- The tag of the variable that each name refers to. -/
abbrev Scoping := String → ScopeTag

def Scoping.outside : Scoping := fun _ => .free

/-- What names refer to inside a scope. -/
def Scoping.within (env : Scoping) (declared : List Ident) : Scoping := fun x =>
  match declared.find? fun d => d.name == x with
  | some d => d.scope
  | none => env x

/-- What is left out of account: a name wherever it stands, or one variable. -/
inductive Waiver
  | name (x : String)
  | binding (b : Binding)
  deriving DecidableEq

/-- Whether the occurrences of a name with some tag are left out of account. -/
def Waives (N : List Waiver) (x : String) (t : ScopeTag) : Prop :=
  .name x ∈ N ∨ .binding { name := x, scope := t } ∈ N

instance (N : List Waiver) (x : String) (t : ScopeTag) : Decidable (Waives N x t) :=
  inferInstanceAs (Decidable (_ ∨ _))

/-- Some declarations have the tags that their names refer to. -/
def Scoping.Declares (N : List Waiver) (env : Scoping) (ids : List Ident) : Prop :=
  ∀ d ∈ ids, .name d.name ∈ N ∨ env d.name = d.scope

mutual

/-- Every occurrence and every declaration has the tag that its name refers to, or is left out of
account. -/
def ScopeTree.Right (N : List Waiver) (env : Scoping) : ScopeTree → Prop
  | .occurs _ id => Waives N id.name id.scope ∨ env id.name = id.scope
  | .scope declared head added body =>
    (env.within declared).Declares N declared ∧ rightOf N (env.within declared) head ∧
      ((env.within declared).within added).Declares N added ∧
      rightOf N ((env.within declared).within added) body

def ScopeTree.rightOf (N : List Waiver) (env : Scoping) : List ScopeTree → Prop
  | [] => True
  | t :: ts => Right N env t ∧ rightOf N env ts

end

mutual

/-- The occurrences of names, and whether each stands as an expression. -/
def ScopeTree.occurrences : ScopeTree → List (Bool × Ident)
  | .occurs isRead id => [(isRead, id)]
  | .scope _ head _ body => occurrencesOf head ++ occurrencesOf body

def ScopeTree.occurrencesOf : List ScopeTree → List (Bool × Ident)
  | [] => []
  | t :: ts => occurrences t ++ occurrencesOf ts

end

mutual

def ScopeTree.declarations : ScopeTree → List Ident
  | .occurs .. => []
  | .scope declared head added body =>
    declared ++ declarationsOf head ++ added ++ declarationsOf body

def ScopeTree.declarationsOf : List ScopeTree → List Ident
  | [] => []
  | t :: ts => declarations t ++ declarationsOf ts

end

mutual

/-- Something holds of every occurrence and of what names refer to at its place. -/
def ScopeTree.Everywhere (P : Scoping → Bool × Ident → Prop) (env : Scoping) : ScopeTree → Prop
  | .occurs isRead id => P env (isRead, id)
  | .scope declared head added body =>
    everywhereOf P (env.within declared) head ∧
      everywhereOf P ((env.within declared).within added) body

def ScopeTree.everywhereOf (P : Scoping → Bool × Ident → Prop) (env : Scoping) :
    List ScopeTree → Prop
  | [] => True
  | t :: ts => Everywhere P env t ∧ everywhereOf P env ts

end

namespace ScopeTree

variable {N : List Waiver} {env env' : Scoping} {ids : List Ident}

@[simp] theorem rightOf_nil : rightOf N env [] ↔ True := Iff.rfl

@[simp] theorem rightOf_cons (t : ScopeTree) (ts : List ScopeTree) :
    rightOf N env (t :: ts) ↔ t.Right N env ∧ rightOf N env ts := Iff.rfl

@[simp] theorem rightOf_append (ts us : List ScopeTree) :
    rightOf N env (ts ++ us) ↔ rightOf N env ts ∧ rightOf N env us := by
  induction ts with
  | nil => simp
  | cons t ts ih => simp [ih, and_assoc]

@[simp] theorem occurrencesOf_append (ts us : List ScopeTree) :
    occurrencesOf (ts ++ us) = occurrencesOf ts ++ occurrencesOf us := by
  induction ts with
  | nil => rfl
  | cons t ts ih => rw [List.cons_append, occurrencesOf, ih, occurrencesOf, List.append_assoc]

@[simp] theorem declarationsOf_append (ts us : List ScopeTree) :
    declarationsOf (ts ++ us) = declarationsOf ts ++ declarationsOf us := by
  induction ts with
  | nil => rfl
  | cons t ts ih => rw [List.cons_append, declarationsOf, ih, declarationsOf, List.append_assoc]

@[simp] theorem everywhereOf_append {P : Scoping → Bool × Ident → Prop} (ts us : List ScopeTree) :
    everywhereOf P env (ts ++ us) ↔ everywhereOf P env ts ∧ everywhereOf P env us := by
  induction ts with
  | nil => simp [everywhereOf]
  | cons t ts ih => simp [everywhereOf, ih, and_assoc]

theorem right_block (declared : List Ident) (parts : List ScopeTree) :
    (block declared parts).Right N env ↔
      (env.within declared).Declares N declared ∧ rightOf N (env.within declared) parts := by
  simp [block, Right, Scoping.Declares]

instance (N : List Waiver) (env : Scoping) (ids : List Ident) : Decidable (env.Declares N ids) :=
  inferInstanceAs (Decidable (∀ d ∈ ids, _ ∨ _))

mutual

def decRight (N : List Waiver) (env : Scoping) : ∀ t : ScopeTree, Decidable (t.Right N env)
  | .occurs _ _ => inferInstanceAs (Decidable (_ ∨ _))
  | .scope declared head added body =>
    have := decRightOf N (env.within declared) head
    have := decRightOf N ((env.within declared).within added) body
    inferInstanceAs (Decidable (_ ∧ _ ∧ _ ∧ _))

def decRightOf (N : List Waiver) (env : Scoping) : ∀ ts : List ScopeTree,
    Decidable (rightOf N env ts)
  | [] => isTrue trivial
  | t :: ts =>
    have := decRight N env t
    have := decRightOf N env ts
    inferInstanceAs (Decidable (_ ∧ _))

end

instance (N : List Waiver) (env : Scoping) (t : ScopeTree) : Decidable (t.Right N env) :=
  decRight N env t

section Everywhere

variable {P Q : Scoping → Bool × Ident → Prop}

mutual

def decEverywhere [∀ env o, Decidable (P env o)] (env : Scoping) :
    ∀ t : ScopeTree, Decidable (t.Everywhere P env)
  | .occurs isRead id => inferInstanceAs (Decidable (P env (isRead, id)))
  | .scope declared head added body =>
    have := decEverywhereOf (env.within declared) head
    have := decEverywhereOf ((env.within declared).within added) body
    inferInstanceAs (Decidable (_ ∧ _))

def decEverywhereOf [∀ env o, Decidable (P env o)] (env : Scoping) :
    ∀ ts : List ScopeTree, Decidable (everywhereOf P env ts)
  | [] => isTrue trivial
  | t :: ts =>
    have := decEverywhere env t
    have := decEverywhereOf env ts
    inferInstanceAs (Decidable (_ ∧ _))

end

instance [∀ env o, Decidable (P env o)] (env : Scoping) (t : ScopeTree) :
    Decidable (t.Everywhere P env) := decEverywhere env t

mutual

theorem Everywhere.imp : ∀ (t : ScopeTree) {env : Scoping},
    (∀ o ∈ t.occurrences, ∀ env, P env o → Q env o) → t.Everywhere P env → t.Everywhere Q env
  | .occurs _ _, _, h, hP => h _ (List.mem_singleton_self _) _ hP
  | .scope _ head _ body, _, h, ⟨hhead, hbody⟩ =>
    ⟨everywhereOf_imp head (fun o ho => h o (List.mem_append_left _ ho)) hhead,
      everywhereOf_imp body (fun o ho => h o (List.mem_append_right _ ho)) hbody⟩

theorem everywhereOf_imp : ∀ (ts : List ScopeTree) {env : Scoping},
    (∀ o ∈ occurrencesOf ts, ∀ env, P env o → Q env o) → everywhereOf P env ts →
    everywhereOf Q env ts
  | [], _, _, _ => trivial
  | t :: ts, _, h, ⟨ht, hts⟩ =>
    ⟨Everywhere.imp t (fun o ho => h o (List.mem_append_left _ ho)) ht,
      everywhereOf_imp ts (fun o ho => h o (List.mem_append_right _ ho)) hts⟩

end

mutual

theorem Everywhere.exists_of_mem {o : Bool × Ident} : ∀ (t : ScopeTree) {env : Scoping},
    t.Everywhere P env → o ∈ t.occurrences → ∃ env', P env' o
  | .occurs _ _, env, h, ho => ⟨env, List.mem_singleton.1 ho ▸ h⟩
  | .scope _ head _ body, _, ⟨hhead, hbody⟩, ho =>
    (List.mem_append.1 ho).elim (everywhereOf_exists_of_mem head hhead)
      (everywhereOf_exists_of_mem body hbody)

theorem everywhereOf_exists_of_mem {o : Bool × Ident} : ∀ (ts : List ScopeTree) {env : Scoping},
    everywhereOf P env ts → o ∈ occurrencesOf ts → ∃ env', P env' o
  | t :: ts, _, ⟨ht, hts⟩, ho =>
    (List.mem_append.1 ho).elim (Everywhere.exists_of_mem t ht) (everywhereOf_exists_of_mem ts hts)

end

end Everywhere

end ScopeTree

/-! ### Places that see the same -/

namespace Scoping

variable {N : List Waiver} {env env' : Scoping} {ids : List Ident}

theorem within_of_not_mem {x : String} (h : x ∉ ids.map Ident.name) : env.within ids x = env x := by
  have hnone : ids.find? (fun d => d.name == x) = none := by
    rw [List.find?_eq_none]
    intro d hd hname
    exact h (List.mem_map.2 ⟨d, hd, eq_of_beq hname⟩)
  simp [within, hnone]

/-- A name that a scope declares refers to one of its declarations, whatever is around the scope. -/
theorem exists_within {x : String} (h : x ∈ ids.map Ident.name) :
    ∃ d ∈ ids, d.name = x ∧ ∀ env : Scoping, env.within ids x = d.scope := by
  cases hd : ids.find? fun d => d.name == x with
  | none =>
    obtain ⟨d, hmem, rfl⟩ := List.mem_map.1 h
    exact absurd (beq_self_eq_true d.name) (List.find?_eq_none.1 hd d hmem)
  | some d =>
    have hname := List.find?_some hd
    exact ⟨d, List.mem_of_find?_eq_some hd, eq_of_beq hname, fun env => by simp [within, hd]⟩

/-- Names refer to the same at two places, or what they refer to at the first is left out of
account. -/
def Close (N : List Waiver) (env env' : Scoping) : Prop :=
  ∀ x, Waives N x (env x) ∨ env x = env' x

theorem Close.refl (env : Scoping) : Close N env env := fun _ => .inr rfl

theorem Close.within (h : Close N env env') (ids : List Ident) :
    Close N (env.within ids) (env'.within ids) := by
  intro x
  by_cases hx : x ∈ ids.map Ident.name
  · obtain ⟨d, -, -, hd⟩ := exists_within hx
    exact .inr ((hd env).trans (hd env').symm)
  · rw [within_of_not_mem hx, within_of_not_mem hx]
    exact h x

theorem Declares.within (h : (env.within ids).Declares N ids) :
    (env'.within ids).Declares N ids := by
  intro d hd
  obtain ⟨e, -, -, he⟩ := exists_within (List.mem_map_of_mem hd)
  exact (h d hd).imp_right fun hright => by rw [he] at hright ⊢; exact hright

end Scoping

namespace ScopeTree

open Scoping (Close)

variable {N : List Waiver}

mutual

theorem Right.close : ∀ (t : ScopeTree) {env env' : Scoping}, Close N env env' → t.Right N env →
    t.Right N env'
  | .occurs _ id, env, env', henv, h => by
    rcases h with hwaived | hright
    · exact .inl hwaived
    · exact (henv id.name).imp (fun hwaived => hright ▸ hwaived) fun heq => heq.symm.trans hright
  | .scope declared head added body, _, _, henv, ⟨hdeclared, hhead, hadded, hbody⟩ =>
    ⟨hdeclared.within, rightOf_close head (henv.within _) hhead, hadded.within,
      rightOf_close body ((henv.within _).within _) hbody⟩

theorem rightOf_close : ∀ (ts : List ScopeTree) {env env' : Scoping}, Close N env env' →
    rightOf N env ts → rightOf N env' ts
  | [], _, _, _, _ => trivial
  | t :: ts, _, _, henv, ⟨ht, hts⟩ => ⟨Right.close t henv ht, rightOf_close ts henv hts⟩

end

mutual

theorem Right.mono {M : List Waiver} (hN : N ⊆ M) : ∀ (t : ScopeTree) {env : Scoping},
    t.Right N env → t.Right M env
  | .occurs _ _, _, h => h.imp_left (Or.imp (@hN _) (@hN _))
  | .scope _ head _ body, _, ⟨hdeclared, hhead, hadded, hbody⟩ =>
    ⟨fun d hd => (hdeclared d hd).imp_left (@hN _), rightOf_mono hN head hhead,
      fun d hd => (hadded d hd).imp_left (@hN _), rightOf_mono hN body hbody⟩

theorem rightOf_mono {M : List Waiver} (hN : N ⊆ M) : ∀ (ts : List ScopeTree) {env : Scoping},
    rightOf N env ts → rightOf M env ts
  | [], _, _ => trivial
  | t :: ts, _, ⟨ht, hts⟩ => ⟨Right.mono hN t ht, rightOf_mono hN ts hts⟩

end

end ScopeTree

/-! ### What a block declares -/

def VarDecl.direct : VarDecl → List Ident
  | .mk kind decls => if kind = .var then [] else decls.flatMap Declarator.bound

/-- What a declaration declares for the block that it stands in. -/
def Decl.direct (own : String → Bool) : Decl → List Ident
  | .func name _ => if own name.name then [name] else []
  | .cls name _ => [name]
  | .var d => d.direct
  | .enum _ name _ => [name]
  | .ambient d => d.direct own
  | .iface _ | .typeAlias .. => []

def Stmt.direct (own : String → Bool) : Stmt → List Ident
  | .decl d => d.direct own
  | .exportDecl d => d.direct own
  | .importDecl _ items _ _ => items.map ImportItem.binding
  | .exportDefaultFunc (some name) _ => [name]
  | .exportDefaultClass (some name) _ => [name]
  | _ => []

def directOf (own : String → Bool) (ss : List Stmt) : List Ident := ss.flatMap (Stmt.direct own)

def ForHead.direct : ForHead → List Ident
  | .var d => d.direct
  | _ => []

/-- What the cases of a switch declare, which share one block. -/
def directOfCases (own : String → Bool) (cs : List Case) : List Ident :=
  cs.flatMap fun
    | .mk _ body => directOf own body

/-- What the statements of a function or program declare for it. -/
def declaredIn (own : String → Bool) (ss : List Stmt) : List Ident :=
  directOf own ss ++ liftedOf own ss

def Body.declared (own : String → Bool) : Body → List Ident
  | .block ss => declaredIn own ss
  | _ => []

def enumNames (ms : List EnumMember) : List Ident :=
  ms.filterMap fun
    | .mk (.ident id) _ => some id
    | .mk (.str _) _ => none

/-! ### The scopes of syntax -/

open ScopeTree (block)

def scopesModuleName : ModuleName → List ScopeTree
  | .ident id => [.occurs false id]
  | .str _ => []

/-- Only the near names of exports refer to anything. -/
def scopesExports (items : List ExportItem) : List ScopeTree :=
  items.flatMap fun
    | .named _ item _ => scopesModuleName item
    | .namespace _ => []
    | .default name => [.occurs false name]

mutual

def scopesExpr (own : String → Bool) : Expr → List ScopeTree
  | .ident id => [.occurs true id]
  | .array elems => scopesExprs own elems
  | .object props => scopesProperties own props
  | .func none f => scopesFunc own f
  | .func (some name) f => [block [name] (scopesFunc own f)]
  | .arrow f => scopesFunc own f
  | .cls none c => scopesClass own c
  | .cls (some name) c => [block [name] (scopesClass own c)]
  | .unary _ arg => scopesExpr own arg
  | .update _ _ arg => scopesExpr own arg
  | .binary _ left right => scopesExpr own left ++ scopesExpr own right
  | .assign _ target value => scopesTarget own target ++ scopesExpr own value
  | .cond test yes no => scopesExpr own test ++ scopesExpr own yes ++ scopesExpr own no
  | .seq exprs => scopesExprs own exprs
  | .member obj prop => scopesExpr own obj ++ scopesAccess own prop
  | .superMember prop => scopesAccess own prop
  | .call callee args => scopesExpr own callee ++ scopesExprs own args
  | .superCall args => scopesExprs own args
  | .importCall args => scopesExprs own args
  | .new callee none => scopesExpr own callee
  | .new callee (some args) => scopesExpr own callee ++ scopesExprs own args
  | .chainMember _ obj prop => scopesExpr own obj ++ scopesAccess own prop
  | .chainCall _ callee args => scopesExpr own callee ++ scopesExprs own args
  | .template _ exprs => scopesExprs own exprs
  | .tagged tag _ exprs => scopesExpr own tag ++ scopesExprs own exprs
  | .yield _ none => []
  | .yield _ (some e) => scopesExpr own e
  | .await arg => scopesExpr own arg
  | .paren e => scopesExpr own e
  | .spread e => scopesExpr own e
  | .typed _ e _ => scopesExpr own e
  | .typeAssert _ e => scopesExpr own e
  | .nonNull e => scopesExpr own e
  | .this | .lit _ | .hole | .newTarget | .importMeta | .privateName _ | .placeholder => []

def scopesExprs (own : String → Bool) : List Expr → List ScopeTree
  | [] => []
  | e :: es => scopesExpr own e ++ scopesExprs own es

def scopesProperty (own : String → Bool) : Property → List ScopeTree
  | .shorthand id => [.occurs false id]
  | .keyValue key value => scopesKey own key ++ scopesExpr own value
  | .initialized id value => .occurs false id :: scopesExpr own value
  | .getter key body =>
    scopesKey own key ++ [.scope [] [] (declaredIn own body) (scopesOf own body)]
  | .setter key param body =>
    scopesKey own key ++
      [.scope param.bound (scopesPat own true param) (declaredIn own body) (scopesOf own body)]
  | .method key f => scopesKey own key ++ scopesFunc own f
  | .spread e => scopesExpr own e

def scopesProperties (own : String → Bool) : List Property → List ScopeTree
  | [] => []
  | p :: ps => scopesProperty own p ++ scopesProperties own ps

def scopesKey (own : String → Bool) : PropName → List ScopeTree
  | .computed e => scopesExpr own e
  | .name _ | .str _ | .num _ | .bigint _ | .privateName _ => []

def scopesAccess (own : String → Bool) : MemberProp → List ScopeTree
  | .computed e => scopesExpr own e
  | .name _ | .privateName _ => []

def scopesTarget (own : String → Bool) : AssignTarget → List ScopeTree
  | .name b => [.occurs false b.id]
  | .member obj prop => scopesExpr own obj ++ scopesAccess own prop
  | .superMember prop => scopesAccess own prop
  | .paren e => scopesExpr own e
  | .chain e => scopesExpr own e
  | .typed e => scopesExpr own e
  | .pattern p => scopesPat own false p

/-- A pattern whose names are declared or assigned. -/
def scopesPat (own : String → Bool) (binds : Bool) : Pat → List ScopeTree
  | .name b => if binds then [] else [.occurs false b.id]
  | .array elems _ => scopesPats own binds elems
  | .object props _ => scopesPatProps own binds props
  | .rest p _ => scopesPat own binds p
  | .assign left right => scopesPat own binds left ++ scopesExpr own right
  | .expr e => scopesExpr own e
  | .field _ _ p => scopesPat own binds p
  | .hole | .invalid => []

def scopesPats (own : String → Bool) (binds : Bool) : List Pat → List ScopeTree
  | [] => []
  | p :: ps => scopesPat own binds p ++ scopesPats own binds ps

def scopesPatProp (own : String → Bool) (binds : Bool) : PatProp → List ScopeTree
  | .keyValue key value => scopesKey own key ++ scopesPat own binds value
  | .assign b none => if binds then [] else [.occurs false b.id]
  | .assign b (some e) => (if binds then [] else [.occurs false b.id]) ++ scopesExpr own e
  | .rest p => scopesPat own binds p

def scopesPatProps (own : String → Bool) (binds : Bool) : List PatProp → List ScopeTree
  | [] => []
  | p :: ps => scopesPatProp own binds p ++ scopesPatProps own binds ps

def scopesFunc (own : String → Bool) : Func → List ScopeTree
  | .mk _ _ _ params _ body =>
    [.scope (patsBound params) (scopesPats own true params) (body.declared own)
      (scopesBody own body)]

def scopesBody (own : String → Bool) : Body → List ScopeTree
  | .absent => []
  | .expr e => scopesExpr own e
  | .block stmts => scopesOf own stmts

def scopesClass (own : String → Bool) : Class → List ScopeTree
  | .mk _ _ none _ members => scopesMembers own members
  | .mk _ _ (some e) _ members => scopesExpr own e ++ scopesMembers own members

def scopesMember (own : String → Bool) : ClassMember → List ScopeTree
  | .ctor _ key params body =>
    scopesKey own key ++ [.scope (patsBound params) (scopesPats own true params)
      (body.declared own) (scopesBody own body)]
  | .method _ _ key f => scopesKey own key ++ scopesFunc own f
  | .field _ key _ none => scopesKey own key
  | .field _ key _ (some e) => scopesKey own key ++ scopesExpr own e
  | .staticBlock body => [.scope [] [] (declaredIn own body) (scopesOf own body)]
  | .empty => []

def scopesMembers (own : String → Bool) : List ClassMember → List ScopeTree
  | [] => []
  | m :: ms => scopesMember own m ++ scopesMembers own ms

def scopesStmt (own : String → Bool) : Stmt → List ScopeTree
  | .expr e => scopesExpr own e
  | .block body => [block (directOf own body) (scopesOf own body)]
  | .with obj s => scopesExpr own obj ++ [block (s.direct own) (scopesStmt own s)]
  | .return none => []
  | .return (some e) => scopesExpr own e
  | .labelled _ s => [block (s.direct own) (scopesStmt own s)]
  | .ite test yes none => scopesExpr own test ++ [block (yes.direct own) (scopesStmt own yes)]
  | .ite test yes (some no) =>
    scopesExpr own test ++ [block (yes.direct own) (scopesStmt own yes)] ++
      [block (no.direct own) (scopesStmt own no)]
  | .switch disc cases =>
    scopesExpr own disc ++ [block (directOfCases own cases) (scopesCases own cases)]
  | .throw arg => scopesExpr own arg
  | .try body handler finalizer =>
    [block (directOf own body) (scopesOf own body)] ++ (match handler with
      | some c => scopesCatch own c
      | none => []) ++ (match finalizer with
      | some f => [block (directOf own f) (scopesOf own f)]
      | none => [])
  | .while test s => scopesExpr own test ++ [block (s.direct own) (scopesStmt own s)]
  | .doWhile s test => scopesExpr own test ++ [block (s.direct own) (scopesStmt own s)]
  | .for init test step s =>
    [block init.direct (scopesHead own init ++ (match test with
      | some e => scopesExpr own e
      | none => []) ++ (match step with
      | some e => scopesExpr own e
      | none => []) ++ [block (s.direct own) (scopesStmt own s)])]
  | .forIn head obj s =>
    [block head.direct
      (scopesHead own head ++ scopesExpr own obj ++ [block (s.direct own) (scopesStmt own s)])]
  | .forOf _ head obj s =>
    [block head.direct
      (scopesHead own head ++ scopesExpr own obj ++ [block (s.direct own) (scopesStmt own s)])]
  | .decl d => scopesDecl own d
  | .exportDecl d => scopesDecl own d
  | .exportNamed _ items none _ => scopesExports items
  | .exportDefaultExpr e => scopesExpr own e
  | .exportDefaultFunc _ f => scopesFunc own f
  | .exportDefaultClass _ c => scopesClass own c
  | .empty | .debugger | .break _ | .continue _ | .importDecl .. | .exportNamed _ _ (some _) _
  | .exportAll .. | .exportDefaultInterface _ => []

def scopesOf (own : String → Bool) : List Stmt → List ScopeTree
  | [] => []
  | s :: ss => scopesStmt own s ++ scopesOf own ss

def scopesCatch (own : String → Bool) : Catch → List ScopeTree
  | .mk none body => [block [] [block (directOf own body) (scopesOf own body)]]
  | .mk (some p) body =>
    [block p.bound (scopesPat own true p ++ [block (directOf own body) (scopesOf own body)])]

def scopesCases (own : String → Bool) : List Case → List ScopeTree
  | [] => []
  | .mk none body :: rest => scopesOf own body ++ scopesCases own rest
  | .mk (some e) body :: rest => scopesExpr own e ++ scopesOf own body ++ scopesCases own rest

def scopesHead (own : String → Bool) : ForHead → List ScopeTree
  | .absent => []
  | .var d => scopesVarDecl own d
  | .pat p => scopesPat own false p
  | .expr e => scopesExpr own e

def scopesVarDecl (own : String → Bool) : VarDecl → List ScopeTree
  | .mk _ decls => scopesDeclarators own decls

def scopesDeclarators (own : String → Bool) : List Declarator → List ScopeTree
  | [] => []
  | .mk target none _ :: rest => scopesPat own true target ++ scopesDeclarators own rest
  | .mk target (some e) _ :: rest =>
    scopesPat own true target ++ scopesExpr own e ++ scopesDeclarators own rest

def scopesDecl (own : String → Bool) : Decl → List ScopeTree
  | .func _ f => scopesFunc own f
  | .cls _ c => scopesClass own c
  | .var d => scopesVarDecl own d
  | .enum _ _ members => [block (enumNames members) (scopesEnumMembers own members)]
  | .ambient d => scopesDecl own d
  | .iface _ | .typeAlias .. => []

def scopesEnumMembers (own : String → Bool) : List EnumMember → List ScopeTree
  | [] => []
  | .mk _ none :: rest => scopesEnumMembers own rest
  | .mk _ (some e) :: rest => scopesExpr own e ++ scopesEnumMembers own rest

end

def Program.scopes (own : String → Bool) (p : Program) : ScopeTree :=
  .scope [] [] (declaredIn own p.body) (scopesOf own p.body)

/-- Whether every occurrence of a name carries the tag that its spelling refers to, or is left out
of account. -/
def Program.WellBound (own : String → Bool) (N : List Waiver) (p : Program) : Prop :=
  (p.scopes own).Right N .outside

instance (own : String → Bool) (N : List Waiver) (p : Program) : Decidable (p.WellBound own N) :=
  inferInstanceAs (Decidable ((p.scopes own).Right N .outside))

theorem scopesOf_append (own : String → Bool) (ss ts : List Stmt) :
    scopesOf own (ss ++ ts) = scopesOf own ss ++ scopesOf own ts := by
  induction ss with
  | nil => rfl
  | cons s ss ih => rw [List.cons_append, scopesOf, scopesOf, ih, List.append_assoc]

theorem directOf_append (own : String → Bool) (ss ts : List Stmt) :
    directOf own (ss ++ ts) = directOf own ss ++ directOf own ts := List.flatMap_append

theorem scopesOf_singleton (own : String → Bool) (s : Stmt) : scopesOf own [s] = scopesStmt own s :=
  List.append_nil _

theorem directOf_singleton (own : String → Bool) (s : Stmt) : directOf own [s] = s.direct own :=
  List.append_nil _

end Untangle
