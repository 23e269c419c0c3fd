import Untangle.Tree.Edit

/-!
# Walks compared

Facts about edited trees compare walks. Two walks over one tree agree; a walk over what another has
left finds nothing to do; one walk does what two do one after the other. Each goes from the parts of
a node to the node, and so through the tree.

The proofs go through the tree once, one case for each constructor.

* `Edits.Compares` — what is asked of edits; `onProgram` is the result.
-/

namespace Untangle

variable {ρ σ τ : Type}

/-! ### What is asked of edits -/

def editKeyParts (w : Edits σ) : PropName → StateM σ PropName
  | .str s => do return .str (← w.str s)
  | .num n => do return .num (← w.num n)
  | .computed e => do return .computed (← editExpr w e)
  | k => pure k

/-- What follows the object of an access, with its parts edited. -/
def editAccessParts (w : Edits σ) : MemberProp → StateM σ MemberProp
  | .computed e => do return .computed (← editExpr w e)
  | a => pure a

def editVarDeclParts (w : Edits σ) : VarDecl → StateM σ VarDecl
  | .mk kind decls => do return .mk kind (← editDeclarators w decls)

theorem editKey_eq (w : Edits σ) (k : PropName) : editKey w k = editKeyParts w k >>= w.key := by
  cases k <;> rfl

theorem editAccess_eq (w : Edits σ) (a : MemberProp) :
    editAccess w a = editAccessParts w a >>= w.access := by
  cases a <;> rfl

theorem editVarDecl_eq (w : Edits σ) (d : VarDecl) :
    editVarDecl w d = editVarDeclParts w d >>= w.varDecl := by
  cases d
  rfl

/-- A relation that goes from the parts of a node to the node. -/
structure ThroughNodes
    (Q : ∀ {α : Type}, StateM ρ α → StateM σ α → (α → StateM τ α) → Prop) : Prop where
  pure : ∀ {α : Type} {f : α → StateM τ α} {a : α}, f a = pure a → Q (pure a) (pure a) f
  node₁ : ∀ {N α : Type} {c : StateM ρ α} {a : StateM σ α} {g : α → StateM τ α}
    {f : N → StateM τ N} {K : α → N}, Q c a g →
    (fun x => f (K x)) = (fun x => do return K (← g x)) →
    Q (do return K (← c)) (do return K (← a)) f
  both : ∀ {α β : Type} {c₁ : StateM ρ α} {a₁ : StateM σ α} {f₁ : α → StateM τ α}
    {c₂ : StateM ρ β} {a₂ : StateM σ β} {f₂ : β → StateM τ β}, Q c₁ a₁ f₁ → Q c₂ a₂ f₂ →
    Q (do let x ← c₁; return (x, ← c₂)) (do let x ← a₁; return (x, ← a₂))
      fun p => do let x ← f₁ p.1; return (x, ← f₂ p.2)

section Nodes

variable {Q : ∀ {α : Type}, StateM ρ α → StateM σ α → (α → StateM τ α) → Prop}
  {N α β γ δ : Type} {c₁ : StateM ρ α} {a₁ : StateM σ α} {f₁ : α → StateM τ α}
  {c₂ : StateM ρ β} {a₂ : StateM σ β} {f₂ : β → StateM τ β}
  {c₃ : StateM ρ γ} {a₃ : StateM σ γ} {f₃ : γ → StateM τ γ}
  {c₄ : StateM ρ δ} {a₄ : StateM σ δ} {f₄ : δ → StateM τ δ}

theorem ThroughNodes.node₂ (hQ : ThroughNodes Q) {f : N → StateM τ N} {K : α → β → N}
    (h₁ : Q c₁ a₁ f₁) (h₂ : Q c₂ a₂ f₂)
    (hf : (fun x y => f (K x y)) = fun x y => do let x ← f₁ x; return K x (← f₂ y)) :
    Q (do let x ← c₁; return K x (← c₂)) (do let x ← a₁; return K x (← a₂)) f :=
  (hQ.node₁ (K := fun p : α × β => K p.1 p.2) (hQ.both h₁ h₂)
    (funext fun p => congrFun (congrFun hf p.1) p.2) :)

theorem ThroughNodes.node₃ (hQ : ThroughNodes Q) {f : N → StateM τ N} {K : α → β → γ → N}
    (h₁ : Q c₁ a₁ f₁) (h₂ : Q c₂ a₂ f₂) (h₃ : Q c₃ a₃ f₃)
    (hf : (fun x y z => f (K x y z)) = fun x y z => do
      let x ← f₁ x
      let y ← f₂ y
      return K x y (← f₃ z)) :
    Q (do let x ← c₁; let y ← c₂; return K x y (← c₃))
      (do let x ← a₁; let y ← a₂; return K x y (← a₃)) f :=
  (hQ.node₁ (K := fun p : α × β × γ => K p.1 p.2.1 p.2.2) (hQ.both h₁ (hQ.both h₂ h₃))
    (funext fun p => congrFun (congrFun (congrFun hf p.1) p.2.1) p.2.2) :)

theorem ThroughNodes.node₄ (hQ : ThroughNodes Q) {f : N → StateM τ N} {K : α → β → γ → δ → N}
    (h₁ : Q c₁ a₁ f₁) (h₂ : Q c₂ a₂ f₂) (h₃ : Q c₃ a₃ f₃) (h₄ : Q c₄ a₄ f₄)
    (hf : (fun x y z t => f (K x y z t)) = fun x y z t => do
      let x ← f₁ x
      let y ← f₂ y
      let z ← f₃ z
      return K x y z (← f₄ t)) :
    Q (do let x ← c₁; let y ← c₂; let z ← c₃; return K x y z (← c₄))
      (do let x ← a₁; let y ← a₂; let z ← a₃; return K x y z (← a₄)) f :=
  (hQ.node₁ (K := fun p : α × β × γ × δ => K p.1 p.2.1 p.2.2.1 p.2.2.2)
    (hQ.both h₁ (hQ.both h₂ (hQ.both h₃ h₄)))
    (funext fun p => congrFun (congrFun (congrFun (congrFun hf p.1) p.2.1) p.2.2.1) p.2.2.2) :)

end Nodes

/-- Such a relation that all edits of single nodes keep, once it holds of the parts. -/
structure Edits.Compares
    (Q : ∀ {α : Type}, StateM ρ α → StateM σ α → (α → StateM τ α) → Prop)
    (u : Edits ρ) (w : Edits σ) (v : Edits τ) : Prop extends ThroughNodes Q where
  ident : ∀ id, Q (u.ident id) (w.ident id) v.ident
  label : ∀ id, Q (u.label id) (w.label id) v.label
  str : ∀ s, Q (u.str s) (w.str s) v.str
  num : ∀ n, Q (u.num n) (w.num n) v.num
  expr : ∀ e, Q (editParts u e) (editParts w e) (editParts v) →
    Q (editExpr u e) (editExpr w e) (editExpr v)
  base : ∀ e, Q (editParts u e) (editParts w e) (editParts v) →
    Q (do u.base (← editParts u e)) (do w.base (← editParts w e)) fun e => do v.base (← editParts v e)
  arrow : ∀ f, Q (editFunc u f) (editFunc w f) (editFunc v) →
    Q (do u.arrow (← editFunc u f)) (do w.arrow (← editFunc w f)) fun f => do v.arrow (← editFunc v f)
  key : ∀ k, Q (editKeyParts u k) (editKeyParts w k) (editKeyParts v) →
    Q (editKeyParts u k >>= u.key) (editKeyParts w k >>= w.key) fun k => editKeyParts v k >>= v.key
  access : ∀ a, Q (editAccessParts u a) (editAccessParts w a) (editAccessParts v) →
    Q (editAccessParts u a >>= u.access) (editAccessParts w a >>= w.access)
      fun a => editAccessParts v a >>= v.access
  varDecl : ∀ d, Q (editVarDeclParts u d) (editVarDeclParts w d) (editVarDeclParts v) →
    Q (editVarDeclParts u d >>= u.varDecl) (editVarDeclParts w d >>= w.varDecl)
      fun d => editVarDeclParts v d >>= v.varDecl
  single : ∀ s, Q (editStmtParts u s) (editStmtParts w s) (editStmtParts v) →
    Q (do u.single (← editStmtParts u s)) (do w.single (← editStmtParts w s))
      fun s => do v.single (← editStmtParts v s)
  labelled : ∀ s, Q (editStmtParts u s) (editStmtParts w s) (editStmtParts v) →
    Q (do u.labelled (← editStmtParts u s)) (do w.labelled (← editStmtParts w s))
      fun s => do v.labelled (← editStmtParts v s)
  list : ∀ ss, Q (editStmts u ss) (editStmts w ss) (editStmts v) →
    Q (editList u ss) (editList w ss) (editList v)
  -- a name that is key and variable at once is written apart when it changes
  shorthand : ∀ id, Q (editProperty u (.shorthand id)) (editProperty w (.shorthand id))
    (editProperty v)
  assigned : ∀ b e, Q (editBinding u b) (editBinding w b) (editBinding v) →
    Q (editExpr? u e) (editExpr? w e) (editExpr? v) →
    Q (editPatProp u (.assign b e)) (editPatProp w (.assign b e)) (editPatProp v)

namespace Edits.Compares

variable {Q : ∀ {α : Type}, StateM ρ α → StateM σ α → (α → StateM τ α) → Prop} {u : Edits ρ}
  {w : Edits σ} {v : Edits τ} (hw : Edits.Compares Q u w v)

include hw

/-! ### Names, literals and types -/

theorem ofKeyParts {k : PropName} (h : Q (editKeyParts u k) (editKeyParts w k) (editKeyParts v)) :
    Q (editKey u k) (editKey w k) (editKey v) := by
  rw [editKey_eq, editKey_eq, funext (editKey_eq v)]
  exact hw.key k h

theorem ofAccessParts {a : MemberProp}
    (h : Q (editAccessParts u a) (editAccessParts w a) (editAccessParts v)) :
    Q (editAccess u a) (editAccess w a) (editAccess v) := by
  rw [editAccess_eq, editAccess_eq, funext (editAccess_eq v)]
  exact hw.access a h

theorem ofVarDeclParts {d : VarDecl}
    (h : Q (editVarDeclParts u d) (editVarDeclParts w d) (editVarDeclParts v)) :
    Q (editVarDecl u d) (editVarDecl w d) (editVarDecl v) := by
  rw [editVarDecl_eq, editVarDecl_eq, funext (editVarDecl_eq v)]
  exact hw.varDecl d h

theorem onLit : ∀ x, Q (editLit u x) (editLit w x) (editLit v)
  | .str s => hw.node₁ (hw.str s) rfl
  | .num n => hw.node₁ (hw.num n) rfl
  | .bool _ | .null | .bigint _ | .regex _ _ => hw.pure rfl

theorem onIdents : ∀ ids, Q (editIdents u ids) (editIdents w ids) (editIdents v)
  | [] => hw.pure rfl
  | id :: ids => hw.node₂ (hw.ident id) (onIdents ids) rfl

mutual

theorem onType : ∀ t, Q (editType u t) (editType w t) (editType v)
  | .keyword _ => hw.pure rfl
  | .ref path args => hw.node₂ (hw.onIdents path) (onTypes args) rfl
  | .union ts | .intersection ts | .tuple ts => hw.node₁ (onTypes ts) rfl
  | .array t | .paren t => hw.node₁ (onType t) rfl
  | .lit x => hw.node₁ (hw.onLit x) rfl
  | .typeQuery path => hw.node₁ (hw.onIdents path) rfl

theorem onTypes : ∀ ts, Q (editTypes u ts) (editTypes w ts) (editTypes v)
  | [] => hw.pure rfl
  | t :: ts => hw.node₂ (onType t) (onTypes ts) rfl

end

theorem onAnn : ∀ t, Q (editAnn u t) (editAnn w t) (editAnn v)
  | some t => hw.node₁ (hw.onType t) rfl
  | none => hw.pure rfl

theorem onTypeParams :
    ∀ ts, Q (editTypeParams u ts) (editTypeParams w ts) (editTypeParams v)
  | [] => hw.pure rfl
  | t :: ts => hw.node₄ (hw.ident t.name) (hw.onAnn t.bound) (hw.onAnn t.fallback) (onTypeParams ts)
      rfl

theorem onBinding : ∀ b, Q (editBinding u b) (editBinding w b) (editBinding v)
  | b => hw.node₂ (hw.ident b.id) (hw.onAnn b.ann) rfl

theorem onBindings : ∀ bs, Q (editBindings u bs) (editBindings w bs) (editBindings v)
  | [] => hw.pure rfl
  | b :: bs => hw.node₂ (hw.onBinding b) (onBindings bs) rfl

theorem onSignatures :
    ∀ ss, Q (editSignatures u ss) (editSignatures w ss) (editSignatures v)
  | [] => hw.pure rfl
  | .property _ _ _ type :: rest => hw.node₂ (hw.onAnn type) (onSignatures rest)
      rfl
  | .method _ _ params ret :: rest => hw.node₃ (hw.onBindings params) (hw.onAnn ret)
      (onSignatures rest) rfl

theorem onInterface : ∀ x, Q (editInterface u x) (editInterface w x) (editInterface v)
  | x => hw.node₄ (hw.ident x.name) (hw.onTypeParams x.typeParams) (hw.onTypes x.bases)
      (hw.onSignatures x.members) rfl

theorem onModuleName :
    ∀ n, Q (editModuleName u n) (editModuleName w n) (editModuleName v)
  | .ident id => hw.node₁ (hw.ident id) rfl
  | .str s => hw.node₁ (hw.str s) rfl

theorem onModuleName? :
    ∀ n, Q (editModuleName? u n) (editModuleName? w n) (editModuleName? v)
  | some n => hw.node₁ (hw.onModuleName n) rfl
  | none => hw.pure rfl

theorem onImports : ∀ items, Q (editImports u items) (editImports w items) (editImports v)
  | [] => hw.pure rfl
  | .named _ imported binding :: rest => hw.node₃ (hw.ident binding)
      (hw.onModuleName? imported) (onImports rest) rfl
  | .default binding :: rest | .namespace binding :: rest =>
    hw.node₂ (hw.ident binding) (onImports rest) rfl

theorem onExports : ∀ items, Q (editExports u items) (editExports w items) (editExports v)
  | [] => hw.pure rfl
  | .named _ item exported :: rest => hw.node₃ (hw.onModuleName item)
      (hw.onModuleName? exported) (onExports rest) rfl
  | .namespace name :: rest => hw.node₂ (hw.onModuleName name) (onExports rest) rfl
  | .default name :: rest => hw.node₂ (hw.ident name) (onExports rest) rfl

theorem onIdent? : ∀ id, Q (editIdent? u id) (editIdent? w id) (editIdent? v)
  | some id => hw.node₁ (hw.ident id) rfl
  | none => hw.pure rfl

theorem onLabel? : ∀ id, Q (editLabel? u id) (editLabel? w id) (editLabel? v)
  | some id => hw.node₁ (hw.label id) rfl
  | none => hw.pure rfl

theorem onStr? : ∀ s, Q (editStr? u s) (editStr? w s) (editStr? v)
  | some s => hw.node₁ (hw.str s) rfl
  | none => hw.pure rfl

/-! ### Expressions and statements -/

mutual

theorem onParts : ∀ e, Q (editParts u e) (editParts w e) (editParts v)
  | .this => hw.pure rfl
  | .ident id => hw.node₁ (hw.ident id) rfl
  | .lit x => hw.node₁ (hw.onLit x) rfl
  | .array es | .seq es | .superCall es | .importCall es | .template _ es =>
    hw.node₁ (onExprs es) rfl
  | .object props => hw.node₁ (onProperties props) rfl
  | .func name f => hw.node₂ (hw.onIdent? name) (onFunc f) rfl
  | .arrow f => hw.node₁ (hw.arrow _ (onFunc f)) rfl
  | .cls name c => hw.node₂ (hw.onIdent? name) (onClass c) rfl
  | .unary _ e | .update _ _ e | .await e | .paren e | .spread e | .nonNull e =>
    hw.node₁ (hw.expr _ (onParts e)) rfl
  | .binary _ left right => hw.node₂ (hw.expr _ (onParts left)) (hw.expr _ (onParts right)) rfl
  | .assign _ target value => hw.node₂ (onTarget target) (hw.expr _ (onParts value)) rfl
  | .cond test yes no => hw.node₃ (hw.expr _ (onParts test)) (hw.expr _ (onParts yes))
      (hw.expr _ (onParts no)) rfl
  | .member obj prop | .chainMember _ obj prop =>
    hw.node₂ (hw.base _ (onParts obj)) (onAccess prop) rfl
  | .superMember prop => hw.node₁ (onAccess prop) rfl
  | .call callee args | .chainCall _ callee args =>
    hw.node₂ (hw.base _ (onParts callee)) (onExprs args) rfl
  | .new callee args => hw.node₂ (hw.base _ (onParts callee)) (onExprs? args) rfl
  | .tagged tag quasis exprs =>
    hw.node₂ (K := (Expr.tagged · quasis ·)) (hw.base _ (onParts tag)) (onExprs exprs) rfl
  | .yield _ arg => hw.node₁ (onExpr? arg) rfl
  | .hole | .newTarget | .importMeta | .privateName _ | .placeholder => hw.pure rfl
  | .typed _ e t => hw.node₂ (hw.expr _ (onParts e)) (hw.onType t) rfl
  | .typeAssert t e =>
    hw.node₂ (K := fun e t => Expr.typeAssert t e) (hw.expr _ (onParts e)) (hw.onType t) rfl

theorem onExpr? : ∀ e, Q (editExpr? u e) (editExpr? w e) (editExpr? v)
  | some e => hw.node₁ (hw.expr _ (onParts e)) rfl
  | none => hw.pure rfl

theorem onExprs : ∀ es, Q (editExprs u es) (editExprs w es) (editExprs v)
  | [] => hw.pure rfl
  | e :: es => hw.node₂ (hw.expr _ (onParts e)) (onExprs es) rfl

theorem onExprs? : ∀ es, Q (editExprs? u es) (editExprs? w es) (editExprs? v)
  | some es => hw.node₁ (onExprs es) rfl
  | none => hw.pure rfl

theorem onProperty : ∀ p, Q (editProperty u p) (editProperty w p) (editProperty v)
  | .shorthand id => hw.shorthand id
  | .keyValue key value => hw.node₂ (onKey key) (hw.expr _ (onParts value)) rfl
  | .initialized id value => hw.node₂ (hw.ident id) (hw.expr _ (onParts value)) rfl
  | .getter key body => hw.node₂ (onKey key) (hw.list _ (onStmts body)) rfl
  | .setter key param body => hw.node₃ (onKey key) (onPat param) (hw.list _ (onStmts body)) rfl
  | .method key f => hw.node₂ (onKey key) (onFunc f) rfl
  | .spread e => hw.node₁ (hw.expr _ (onParts e)) rfl

theorem onProperties :
    ∀ ps, Q (editProperties u ps) (editProperties w ps) (editProperties v)
  | [] => hw.pure rfl
  | p :: ps => hw.node₂ (onProperty p) (onProperties ps) rfl

theorem onProperties? : ∀ ps, Q (editProperties? u ps) (editProperties? w ps) (editProperties? v)
  | some ps => hw.node₁ (onProperties ps) rfl
  | none => hw.pure rfl

theorem onKey : ∀ k, Q (editKey u k) (editKey w k) (editKey v)
  | .str s => hw.ofKeyParts (hw.node₁ (hw.str s) rfl)
  | .num n => hw.ofKeyParts (hw.node₁ (hw.num n) rfl)
  | .name _ | .bigint _ | .privateName _ => hw.ofKeyParts (hw.pure rfl)
  | .computed e => hw.ofKeyParts (hw.node₁ (hw.expr _ (onParts e)) rfl)

theorem onAccess : ∀ a, Q (editAccess u a) (editAccess w a) (editAccess v)
  | .name _ | .privateName _ => hw.ofAccessParts (hw.pure rfl)
  | .computed e => hw.ofAccessParts (hw.node₁ (hw.expr _ (onParts e)) rfl)

theorem onTarget : ∀ t, Q (editTarget u t) (editTarget w t) (editTarget v)
  | .name b => hw.node₁ (hw.onBinding b) rfl
  | .member obj prop => hw.node₂ (hw.base _ (onParts obj)) (onAccess prop) rfl
  | .superMember prop => hw.node₁ (onAccess prop) rfl
  | .paren e => hw.node₁ (hw.expr _ (onParts e)) rfl
  | .chain e | .typed e => hw.node₁ (hw.base _ (onParts e)) rfl
  | .pattern p => hw.node₁ (onPat p) rfl

theorem onPat : ∀ p, Q (editPat u p) (editPat w p) (editPat v)
  | .name b => hw.node₁ (hw.onBinding b) rfl
  | .array elems ann => hw.node₂ (onPats elems) (hw.onAnn ann) rfl
  | .object props ann => hw.node₂ (onPatProps props) (hw.onAnn ann) rfl
  | .rest p ann => hw.node₂ (onPat p) (hw.onAnn ann) rfl
  | .assign left right => hw.node₂ (onPat left) (hw.expr _ (onParts right)) rfl
  | .expr e => hw.node₁ (hw.expr _ (onParts e)) rfl
  | .hole | .invalid => hw.pure rfl
  | .field _ _ p => hw.node₁ (onPat p) rfl

theorem onPats : ∀ ps, Q (editPats u ps) (editPats w ps) (editPats v)
  | [] => hw.pure rfl
  | p :: ps => hw.node₂ (onPat p) (onPats ps) rfl

theorem onPat? : ∀ p, Q (editPat? u p) (editPat? w p) (editPat? v)
  | some p => hw.node₁ (onPat p) rfl
  | none => hw.pure rfl

theorem onPatProp : ∀ p, Q (editPatProp u p) (editPatProp w p) (editPatProp v)
  | .keyValue key value => hw.node₂ (onKey key) (onPat value) rfl
  | .assign b e => hw.assigned _ _ (hw.onBinding b) (onExpr? e)
  | .rest p => hw.node₁ (onPat p) rfl

theorem onPatProps : ∀ ps, Q (editPatProps u ps) (editPatProps w ps) (editPatProps v)
  | [] => hw.pure rfl
  | p :: ps => hw.node₂ (onPatProp p) (onPatProps ps) rfl

theorem onFunc : ∀ f, Q (editFunc u f) (editFunc w f) (editFunc v)
  | .mk _ _ typeParams params ret body => hw.node₄ (hw.onTypeParams typeParams)
      (onPats params) (hw.onAnn ret) (onBody body) rfl

theorem onBody : ∀ b, Q (editBody u b) (editBody w b) (editBody v)
  | .absent => hw.pure rfl
  | .expr e => hw.node₁ (hw.expr _ (onParts e)) rfl
  | .block stmts => hw.node₁ (hw.list _ (onStmts stmts)) rfl

theorem onClass : ∀ c, Q (editClass u c) (editClass w c) (editClass v)
  | .mk _ typeParams base implemented members => hw.node₄ (hw.onTypeParams typeParams)
      (onExpr? base) (hw.onTypes implemented) (onMembers members) rfl

theorem onMember : ∀ x, Q (editMember u x) (editMember w x) (editMember v)
  | .ctor _ key params body => hw.node₃ (onKey key) (onPats params) (onBody body) rfl
  | .method _ _ key f => hw.node₂ (onKey key) (onFunc f) rfl
  | .field _ key ann value => hw.node₃ (onKey key) (hw.onAnn ann) (onExpr? value) rfl
  | .staticBlock body => hw.node₁ (hw.list _ (onStmts body)) rfl
  | .empty => hw.pure rfl

theorem onMembers : ∀ ms, Q (editMembers u ms) (editMembers w ms) (editMembers v)
  | [] => hw.pure rfl
  | x :: ms => hw.node₂ (onMember x) (onMembers ms) rfl

theorem onStmtParts : ∀ s, Q (editStmtParts u s) (editStmtParts w s) (editStmtParts v)
  | .expr e | .throw e | .exportDefaultExpr e => hw.node₁ (hw.expr _ (onParts e)) rfl
  | .block body => hw.node₁ (hw.list _ (onStmts body)) rfl
  | .empty | .debugger => hw.pure rfl
  | .with e body | .while e body =>
    hw.node₂ (hw.expr _ (onParts e)) (hw.single _ (onStmtParts body)) rfl
  | .return arg => hw.node₁ (onExpr? arg) rfl
  | .labelled label body => hw.node₂ (hw.label label) (hw.labelled _ (onStmtParts body)) rfl
  | .break label | .continue label => hw.node₁ (hw.onLabel? label) rfl
  | .ite test yes no => hw.node₃ (hw.expr _ (onParts test)) (hw.single _ (onStmtParts yes))
      (onStmt? no) rfl
  | .switch disc cases => hw.node₂ (hw.expr _ (onParts disc)) (onCases cases) rfl
  | .try body handler finalizer =>
    hw.node₃ (hw.list _ (onStmts body)) (onCatch? handler) (onList? finalizer) rfl
  | .doWhile body test => hw.node₂ (K := fun test body => Stmt.doWhile body test)
      (hw.expr _ (onParts test)) (hw.single _ (onStmtParts body)) rfl
  | .for init test step body => hw.node₄ (onHead init) (onExpr? test) (onExpr? step)
      (hw.single _ (onStmtParts body)) rfl
  | .forIn head obj body | .forOf _ head obj body =>
    hw.node₃ (onHead head) (hw.expr _ (onParts obj)) (hw.single _ (onStmtParts body)) rfl
  | .decl d | .exportDecl d => hw.node₁ (onDecl d) rfl
  | .importDecl _ items source attrs =>
    hw.node₃ (hw.onImports items) (hw.str source) (onProperties? attrs) rfl
  | .exportNamed _ items source attrs =>
    hw.node₃ (hw.onExports items) (hw.onStr? source) (onProperties? attrs) rfl
  | .exportAll _ source attrs => hw.node₂ (hw.str source) (onProperties? attrs) rfl
  | .exportDefaultFunc name f => hw.node₂ (hw.onIdent? name) (onFunc f) rfl
  | .exportDefaultClass name c => hw.node₂ (hw.onIdent? name) (onClass c) rfl
  | .exportDefaultInterface x => hw.node₁ (hw.onInterface x) rfl

theorem onStmts : ∀ ss, Q (editStmts u ss) (editStmts w ss) (editStmts v)
  | [] => hw.pure rfl
  | s :: ss => hw.node₂ (onStmtParts s) (onStmts ss) rfl

theorem onStmt? : ∀ s, Q (editStmt? u s) (editStmt? w s) (editStmt? v)
  | some s => hw.node₁ (hw.single _ (onStmtParts s)) rfl
  | none => hw.pure rfl

theorem onList? : ∀ ss, Q (editList? u ss) (editList? w ss) (editList? v)
  | some ss => hw.node₁ (hw.list _ (onStmts ss)) rfl
  | none => hw.pure rfl

theorem onCatch : ∀ c, Q (editCatch u c) (editCatch w c) (editCatch v)
  | .mk p body => hw.node₂ (onPat? p) (hw.list _ (onStmts body)) rfl

theorem onCatch? : ∀ c, Q (editCatch? u c) (editCatch? w c) (editCatch? v)
  | some c => hw.node₁ (onCatch c) rfl
  | none => hw.pure rfl

theorem onCase : ∀ c, Q (editCase u c) (editCase w c) (editCase v)
  | .mk test body => hw.node₂ (onExpr? test) (hw.list _ (onStmts body)) rfl

theorem onCases : ∀ cs, Q (editCases u cs) (editCases w cs) (editCases v)
  | [] => hw.pure rfl
  | c :: cs => hw.node₂ (onCase c) (onCases cs) rfl

theorem onHead : ∀ x, Q (editHead u x) (editHead w x) (editHead v)
  | .absent => hw.pure rfl
  | .var d => hw.node₁ (onVarDecl d) rfl
  | .pat p => hw.node₁ (onPat p) rfl
  | .expr e => hw.node₁ (hw.expr _ (onParts e)) rfl

theorem onVarDecl : ∀ d, Q (editVarDecl u d) (editVarDecl w d) (editVarDecl v)
  | .mk _ decls => hw.ofVarDeclParts (hw.node₁ (onDeclarators decls) rfl)

theorem onDeclarator :
    ∀ d, Q (editDeclarator u d) (editDeclarator w d) (editDeclarator v)
  | .mk target init definite =>
    hw.node₂ (K := (Declarator.mk · · definite)) (onPat target) (onExpr? init) rfl

theorem onDeclarators :
    ∀ ds, Q (editDeclarators u ds) (editDeclarators w ds) (editDeclarators v)
  | [] => hw.pure rfl
  | d :: ds => hw.node₂ (onDeclarator d) (onDeclarators ds) rfl

theorem onDecl : ∀ d, Q (editDecl u d) (editDecl w d) (editDecl v)
  | .func name f => hw.node₂ (hw.ident name) (onFunc f) rfl
  | .cls name c => hw.node₂ (hw.ident name) (onClass c) rfl
  | .var d => hw.node₁ (onVarDecl d) rfl
  | .iface x => hw.node₁ (hw.onInterface x) rfl
  | .typeAlias name typeParams t => hw.node₃ (hw.ident name) (hw.onTypeParams typeParams)
      (hw.onType t) rfl
  | .enum _ name members => hw.node₂ (hw.ident name) (onEnumMembers members) rfl
  | .ambient d => hw.node₁ (onDecl d) rfl

theorem onEnumMember :
    ∀ x, Q (editEnumMember u x) (editEnumMember w x) (editEnumMember v)
  | .mk name init => hw.node₂ (hw.onModuleName name) (onExpr? init) rfl

theorem onEnumMembers :
    ∀ xs, Q (editEnumMembers u xs) (editEnumMembers w xs) (editEnumMembers v)
  | [] => hw.pure rfl
  | x :: xs => hw.node₂ (onEnumMember x) (onEnumMembers xs) rfl

end

theorem onList (ss : List Stmt) : Q (editList u ss) (editList w ss) (editList v) :=
  hw.list ss (hw.onStmts ss)

/-- The relation holds of walks over a program. -/
theorem onProgram (p : Program) : Q (editProgram u p) (editProgram w p) (editProgram v) :=
  (hw.node₁ (hw.onList p.body) rfl)

end Edits.Compares

/-! ### Names written as keys

Where names stay, so does a name that is key and variable at once. -/

section Names

variable {w : Edits σ} (hident : ∀ id, w.ident id = pure id)

include hident

theorem editProperty_shorthand (id : Ident) :
    editProperty w (.shorthand id) = pure (.shorthand id) := by
  have hname : Property.ofName id.name id = .shorthand id := if_pos rfl
  show (do return Property.ofName id.name (← w.ident id)) = _
  rw [hident, ← hname]
  rfl

theorem ofName_editBinding (b : BindingName) (value : Option Expr) (s : σ) :
    PatProp.ofName b.id.name ((editBinding w b).run s).1 value =
      .assign ((editBinding w b).run s).1 value := by
  have hid : ((editBinding w b).run s).1.id = b.id := by
    unfold editBinding
    rw [hident]
    rfl
  exact if_pos (congrArg Ident.name hid)

theorem editPatProp_assign (b : BindingName) (e : Option Expr) :
    editPatProp w (.assign b e) = do
      let b ← editBinding w b
      return .assign b (← editExpr? w e) := by
  funext s
  show (PatProp.ofName b.id.name ((editBinding w b).run s).1 _, _) = _
  rw [ofName_editBinding hident]
  rfl

end Names

section Nodes

variable {Q : ∀ {α : Type}, StateM ρ α → StateM σ α → (α → StateM τ α) → Prop} {u : Edits ρ}
  {w : Edits σ} {v : Edits τ} (hQ : ThroughNodes Q) (hu : ∀ id, u.ident id = Pure.pure id)
  (hw : ∀ id, w.ident id = Pure.pure id) (hv : ∀ id, v.ident id = Pure.pure id)

include hQ hu hw hv

theorem ThroughNodes.shorthand (id : Ident) :
    Q (editProperty u (.shorthand id)) (editProperty w (.shorthand id)) (editProperty v) := by
  rw [editProperty_shorthand hu, editProperty_shorthand hw]
  exact hQ.pure (editProperty_shorthand hv id)

theorem ThroughNodes.assigned (b : BindingName) (e : Option Expr)
    (hb : Q (editBinding u b) (editBinding w b) (editBinding v))
    (he : Q (editExpr? u e) (editExpr? w e) (editExpr? v)) :
    Q (editPatProp u (.assign b e)) (editPatProp w (.assign b e)) (editPatProp v) := by
  rw [editPatProp_assign hu, editPatProp_assign hw]
  exact hQ.node₂ hb he (funext fun b => funext (editPatProp_assign hv b))

end Nodes

end Untangle
