import Untangle.Proofs.Editing

/-!
# Edits that settle

Edits settle a tree for other edits if a walk with those finds nothing to do afterwards: it gives the
tree back and leaves its state alone. Whether they do is a question about single nodes. An edit that
is given a node whose parts are settled has to give a settled node; then all of an edited tree is
settled.

* `Edits.Settles` — what is asked; `editProgram_editProgram` is the result.
-/

namespace Untangle

variable {σ τ α β : Type}

/-- Every result of a step is left alone by an edit. -/
def Settled (x : StateM σ α) (f : α → StateM τ α) : Prop := ∀ s, f (x.run s).1 = pure (x.run s).1

theorem Settled.pure {f : α → StateM τ α} {a : α} (h : f a = pure a) :
    Settled (pure a : StateM σ α) f :=
  fun _ => h

theorem Settled.andThen {x : StateM σ α} {parts whole : α → StateM τ α} {edit : α → StateM σ α}
    (h : Settled x parts) (hedit : ∀ a, parts a = Pure.pure a → Settled (edit a) whole) :
    Settled (x >>= edit) whole :=
  fun s => hedit _ (h s) _

/-! ### Nodes

A node is settled if its parts are, whatever its edit does, as long as it edits the parts. -/

theorem settled_node₁ {N : Type} {x : StateM σ α} {g : α → StateM τ α} (f : N → StateM τ N)
    (K : α → N) (h : Settled x g) (hf : ∀ a, f (K a) = do return K (← g a)) :
    Settled (do return K (← x)) f := by
  intro s
  show f (K (x.run s).1) = _
  rw [hf, h]
  rfl

theorem settled_both {x₁ : StateM σ α} {f₁ : α → StateM τ α} {x₂ : StateM σ β}
    {f₂ : β → StateM τ β} (h₁ : Settled x₁ f₁) (h₂ : Settled x₂ f₂) :
    Settled (do let a ← x₁; return (a, ← x₂)) fun p => do
      let a ← f₁ p.1
      return (a, ← f₂ p.2) := by
  intro s
  show (do let a ← f₁ (x₁.run s).1; return (a, ← f₂ (x₂.run _).1)) = _
  rw [h₁, h₂]
  rfl

/-! ### What is asked of edits -/

/-- Edits whose result, on a node with parts that others leave alone, is left alone by them too. -/
structure Edits.Settles (w : Edits σ) (v : Edits τ) : Prop where
  ident : ∀ id, w.ident id = pure id
  ident_after : ∀ id, v.ident id = pure id
  label : ∀ id, Settled (w.label id) v.label
  str : ∀ s, Settled (w.str s) v.str
  num : ∀ n, Settled (w.num n) v.num
  expr : ∀ e, editParts v e = pure e → Settled (w.expr e) (editExpr v)
  base : ∀ e, editParts v e = pure e → Settled (w.base e) fun e => do v.base (← editParts v e)
  arrow : ∀ f, editFunc v f = pure f → Settled (w.arrow f) fun f => do v.arrow (← editFunc v f)
  key : ∀ k, editKeyParts v k = pure k → Settled (w.key k) fun k => editKeyParts v k >>= v.key
  access : ∀ a, editAccessParts v a = pure a →
    Settled (w.access a) fun a => editAccessParts v a >>= v.access
  varDecl : ∀ d, editVarDeclParts v d = pure d →
    Settled (w.varDecl d) fun d => editVarDeclParts v d >>= v.varDecl
  single : ∀ s, editStmtParts v s = pure s →
    Settled (w.single s) fun s => do v.single (← editStmtParts v s)
  labelled : ∀ s, editStmtParts v s = pure s →
    Settled (w.labelled s) fun s => do v.labelled (← editStmtParts v s)
  list : ∀ ss, editStmts v ss = pure ss → Settled (w.list ss) (editList v)

variable {w : Edits σ} {v : Edits τ}

/-! ### Settled trees -/

theorem through_settled : ThroughNodes fun (_ : StateM σ _) (x : StateM σ _) (f : _ → StateM τ _) =>
    Settled x f where
  pure := .pure
  node₁ h hf := settled_node₁ _ _ h (congrFun hf)
  both := settled_both

theorem Edits.Settles.compares (h : w.Settles v) :
    Edits.Compares (fun _ x f => Settled x f) w w v where
  toThroughNodes := through_settled
  ident id := h.ident id ▸ .pure (h.ident_after id)
  label := h.label
  str := h.str
  num := h.num
  expr _ he := he.andThen h.expr
  base _ he := he.andThen h.base
  arrow _ hf := hf.andThen h.arrow
  key _ hk := hk.andThen h.key
  access _ ha := ha.andThen h.access
  varDecl _ hd := hd.andThen h.varDecl
  single _ hs := hs.andThen h.single
  labelled _ hs := hs.andThen h.labelled
  list _ hss := hss.andThen h.list
  shorthand := through_settled.shorthand h.ident h.ident h.ident_after
  assigned := through_settled.assigned h.ident h.ident h.ident_after

theorem editParts_settled (h : w.Settles v) (e : Expr) : Settled (editParts w e) (editParts v) :=
  h.compares.onParts e

/-- A second walk over a program finds nothing to do. -/
theorem editProgram_editProgram (h : w.Settles v) (p : Program) (s : σ) :
    editProgram v ((editProgram w p).run s).1 = pure ((editProgram w p).run s).1 :=
  h.compares.onProgram p s

end Untangle
