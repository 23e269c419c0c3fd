import Untangle.Proofs.Walks

/-!
# Two sets of edits that agree

Passes count what they change in the state that an edit carries along, and no edit reads the count
back. So the tree that comes out is the one that the same edits give without any count. More
generally, edits that give equal nodes from related states give equal trees.

* `editProgram_agreeTo`, `editList_agree`, `editProgram_agree` — and then so do the edited trees.

The trees are compared by the walk of `Walks`.
-/

namespace Untangle

variable {σ τ α β : Type}

/-- Two steps that give the same result from related states, and leave related states. -/
def Agree (R : σ → τ → Prop) (x : StateM σ α) (y : StateM τ α) : Prop :=
  ∀ s t, R s t → (x.run s).1 = (y.run t).1 ∧ R (x.run s).2 (y.run t).2

variable {R : σ → τ → Prop} {f : α → StateM σ β} {g : α → StateM τ β} {x : StateM σ α}
  {y : StateM τ α}

theorem Agree.pure (a : α) : Agree R (pure a) (pure a) :=
  fun _ _ hst => ⟨rfl, hst⟩

theorem Agree.bind (h : Agree R x y) (hf : ∀ a, Agree R (f a) (g a)) :
    Agree R (x >>= f) (y >>= g) := by
  intro s t hst
  obtain ⟨hx, hst'⟩ := h s t hst
  show ((f (x.run s).1).run (x.run s).2).1 = ((g (y.run t).1).run (y.run t).2).1 ∧
    R ((f (x.run s).1).run (x.run s).2).2 ((g (y.run t).1).run (y.run t).2).2
  rw [hx]
  exact hf _ _ _ hst'

def result (x : StateM Unit α) : α := (x.run ()).1

@[simp] theorem result_pure (a : α) : result (pure a) = a := rfl

@[simp] theorem result_bind (x : StateM Unit α) (f : α → StateM Unit β) :
    result (x >>= f) = result (f (result x)) := rfl

theorem editStmtParts_ne_expr (w : Edits Unit) {s : Stmt} (h : ∀ e, s ≠ .expr e) (e : Expr) :
    result (editStmtParts w s) ≠ .expr e := by
  intro he
  cases s with
  | expr e => exact h e rfl
  | _ => cases he

/-- A step whose state is only kept along gives what the step without it gives. -/
theorem Agree.result_eq {y : StateM Unit α} (h : Agree (fun _ _ => True) x y) (s : σ) :
    (x.run s).1 = result y := (h s () trivial).1

/-! ### Up to a good end

A fact about how a walk ends can say what its steps gave, provided that a step which ends well also
started well. -/

/-- Two steps that give the same result from related states, and leave related states, if the first
ends well. -/
def AgreeTo (G : σ → Prop) (R : σ → τ → Prop) (x : StateM σ α) (y : StateM τ α) : Prop :=
  (∀ s, G (x.run s).2 → G s) ∧
    ∀ s t, R s t → G (x.run s).2 → (x.run s).1 = (y.run t).1 ∧ R (x.run s).2 (y.run t).2

section

variable {G : σ → Prop} {R : σ → τ → Prop}

theorem AgreeTo.pure (a : α) : AgreeTo G R (pure a) (pure a) :=
  ⟨fun _ hs => hs, fun _ _ hst _ => ⟨rfl, hst⟩⟩

theorem AgreeTo.bind (h : AgreeTo G R x y) (hf : ∀ a, AgreeTo G R (f a) (g a)) :
    AgreeTo G R (x >>= f) (y >>= g) := by
  refine ⟨fun s hend => h.1 s ((hf _).1 _ hend), fun s t hst hend => ?_⟩
  have hmid : G (x.run s).2 := (hf _).1 _ hend
  obtain ⟨hx, hst'⟩ := h.2 s t hst hmid
  show ((f (x.run s).1).run (x.run s).2).1 = ((g (y.run t).1).run (y.run t).2).1 ∧
    R ((f (x.run s).1).run (x.run s).2).2 ((g (y.run t).1).run (y.run t).2).2
  rw [← hx]
  exact (hf _).2 _ _ hst' hend

theorem Agree.to (h : Agree R x y) : AgreeTo (fun _ => True) R x y :=
  ⟨fun _ _ => trivial, fun s t hst _ => h s t hst⟩

theorem AgreeTo.agree (h : AgreeTo (fun _ => True) R x y) : Agree R x y :=
  fun s t hst => h.2 s t hst trivial

end

/-- Two sets of edits that give the same nodes from related states if the first end well. What
neither of them edits is left out. -/
structure Edits.AgreesTo (G : σ → Prop) (R : σ → τ → Prop) (w : Edits σ) (v : Edits τ) : Prop where
  ident : ∀ x, AgreeTo G R (w.ident x) (v.ident x) := by exact fun _ => .pure _
  label : ∀ x, AgreeTo G R (w.label x) (v.label x) := by exact fun _ => .pure _
  str : ∀ x, AgreeTo G R (w.str x) (v.str x) := by exact fun _ => .pure _
  num : ∀ x, AgreeTo G R (w.num x) (v.num x) := by exact fun _ => .pure _
  expr : ∀ x, AgreeTo G R (w.expr x) (v.expr x) := by exact fun _ => .pure _
  base : ∀ x, AgreeTo G R (w.base x) (v.base x) := by exact fun _ => .pure _
  arrow : ∀ x, AgreeTo G R (w.arrow x) (v.arrow x) := by exact fun _ => .pure _
  key : ∀ x, AgreeTo G R (w.key x) (v.key x) := by exact fun _ => .pure _
  access : ∀ x, AgreeTo G R (w.access x) (v.access x) := by exact fun _ => .pure _
  varDecl : ∀ x, AgreeTo G R (w.varDecl x) (v.varDecl x) := by exact fun _ => .pure _
  single : ∀ x, AgreeTo G R (w.single x) (v.single x) := by exact fun _ => .pure _
  labelled : ∀ x, AgreeTo G R (w.labelled x) (v.labelled x) := by exact fun _ => .pure _
  list : ∀ x, AgreeTo G R (w.list x) (v.list x) := by exact fun _ => .pure _

/-- Two sets of edits that give the same nodes from related states. -/
abbrev Edits.Agrees (R : σ → τ → Prop) (w : Edits σ) (v : Edits τ) : Prop :=
  Edits.AgreesTo (fun _ => True) R w v

variable {G : σ → Prop} {R : σ → τ → Prop} {w : Edits σ} {v : Edits τ}

/-! ### Edited trees -/

/-- Edits that agree up to a good end are compared so; there is no third walk. -/
theorem Edits.AgreesTo.compares (h : Edits.AgreesTo G R w v) :
    Edits.Compares (fun x y _ => AgreeTo G R x y) w v v where
  pure _ := .pure _
  node₁ h₁ _ := h₁.bind fun _ => .pure _
  both h₁ h₂ := h₁.bind fun _ => h₂.bind fun _ => .pure _
  ident := h.ident
  label := h.label
  str := h.str
  num := h.num
  expr _ he := he.bind h.expr
  base _ he := he.bind h.base
  arrow _ hf := hf.bind h.arrow
  key _ hk := hk.bind h.key
  access _ ha := ha.bind h.access
  varDecl _ hd := hd.bind h.varDecl
  single _ hs := hs.bind h.single
  labelled _ hs := hs.bind h.labelled
  list _ hss := hss.bind h.list
  shorthand id := (h.ident id).bind fun _ => .pure _
  assigned b _ hb he :=
    (hb.bind fun c => he.bind fun x => .pure (PatProp.ofName b.id.name c x) :)

theorem editParts_agreeTo (h : Edits.AgreesTo G R w v) (e : Expr) :
    AgreeTo G R (editParts w e) (editParts v e) := h.compares.onParts e

theorem editList_agreeTo (h : Edits.AgreesTo G R w v) (ss : List Stmt) :
    AgreeTo G R (editList w ss) (editList v ss) := h.compares.onList ss

theorem editProgram_agreeTo (h : Edits.AgreesTo G R w v) (p : Program) :
    AgreeTo G R (editProgram w p) (editProgram v p) := h.compares.onProgram p

/-! ### Whatever the end -/

theorem editExpr_agree (h : Edits.Agrees R w v) (e : Expr) :
    Agree R (editExpr w e) (editExpr v e) :=
  (h.compares.onParts e).agree.bind fun e => (h.expr e).agree

theorem editBody_agree (h : Edits.Agrees R w v) (b : Body) :
    Agree R (editBody w b) (editBody v b) :=
  (h.compares.onBody b).agree

theorem editFunc_agree (h : Edits.Agrees R w v) (f : Func) :
    Agree R (editFunc w f) (editFunc v f) :=
  (h.compares.onFunc f).agree

theorem editStmtParts_agree (h : Edits.Agrees R w v) (s : Stmt) :
    Agree R (editStmtParts w s) (editStmtParts v s) :=
  (h.compares.onStmtParts s).agree

theorem editList_agree (h : Edits.Agrees R w v) (ss : List Stmt) :
    Agree R (editList w ss) (editList v ss) :=
  (editList_agreeTo h ss).agree

theorem editProgram_agree (h : Edits.Agrees R w v) (p : Program) :
    Agree R (editProgram w p) (editProgram v p) :=
  (editProgram_agreeTo h p).agree

end Untangle
