import Untangle.Proofs.Editing

/-!
# One edit of names after another

Passes that change names only can follow each other in one walk. A name that is written as key and
variable at once is written apart when it changes, and stays so; for one walk to give the tree of two,
at most one of the two may change the texts of names.

* `edited_twice` — two walks in one.
-/

namespace Untangle

variable {σ τ α β : Type}

def Edits.ofNames (ident label : Ident → StateM σ Ident) : Edits σ := { ident, label }

/-- One step on the result of another, each with a state of its own. -/
def chain (a : StateM σ α) (f : α → StateM τ β) : StateM (σ × τ) β := fun st =>
  (((f (a.run st.1).1).run st.2).1, (a.run st.1).2, ((f (a.run st.1).1).run st.2).2)

/-- Edits of names, and then further edits of names. -/
def Edits.andThen (w : Edits σ) (v : Edits τ) : Edits (σ × τ) :=
  .ofNames (fun id => chain (w.ident id) v.ident) (fun id => chain (w.label id) v.label)

/-- Edits that leave the texts of names alone. -/
def KeepsText (f : Ident → StateM σ Ident) : Prop := ∀ id s, ((f id).run s).1.name = id.name

/-! ### Nodes

A node is edited part by part. If the parts are chained, so is the node. -/

theorem chain_node₁ {N : Type} {a : StateM σ α} {g : α → StateM τ α} {c : StateM (σ × τ) α}
    (f : N → StateM τ N) (K : α → N) (h : c = chain a g)
    (hf : ∀ s, f (K (a.run s).1) = do return K (← g (a.run s).1)) :
    (do return K (← c)) = chain (do return K (← a)) f := by
  subst h
  funext st
  show _ = (((f (K (a.run st.1).1)).run st.2).1, _, ((f (K (a.run st.1).1)).run st.2).2)
  rw [hf]
  rfl

theorem chain_both {a₁ : StateM σ α} {f₁ : α → StateM τ α} {c₁ : StateM (σ × τ) α}
    {a₂ : StateM σ β} {f₂ : β → StateM τ β} {c₂ : StateM (σ × τ) β} (h₁ : c₁ = chain a₁ f₁)
    (h₂ : c₂ = chain a₂ f₂) :
    (do let x ← c₁; return (x, ← c₂)) = chain (do let x ← a₁; return (x, ← a₂)) fun p => do
      let x ← f₁ p.1
      return (x, ← f₂ p.2) := by
  subst h₁ h₂
  rfl

/-- One of two edits leaves the texts of names alone. -/
def OneKeepsText (w : Edits σ) (v : Edits τ) : Prop := KeepsText w.ident ∨ KeepsText v.ident

variable {i l : Ident → StateM σ Ident} {j m : Ident → StateM τ Ident}

/-! ### Names written as keys -/

theorem editProperty_ofName {key : String} {id : Ident}
    (h : id.name = key ∨ ∀ t, ((j id).run t).1.name = id.name) :
    editProperty (.ofNames j m) (.ofName key id) = do return .ofName key (← j id) := by
  by_cases hkey : id.name = key
  · subst hkey
    unfold Property.ofName
    rw [if_pos rfl]
    rfl
  · have hj := h.resolve_left hkey
    unfold Property.ofName
    rw [if_neg hkey]
    funext t
    show (Property.keyValue (.name key) (.ident ((j id).run t).1), ((j id).run t).2) =
      (if ((j id).run t).1.name = key then Property.shorthand ((j id).run t).1
        else .keyValue (.name key) (.ident ((j id).run t).1), ((j id).run t).2)
    rw [if_neg (by rw [hj t]; exact hkey)]

theorem editPatProp_ofName {key : String} {b : BindingName} {value : Option Expr}
    (h : b.id.name = key ∨ ∀ t, ((j b.id).run t).1.name = b.id.name) :
    editPatProp (.ofNames j m) (.ofName key b value) = do
      let b ← editBinding (.ofNames j m) b
      return .ofName key b (← editExpr? (.ofNames j m) value) := by
  by_cases hkey : b.id.name = key
  · subst hkey
    unfold PatProp.ofName
    rw [if_pos rfl]
    rfl
  · have hname : ∀ t, ((j b.id).run t).1.name ≠ key := fun t => by
      rw [h.resolve_left hkey t]
      exact hkey
    funext t
    unfold PatProp.ofName
    rw [if_neg hkey]
    cases value <;> exact (congrArg (·, _) (if_neg (hname t))).symm

theorem OneKeepsText.of_run (h : OneKeepsText (.ofNames i l) (.ofNames j m)) (id : Ident) (s : σ) :
    ((i id).run s).1.name = id.name ∨
      ∀ t, ((j ((i id).run s).1).run t).1.name = ((i id).run s).1.name :=
  h.imp (fun hi => hi id s) fun hj => hj _

/-! ### Trees -/

theorem OneKeepsText.compares (h : OneKeepsText (.ofNames i l) (.ofNames j m)) :
    Edits.Compares (fun c a f => c = chain a f) ((Edits.ofNames i l).andThen (.ofNames j m))
      (.ofNames i l) (.ofNames j m) where
  pure {_ f a} hf := by
    funext st
    show _ = (((f a).run st.2).1, st.1, ((f a).run st.2).2)
    rw [hf]
    rfl
  node₁ h₁ hf := chain_node₁ _ _ h₁ fun _ => congrFun hf _
  both := chain_both
  ident _ := rfl
  label _ := rfl
  str _ := rfl
  num _ := rfl
  expr _ he := he
  base _ he := he
  arrow _ hf := hf
  key _ hk := hk
  access _ ha := ha
  varDecl _ hd := hd
  single _ hs := hs
  labelled _ hs := hs
  list _ hss := hss
  shorthand id := (chain_node₁ (editProperty (.ofNames j m)) (.ofName id.name)
    (rfl : _ = chain (i id) j) fun s => editProperty_ofName (h.of_run id s) :)
  assigned b e hb he := (chain_node₁ (editPatProp (.ofNames j m))
    (fun p => .ofName b.id.name p.1 p.2) (chain_both hb he)
    fun s => editPatProp_ofName (h.of_run b.id s) :)

theorem editProgram_andThen (h : OneKeepsText (.ofNames i l) (.ofNames j m)) (p : Program) :
    editProgram ((Edits.ofNames i l).andThen (.ofNames j m)) p =
      chain (editProgram (.ofNames i l) p) (editProgram (.ofNames j m)) := h.compares.onProgram p

/-! ### Edited programs -/

def edited (w : Edits σ) (s : σ) (p : Program) : Program := ((editProgram w p).run s).1

def Edits.NamesOnly (w : Edits σ) : Prop := w = .ofNames w.ident w.label

theorem Edits.namesOnly_andThen (w : Edits σ) (v : Edits τ) : (w.andThen v).NamesOnly := rfl

variable {w : Edits σ} {v : Edits τ}

theorem edited_twice (hw : w.NamesOnly) (hv : v.NamesOnly) (h : OneKeepsText w v) (s : σ) (t : τ)
    (p : Program) : edited v t (edited w s p) = edited (w.andThen v) (s, t) p := by
  have hwalk : editProgram (w.andThen v) p = chain (editProgram (.ofNames w.ident w.label) p)
      (editProgram (.ofNames v.ident v.label)) := editProgram_andThen h p
  rw [← hw, ← hv] at hwalk
  unfold edited
  rw [hwalk]
  rfl

theorem edited_congr {R : σ → τ → Prop} (hw : w.NamesOnly) (hv : v.NamesOnly)
    (hident : ∀ id, Agree R (w.ident id) (v.ident id))
    (hlabel : ∀ id, Agree R (w.label id) (v.label id)) {s : σ} {t : τ} (hst : R s t) (p : Program) :
    edited w s p = edited v t p := by
  have hagree : Edits.Agrees R w v := by
    rw [hw, hv]
    exact { ident := fun id => (hident id).to, label := fun id => (hlabel id).to }
  exact (editProgram_agree hagree p s t hst).1

end Untangle
