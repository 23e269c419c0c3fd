import Untangle.Proofs.EditedOutlines
import Untangle.Proofs.OutlinePlaces

/-!
# Tracing what edits make of a tree

Edits go through a tree from the inside out, and an edit of a node may drop parts of it, move them
or take them apart. As long as it makes up nothing of a kind, all that is of the kind in the edited
tree was made of something of the kind that was there before.

* `Edits.TracesItems` — such edits; `program` is the result.
-/

namespace Untangle

open Outline (leaf)

variable {α : Type}

/-- Whether an item is a construct: an expression other than a name, a member of an object, a
function or a class. -/
def Item.isConstruct : Item → Bool
  | .expr (.ident _) => false
  | .expr _ => true
  | .property _ => true
  | .func _ => true
  | .cls _ => true
  | _ => false

def viewed (view : Item → List α) (os : List Outline) : List α := (Outline.itemsOf os).flatMap view

section Viewed

variable (view : Item → List α)

@[simp] theorem viewed_nil : viewed view [] = [] := rfl

theorem viewed_cons (o : Outline) (os : List Outline) :
    viewed view (o :: os) = viewed view [o] ++ viewed view os := by
  simp [viewed, Outline.itemsOf]

theorem viewed_append (os qs : List Outline) :
    viewed view (os ++ qs) = viewed view os ++ viewed view qs := by
  induction os with
  | nil => rfl
  | cons o os ih => rw [List.cons_append, viewed_cons, ih, viewed_cons view o os, List.append_assoc]

@[simp] theorem viewed_node (i : Item) (parts : List Outline) :
    viewed view [.node i parts] = view i ++ viewed view parts := by
  simp [viewed, Outline.itemsOf, Outline.items]

/-- Names, literals and types show nothing. -/
theorem viewed_leaves (hminor : ∀ i : Item, i.isConstruct = false → view i = []) {os : List Outline}
    (h : ∀ o ∈ os, o.IsLeaf) : viewed view os = [] := by
  induction os with
  | nil => rfl
  | cons o os ih =>
    have hleaf : viewed view [o] = [] := by
      cases h o List.mem_cons_self <;> rw [leaf, viewed_node, hminor _ rfl] <;> rfl
    rw [viewed_cons, hleaf, ih fun q hq => h q (List.mem_cons_of_mem _ hq)]
    rfl

end Viewed

/-! ### Tracing -/

variable {view : Item → List α} {R : α → α → Prop}

/-- All that is shown of an item after comes from something shown of one before. -/
def Stems (view : Item → List α) (R : α → α → Prop) (i i' : Item) : Prop :=
  ∀ b' ∈ view i', ∃ b ∈ view i, R b b'

/-- All that is shown after comes from something shown before. -/
def Traces (view : Item → List α) (R : α → α → Prop) (before after : List Outline) : Prop :=
  ∀ b' ∈ viewed view after, ∃ b ∈ viewed view before, R b b'

namespace Traces

variable {os os' qs qs' : List Outline} {i i' : Item}

theorem nil : Traces view R os [] := fun _ h => absurd h List.not_mem_nil

theorem append (h : Traces view R os os') (h' : Traces view R qs qs') :
    Traces view R (os ++ qs) (os' ++ qs') := by
  intro b' hb'
  rw [viewed_append] at hb' ⊢
  rcases List.mem_append.1 hb' with hb' | hb'
  · obtain ⟨b, hb, hr⟩ := h b' hb'
    exact ⟨b, List.mem_append_left _ hb, hr⟩
  · obtain ⟨b, hb, hr⟩ := h' b' hb'
    exact ⟨b, List.mem_append_right _ hb, hr⟩

theorem node (hi : Stems view R i i') (h : Traces view R os os') :
    Traces view R [.node i os] [.node i' os'] := by
  intro b' hb'
  rw [viewed_node] at hb' ⊢
  rcases List.mem_append.1 hb' with hb' | hb'
  · obtain ⟨b, hb, hr⟩ := hi b' hb'
    exact ⟨b, List.mem_append_left _ hb, hr⟩
  · obtain ⟨b, hb, hr⟩ := h b' hb'
    exact ⟨b, List.mem_append_right _ hb, hr⟩

theorem perm (h : Traces view R os os') (ho : os.Perm qs) (ho' : os'.Perm qs') :
    Traces view R qs qs' := by
  intro b' hb'
  obtain ⟨i', hi', hb'⟩ := List.mem_flatMap.1 hb'
  obtain ⟨b, hb, hr⟩ := h b' (List.mem_flatMap.2 ⟨i', (mem_itemsOf_perm ho').2 hi', hb'⟩)
  obtain ⟨i, hi, hb⟩ := List.mem_flatMap.1 hb
  exact ⟨b, List.mem_flatMap.2 ⟨i, (mem_itemsOf_perm ho).1 hi, hb⟩, hr⟩

theorem mono (h : Traces view R os os') (hsub : viewed view qs' ⊆ viewed view os') :
    Traces view R os qs' :=
  fun b' hb' => h b' (hsub hb')

end Traces

/-- What an edit of one node may do to what a view shows in it: make up nothing. -/
structure Edits.ShowsNoMore (w : Edits Unit) (view : Item → List α) : Prop where
  text : KeepsText w.ident := by exact fun _ _ => rfl
  arrowParts : ∀ f, viewed view (outlineArrow (result (w.arrow f))) ⊆
    viewed view (outlineArrow f) := by exact fun _ => List.Subset.refl _
  expr : ∀ e, viewed view [outlineExpr (result (w.expr e))] ⊆ viewed view [outlineExpr e] := by
    exact fun _ => List.Subset.refl _
  base : ∀ e, viewed view [outlineExpr (result (w.base e))] ⊆ viewed view [outlineExpr e] := by
    exact fun _ => List.Subset.refl _
  key : ∀ k, viewed view (outlineKey (result (w.key k))) ⊆ viewed view (outlineKey k) := by
    exact fun _ => List.Subset.refl _
  access : ∀ a, viewed view (outlineAccess (result (w.access a))) ⊆
    viewed view (outlineAccess a) := by exact fun _ => List.Subset.refl _
  varDecl : ∀ d, viewed view [outlineVarDecl (result (w.varDecl d))] ⊆
    viewed view [outlineVarDecl d] := by exact fun _ => List.Subset.refl _
  single : ∀ s, viewed view [outlineStmt (result (w.single s))] ⊆ viewed view [outlineStmt s] := by
    exact fun _ => List.Subset.refl _
  labelled : ∀ s, viewed view [outlineStmt (result (w.labelled s))] ⊆
    viewed view [outlineStmt s] := by exact fun _ => List.Subset.refl _
  list : ∀ ss, viewed view (outlineStmts (result (w.list ss))) ⊆ viewed view (outlineStmts ss) := by
    exact fun _ => List.Subset.refl _

/-- Such edits, and how what stands at a node relates to what is made of it. -/
structure Edits.TracesItems (w : Edits Unit) (view : Item → List α) (R : α → α → Prop) : Prop
    extends w.ShowsNoMore view where
  minor : ∀ i : Item, i.isConstruct = false → view i = []
  expression : ∀ e, Stems view R (.expr e) (.expr (result (editParts w e)))
  property : ∀ p, Stems view R (.property p) (.property (result (editProperty w p)))
  func : ∀ f, Stems view R (.func f) (.func (result (editFunc w f)))
  cls : ∀ c, Stems view R (.cls c) (.cls (result (editClass w c)))

namespace Edits.TracesItems

variable {w : Edits Unit} {i i' : Item} {os os' : List Outline}

theorem leaf_traces (hw : w.TracesItems view R) (hi : i'.isConstruct = false) :
    Traces view R os [leaf i'] := by
  intro b' hb'
  rw [leaf, viewed_node, hw.minor i' hi] at hb'
  cases hb'

theorem plain (hw : w.TracesItems view R) (hi : i'.isConstruct = false)
    (h : Traces view R os os') : Traces view R [.node i os] [.node i' os'] := by
  refine .node (fun b' hb' => ?_) h
  rw [hw.minor i' hi] at hb'
  cases hb'

theorem relatesOutlines (hw : w.TracesItems view R) :
    w.RelatesOutlines (fun _ a _ b => Traces view R a b) (fun _ a _ b => Traces view R a b)
      (fun _ a _ b => Traces view R a b) where
  text := hw.text
  nil _ := .nil
  append := .append
  perm ha hb h := h.perm ha hb
  ident _ _ := hw.leaf_traces rfl
  label _ _ := hw.leaf_traces rfl
  word _ _ := hw.leaf_traces rfl
  str _ _ := hw.leaf_traces rfl
  num _ _ := hw.leaf_traces rfl
  node hi h := by
    cases hi with
    | property p => exact .node (hw.property p) h
    | func f => exact .node (hw.func f) h
    | cls c => exact .node (hw.cls c) h
    | _ => exact hw.plain rfl h
  exprNode e h := .node (hw.expression e) h
  expr e h := h.mono (hw.expr e)
  base e h := h.mono (hw.base e)
  arrow f h := h.mono (hw.arrowParts f)
  key k h := h.mono (hw.key k)
  access a h := h.mono (hw.access a)
  varDecl d h := h.mono (hw.varDecl d)
  stmt _ h := hw.plain rfl h
  rawNil _ := .nil
  rawCons := .append
  single s h := h.mono (hw.single s)
  labelled s h := h.mono (hw.labelled s)
  list ss h := h.mono (hw.list ss)

theorem program (hw : w.TracesItems view R) (p : Program) :
    Traces view R (outlineProgram p) (outlineProgram (result (editProgram w p))) :=
  hw.relatesOutlines.program p ()

end Edits.TracesItems

end Untangle
