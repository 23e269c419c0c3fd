import Untangle.Proofs.EditedOutlines
import Untangle.Proofs.EditedResolution
import Untangle.Proofs.Mentions

/-!
# What steps are about

The steps of resolution are about names that stand in the program, and every reference is looked up
under its grammar. This needs no look at the steps. They are the same about other names
(`steps_mapping`); so a change of names that the program does not mention, which leaves the program
as it is, leaves its steps as they are.

Programs are given as edited ones, so that walks over them can be taken together.
-/

namespace Untangle

open Outline (leaf itemsOf)

variable {σ : Type} {w : Edits σ}

/-- A step about names among some, and looked up under a grammar. -/
def Step.Names (names : List String) (isModule : Bool) : Step → Prop
  | .declare _ id => id.name ∈ names
  | .refer m id => m = isModule ∧ id.name ∈ names
  | .hoistVar _ _ id => id.name ∈ names
  | .hoistFunc _ id => id.name ∈ names
  | _ => True

/-! ### Names that a walk comes by -/

def notingNames : Edits (List Ident) :=
  .ofNames (fun id => do modify (id :: ·); return id) pure

/-- Some names are noted by now only if they were before or stand in some outlines. -/
def Notes (before : List Ident) (os : List Outline) (after : List Ident) : Prop :=
  ∀ id ∈ after, id ∈ before ∨ ∃ i ∈ itemsOf os, i.ident? = some id

theorem Notes.refl (noted : List Ident) (os : List Outline) : Notes noted os noted :=
  fun _ h => .inl h

theorem Notes.append {noted mid after : List Ident} {os qs : List Outline} (h : Notes noted os mid)
    (h' : Notes mid qs after) : Notes noted (os ++ qs) after := by
  intro id hid
  simp only [itemsOf_append, List.mem_append]
  rcases h' id hid with hid | ⟨i, hi, heq⟩
  · exact (h id hid).imp_right (.imp fun _ hi => ⟨.inl hi.1, hi.2⟩)
  · exact .inr ⟨i, .inr hi, heq⟩

theorem Notes.node {noted after : List Ident} {os : List Outline} (h : Notes noted os after)
    (i : Item) : Notes noted [.node i os] after :=
  fun id hid => (h id hid).imp_right (.imp fun _ hj => ⟨mem_itemsOf_node.2 (.inr hj.1), hj.2⟩)

theorem notingNames_relatesOutlines : notingNames.RelatesOutlines (fun n a m _ => Notes n a m)
    (fun n a m _ => Notes n a m) (fun n a m _ => Notes n a m) where
  nil n := .refl n _
  append := .append
  perm ha _ h id hid :=
    (h id hid).imp_right (.imp fun _ hi => ⟨(mem_itemsOf_perm ha).1 hi.1, hi.2⟩)
  ident id n x hx := by
    rcases List.mem_cons.1 hx with rfl | hx
    · exact .inr ⟨.ident x, mem_itemsOf_node.2 (.inl rfl), rfl⟩
    · exact .inl hx
  label _ n := .refl n _
  word _ n := .refl n _
  str _ n := .refl n _
  num _ n := .refl n _
  node _ h := h.node _
  exprNode _ h := h.node _
  stmt _ h := h.node _
  rawNil n := .refl n _
  rawCons := .append

/-! ### Changes that change nothing -/

theorem notingNames_agreesTo (f : Ident → Ident) :
    Edits.AgreesTo (fun noted => ∀ id ∈ noted, f id = id) (fun _ _ => True) notingNames
      (.mapping f pure) where
  ident id := by
    refine ⟨fun s h x hx => h x (List.mem_cons_of_mem _ hx), fun s t _ h => ⟨?_, trivial⟩⟩
    exact (h id List.mem_cons_self).symm

theorem edited_notingNames (hw : w.NamesOnly) (s : σ) (p : Program) :
    edited notingNames [] (edited w s p) = edited w s p := by
  have hnames : notingNames.NamesOnly := rfl
  rw [edited_twice hw hnames (.inr fun _ _ => rfl)]
  exact edited_congr (R := fun st t => st.1 = t) (Edits.namesOnly_andThen _ _) hw
    (fun id st t hst => ⟨hst ▸ rfl, hst ▸ rfl⟩) (fun id st t hst => ⟨hst ▸ rfl, hst ▸ rfl⟩) rfl p

theorem edited_mapping_of_fixed (hw : w.NamesOnly) (s : σ) (p : Program) {f : Ident → Ident}
    (hf : ∀ id ∈ identsOf (outlineProgram (edited w s p)), f id = id) :
    edited (.mapping f pure) () (edited w s p) = edited w s p := by
  have hnoted := notingNames_relatesOutlines.program (edited w s p) []
  have hend : ∀ id ∈ ((editProgram notingNames (edited w s p)).run []).2, f id = id := by
    intro id hid
    rcases hnoted id hid with hid | ⟨i, hi, heq⟩
    · exact absurd hid List.not_mem_nil
    · exact hf id (List.mem_filterMap.2 ⟨i, hi, heq⟩)
  have hagree := (editProgram_agreeTo (notingNames_agreesTo f) (edited w s p)).2 [] () trivial hend
  exact hagree.1.symm.trans (edited_notingNames hw s p)

/-! ### The steps of a program -/

theorem steps_names (hw : w.NamesOnly) (s : σ) (p : Program) : ∀ t ∈ (edited w s p).steps,
    t.Names (edited w s p).names (edited w s p).isModule := by
  intro t ht
  generalize hq : edited w s p = q at ht ⊢
  let f : Ident → Ident := fun id =>
    if id.name ∈ q.names then id else id.withName (id.name.push '_')
  have hfixed : edited (.mapping f pure) () q = q := hq ▸ edited_mapping_of_fixed hw s p
    fun id hid => if_pos (hq ▸ List.mem_map_of_mem hid)
  have hsteps : q.steps.map id = q.steps.map (Step.map f q.isModule) := by
    rw [List.map_id, ← steps_mapping f pure q]
    exact congrArg Program.steps hfixed.symm
  have hname : ∀ {id : Ident}, id = f id → id.name ∈ q.names := by
    intro id hid
    by_contra hnot
    have hlength := congrArg (fun x : Ident => x.name.length) (hid.trans (if_neg hnot))
    simp [Ident.withName] at hlength
  have hstep : t = t.map f q.isModule := List.map_inj_left.1 hsteps t ht
  cases t with
  | declare kind id | hoistFunc site id =>
    injection hstep with _ hid
    exact hname hid
  | hoistVar site kind id =>
    injection hstep with _ _ hid
    exact hname hid
  | refer m id =>
    injection hstep with hm hid
    exact ⟨hm, hname hid⟩
  | _ => trivial

end Untangle
