import Untangle.Proofs.TracedItems

/-!
# What becomes of function bodies

Function bodies are what a view shows of functions, arrows, accessors and constructors. As long as
edits make up no functions, every function body of the edited program is the edited body of a function
that was there before.

* `Edits.TracesBodies` — such edits; `program` is the result.
-/

namespace Untangle

/-! ### Bodies -/

def ClassMember.ctorBody? : ClassMember → Option Body
  | .ctor _ _ _ body => some body
  | _ => none

def Item.bodies : Item → List Body
  | .func f => [f.body]
  | .expr (.arrow f) => [f.body]
  | .property (.getter _ body) => [.block body]
  | .property (.setter _ _ body) => [.block body]
  | .cls (.mk _ _ _ _ members) => members.filterMap ClassMember.ctorBody?
  | _ => []

def bodiesOf (os : List Outline) : List Body := (Outline.itemsOf os).flatMap Item.bodies

def Program.bodies (p : Program) : List Body := bodiesOf (outlineProgram p)

@[simp] theorem bodiesOf_nil : bodiesOf [] = [] := rfl

theorem bodiesOf_cons (o : Outline) (os : List Outline) :
    bodiesOf (o :: os) = bodiesOf [o] ++ bodiesOf os := viewed_cons _ o os

theorem bodiesOf_append (os qs : List Outline) :
    bodiesOf (os ++ qs) = bodiesOf os ++ bodiesOf qs := viewed_append _ os qs

@[simp] theorem bodiesOf_node (i : Item) (parts : List Outline) :
    bodiesOf [.node i parts] = i.bodies ++ bodiesOf parts := viewed_node _ i parts

theorem mem_bodiesOf_map {b : Body} {α : Type} {f : α → Outline} {xs : List α} :
    b ∈ bodiesOf (xs.map f) ↔ ∃ x ∈ xs, b ∈ bodiesOf [f x] := by
  induction xs with
  | nil => simp
  | cons x xs ih =>
    rw [List.map_cons, bodiesOf_cons, List.mem_append, ih]
    simp

theorem mem_bodiesOf_stmts {b : Body} {ss : List Stmt} :
    b ∈ bodiesOf (outlineStmts ss) ↔ ∃ s ∈ ss, b ∈ bodiesOf [outlineStmt s] := by
  rw [outlineStmts_eq_map, mem_bodiesOf_map]

theorem bodies_minor (i : Item) (h : i.isConstruct = false) : i.bodies = [] := by
  cases i with
  | expr e => cases e <;> first | rfl | cases h
  | property | func | cls => cases h
  | _ => rfl

/-! ### Tracing -/

/-- What an edit of one node may do to the bodies in it, and how the bodies of functions relate to
what is made of them. -/
structure Edits.TracesBodies (w : Edits Unit) (R : Body → Body → Prop) : Prop
    extends w.ShowsNoMore Item.bodies where
  body : ∀ b, R b (result (editBody w b))
  arrow : ∀ f, R f.body (result (w.arrow (result (editFunc w f)))).body

namespace Edits.TracesBodies

variable {w : Edits Unit} {R : Body → Body → Prop}

theorem ctors_trace (hw : w.TracesBodies R) (ms : List ClassMember) :
    ∀ b' ∈ (result (editMembers w ms)).filterMap ClassMember.ctorBody?,
      ∃ b ∈ ms.filterMap ClassMember.ctorBody?, R b b' := by
  induction ms with
  | nil => nofun
  | cons m ms ih =>
    cases m with
    | ctor mods k params b =>
      intro b' hb'
      rcases List.mem_cons.1 hb' with rfl | hb'
      · exact ⟨b, List.mem_cons_self, hw.body b⟩
      · obtain ⟨c, hc, hr⟩ := ih b' hb'
        exact ⟨c, List.mem_cons_of_mem _ hc, hr⟩
    | field mods k ann value => exact ih
    | method | staticBlock | empty => exact ih

theorem tracesItems (hw : w.TracesBodies R) : w.TracesItems Item.bodies R where
  toShowsNoMore := hw.toShowsNoMore
  minor := bodies_minor
  expression e := by
    cases e with
    | arrow g =>
      intro b' hb'
      cases List.mem_singleton.1 hb'
      exact ⟨g.body, List.mem_singleton_self _, hw.arrow g⟩
    | _ => exact nofun
  property p := by
    cases p with
    | shorthand id =>
      intro b' hb'
      have hnone : Item.bodies (.property (.ofName id.name (result (w.ident id)))) = [] := by
        unfold Property.ofName
        split <;> rfl
      rw [show result (editProperty w (.shorthand id)) = .ofName id.name (result (w.ident id)) from
        rfl, hnone] at hb'
      cases hb'
    | getter k ss | setter k param ss =>
      intro b' hb'
      cases List.mem_singleton.1 hb'
      exact ⟨.block ss, List.mem_singleton_self _, hw.body (.block ss)⟩
    | _ => exact nofun
  func g := by
    obtain ⟨isAsync, isGenerator, typeParams, params, ret, b⟩ := g
    intro b' hb'
    cases List.mem_singleton.1 hb'
    exact ⟨b, List.mem_singleton_self _, hw.body b⟩
  cls c := by
    obtain ⟨isAbstract, typeParams, base, implemented, members⟩ := c
    exact ctors_trace hw members

theorem program (hw : w.TracesBodies R) (p : Program) :
    ∀ b' ∈ (result (editProgram w p)).bodies, ∃ b ∈ p.bodies, R b b' :=
  hw.tracesItems.program p

end Edits.TracesBodies

end Untangle
