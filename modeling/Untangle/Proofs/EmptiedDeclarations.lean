import Untangle.Binding.References
import Untangle.Binding.Resolve
import Untangle.Print.Generate
import Untangle.Proofs.EditedOutlines
import Untangle.Proofs.Mentions
import Untangle.Source.Parse

/-!
# Declarations that nothing is left of

A variable declaration stands in a statement: it is the statement, or an export of it, or it stands
in the head of a loop. When the declarations of some variables are removed, one that loses all its
declarators goes with its statement or its head, but not everywhere.

`removeDecls_empties_export` is an export without anything to export.
-/

namespace Untangle

variable {ids : List Binding}

def VarDecl.decls : VarDecl → List Declarator
  | .mk _ decls => decls

def Decl.varDecl? (d : Decl) : Option VarDecl :=
  match d.plain with
  | .var v => some v
  | _ => none

def ForHead.varDecl? : ForHead → Option VarDecl
  | .var v => some v
  | _ => none

def Stmt.varDecl? : Stmt → Option VarDecl
  | .decl d | .exportDecl d => d.varDecl?
  | .for head _ _ _ | .forIn head _ _ | .forOf _ head _ _ => head.varDecl?
  | _ => none

/-- Whether a statement keeps its variable declaration even if nothing is left in it. -/
def Stmt.keepsEmptied : Stmt → Bool
  | .exportDecl _ | .forIn .. | .forOf .. => true
  | _ => false

/-! ### Single statements -/

theorem tidyEmptied_keeps {s : Stmt} (h : s.keepsEmptied = true) : tidyEmptied s = s := by
  cases s with
  | exportDecl | forIn | forOf => rfl
  | _ => cases h

theorem tidyEmptied_keepsEmptied (s : Stmt) : (tidyEmptied s).keepsEmptied = s.keepsEmptied := by
  unfold tidyEmptied
  split
  · split <;> rfl
  · rfl
  · rfl

theorem tidyEmptied_decls {s : Stmt} {v : VarDecl} (h : (tidyEmptied s).varDecl? = some v)
    (hs : s.keepsEmptied = false) : v.decls ≠ [] := by
  intro hv
  obtain ⟨kind, decls⟩ := v
  obtain rfl : decls = [] := hv
  cases s with
  | decl d =>
    cases hd : d.plain with
    | var v' =>
      obtain ⟨kind', decls⟩ := v'
      cases decls <;> simp [tidyEmptied, Stmt.varDecl?, Decl.varDecl?, hd] at h
    | _ => simp [tidyEmptied, Stmt.varDecl?, Decl.varDecl?, hd] at h
  | «for» head test step body =>
    cases head with
    | var v' =>
      obtain ⟨kind', decls⟩ := v'
      cases decls <;> simp [tidyEmptied, Stmt.varDecl?, ForHead.varDecl?] at h
    | _ => simp [tidyEmptied, Stmt.varDecl?, ForHead.varDecl?] at h
  | exportDecl | forIn | forOf => cases hs
  | _ => cases h

def Stmt.parts (s : Stmt) : List Outline :=
  match outlineStmt s with
  | .node _ parts => parts

theorem outlineStmt_parts (s : Stmt) : outlineStmt s = .node (.stmt s) s.parts := by
  cases s <;> rfl

theorem parts_tidyEmptied (s : Stmt) :
    Outline.itemsOf (tidyEmptied s).parts ⊆ Outline.itemsOf s.parts := by
  unfold tidyEmptied
  split
  case h_1 =>
    split
    · exact List.nil_subset _
    · exact List.Subset.refl _
  case h_2 test step body =>
    intro i hi
    exact mem_itemsOf_cons.2 (.inr hi)
  case h_3 => exact List.Subset.refl _

/-! ### What is left in a statement -/

/-- What an edited statement declares: as many variables as the statement had of others. -/
structure ThinnedDecl (ids : List Binding) (s s' : Stmt) : Prop where
  place : s'.keepsEmptied = s.keepsEmptied
  declarators : ∀ v', s'.varDecl? = some v' → ∃ v, s.varDecl? = some v ∧
    v'.decls.length = v.decls.countP fun d => !d.declaresOneOf ids

theorem declaresOneOf_nil (d : Declarator) : d.declaresOneOf [] = false := by
  obtain ⟨target, init, definite⟩ := d
  cases target <;> rfl

theorem declaresOneOf_edited (ids : List Binding) (d : Declarator) (n : Nat) :
    ((editDeclarator (removeEdits ids) d).run n).1.declaresOneOf ids = d.declaresOneOf ids := by
  obtain ⟨target, init, definite⟩ := d
  cases target <;> rfl

theorem countP_edited (ids : List Binding) : ∀ (ds : List Declarator) (n : Nat),
    ((editDeclarators (removeEdits ids) ds).run n).1.countP (fun d => !d.declaresOneOf ids) =
      ds.countP fun d => !d.declaresOneOf ids
  | [], _ => rfl
  | d :: ds, n => by
    show List.countP _ (((editDeclarator (removeEdits ids) d).run n).1 ::
      ((editDeclarators (removeEdits ids) ds).run _).1) = _
    rw [List.countP_cons, List.countP_cons, countP_edited ids ds, declaresOneOf_edited]

theorem length_editVarDecl (ids : List Binding) (v : VarDecl) (n : Nat) :
    ((editVarDecl (removeEdits ids) v).run n).1.decls.length =
      v.decls.countP fun d => !d.declaresOneOf ids := by
  obtain ⟨kind, ds⟩ := v
  show (((editDeclarators (removeEdits ids) ds).run n).1.filter
    fun d => !d.declaresOneOf ids).length = _
  rw [← List.countP_eq_length_filter, countP_edited]
  rfl

theorem thinned_decl (ids : List Binding) : ∀ (d : Decl) (n : Nat) (v' : VarDecl),
    ((editDecl (removeEdits ids) d).run n).1.varDecl? = some v' → ∃ v, d.varDecl? = some v ∧
      v'.decls.length = v.decls.countP fun d => !d.declaresOneOf ids
  | .var v, n, v', h => by
    cases h
    exact ⟨v, rfl, length_editVarDecl ids v n⟩
  | .ambient d, n, v', h => thinned_decl ids d n v' h
  | .func .., _, _, h | .cls .., _, _, h | .iface _, _, _, h | .typeAlias .., _, _, h
  | .enum .., _, _, h => by cases h

theorem thinned_head (ids : List Binding) : ∀ (head : ForHead) (n : Nat) (v' : VarDecl),
    ((editHead (removeEdits ids) head).run n).1.varDecl? = some v' → ∃ v, head.varDecl? = some v ∧
      v'.decls.length = v.decls.countP fun d => !d.declaresOneOf ids
  | .var v, n, v', h => by
    cases h
    exact ⟨v, rfl, length_editVarDecl ids v n⟩
  | .absent, _, _, h | .pat _, _, _, h | .expr _, _, _, h => by cases h

theorem thinned_edited (ids : List Binding) (s : Stmt) (n : Nat) :
    ThinnedDecl ids s ((editStmtParts (removeEdits ids) s).run n).1 := by
  cases s with
  | decl d | exportDecl d => exact ⟨rfl, thinned_decl ids d n⟩
  | «for» head _ _ _ | forIn head _ _ | forOf _ head _ _ => exact ⟨rfl, thinned_head ids head n⟩
  | _ => exact ⟨rfl, nofun⟩

/-! ### Whole trees -/

/-- What is left in a statement that was among some items: something, or, where the declaration is
kept in any case, as much as there was of other variables. -/
def DeclLeft (ids : List Binding) (is : List Item) (s' : Stmt) : Prop :=
  ∀ v', s'.varDecl? = some v' →
    (s'.keepsEmptied = false → v'.decls ≠ []) ∧
    (s'.keepsEmptied = true → ∃ s v, .stmt s ∈ is ∧ s.keepsEmptied = true ∧ s.varDecl? = some v ∧
      v'.decls.length = v.decls.countP fun d => !d.declaresOneOf ids)

theorem DeclLeft.mono {is js : List Item} {s : Stmt} (h : DeclLeft ids is s) (hsub : is ⊆ js) :
    DeclLeft ids js s := by
  intro v' hv'
  obtain ⟨hplain, hkept⟩ := h v' hv'
  refine ⟨hplain, fun hs => ?_⟩
  obtain ⟨s₀, v, hmem, hrest⟩ := hkept hs
  exact ⟨s₀, v, hsub hmem, hrest⟩

/-- All statements are done. -/
def DeclsLeft (ids : List Binding) : OutlineRel Nat := fun _ os _ os' =>
  ∀ s', .stmt s' ∈ Outline.itemsOf os' → DeclLeft ids (Outline.itemsOf os) s'

/-- All statements inside are done, and the outer ones are not tidied up yet. -/
def DeclsPending (ids : List Binding) : OutlineRel Nat := fun _ os _ os' =>
  List.Forall₂ (fun o o' => ∃ s s' parts parts', o = .node (.stmt s) parts ∧
    o' = .node (.stmt s') parts' ∧ ThinnedDecl ids s s' ∧ DeclsLeft ids 0 parts 0 parts') os os'

theorem declsLeft_tidied {s s' : Stmt} {parts : List Outline} (h : ThinnedDecl ids s s')
    (hparts : DeclsLeft ids 0 parts 0 s'.parts) :
    DeclsLeft ids 0 [.node (.stmt s) parts] 0 [outlineStmt (tidyEmptied s')] := by
  intro t ht
  rw [outlineStmt_parts, mem_itemsOf_node] at ht
  rcases ht with ht | ht
  · cases ht
    intro v' hv'
    rw [tidyEmptied_keepsEmptied]
    refine ⟨tidyEmptied_decls hv', fun hkeeps => ?_⟩
    rw [tidyEmptied_keeps hkeeps] at hv'
    obtain ⟨v, hv, hlength⟩ := h.declarators v' hv'
    exact ⟨s, v, mem_itemsOf_node.2 (.inl rfl), h.place ▸ hkeeps, hv, hlength⟩
  · refine (hparts t (parts_tidyEmptied s' ht)).mono fun i hi => ?_
    exact mem_itemsOf_node.2 (.inr hi)

theorem declsLeft_of_subset {os os' qs' : List Outline} (h : DeclsLeft ids 0 os 0 os')
    (hsub : Outline.itemsOf qs' ⊆ Outline.itemsOf os') : DeclsLeft ids 0 os 0 qs' :=
  fun s hs => h s (hsub hs)

theorem declsLeft_append {a a' b b' : List Outline} (h : DeclsLeft ids 0 a 0 a')
    (h' : DeclsLeft ids 0 b 0 b') : DeclsLeft ids 0 (a ++ b) 0 (a' ++ b') := by
  intro s hs
  rw [itemsOf_append] at hs ⊢
  rcases List.mem_append.1 hs with hs | hs
  · exact (h s hs).mono (List.subset_append_left _ _)
  · exact (h' s hs).mono (List.subset_append_right _ _)

theorem declsLeft_list : ∀ {os : List Outline} {ss : List Stmt},
    DeclsPending ids 0 os 0 (outlineStmts ss) →
    DeclsLeft ids 0 os 0 (outlineStmts (ss.map tidyEmptied))
  | _, [], _ => nofun
  | os, s :: ss, h => by
    rw [outlineStmts, outlineStmt_parts] at h
    cases h with
    | cons ho hos =>
      obtain ⟨s₀, s', parts, parts', rfl, hs', hthinned, hparts⟩ := ho
      cases hs'
      exact declsLeft_append (declsLeft_tidied hthinned hparts) (declsLeft_list hos)

theorem declsLeft_node {i i' : Item} {os os' : List Outline} (hi : ∀ s, i' ≠ .stmt s)
    (h : DeclsLeft ids 0 os 0 os') : DeclsLeft ids 0 [.node i os] 0 [.node i' os'] := by
  intro s hs
  rcases mem_itemsOf_node.1 hs with hs | hs
  · exact absurd hs.symm (hi s)
  · exact (h s hs).mono fun _ hi => mem_itemsOf_node.2 (.inr hi)

theorem declsLeft_leaf {i i' : Item} (hi : ∀ s, i' ≠ .stmt s) :
    DeclsLeft ids 0 [.leaf i] 0 [.leaf i'] := declsLeft_node hi nofun

theorem itemsOf_sublist {os qs : List Outline} (h : os.Sublist qs) :
    Outline.itemsOf os ⊆ Outline.itemsOf qs := by
  intro i hi
  induction h with
  | slnil => exact hi
  | cons _ _ ih => exact mem_itemsOf_cons.2 (.inr (ih hi))
  | cons_cons _ _ ih => exact mem_itemsOf_cons.2 ((mem_itemsOf_cons.1 hi).imp_right ih)

theorem removeEdits_declsLeft (ids : List Binding) :
    (removeEdits ids).RelatesOutlines (DeclsLeft ids) (DeclsPending ids) (DeclsLeft ids) where
  nil _ := nofun
  append h h' := declsLeft_append h h'
  perm ha hb h s hs :=
    (h s ((mem_itemsOf_perm hb).2 hs)).mono fun _ => (mem_itemsOf_perm ha).1
  ident _ _ := declsLeft_leaf (by simp)
  label _ _ := declsLeft_leaf (by simp)
  word _ _ := declsLeft_leaf (by simp)
  str _ _ := declsLeft_leaf (by simp)
  num _ _ := declsLeft_leaf (by simp)
  node hi := declsLeft_node fun s hs => by
    subst hs
    cases hi
  exprNode _ := declsLeft_node (by simp)
  varDecl d h := by
    obtain ⟨kind, ds⟩ := d
    intro s hs
    rcases mem_itemsOf_node.1 hs with hs | hs
    · cases hs
    · refine h s (mem_itemsOf_node.2 (.inr ?_))
      rw [outlineDeclarators_eq_map] at hs ⊢
      exact itemsOf_sublist (List.filter_sublist.map _) hs
  stmt s h := .cons ⟨s, _, _, _, rfl, rfl, thinned_edited ids s _, h⟩ .nil
  rawNil _ := .nil
  rawCons h h' := by
    cases h with
    | cons ho _ => exact .cons ho h'
  single s h := @declsLeft_list _ _ [s] h
  labelled s h := @declsLeft_list _ _ [s] h
  list ss h := by
    refine declsLeft_of_subset (declsLeft_list h) ?_
    rw [outlineStmts_eq_map, outlineStmts_eq_map]
    exact itemsOf_sublist ((List.filter_sublist.trans List.filter_sublist).map _)

/-- **What a removal leaves of variable declarations**, in a program where each has a declarator. A
statement and the head of a counting loop that are left with one still have a declarator in it. An
export or a loop over elements has as many as there were of variables that are kept, so none exactly
if all were removed; and if that is nowhere so, each declaration that is left has a declarator. -/
theorem removeDecls_leaves_declarators (p : Program) (ids : List Binding)
    (h : ∀ s v, .stmt s ∈ p.items → s.varDecl? = some v → v.decls ≠ []) :
    (∀ s v, .stmt s ∈ (p.removeDecls ids).1.items → s.varDecl? = some v →
      (s.keepsEmptied = false → v.decls ≠ []) ∧
      (s.keepsEmptied = true → ∃ s₀ v₀, .stmt s₀ ∈ p.items ∧ s₀.keepsEmptied = true ∧
        s₀.varDecl? = some v₀ ∧
        v.decls.length = v₀.decls.countP fun d => !d.declaresOneOf ids)) ∧
    ((∀ s v, .stmt s ∈ p.items → s.keepsEmptied = true → s.varDecl? = some v →
        ∃ d ∈ v.decls, d.declaresOneOf ids = false) →
      ∀ s v, .stmt s ∈ (p.removeDecls ids).1.items → s.varDecl? = some v → v.decls ≠ []) := by
  have hleft : ∀ s, .stmt s ∈ (p.removeDecls ids).1.items → DeclLeft ids p.items s := by
    intro s hs
    unfold Program.removeDecls at hs
    split at hs
    case isTrue hnone =>
      obtain rfl : ids = [] := List.isEmpty_iff.1 hnone
      intro v hv
      refine ⟨fun _ => h s v hs hv, fun hkeeps => ⟨s, v, hs, hkeeps, hv, ?_⟩⟩
      exact (List.countP_eq_length.2 fun d _ => by rw [declaresOneOf_nil]; rfl).symm
    case isFalse => exact (removeEdits_declsLeft ids).program p 0 s hs
  refine ⟨fun s v hs hv => hleft s hs v hv, fun hkept s v hs hv => ?_⟩
  obtain ⟨hplain, hemptied⟩ := hleft s hs v hv
  cases hplace : s.keepsEmptied with
  | false => exact hplain hplace
  | true =>
    obtain ⟨s₀, v₀, hs₀, hplace₀, hv₀, hlength⟩ := hemptied hplace
    obtain ⟨d, hd, hother⟩ := hkept s₀ v₀ hs₀ hplace₀ hv₀
    have hpos : 0 < v₀.decls.countP fun d => !d.declaresOneOf ids :=
      List.countP_pos_iff.2 ⟨d, hd, by rw [hother]; rfl⟩
    exact List.ne_nil_of_length_pos (hlength ▸ hpos)

def Item.isFilled : Item → Bool
  | .stmt s => s.varDecl?.all fun v => !v.decls.isEmpty
  | _ => true

theorem decls_ne_nil {p : Program} (h : ∀ i ∈ p.items, i.isFilled = true) (s : Stmt) (v : VarDecl)
    (hs : .stmt s ∈ p.items) (hv : s.varDecl? = some v) : v.decls ≠ [] := by
  have hfilled : (s.varDecl?.all fun v => !v.decls.isEmpty) = true := h _ hs
  rw [hv] at hfilled
  simpa using hfilled

/-- A declarator of a name that starts as `1`. -/
def startsAsOne (x : String) : Declarator :=
  .mk (.name (.ofIdent { name := x })) (some (.lit (.num { value := 1 }))) false

/-- `export var x = 1, y = 1; for (var z = 1;;) {}` -/
def halfExported : Program where
  grammar := .module
  body := [.exportDecl (.var (.mk .var [startsAsOne "x", startsAsOne "y"])),
    .for (.var (.mk .var [startsAsOne "z"])) none none (.block [])]

/-- Without `x` and `z`, `y` is still exported, and the loop has no declaration at all. -/
theorem removeDecls_leaves_half :
    generate (halfExported.resolved.removeDecls
      [{ name := "x", scope := .top }, { name := "z", scope := .top }]).1 .latest =
        "export var y = 1;\nfor(;;){}\n" ∧
    ∀ s v, .stmt s ∈ (halfExported.resolved.removeDecls
      [{ name := "x", scope := .top }, { name := "z", scope := .top }]).1.items →
        s.varDecl? = some v → v.decls ≠ [] := by
  refine ⟨by decide +kernel, (removeDecls_leaves_declarators _ _ ?_).2 ?_⟩
  · exact decls_ne_nil (by decide +kernel)
  · intro s v hs hplace hv
    have hkept : ∀ i ∈ halfExported.resolved.items, (match i with
        | .stmt s => !s.keepsEmptied || s.varDecl?.all fun v => v.decls.any fun d =>
            !d.declaresOneOf [{ name := "x", scope := .top }, { name := "z", scope := .top }]
        | _ => true) = true := by decide +kernel
    simpa [hplace, hv] using hkept _ hs

/-- `export var x = 1;` -/
def exportedWhole : Program where
  grammar := .module
  body := [.exportDecl (.var (.mk .var [startsAsOne "x"]))]

/-- `for (var x in y) {}` -/
def overElements : Program where
  grammar := .script
  body := [.forIn (.var (.single .var { name := "x" } none)) (.ident { name := "y" }) (.block [])]

/-- An export and a loop over elements of which nothing is left, and their texts, which cannot be
read. -/
theorem removeDecls_empties_export :
    generate (exportedWhole.resolved.removeDecls [{ name := "x", scope := .top }]).1 .latest =
      "export var ;\n" ∧ (parse "export var ;\n" {}).isOk = false ∧
    generate (overElements.resolved.removeDecls [{ name := "x", scope := .top }]).1 .latest =
      "for(var  in y){}\n" ∧ (parse "for(var  in y){}\n" {}).isOk = false := by
  decide +kernel

end Untangle
