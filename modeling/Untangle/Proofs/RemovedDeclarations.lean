import Untangle.Proofs.EditedScopes
import Untangle.Proofs.ScopeReferences
import Untangle.Proofs.TableRemoval
import Untangle.Proofs.Thinning

/-!
# What names refer to once unused declarations are gone

The declarations of some variables can be removed if nothing but the declaration refers to them:
what is left refers to what it did. A name that stood for such a variable may stand for another one
then, but nothing in the scope bears it.

* `removeDecls_wellBound` — the pass keeps programs well bound.
-/

namespace Untangle

open ScopeTree (block declarationsOf occurrencesOf rightOf)

open Pass (removing removeEdits_agrees declaresOnly_of_isFuncOf)

variable {ids : List Binding}

/-! ### Fewer declarations -/

/-- Declarations without those of some variables. -/
structure Drops (ids : List Binding) (before after : List Ident) : Prop where
  kept : ∀ d ∈ before, d ∈ after ∨ d.binding ∈ ids
  known : after ⊆ before

namespace Drops

variable {a b c d : List Ident}

theorem refl (a : List Ident) : Drops ids a a := ⟨fun _ => .inl, List.Subset.refl a⟩

theorem trans (h : Drops ids a b) (h' : Drops ids b c) : Drops ids a c where
  kept x hx := (h.kept x hx).elim (h'.kept x) .inr
  known := List.Subset.trans h'.known h.known

theorem append (h : Drops ids a b) (h' : Drops ids c d) : Drops ids (a ++ c) (b ++ d) where
  kept x hx := by
    rcases List.mem_append.1 hx with hx | hx
    · exact (h.kept x hx).imp_left (List.mem_append_left d)
    · exact (h'.kept x hx).imp_left (List.mem_append_right b)
  known x hx := by
    rcases List.mem_append.1 hx with hx | hx
    · exact List.mem_append_left c (h.known hx)
    · exact List.mem_append_right a (h'.known hx)

theorem composes (ids : List Binding) : Composes (Drops ids) := ⟨refl, trans, append⟩

theorem all (h : ∀ d ∈ a, d.binding ∈ ids) : Drops ids a [] :=
  ⟨fun d hd => .inr (h d hd), List.nil_subset a⟩

/-- With the dropped variables left out of account, names refer to what they did. -/
theorem redeclares {N : List Waiver} (h : Drops ids a b)
    (hN : ∀ d ∈ a, d.binding ∈ ids → .binding d.binding ∈ N) : Redeclares N a b where
  kept x hx := by
    rcases h.kept x hx with hb | hdropped
    · exact .inl (List.mem_map_of_mem hb)
    · exact .inr ⟨x, hx, rfl, .inr (hN x hx hdropped)⟩
  known x hx := .inl (h.known hx)

end Drops

/-- Scopes without the declarations of some variables. -/
structure Removes (ids : List Binding) (before after : List ScopeTree) : Prop where
  declared : declarationsOf after ⊆ declarationsOf before
  thins : ∀ N, (∀ d ∈ declarationsOf before, d.binding ∈ ids → .binding d.binding ∈ N) →
    Thins N before after

namespace Removes

variable {a b c d : List ScopeTree}

theorem refl (a : List ScopeTree) : Removes ids a a := ⟨List.Subset.refl _, fun _ _ => .refl a⟩

theorem trans (h : Removes ids a b) (h' : Removes ids b c) : Removes ids a c where
  declared := List.Subset.trans h'.declared h.declared
  thins N hN := (h.thins N hN).trans (h'.thins N fun d hd => hN d (h.declared hd))

theorem append (h : Removes ids a b) (h' : Removes ids c d) : Removes ids (a ++ c) (b ++ d) where
  declared x hx := by
    rw [ScopeTree.declarationsOf_append, List.mem_append] at hx ⊢
    exact hx.imp (@h.declared x) (@h'.declared x)
  thins N hN := by
    rw [ScopeTree.declarationsOf_append] at hN
    exact (h.thins N fun d hd => hN d (List.mem_append_left _ hd)).append
      (h'.thins N fun d hd => hN d (List.mem_append_right _ hd))

theorem drop (a : List ScopeTree) : Removes ids a [] := ⟨List.nil_subset _, fun _ _ => .drop a⟩

theorem scope {decls decls' added added' : List Ident} {head head' body body' : List ScopeTree}
    (hdecls : Drops ids decls decls') (hhead : Removes ids head head')
    (hadded : Drops ids added added') (hbody : Removes ids body body') :
    Removes ids [.scope decls head added body] [.scope decls' head' added' body'] where
  declared x hx := by
    simp only [declarationsOf, ScopeTree.declarations, List.append_nil, List.mem_append] at hx ⊢
    exact hx.imp (Or.imp (Or.imp (@hdecls.known x) (@hhead.declared x)) (@hadded.known x))
      (@hbody.declared x)
  thins N hN := by
    simp only [declarationsOf, ScopeTree.declarations, List.append_nil, List.mem_append] at hN
    exact .scope (hdecls.redeclares fun d hd => hN d (.inl (.inl (.inl hd))))
      (hhead.thins N fun d hd => hN d (.inl (.inl (.inr hd))))
      (hadded.redeclares fun d hd => hN d (.inl (.inr hd)))
      (hbody.thins N fun d hd => hN d (.inr hd))

end Removes

/-! ### Steps -/

section Steps

variable {own : String → Bool}

theorem bound_of_declaresOneOf {d : Declarator} (h : d.declaresOneOf ids = true) :
    ∀ x ∈ d.bound, x.binding ∈ ids := by
  obtain ⟨target, init, definite⟩ := d
  cases target with
  | name b =>
    intro x hx
    have hbinding : b.id.binding ∈ ids := List.contains_iff_mem.1 h
    rw [List.mem_singleton.1 hx]
    exact hbinding
  | _ => cases h

theorem drops_declarators (decls : List Declarator) :
    Drops ids (decls.flatMap Declarator.bound)
      ((decls.filter fun d => !d.declaresOneOf ids).flatMap Declarator.bound) := by
  induction decls with
  | nil => exact .refl _
  | cons d decls ih =>
    rw [List.flatMap_cons]
    cases hd : d.declaresOneOf ids with
    | true =>
      rw [List.filter_cons_of_neg (by simp [hd])]
      exact (Drops.all (bound_of_declaresOneOf hd)).append ih
    | false =>
      rw [List.filter_cons_of_pos (by simp [hd]), List.flatMap_cons]
      exact (Drops.refl _).append ih

theorem scopesDeclarators_cons (d : Declarator) (decls : List Declarator) :
    scopesDeclarators own (d :: decls) =
      scopesDeclarators own [d] ++ scopesDeclarators own decls := by
  obtain ⟨target, init, definite⟩ := d
  cases init <;> simp [scopesDeclarators]

theorem removes_declarators (decls : List Declarator) :
    Removes ids (scopesDeclarators own decls)
      (scopesDeclarators own (decls.filter fun d => !d.declaresOneOf ids)) := by
  induction decls with
  | nil => exact .refl _
  | cons d decls ih =>
    rw [scopesDeclarators_cons]
    cases hd : d.declaresOneOf ids with
    | true =>
      rw [List.filter_cons_of_neg (by simp [hd])]
      exact (Removes.drop _).append ih
    | false =>
      rw [List.filter_cons_of_pos (by simp [hd]), scopesDeclarators_cons d (decls.filter _)]
      exact (Removes.refl _).append ih

/-- What two statements have in common that differ in nothing but form. -/
structure Alike (own : String → Bool) (s t : Stmt) : Prop where
  scopes : scopesStmt own s = scopesStmt own t
  direct : s.direct own = t.direct own
  lifted : s.lifted own = t.lifted own

theorem alike_emptied {kind : VarKind} : ∀ d : Decl, d.plain = .var (.mk kind []) →
    Alike own (.decl d) .empty
  | .ambient d, h => by
    obtain ⟨hscopes, hdirect, hlifted⟩ := alike_emptied d h
    exact ⟨hscopes, hdirect, hlifted⟩
  | .var _, h => by
    cases h
    exact ⟨rfl, ite_self _, ite_self _⟩

theorem alike_tidyEmptied (s : Stmt) : Alike own s (tidyEmptied s) := by
  unfold tidyEmptied
  split
  · split
    · rename_i hd
      exact alike_emptied _ hd
    · exact ⟨rfl, rfl, rfl⟩
  · rename_i kind test step body
    have hdirect : (ForHead.var (.mk kind [])).direct = [] := ite_self _
    have hlifted : (ForHead.var (.mk kind [])).lifted = [] := ite_self _
    refine ⟨?_, rfl, ?_⟩
    · cases test <;> cases step <;> exact congrArg (fun ids => [ScopeTree.block ids _]) hdirect
    · exact congrArg (· ++ body.lifted own) hlifted
  · exact ⟨rfl, rfl, rfl⟩

/-- What removal does to a list. -/
structure RemovesList (ids : List Binding) (own : String → Bool) (ss ts : List Stmt) : Prop where
  scopes : Removes ids (scopesOf own ss) (scopesOf own ts)
  direct : Drops ids (directOf own ss) (directOf own ts)
  lifted : Drops ids (liftedOf own ss) (liftedOf own ts)

namespace RemovesList

variable {ss ss' ts ts' : List Stmt} {s t : Stmt}

theorem append (h : RemovesList ids own ss ss') (h' : RemovesList ids own ts ts') :
    RemovesList ids own (ss ++ ts) (ss' ++ ts') where
  scopes := by
    rw [scopesOf_append, scopesOf_append]
    exact h.scopes.append h'.scopes
  direct := by
    rw [directOf_append, directOf_append]
    exact h.direct.append h'.direct
  lifted := by
    rw [liftedOf_append, liftedOf_append]
    exact h.lifted.append h'.lifted

theorem refl (ss : List Stmt) : RemovesList ids own ss ss := ⟨.refl _, .refl _, .refl _⟩

theorem trans (h : RemovesList ids own ss ts) (h' : RemovesList ids own ts ts') :
    RemovesList ids own ss ts' :=
  ⟨h.scopes.trans h'.scopes, h.direct.trans h'.direct, h.lifted.trans h'.lifted⟩

theorem of_alike (h : Alike own s t) : RemovesList ids own [s] [t] where
  scopes := by
    rw [scopesOf_singleton, scopesOf_singleton, h.scopes]
    exact .refl _
  direct := by
    rw [directOf_singleton, directOf_singleton, h.direct]
    exact .refl _
  lifted := by
    rw [liftedOf_singleton, liftedOf_singleton, h.lifted]
    exact .refl _

theorem of_isEmpty (h : s.isEmpty = true) : RemovesList ids own [s] [] := by
  cases s with
  | empty => exact ⟨.refl _, .refl _, .refl _⟩
  | _ => cases h

theorem declared_of_declaresOnly (own : String → Bool) : ∀ d : Decl,
    (Stmt.decl d).declaresOnly ids = true →
    (∀ x ∈ d.direct own, x.binding ∈ ids) ∧ ∀ x ∈ d.lifted own, x.binding ∈ ids
  | .ambient d, h => declared_of_declaresOnly own d h
  | .func name _, h => by
    have hname : name.binding ∈ ids := List.contains_iff_mem.1 h
    simp only [Decl.direct, Decl.lifted]
    split <;> simp [hname]
  | .var (.mk kind decls), h => by
    have hbound : ∀ x ∈ decls.flatMap Declarator.bound, x.binding ∈ ids := by
      intro x hx
      obtain ⟨d, hd, hx⟩ := List.mem_flatMap.1 hx
      exact bound_of_declaresOneOf (List.all_eq_true.1 h d hd) x hx
    simp only [Decl.direct, Decl.lifted, VarDecl.direct, VarDecl.lifted]
    split <;> simpa using hbound

theorem of_declaresOnly (h : s.declaresOnly ids = true) : RemovesList ids own [s] [] := by
  cases s with
  | decl d =>
    obtain ⟨hdirect, hlifted⟩ := declared_of_declaresOnly own d h
    refine ⟨.drop _, ?_, ?_⟩
    · rw [directOf_singleton]
      exact .all hdirect
    · rw [liftedOf_singleton]
      exact .all hlifted
  | _ => cases h

theorem filter {kept : Stmt → Bool} (h : ∀ s, kept s = false → RemovesList ids own [s] []) :
    ∀ ss : List Stmt, RemovesList ids own ss (ss.filter kept) := by
  intro ss
  induction ss with
  | nil => exact refl []
  | cons s ss ih =>
    cases hs : kept s with
    | true =>
      rw [List.filter_cons_of_pos hs]
      exact (refl [s]).append ih
    | false =>
      rw [List.filter_cons_of_neg (by simp [hs])]
      exact (h s hs).append ih

theorem program {p q : Program} (h : RemovesList ids own p.body q.body) :
    Removes ids [p.scopes own] [q.scopes own] :=
  .scope (.refl []) (.refl []) (h.direct.append h.lifted) h.scopes

end RemovesList

theorem removesList_removing (ss : List Stmt) :
    RemovesList ids own ss (result ((removing ids).list ss)) := by
  show RemovesList ids own ss
    (((ss.map tidyEmptied).filter fun s => !s.isEmpty).filter fun s => !s.isFuncOf ids)
  induction ss with
  | nil => exact ⟨.refl _, .refl _, .refl _⟩
  | cons s ss ih =>
    have htidy : RemovesList ids own [s] [tidyEmptied s] := .of_alike (alike_tidyEmptied s)
    rw [List.map_cons]
    cases hempty : (tidyEmptied s).isEmpty with
    | true =>
      rw [List.filter_cons_of_neg (by simp [hempty])]
      exact (htidy.trans (.of_isEmpty hempty)).append ih
    | false =>
      rw [List.filter_cons_of_pos (by simp [hempty])]
      cases hfunc : (tidyEmptied s).isFuncOf ids with
      | true =>
        rw [List.filter_cons_of_neg (by simp [hfunc])]
        exact (htidy.trans (.of_declaresOnly (declaresOnly_of_isFuncOf hfunc))).append ih
      | false =>
        rw [List.filter_cons_of_pos (by simp [hfunc])]
        exact htidy.append ih

theorem removing_lifts (ids : List Binding) (own : String → Bool) :
    (removing ids).Lifts own (Drops ids) where
  composes := Drops.composes ids
  ident _ := rfl
  varDecl d := by
    obtain ⟨kind, decls⟩ := d
    show Drops ids (if kind = .var then _ else []) (if kind = .var then _ else [])
    split
    · exact drops_declarators decls
    · exact .refl _
  single s := (Drops.composes ids).of_eq (alike_tidyEmptied s).lifted
  labelled s := (Drops.composes ids).of_eq (alike_tidyEmptied s).lifted
  list ss := (removesList_removing ss).lifted

theorem removing_relatesScopes (ids : List Binding) (own : String → Bool) :
    (removing ids).RelatesScopes own (Drops ids) (Removes ids) := by
  have hlone : ∀ a s, Removes ids a [lone own s] → Removes ids a [lone own (tidyEmptied s)] := by
    intro a s ha
    have htidy : Alike own s (tidyEmptied s) := alike_tidyEmptied s
    unfold lone at ha ⊢
    rwa [← htidy.direct, ← htidy.scopes]
  exact {
    lifts := removing_lifts ids own
    nil := .refl _
    append := .append
    scope := .scope
    other := fun _ => .refl _
    name := fun _ => .refl _
    nameBase := fun _ => .refl _
    varDecl := by
      rintro a ⟨kind, decls⟩ h
      exact h.trans (removes_declarators decls)
    varDeclDirect := by
      rintro ⟨kind, decls⟩
      show Drops ids (if kind = .var then [] else _) (if kind = .var then [] else _)
      split
      · exact .refl _
      · exact drops_declarators decls
    single := hlone
    labelled := hlone
    list := fun a ss h => h.trans (removesList_removing ss).scopes
    listDirect := fun ss => (removesList_removing ss).direct
  }

end Steps

/-! ### Programs -/

section Unwaived

variable {N : List Waiver}

mutual

/-- What is left out of account and does not occur need not be left out. -/
theorem right_unwaived (hnames : ∀ x, .name x ∉ N) : ∀ (t : ScopeTree) {env : Scoping},
    (∀ o ∈ t.occurrences, .binding o.2.binding ∉ N) → t.Right N env → t.Right [] env
  | .occurs _ id, _, h, hright =>
    .inr (hright.resolve_left fun hwaived =>
      hwaived.elim (hnames id.name) (h _ (List.mem_singleton_self _)))
  | .scope _ head _ body, _, h, ⟨hdeclared, hhead, hadded, hbody⟩ =>
    ⟨fun d hd => .inr ((hdeclared d hd).resolve_left (hnames d.name)),
      rightOf_unwaived hnames head (fun o ho => h o (List.mem_append_left _ ho)) hhead,
      fun d hd => .inr ((hadded d hd).resolve_left (hnames d.name)),
      rightOf_unwaived hnames body (fun o ho => h o (List.mem_append_right _ ho)) hbody⟩

theorem rightOf_unwaived (hnames : ∀ x, .name x ∉ N) : ∀ (ts : List ScopeTree) {env : Scoping},
    (∀ o ∈ occurrencesOf ts, .binding o.2.binding ∉ N) → rightOf N env ts → rightOf [] env ts
  | [], _, _, _ => trivial
  | t :: ts, _, h, ⟨ht, hts⟩ =>
    ⟨right_unwaived hnames t (fun o ho => h o (List.mem_append_left _ ho)) ht,
      rightOf_unwaived hnames ts (fun o ho => h o (List.mem_append_right _ ho)) hts⟩

end

end Unwaived

/-- Where nothing is left that refers to a removed variable, what is left refers to what it did. -/
theorem Removes.wellBound {own : String → Bool} {p q : Program}
    (h : Removes ids [p.scopes own] [q.scopes own])
    (hids : ∀ o ∈ (q.scopes own).occurrences, o.2.binding ∈ ids →
      ∀ d ∈ (p.scopes own).declarations, d.binding ≠ o.2.binding)
    (hp : p.WellBound own []) : q.WellBound own [] := by
  -- The variables that go: those of the given ones that the program declares.
  let gone : List Binding :=
    ((p.scopes own).declarations.map Ident.binding).filter fun b => ids.contains b
  have hgone : ∀ b, b ∈ gone ↔ b ∈ (p.scopes own).declarations.map Ident.binding ∧ b ∈ ids := by
    intro b
    rw [List.mem_filter, List.contains_iff_mem]
  have hthins : Thins (gone.map .binding) [p.scopes own] [q.scopes own] := by
    refine h.thins _ fun d hd hmem => List.mem_map_of_mem ((hgone _).2 ⟨?_, hmem⟩)
    have hdeclared : d ∈ (p.scopes own).declarations := by simpa [declarationsOf] using hd
    exact List.mem_map_of_mem hdeclared
  have hright := ScopeTree.Right.mono (List.nil_subset (gone.map .binding)) _ hp
  refine right_unwaived (by simp) _ ?_
    (hthins.right .outside .outside (.refl _) ⟨hright, trivial⟩).1
  intro o ho hwaived
  obtain ⟨b, hb, hbinding⟩ := List.mem_map.1 hwaived
  cases hbinding
  obtain ⟨hdeclared, hmem⟩ := (hgone _).1 hb
  obtain ⟨d, hd, hsame⟩ := List.mem_map.1 hdeclared
  exact hids o ho hmem d hd hsame

theorem Removes.kept {own : String → Bool} {p q : Program}
    (h : Removes ids [p.scopes own] [q.scopes own]) :
    (q.scopes own).occurrences.Sublist (p.scopes own).occurrences := by
  have hthins := h.thins (ids.map .binding) fun d _ hmem => List.mem_map_of_mem hmem
  simpa [occurrencesOf] using hthins.kept

/-- Removing the declarations of variables that nothing else refers to drops occurrences of names at
most, and what is left refers to what it did. -/
theorem removeDecls_wellBound {own : String → Bool} {p : Program}
    (hids : ∀ b ∈ ids, p.references.count b ≤ 1) (hp : p.WellBound own []) :
    (((p.removeDecls ids).1.scopes own).occurrences.Sublist (p.scopes own).occurrences) ∧
      (p.removeDecls ids).1.WellBound own [] := by
  unfold Program.removeDecls
  split
  · exact ⟨List.Sublist.refl _, hp⟩
  rw [(editProgram_agree (removeEdits_agrees ids) p).result_eq]
  have hremoves := (removing_relatesScopes ids own).program p
  refine ⟨hremoves.kept, hremoves.wellBound (fun o ho hmem d hd hsame => ?_) hp⟩
  -- A variable that goes is declared, so an occurrence besides would be a second reference.
  have htwo := two_le_references hd (hremoves.kept.subset ho) hsame.symm
  have hone := hids _ hmem
  rw [hsame] at htwo
  omega

end Untangle
