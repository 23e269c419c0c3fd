import Untangle.Pass.Simplify
import Untangle.Proofs.DeadCodeExecution
import Untangle.Proofs.FunctionBodies
import Untangle.Proofs.SequencePieces

/-!
# Passes make up no functions

Simplifying drops operands, removing dead code drops statements and opens blocks, and splitting
sequences moves expressions in front of statements. None of them makes a function, so the function
bodies in what an edit gives are among those in what it was given.

* `bodies_folded`, `bodies_reduced`, `bodies_cleanList` — expressions, statements and lists.
* `bodies_splitStmts`, `bodies_splitArrow` — the same for sequences, of which nothing else is lost.
-/

namespace Untangle.Pass

/-! ### Simplifying -/

/-- The pass as edits, without a count. -/
def simplifying (limit : Nat) : Edits Unit where
  expr := fun e => pure ((foldOnce? limit (dropParens e)).getD (dropParens e))
  str := fun s => pure ((plainString? s).getD s)
  num := fun n => pure ((plainNumber? n).getD n)

theorem foldExpr_agree (limit : Nat) (e : Expr) :
    Agree (fun _ _ => True) ((simplifyEdits limit).expr e) ((simplifying limit).expr e) := by
  intro t u _
  unfold simplifyEdits simplifying
  dsimp only
  cases foldOnce? limit (dropParens e) <;> exact ⟨rfl, trivial⟩

theorem simplifyEdits_agrees (limit : Nat) :
    Edits.Agrees (fun _ _ => True) (simplifyEdits limit) (simplifying limit) where
  str s := Agree.to fun t u _ => by
    unfold simplifyEdits simplifying
    dsimp only
    cases plainString? s <;> exact ⟨rfl, trivial⟩
  num n := Agree.to fun t u _ => by
    unfold simplifyEdits simplifying
    dsimp only
    cases plainNumber? n <;> exact ⟨rfl, trivial⟩
  expr e := (foldExpr_agree limit e).to
  base e := (foldExpr_agree limit e).to

theorem simplify_eq (limit : Nat) (p : Program) :
    (simplify limit p).1 = result (editProgram (simplifying limit) p) :=
  (editProgram_agree (simplifyEdits_agrees limit) p).result_eq _

theorem unparen_unparen (e : Expr) : e.unparen.unparen = e.unparen := by
  induction e using Expr.unparen_induct with
  | paren e ih => exact ih
  | bare e hbare => rw [hbare, hbare]

theorem unparen_dropParens (e : Expr) : (dropParens e).unparen = e.unparen := by
  unfold dropParens
  split
  · rename_i e
    split
    · rfl
    · exact unparen_unparen e
  · rfl

/-- Whether an expression is of a kind that simplifying writes: a literal, perhaps after a sign or
`void`. -/
def isWritten : Expr → Bool
  | .lit _ => true
  | .unary .minus _ => true
  | .unary .void _ => true
  | _ => false

section Views

variable {α : Type} {view : Item → List α}

theorem viewed_unparen (view : Item → List α) (e : Expr) :
    viewed view [outlineExpr e.unparen] ⊆ viewed view [outlineExpr e] := by
  induction e using Expr.unparen_induct with
  | paren e ih =>
    rw [outlineExpr, viewed_node]
    exact List.Subset.trans ih (List.subset_append_right _ _)
  | bare e hbare => rw [hbare]; exact List.Subset.refl _

theorem viewed_dropParens (view : Item → List α) (e : Expr) :
    viewed view [outlineExpr (dropParens e)] ⊆ viewed view [outlineExpr e] := by
  unfold dropParens
  split
  · split
    · exact List.Subset.refl _
    · exact viewed_unparen view (.paren _)
  · exact List.Subset.refl _

theorem viewed_toExpr? (hminor : ∀ i : Item, i.isConstruct = false → view i = [])
    (hwritten : ∀ e, isWritten e = true → view (.expr e) = []) {v : Value} {e : Expr}
    (h : v.toExpr? = some e) : viewed view [outlineExpr e] = [] := by
  have hlit : ∀ l, viewed view [outlineExpr (.lit l)] = [] := by
    intro l
    rw [outlineExpr, viewed_node, hwritten _ rfl, viewed_leaves _ hminor (lit_leaves l)]
    rfl
  have hunary : ∀ op l, isWritten (.unary op (.lit l)) = true →
      viewed view [outlineExpr (.unary op (.lit l))] = [] := by
    intro op l hop
    rw [outlineExpr, viewed_node, hwritten _ hop, hlit]
    rfl
  cases v with
  | number x =>
    rw [Value.toExpr?] at h
    split at h
    · cases h
      unfold Expr.ofNumber
      split
      · exact hunary _ _ rfl
      · exact hlit _
    · cases h
  | string us =>
    obtain ⟨t, -, rfl⟩ := Option.map_eq_some_iff.1 h
    exact hlit _
  | boolean b =>
    cases h
    exact hlit _
  | null =>
    cases h
    exact hlit _
  | undefined =>
    cases h
    exact hunary _ _ rfl
  | emptyArray => cases h

theorem viewed_foldPartly? (view : Item → List α) {e e' : Expr} (h : foldPartly? e = some e') :
    viewed view [outlineExpr e'] ⊆ viewed view [outlineExpr e] := by
  unfold foldPartly? at h
  split at h
  case h_5 => cases h
  all_goals
    obtain ⟨v, -, rfl⟩ := Option.map_eq_some_iff.1 h
    intro b hb
    rw [outlineExpr, viewed_node, viewed_cons]
    split at hb
    all_goals simp_all [viewed_cons view (outlineExpr _) [_]]

/-- Simplifying an expression whose parts are simplified shows nothing that was not there. -/
theorem viewed_folded (hminor : ∀ i : Item, i.isConstruct = false → view i = [])
    (hwritten : ∀ e, isWritten e = true → view (.expr e) = []) (limit : Nat) (e : Expr) :
    viewed view [outlineExpr (result ((simplifying limit).expr e))] ⊆
      viewed view [outlineExpr e] := by
  refine List.Subset.trans ?_ (viewed_dropParens view e)
  show viewed view [outlineExpr ((foldOnce? limit (dropParens e)).getD (dropParens e))] ⊆ _
  generalize dropParens e = e
  cases h : foldOnce? limit e with
  | none => exact List.Subset.refl _
  | some e' =>
    unfold foldOnce? at h
    split at h
    · cases h
    · split at h
      · split at h
        · cases h
        · rw [Option.getD_some, viewed_toExpr? hminor hwritten h]
          exact List.nil_subset _
      · exact viewed_foldPartly? view h

end Views

theorem bodies_folded (limit : Nat) (e : Expr) :
    bodiesOf [outlineExpr (result ((simplifying limit).expr e))] ⊆ bodiesOf [outlineExpr e] := by
  refine viewed_folded bodies_minor (fun e he => ?_) limit e
  cases e <;> first | rfl | cases he

/-! ### Removing dead code -/

theorem bodies_hoistedDecl? {s d : Stmt} (h : hoistedDecl? s = some d) :
    bodiesOf [outlineStmt d] = [] := by
  have hbare : ∀ ids : List Ident, bodiesOf (outlineDeclarators
      (ids.map fun id => .mk (.name (.ofIdent id)) none false)) = [] := by
    intro ids
    induction ids with
    | nil => rfl
    | cons id ids ih => exact (bodiesOf_cons _ _).trans ih
  unfold hoistedDecl? at h
  split at h
  · cases h
  · cases h
    show bodiesOf [.node _ [.node _ _]] = []
    rw [bodiesOf_node, bodiesOf_node]
    exact hbare _

theorem bodies_block (ss : List Stmt) :
    bodiesOf [outlineStmt (.block ss)] = bodiesOf (outlineStmts ss) := bodiesOf_node _ _

theorem bodies_withHoisted {decl : Option Stmt}
    (h : ∀ d, decl = some d → bodiesOf [outlineStmt d] = []) (s : Stmt) :
    bodiesOf [outlineStmt (withHoisted decl s)] ⊆ bodiesOf [outlineStmt s] := by
  cases decl with
  | none => exact List.Subset.refl _
  | some d =>
    have hd := h d rfl
    have hcons : ∀ ss, bodiesOf [outlineStmt (.block (d :: ss))] = bodiesOf (outlineStmts ss) := by
      intro ss
      rw [bodies_block, outlineStmts, bodiesOf_cons, hd]
      rfl
    unfold withHoisted
    dsimp only
    split
    · rw [hcons]
      exact List.nil_subset _
    · split
      · rw [hcons, bodies_block]
        exact List.Subset.refl _
      · rw [hcons]
        exact List.Subset.refl _
    · rw [hcons]
      exact List.Subset.refl _

theorem bodies_headStmt (head : ForHead) :
    bodiesOf [outlineStmt (headStmt head)] ⊆ bodiesOf (outlineHead head) := by
  cases head with
  | absent => exact List.nil_subset _
  | var d =>
    rw [headStmt, outlineStmt, bodiesOf_node]
    exact List.Subset.refl _
  | pat p => exact List.nil_subset _
  | expr e =>
    rw [headStmt, outlineStmt, bodiesOf_node]
    exact List.Subset.refl _

theorem mem_bodies_ite {test : Expr} {yes : Stmt} {no : Option Stmt} {b : Body} :
    b ∈ bodiesOf [outlineStmt (.ite test yes no)] ↔ b ∈ bodiesOf [outlineExpr test] ∨
      b ∈ bodiesOf [outlineStmt yes] ∨ ∃ s ∈ no, b ∈ bodiesOf [outlineStmt s] := by
  cases no with
  | none =>
    show b ∈ bodiesOf [.node _ [_, _]] ↔ _
    rw [bodiesOf_node, bodiesOf_cons]
    simp [Item.bodies]
  | some no =>
    show b ∈ bodiesOf [.node _ [_, _, _]] ↔ _
    rw [bodiesOf_node, bodiesOf_cons, bodiesOf_cons (outlineStmt yes)]
    simp [Item.bodies]

theorem bodies_for (init : ForHead) (test step : Option Expr) (body : Stmt) :
    bodiesOf (outlineHead init) ⊆ bodiesOf [outlineStmt (.for init test step body)] ∧
      bodiesOf [outlineStmt body] ⊆ bodiesOf [outlineStmt (.for init test step body)] := by
  · rw [outlineStmt, bodiesOf_node, bodiesOf_append, bodiesOf_append, bodiesOf_append]
    refine ⟨?_, List.subset_append_of_subset_right _ (List.subset_append_right _ _)⟩
    simp

theorem bodies_foldBranch? {s s' : Stmt} (h : foldBranch? s = some s') :
    bodiesOf [outlineStmt s'] ⊆ bodiesOf [outlineStmt s] := by
  unfold foldBranch? at h
  split at h
  · rename_i test yes no
    obtain ⟨t, -, rfl⟩ := Option.map_eq_some_iff.1 h
    split
    · refine List.Subset.trans (bodies_withHoisted ?_ yes) ?_
      · intro d hd
        obtain ⟨no, -, hd⟩ := Option.bind_eq_some_iff.1 hd
        exact bodies_hoistedDecl? hd
      · exact fun b hb => mem_bodies_ite.2 (.inr (.inl hb))
    · refine List.Subset.trans (bodies_withHoisted (fun d hd => bodies_hoistedDecl? hd) _) ?_
      cases no with
      | none => exact List.nil_subset _
      | some no => exact fun b hb => mem_bodies_ite.2 (.inr (.inr ⟨no, rfl, hb⟩))
  · split at h
    · cases h
      refine List.Subset.trans (bodies_withHoisted (fun d hd => bodies_hoistedDecl? hd) _) ?_
      exact List.nil_subset _
    · cases h
  · rename_i init test step body
    split at h
    · cases h
      refine List.Subset.trans (bodies_withHoisted (fun d hd => bodies_hoistedDecl? hd) _) ?_
      exact List.Subset.trans (bodies_headStmt init) (bodies_for init test step body).1
    · cases h
  · cases h

theorem bodies_dropEmptyElse (s : Stmt) :
    bodiesOf [outlineStmt (dropEmptyElse s)] ⊆ bodiesOf [outlineStmt s] := by
  unfold dropEmptyElse
  split
  · intro b hb
    rw [mem_bodies_ite] at hb ⊢
    obtain hb | hb | ⟨s, hs, -⟩ := hb
    · exact .inl hb
    · exact .inr (.inl hb)
    · cases hs
  · exact List.Subset.refl _

theorem bodies_reduced (s : Stmt) :
    bodiesOf [outlineStmt (reduced s)] ⊆ bodiesOf [outlineStmt s] := by
  unfold reduced
  cases h : foldBranch? (dropEmptyElse s) with
  | none => exact bodies_dropEmptyElse s
  | some s' => exact List.Subset.trans (bodies_foldBranch? h) (bodies_dropEmptyElse s)

theorem bodies_append_subset {s : Stmt} {kept rest rest' : List Stmt}
    (hkept : bodiesOf (outlineStmts kept) ⊆ bodiesOf [outlineStmt s])
    (hrest : bodiesOf (outlineStmts rest') ⊆ bodiesOf (outlineStmts rest)) :
    bodiesOf (outlineStmts (kept ++ rest')) ⊆ bodiesOf (outlineStmts (s :: rest)) := by
  intro b hb
  obtain ⟨t, ht, hb⟩ := mem_bodiesOf_stmts.1 hb
  rw [outlineStmts, bodiesOf_cons, List.mem_append]
  rcases List.mem_append.1 ht with ht | ht
  · exact .inl (hkept (mem_bodiesOf_stmts.2 ⟨t, ht, hb⟩))
  · exact .inr (hrest (mem_bodiesOf_stmts.2 ⟨t, ht, hb⟩))

theorem bodies_cleanList (reachable : Bool) (ss : List Stmt) :
    bodiesOf (outlineStmts (cleanList reachable ss).1) ⊆ bodiesOf (outlineStmts ss) := by
  refine cleanList_relates
    (R := fun ss ts => bodiesOf (outlineStmts ts) ⊆ bodiesOf (outlineStmts ss))
    (List.Subset.refl _) ?_ (fun s => List.Subset.refl _) (List.nil_subset _)
    (fun s _ => List.nil_subset _) reachable ss ?_ ?_
  · intro ss ss' ts ts' hs ht
    rw [outlineStmts_append, outlineStmts_append, bodiesOf_append, bodiesOf_append]
    exact List.append_subset.2 ⟨List.subset_append_of_subset_left _ hs,
      List.subset_append_of_subset_right _ ht⟩
  · intro body _
    rw [outlineStmts, outlineStmts, bodies_block]
    exact List.Subset.refl _
  · intro s _ b hb
    obtain ⟨d, hd, hb⟩ := mem_bodiesOf_stmts.1 hb
    rw [bodies_hoistedDecl? (Option.mem_toList.1 hd)] at hb
    cases hb

theorem bodies_map_reduced (ss : List Stmt) :
    bodiesOf (outlineStmts (ss.map reduced)) ⊆ bodiesOf (outlineStmts ss) := by
  intro b hb
  obtain ⟨t, ht, hb⟩ := mem_bodiesOf_stmts.1 hb
  obtain ⟨s, hs, rfl⟩ := List.mem_map.1 ht
  exact mem_bodiesOf_stmts.2 ⟨s, hs, bodies_reduced s hb⟩

/-! ### Splitting sequences -/

theorem bodies_splitWeight : SplitWeight (fun i => (i.bodies : Multiset Body)) 0 :=
  ⟨fun _ => rfl, fun _ => rfl, fun _ => rfl, fun _ => rfl, fun _ => rfl, fun _ _ _ _ => rfl⟩

theorem bodies_of_loses {n m : Nat} {a b : List Outline}
    (h : Loses (fun i => (i.bodies : Multiset Body)) 0 n a m b) : bodiesOf b ⊆ bodiesOf a := by
  obtain ⟨k, -, hk⟩ := h
  rw [nsmul_zero, add_zero, weigh_shown, weigh_shown] at hk
  exact (Multiset.coe_eq_coe.1 hk).symm.subset

theorem bodies_splitStmts (ss : List Stmt) (n : Nat) :
    bodiesOf (outlineStmts ((splitStmts ss).run n).1) ⊆ bodiesOf (outlineStmts ss) :=
  bodies_of_loses (splitStmts_loses bodies_splitWeight ss n)

theorem bodies_single (s : Stmt) :
    bodiesOf [outlineStmt (result (splitting.single s))] ⊆ bodiesOf [outlineStmt s] :=
  bodies_of_loses (single_loses bodies_splitWeight s 0)

theorem bodies_splitArrow (f : Func) :
    bodiesOf (outlineArrow (result (splitting.arrow f))) ⊆ bodiesOf (outlineArrow f) :=
  bodies_of_loses (splitArrow_loses bodies_splitWeight f 0)

end Untangle.Pass
