import Untangle.Proofs.Settling
import Untangle.Proofs.SimplifiedConstants

/-!
# Simplifying twice

A second simplification finds nothing to do. What a fold gives is a literal without a spelling of its
own, or an operand, and operands were simplified before.

* `simplifyEdits_settles` — simplifying settles.
-/

namespace Untangle.Pass

/-! ### Counts never fall -/

def Grows {α : Type} (x : StateM SimplifyTally α) : Prop :=
  ∀ t, t.folded ≤ (x.run t).2.folded ∧ t.respelled ≤ (x.run t).2.respelled

section Counts

variable {α β : Type} {x : StateM SimplifyTally α} {y : StateM SimplifyTally β}

theorem Grows.pure (a : α) : Grows (pure a) := fun _ => ⟨Nat.le_refl _, Nat.le_refl _⟩

theorem Grows.bind {f : α → StateM SimplifyTally β} (hx : Grows x) (hf : ∀ a, Grows (f a)) :
    Grows (x >>= f) := by
  intro t
  have h₁ := hx t
  have h₂ := hf (x.run t).1 (x.run t).2
  exact ⟨Nat.le_trans h₁.1 h₂.1, Nat.le_trans h₁.2 h₂.2⟩

theorem Grows.agreeTo (hx : Grows x) (t : SimplifyTally) :
    AgreeTo (fun t' => t'.folded ≤ t.folded ∧ t'.respelled ≤ t.respelled) Eq x x := by
  refine ⟨fun t' hend => ?_, fun t' u htu _ => ?_⟩
  · exact ⟨Nat.le_trans (hx t').1 hend.1, Nat.le_trans (hx t').2 hend.2⟩
  · subst htu
    exact ⟨rfl, rfl⟩

/-- If a node is left alone and its parts only count up, its parts are left alone. -/
theorem pure_of_node {N : Type} (K : α → β → N) {a : α} {b : β}
    (hK : ∀ a' b', K a' b' = K a b → a' = a ∧ b' = b) (hx : Grows x) (hy : Grows y)
    (h : (do let a ← x; return K a (← y)) = (pure (K a b) : StateM SimplifyTally N)) :
    x = pure a ∧ y = pure b := by
  have hrun : ∀ t, x.run t = (a, t) ∧ y.run t = (b, t) := by
    intro t
    have hnode : (K (x.run t).1 (y.run (x.run t).2).1, (y.run (x.run t).2).2) = (K a b, t) :=
      congrFun h t
    obtain ⟨ha, hb⟩ := hK _ _ (congrArg Prod.fst hnode)
    have ht : (y.run (x.run t).2).2 = t := congrArg Prod.snd hnode
    have hfirst := hx t
    have hsecond := hy (x.run t).2
    rw [ht] at hsecond
    have hkept : (x.run t).2 = t := by
      have hfolded : (x.run t).2.folded = t.folded := by omega
      have hrespelled : (x.run t).2.respelled = t.respelled := by omega
      calc (x.run t).2 = ⟨(x.run t).2.folded, (x.run t).2.respelled⟩ := rfl
        _ = t := by rw [hfolded, hrespelled]
    rw [hkept] at hb ht
    exact ⟨Prod.ext ha hkept, Prod.ext hb ht⟩
  exact ⟨funext fun t => (hrun t).1, funext fun t => (hrun t).2⟩

end Counts

variable {limit : Nat}

theorem grows_expr (e : Expr) : Grows ((simplifyEdits limit).expr e) := by
  intro t
  unfold simplifyEdits
  dsimp only
  cases foldOnce? limit (dropParens e) with
  | none => exact ⟨Nat.le_refl _, Nat.le_refl _⟩
  | some y => exact ⟨Nat.le_succ _, Nat.le_refl _⟩

theorem grows_str (s : StrLit) : Grows ((simplifyEdits limit).str s) := by
  intro t
  unfold simplifyEdits
  dsimp only
  cases plainString? s with
  | none => exact ⟨Nat.le_refl _, Nat.le_refl _⟩
  | some y => exact ⟨Nat.le_refl _, Nat.le_succ _⟩

theorem grows_num (n : NumLit) : Grows ((simplifyEdits limit).num n) := by
  intro t
  unfold simplifyEdits
  dsimp only
  cases plainNumber? n with
  | none => exact ⟨Nat.le_refl _, Nat.le_refl _⟩
  | some y => exact ⟨Nat.le_refl _, Nat.le_succ _⟩

theorem grows_editExpr (e : Expr) : Grows (editExpr (simplifyEdits limit) e) := by
  have hcounts : ∀ t : SimplifyTally, Edits.AgreesTo
      (fun t' => t'.folded ≤ t.folded ∧ t'.respelled ≤ t.respelled) Eq (simplifyEdits limit)
      (simplifyEdits limit) := fun t =>
    { str := fun s => (grows_str s).agreeTo t
      num := fun n => (grows_num n).agreeTo t
      expr := fun e => (grows_expr e).agreeTo t
      base := fun e => (grows_expr e).agreeTo t }
  refine Grows.bind (fun t => ?_) grows_expr
  exact (editParts_agreeTo (hcounts _) e).1 t ⟨Nat.le_refl _, Nat.le_refl _⟩

/-! ### Expressions that are left alone -/

theorem dropParens_unparen (e : Expr) : dropParens e.unparen = e.unparen := by
  fun_induction Expr.unparen e with
  | case1 e ih => exact ih
  | case2 e hparen => rw [dropParens]; exact hparen

theorem dropParens_dropParens (e : Expr) : dropParens (dropParens e) = dropParens e := by
  cases e with
  | paren e =>
    by_cases hchain : isChain e.unparen = true
    · have hkept : dropParens (.paren e) = .paren e := if_pos hchain
      rw [hkept, hkept]
    · have hdropped : dropParens (.paren e) = e.unparen := if_neg hchain
      rw [hdropped]
      exact dropParens_unparen e
  | _ => rfl

variable {e : Expr}

theorem expr_of_none (h : foldOnce? limit (dropParens e) = none) :
    (simplifyEdits limit).expr e = pure (dropParens e) := by
  unfold simplifyEdits
  dsimp only
  rw [h]

theorem expr_of_some {y : Expr} (h : foldOnce? limit (dropParens e) = some y) (t : SimplifyTally) :
    ((simplifyEdits limit).expr e).run t = (y, { t with folded := t.folded + 1 }) := by
  unfold simplifyEdits
  dsimp only
  rw [h]
  rfl

theorem still_of_editExpr (h : editExpr (simplifyEdits limit) e = pure e) :
    dropParens e = e ∧ foldOnce? limit e = none := by
  generalize hp : ((editParts (simplifyEdits limit) e).run {}).1 = p
  generalize ht : ((editParts (simplifyEdits limit) e).run {}).2 = t
  have hrun : ((simplifyEdits limit).expr p).run t = (e, {}) := by
    subst hp ht
    exact congrFun h {}
  cases hfold : foldOnce? limit (dropParens p) with
  | none =>
    rw [expr_of_none hfold] at hrun
    have he : dropParens p = e := congrArg Prod.fst hrun
    subst he
    exact ⟨dropParens_dropParens p, hfold⟩
  | some y =>
    -- a fold would have been counted
    rw [expr_of_some hfold] at hrun
    have hcount : t.folded + 1 = 0 := congrArg (fun r => r.2.folded) hrun
    cases hcount

theorem expr_of_still (hdrop : dropParens e = e) (hfold : foldOnce? limit e = none) :
    (simplifyEdits limit).expr e = pure e := by
  rw [expr_of_none (by rw [hdrop]; exact hfold), hdrop]

theorem editExpr_of_still (h : editParts (simplifyEdits limit) e = pure e)
    (hdrop : dropParens e = e) (hfold : foldOnce? limit e = none) :
    editExpr (simplifyEdits limit) e = pure e := by
  unfold editExpr
  rw [h]
  exact expr_of_still hdrop hfold

theorem editExpr_of_paren (h : editParts (simplifyEdits limit) (.paren e) = pure (.paren e)) :
    editExpr (simplifyEdits limit) e = pure e := by
  funext t
  have hrun : (Expr.paren ((editExpr (simplifyEdits limit) e).run t).1,
      ((editExpr (simplifyEdits limit) e).run t).2) = (.paren e, t) := congrFun h t
  simp only [Prod.mk.injEq, Expr.paren.injEq] at hrun
  exact Prod.ext hrun.1 hrun.2

theorem editExpr_of_binary {op : BinaryOp} {l r : Expr}
    (h : editParts (simplifyEdits limit) (.binary op l r) = pure (.binary op l r)) :
    editExpr (simplifyEdits limit) l = pure l ∧ editExpr (simplifyEdits limit) r = pure r := by
  refine pure_of_node (Expr.binary op) ?_ (grows_editExpr l) (grows_editExpr r) h
  intro l' r' heq
  cases heq
  exact ⟨rfl, rfl⟩

theorem editExpr_of_cond {test yes no : Expr}
    (h : editParts (simplifyEdits limit) (.cond test yes no) = pure (.cond test yes no)) :
    editExpr (simplifyEdits limit) yes = pure yes ∧ editExpr (simplifyEdits limit) no = pure no := by
  -- the branches are one part beside the test
  let node (test : Expr) (branches : Expr × Expr) : Expr := .cond test branches.1 branches.2
  let editBranches : StateM SimplifyTally (Expr × Expr) := do
    let yes ← editExpr (simplifyEdits limit) yes
    return (yes, ← editExpr (simplifyEdits limit) no)
  have hgrows : Grows editBranches :=
    (grows_editExpr yes).bind fun _ => (grows_editExpr no).bind fun _ => .pure _
  have hnode : (do
      let test ← editExpr (simplifyEdits limit) test
      return node test (← editBranches)) = pure (node test (yes, no)) := h
  have hinj : ∀ test' branches, node test' branches = node test (yes, no) →
      test' = test ∧ branches = (yes, no) := by
    rintro test' ⟨yes', no'⟩ heq
    cases heq
    exact ⟨rfl, rfl⟩
  have hbranches := (pure_of_node node hinj (grows_editExpr test) hgrows hnode).2
  refine pure_of_node Prod.mk ?_ (grows_editExpr yes) (grows_editExpr no) hbranches
  intro yes' no' heq
  cases heq
  exact ⟨rfl, rfl⟩

/-! ### Literals -/

theorem editParts_toExpr? {v : Value} {y : Expr} (hy : v.toExpr? = some y) :
    editParts (simplifyEdits limit) y = pure y := by
  cases v with
  | number x =>
    rw [Value.toExpr?] at hy
    split at hy
    · cases hy
      unfold Expr.ofNumber
      split <;> rfl
    · cases hy
  | string us =>
    obtain ⟨t, -, rfl⟩ := Option.map_eq_some_iff.1 hy
    rfl
  | boolean b => cases hy; rfl
  | null => cases hy; rfl
  | undefined => cases hy; rfl
  | emptyArray => cases hy

/-! ### The pass -/

/-- An operand that decides an expression is left alone if the expression has settled parts. -/
theorem editExpr_foldPartly? {y : Expr} (h : editParts (simplifyEdits limit) e = pure e)
    (hy : foldPartly? e = some y) : editExpr (simplifyEdits limit) y = pure y := by
  unfold foldPartly? at hy
  split at hy
  case h_5 => cases hy
  case h_4 =>
    obtain ⟨t, -, rfl⟩ := Option.map_eq_some_iff.1 hy
    obtain ⟨hyes, hno⟩ := editExpr_of_cond h
    split
    · exact hyes
    · exact hno
  all_goals
    obtain ⟨v, -, rfl⟩ := Option.map_eq_some_iff.1 hy
    obtain ⟨hleft, hright⟩ := editExpr_of_binary h
    split
    · assumption
    · assumption

theorem editExpr_foldOnce? {y : Expr} (h : editParts (simplifyEdits limit) e = pure e)
    (hy : foldOnce? limit e = some y) : editExpr (simplifyEdits limit) y = pure y := by
  unfold foldOnce? at hy
  split at hy
  · cases hy
  · split at hy
    · split at hy
      · cases hy
      · have hcanonical := isCanonical_toExpr? hy
        exact editExpr_of_still (editParts_toExpr? hy) (dropParens_of_isCanonical hcanonical)
          (foldOnce?_of_isCanonical hcanonical)
    · exact editExpr_foldPartly? h hy

theorem unparen_of_still (h : dropParens e = e) (hchain : isChain e.unparen ≠ true) :
    e.unparen = e := by
  cases e with
  | paren e => exact (if_neg hchain).symm.trans h
  | _ => rfl

/-- The edit of an expression whose parts are settled gives a settled expression: a literal, an
operand, or the expression itself with or without parentheses. -/
theorem settled_expr (h : editParts (simplifyEdits limit) e = pure e) :
    Untangle.Settled ((simplifyEdits limit).expr e) (editExpr (simplifyEdits limit)) := by
  intro t
  by_cases hdrop : dropParens e = e
  · cases hfold : foldOnce? limit e with
    | none =>
      rw [expr_of_still hdrop hfold]
      exact editExpr_of_still h hdrop hfold
    | some y =>
      rw [expr_of_some (by rw [hdrop]; exact hfold)]
      exact editExpr_foldOnce? h hfold
  · -- what stands in the parentheses was left alone by the walk
    cases e with
    | paren e =>
      have hinner := editExpr_of_paren h
      obtain ⟨hstill, hfold⟩ := still_of_editExpr hinner
      have hchain : isChain e.unparen ≠ true := fun hchain => hdrop (if_pos hchain)
      have hdropped : dropParens (.paren e) = e :=
        (if_neg hchain).trans (unparen_of_still hstill hchain)
      rw [expr_of_none (by rw [hdropped]; exact hfold), hdropped]
      exact hinner
    | _ => exact absurd rfl hdrop

theorem plainString?_plain (s : StrLit) : plainString? ((plainString? s).getD s) = none := by
  cases hplain : plainString? s with
  | none => exact hplain
  | some s' =>
    unfold plainString? at hplain
    split at hplain
    · split at hplain
      · cases hplain
        rfl
      · cases hplain
    · cases hplain

theorem plainNumber?_plain (n : NumLit) : plainNumber? ((plainNumber? n).getD n) = none := by
  cases hplain : plainNumber? n with
  | none => exact hplain
  | some n' =>
    unfold plainNumber? at hplain
    split at hplain
    · split at hplain
      · cases hplain
      · cases hplain
        rfl
    · cases hplain

theorem settled_str (s : StrLit) :
    Untangle.Settled ((simplifyEdits limit).str s) (simplifyEdits limit).str := by
  intro t
  have hresult : (((simplifyEdits limit).str s).run t).1 = (plainString? s).getD s := by
    unfold simplifyEdits
    dsimp only
    cases plainString? s <;> rfl
  rw [hresult]
  unfold simplifyEdits
  dsimp only
  rw [plainString?_plain]

theorem settled_num (n : NumLit) :
    Untangle.Settled ((simplifyEdits limit).num n) (simplifyEdits limit).num := by
  intro t
  have hresult : (((simplifyEdits limit).num n).run t).1 = (plainNumber? n).getD n := by
    unfold simplifyEdits
    dsimp only
    cases plainNumber? n <;> rfl
  rw [hresult]
  unfold simplifyEdits
  dsimp only
  rw [plainNumber?_plain]

theorem simplifyEdits_settles : (simplifyEdits limit).Settles (simplifyEdits limit) where
  ident _ := rfl
  ident_after _ := rfl
  label _ := .pure rfl
  str := settled_str
  num := settled_num
  expr _ := settled_expr
  base _ := settled_expr
  arrow f h := .pure h
  key _ h := .pure (by rw [h]; rfl)
  access _ h := .pure (by rw [h]; rfl)
  varDecl _ h := .pure (by rw [h]; rfl)
  single s h := .pure h
  labelled s h := .pure h
  list ss h := .pure h

/-- A second simplification changes nothing, down to parentheses and spellings, and finds nothing. -/
theorem simplify_simplify (limit : Nat) (p : Program) :
    simplify limit (simplify limit p).1 = ((simplify limit p).1, []) := by
  have h : editProgram (simplifyEdits limit) (simplify limit p).1 = pure (simplify limit p).1 :=
    editProgram_editProgram simplifyEdits_settles p {}
  rw [simplify, h]
  rfl

end Untangle.Pass
