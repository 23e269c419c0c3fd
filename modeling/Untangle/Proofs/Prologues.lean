import Untangle.Proofs.PassBodies

/-!
# Directive prologues

The strings that a body starts with are its directives. Simplifying, removing dead code and splitting
sequences keep every directive, but they do not look where a string stands: what they make of the
statements after the prologue may start with a string, which then joins it.
-/

namespace Untangle

/-! ### Prologues -/

/-- The value of a string that stands alone as a statement. -/
def Stmt.directive? : Stmt → Option Units
  | .expr (.lit (.str s)) => some s.units
  | _ => none

/-- The values of the directives that a body starts with. -/
def prologue : List Stmt → List Units
  | [] => []
  | s :: ss => match s.directive? with
    | some us => us :: prologue ss
    | none => []

def afterPrologue : List Stmt → List Stmt
  | [] => []
  | s :: ss => if s.directive?.isSome then afterPrologue ss else s :: ss

def Body.stmts : Body → List Stmt
  | .absent => []
  | .expr e => [.return (some e)]
  | .block ss => ss

variable {s : Stmt} {us : Units} {w : Edits Unit}

theorem prologue_directive (h : s.directive? = some us) (ss : List Stmt) :
    prologue (s :: ss) = us :: prologue ss := by
  simp [prologue, h]

theorem prologue_ordinary (h : s.directive? = none) (ss : List Stmt) : prologue (s :: ss) = [] := by
  simp [prologue, h]

theorem afterPrologue_directive (h : s.directive? = some us) (ss : List Stmt) :
    afterPrologue (s :: ss) = afterPrologue ss := by
  simp [afterPrologue, h]

theorem afterPrologue_ordinary (h : s.directive? = none) (ss : List Stmt) :
    afterPrologue (s :: ss) = s :: ss := by
  simp [afterPrologue, h]

/-- No directive is lost, and none is added unless the first statement after the prologue is one
that may open with a string. -/
structure Extends (opens : Stmt → Bool) (before after : List Stmt) : Prop where
  kept : prologue before <+: prologue after
  settled : (∀ s ∈ (afterPrologue before).head?, opens s = false) → prologue after = prologue before

/-- What edits do to the first statement of a list: a directive stays one, and what may open with a
string is known. -/
structure Edits.KeepsDirectives (w : Edits Unit) (opens : Stmt → Bool) : Prop where
  nil : result (editList w []) = []
  directive : ∀ s us ss, s.directive? = some us →
    ∃ s', s'.directive? = some us ∧ result (editList w (s :: ss)) = s' :: result (editList w ss)
  ordinary : ∀ s ss, s.directive? = none → opens s = false →
    prologue (result (editList w (s :: ss))) = []

theorem directive?_of_ne_expr (h : ∀ e, s ≠ .expr e) : s.directive? = none := by
  unfold Stmt.directive?
  split
  · exact (h _ rfl).elim
  · rfl

theorem directive?_parts (hexpr : ∀ e, result (w.expr e) = e) (h : s.directive? = none) :
    (result (editStmtParts w s)).directive? = none := by
  by_cases hs : ∃ e, s = .expr e
  · obtain ⟨e, rfl⟩ := hs
    show (Stmt.expr (result (w.expr (result (editParts w e))))).directive? = none
    rw [hexpr]
    cases e with
    | lit l => cases l <;> first | rfl | cases h
    | _ => rfl
  · exact directive?_of_ne_expr (editStmtParts_ne_expr _ fun e he => hs ⟨e, he⟩)

namespace Edits.KeepsDirectives

variable {w : Edits Unit} {opens : Stmt → Bool}

theorem grows (hw : w.KeepsDirectives opens) (ss : List Stmt) :
    prologue (result (editList w ss)) =
      prologue ss ++ prologue (result (editList w (afterPrologue ss))) := by
  induction ss with
  | nil => rfl
  | cons s ss ih =>
    cases hs : s.directive? with
    | none =>
      rw [prologue_ordinary hs, afterPrologue_ordinary hs]
      rfl
    | some us =>
      obtain ⟨s', hs', he⟩ := hw.directive s us ss hs
      rw [he, prologue_directive hs', prologue_directive hs, afterPrologue_directive hs, ih]
      rfl

theorem extends_list (hw : w.KeepsDirectives opens) (ss : List Stmt) :
    Extends opens ss (result (editList w ss)) where
  kept := ⟨_, (hw.grows ss).symm⟩
  settled hopens := by
    have hrest : prologue (result (editList w (afterPrologue ss))) = [] := by
      induction ss with
      | nil => rw [afterPrologue, hw.nil, prologue]
      | cons s ss ih =>
        cases hs : s.directive? with
        | none =>
          rw [afterPrologue_ordinary hs] at hopens ⊢
          exact hw.ordinary s ss hs (hopens s rfl)
        | some us =>
          rw [afterPrologue_directive hs] at hopens ⊢
          exact ih hopens
    rw [hw.grows, hrest, List.append_nil]

theorem extends_body (hw : w.KeepsDirectives opens) (b : Body) :
    Extends opens b.stmts (result (editBody w b)).stmts := by
  cases b with
  | absent => exact ⟨List.prefix_refl _, fun _ => rfl⟩
  | expr => exact ⟨List.prefix_refl _, fun _ => rfl⟩
  | block ss => exact hw.extends_list ss

end Edits.KeepsDirectives

/-- A function body and what edits make of it, where it is an arrow's or another function's. -/
def Edits.Remakes (w : Edits Unit) (b b' : Body) : Prop :=
  b' = result (editBody w b) ∨
    ∃ f : Func, f.body = b ∧ b' = (result (w.arrow (result (editFunc w f)))).body

theorem body_editFunc (w : Edits Unit) (f : Func) :
    (result (editFunc w f)).body = result (editBody w f.body) := by
  cases f
  rfl

/-- What edits make of the prologues of a program and of its functions. -/
structure ExtendsPrologues (w : Edits Unit) (opens : Stmt → Bool) (before after : Program) :
    Prop where
  body : after.body = result (editList w before.body)
  grows : ∀ ss, prologue (result (editList w ss)) =
    prologue ss ++ prologue (result (editList w (afterPrologue ss)))
  program : Extends opens before.body after.body
  functions : ∀ b' ∈ after.bodies, ∃ b ∈ before.bodies,
    w.Remakes b b' ∧ Extends opens b.stmts b'.stmts

theorem Edits.KeepsDirectives.extendsPrologues {opens : Stmt → Bool} (hw : w.KeepsDirectives opens)
    (hbodies : w.TracesBodies fun b b' => w.Remakes b b' ∧ Extends opens b.stmts b'.stmts)
    (p : Program) : ExtendsPrologues w opens p (result (editProgram w p)) where
  body := rfl
  grows := hw.grows
  program := hw.extends_list p.body
  functions := hbodies.program p

namespace Pass

/-! ### Simplifying -/

def isString : Expr → Bool
  | .lit (.str _) => true
  | _ => false

variable {e : Expr}

theorem directive?_expr (h : isString e = false) : (Stmt.expr e).directive? = none := by
  unfold Stmt.directive?
  split
  · rename_i he
    cases he
    cases h
  · rfl

/-- Whether an expression, parentheses apart, is no string and of no kind that folds. -/
def isSettled (e : Expr) : Bool := !isString e.unparen && !isFoldable e.unparen

/-- Whether simplifying may turn a statement into a string: it is a string in parentheses, or an
expression that folds. -/
def foldsOpen : Stmt → Bool
  | .expr e => !isSettled e
  | _ => false

theorem isSettled_dropParens (e : Expr) : isSettled (dropParens e) = isSettled e := by
  simp only [isSettled, unparen_dropParens]

theorem isFoldable_of_isSettled (h : isSettled e = true) : isFoldable e = false := by
  have hu : isFoldable e.unparen = false := by
    simp only [isSettled, Bool.and_eq_true, Bool.not_eq_true'] at h
    exact h.2
  cases e <;> first | rfl | exact hu

theorem isString_of_isSettled (h : isSettled e = true) : isString e = false := by
  have hu : isString e.unparen = false := by
    simp only [isSettled, Bool.and_eq_true, Bool.not_eq_true'] at h
    exact h.1
  cases e <;> first | rfl | exact hu

section Simplifying

variable {limit : Nat}

theorem isSettled_folded (h : isSettled e = true) :
    isSettled (result ((simplifying limit).expr e)) = true := by
  rw [← isSettled_dropParens] at h
  have hnone : foldOnce? limit (dropParens e) = none := by
    simp [foldOnce?, isFoldable_of_isSettled h]
  show isSettled ((foldOnce? limit (dropParens e)).getD (dropParens e)) = true
  rw [hnone]
  exact h

theorem isSettled_simplified (e : Expr) (h : isSettled e = true) :
    isSettled (result (editExpr (simplifying limit) e)) = true := by
  cases e with
  | paren e => exact isSettled_folded (isSettled_simplified e h)
  | lit l =>
    cases l with
    | str => cases h
    | _ => exact isSettled_folded rfl
  | unary | binary | cond | template => cases h
  | _ => exact isSettled_folded rfl

theorem units_plainString (s : StrLit) : ((plainString? s).getD s).units = s.units := by
  unfold plainString?
  split
  · split <;> rfl
  · rfl

theorem simplifying_keepsDirectives : (simplifying limit).KeepsDirectives foldsOpen where
  nil := rfl
  directive s us ss h := by
    unfold Stmt.directive? at h
    split at h
    · rename_i s
      cases h
      refine ⟨.expr (.lit (.str ((plainString? s).getD s))), ?_, rfl⟩
      exact congrArg some (units_plainString s)
    · cases h
  ordinary s ss h hopens := by
    refine prologue_ordinary ?_ _
    by_cases hs : ∃ e, s = .expr e
    · obtain ⟨e, rfl⟩ := hs
      have hsettled : isSettled e = true := by simpa [foldsOpen] using hopens
      exact directive?_expr (isString_of_isSettled (isSettled_simplified e hsettled))
    · exact directive?_of_ne_expr (editStmtParts_ne_expr _ fun e he => hs ⟨e, he⟩)

theorem simplifying_tracesBodies : (simplifying limit).TracesBodies
    fun b b' => (simplifying limit).Remakes b b' ∧ Extends foldsOpen b.stmts b'.stmts where
  body b := ⟨.inl rfl, simplifying_keepsDirectives.extends_body b⟩
  arrow f := by
    refine ⟨.inr ⟨f, rfl, rfl⟩, ?_⟩
    show Extends _ _ (result (editFunc (simplifying limit) f)).body.stmts
    rw [body_editFunc]
    exact simplifying_keepsDirectives.extends_body f.body
  expr := bodies_folded limit
  base := bodies_folded limit

end Simplifying

/-! ### Removing dead code -/

/-- Whether removing dead code may put a string in the place of a statement: it goes away, it is a
block, or its test is known. -/
def prunesOpen : Stmt → Bool
  | .empty => true
  | .block _ => true
  | s => isInert s || (foldBranch? s).isSome

theorem removeDeadCode_eq (p : Program) : (removeDeadCode p).1 = result (editProgram pruning p) :=
  (editProgram_agree deadCodeEdits_agrees p).result_eq _

theorem cleanList_keeps (h : prunesOpen s = false) (ss : List Stmt) :
    ∃ ss', (cleanList true (s :: ss)).1 = s :: ss' := by
  have hempty : s ≠ .empty := by
    rintro rfl
    cases h
  have hblock : ∀ body, s ≠ .block body := by
    rintro body rfl
    cases h
  have hinert : isInert s = false := by
    unfold prunesOpen at h
    split at h
    · cases h
    · cases h
    · exact (Bool.or_eq_false_iff.1 h).1
  rw [cleanList]
  · split
    · exact ⟨_, rfl⟩
    · rw [if_neg (by simp), if_neg (by simp [hinert])]
      exact ⟨_, rfl⟩
  · exact hempty
  · exact hblock

theorem foldBranch?_of_keeps (h : prunesOpen s = false) : foldBranch? s = none := by
  unfold prunesOpen at h
  split at h
  · cases h
  · cases h
  · exact Option.not_isSome_iff_eq_none.1 (by simp [(Bool.or_eq_false_iff.1 h).2])

theorem foldBranch?_dropEmptyElse (s : Stmt) :
    (foldBranch? (dropEmptyElse s)).isSome = (foldBranch? s).isSome := by
  unfold dropEmptyElse
  split
  · simp [foldBranch?]
  · rfl

theorem prunesOpen_dropEmptyElse (s : Stmt) : prunesOpen (dropEmptyElse s) = prunesOpen s := by
  have hfold := foldBranch?_dropEmptyElse s
  unfold dropEmptyElse at hfold ⊢
  split
  · exact hfold
  · rfl

theorem reduced_of_keeps (h : prunesOpen s = false) : reduced s = dropEmptyElse s := by
  unfold reduced
  rw [foldBranch?_of_keeps ((prunesOpen_dropEmptyElse s).trans h)]
  rfl

theorem isInert_prunedExpr (e : Expr) : isInert (.expr (prunedExpr e)) = isInert (.expr e) := by
  cases e with
  | lit l => cases l <;> rfl
  | func name f => cases name <;> rfl
  | cls name c => cases name <;> rfl
  | unary op arg =>
    cases op with
    | void =>
      cases arg with
      | lit l => cases l <;> rfl
      | func name f => cases name <;> rfl
      | cls name c => cases name <;> rfl
      | _ => rfl
    | _ => rfl
  | _ => rfl

theorem prunesOpen_ite (test : Expr) (yes : Stmt) (no : Option Stmt) :
    prunesOpen (.ite test yes no) = (truthiness? test).isSome :=
  Option.isSome_map ..

theorem prunesOpen_while (test : Expr) (body : Stmt) :
    prunesOpen (.while test body) = (truthiness? test == some false) := by
  show (foldBranch? (.while test body)).isSome = _
  rw [foldBranch?]
  split <;> simp_all

theorem prunesOpen_for (init : ForHead) (test : Expr) (step : Option Expr) (body : Stmt) :
    prunesOpen (.for init (some test) step body) = (truthiness? test == some false) := by
  show (foldBranch? (.for init (some test) step body)).isSome = _
  rw [foldBranch?]
  split <;> simp_all

theorem prunesOpen_pruned (h : prunesOpen s = false) :
    prunesOpen (result (editStmtParts pruning s)) = false := by
  cases s with
  | empty => cases h
  | block body => cases h
  | expr e =>
    show (isInert (.expr (prunedExpr e)) || false) = false
    rw [isInert_prunedExpr]
    exact h
  | ite test yes no =>
    have ht : (truthiness? (prunedExpr test)).isSome = false := by
      rwa [truthiness?_prunedExpr, ← prunesOpen_ite test yes no]
    exact (prunesOpen_ite ..).trans ht
  | «while» test body =>
    have ht : (truthiness? (prunedExpr test) == some false) = false := by
      rwa [truthiness?_prunedExpr, ← prunesOpen_while test body]
    exact (prunesOpen_while ..).trans ht
  | «for» init test step body =>
    cases test with
    | none => rfl
    | some test =>
      have ht : (truthiness? (prunedExpr test) == some false) = false := by
        rwa [truthiness?_prunedExpr, ← prunesOpen_for init test step body]
      exact (prunesOpen_for ..).trans ht
  | _ => rfl

theorem directive?_dropEmptyElse (s : Stmt) : (dropEmptyElse s).directive? = s.directive? := by
  unfold dropEmptyElse
  split <;> rfl

theorem pruning_keepsDirectives : pruning.KeepsDirectives prunesOpen where
  nil := rfl
  directive s us ss h := by
    unfold Stmt.directive? at h
    split at h
    · rename_i s
      exact ⟨.expr (.lit (.str s)), h, rfl⟩
    · cases h
  ordinary s ss h hopens := by
    have hkeeps := prunesOpen_pruned hopens
    have hreduced := reduced_of_keeps hkeeps
    obtain ⟨ss', hss'⟩ := cleanList_keeps ((prunesOpen_dropEmptyElse _).trans hkeeps)
      ((result (editStmts pruning ss)).map reduced)
    have he : result (editList pruning (s :: ss)) =
        dropEmptyElse (result (editStmtParts pruning s)) :: ss' := by
      rw [← hss', ← hreduced]
      rfl
    rw [he]
    exact prologue_ordinary ((directive?_dropEmptyElse _).trans (directive?_parts (fun _ => rfl) h)) _

theorem pruning_tracesBodies : pruning.TracesBodies
    fun b b' => pruning.Remakes b b' ∧ Extends prunesOpen b.stmts b'.stmts where
  body b := ⟨.inl rfl, pruning_keepsDirectives.extends_body b⟩
  arrow f := by
    refine ⟨.inr ⟨f, rfl, rfl⟩, ?_⟩
    show Extends _ _ (result (editFunc pruning f)).body.stmts
    rw [body_editFunc]
    exact pruning_keepsDirectives.extends_body f.body
  single := bodies_reduced
  labelled := bodies_reduced
  list ss := List.Subset.trans (bodies_cleanList true _) (bodies_map_reduced ss)

/-! ### Splitting sequences -/

/-- Whether splitting may put a string before a statement, out of a sequence in it. -/
def splitsOpen (s : Stmt) : Bool :=
  match s with
  | .expr (.assign _ (.name _) value) => !isWhole value
  | .expr e => !isWhole e
  | s => (splitPoint? s).any fun point => !isWhole point.1

theorem splitSequences_eq (p : Program) : (splitSequences p).1 = result (editProgram splitting p) :=
  (editProgram_agree sequenceEdits_agrees p).result_eq _

theorem flattenExpr_of_whole (h : splitsOpen (.expr e) = false) : flattenExpr e = pure [e] := by
  fun_cases flattenExpr e with
  | case1 e₁ e₂ es => cases h
  | case2 e e₁ e₂ es he =>
    simp [splitsOpen, isWhole, Expr.unparen, he] at h
  | case3 e he => rfl
  | case4 op b value =>
    have hwhole : isWhole value := by simpa [splitsOpen] using h
    rw [splitValue_whole (isWhole_spec hwhole)]
    rfl
  | case5 e hseq hparen hassign => rfl

theorem splitStmt_of_whole (h : splitsOpen s = false) : splitStmt s = pure [s] := by
  fun_cases splitStmt s with
  | case1 e =>
    rw [flattenExpr_of_whole h]
    rfl
  | case2 s hexpr e around hp =>
    have hwhole : isWhole e := by
      unfold splitsOpen at h
      split at h
      · exact (hexpr _ rfl).elim
      · exact (hexpr _ rfl).elim
      · simpa [hp] using h
    rw [splitValue_whole (isWhole_spec hwhole), ← splitPoint?_around hp]
    rfl
  | case3 s hexpr hp => rfl

theorem splitsOpen_expr (e : Expr) : splitsOpen (.expr (splitExpr e)) = splitsOpen (.expr e) := by
  have hwhole : (!isWhole (splitExpr e)) = !isWhole e := congrArg not (isWhole_splitExpr e)
  cases e with
  | assign op target value =>
    cases target with
    | name b => exact congrArg not (isWhole_splitExpr value)
    | _ => rfl
  | new callee args => rfl
  | yield delegate arg => rfl
  | _ => exact hwhole

theorem splitsOpen_eq (h : ∀ e, s ≠ .expr e) :
    splitsOpen s = ((splitPoint? s).map Prod.fst).any fun e => !isWhole e := by
  unfold splitsOpen
  split
  · exact (h _ rfl).elim
  · exact (h _ rfl).elim
  · cases splitPoint? s <;> rfl

theorem splitsOpen_parts (s : Stmt) :
    splitsOpen (result (editStmtParts splitting s)) = splitsOpen s := by
  by_cases hs : ∃ e, s = .expr e
  · obtain ⟨e, rfl⟩ := hs
    exact splitsOpen_expr e
  · have hne : ∀ e, s ≠ .expr e := fun e he => hs ⟨e, he⟩
    rw [splitsOpen_eq (editStmtParts_ne_expr _ hne), splitsOpen_eq hne, splitPoint?_parts]
    cases splitPoint? s with
    | none => rfl
    | some point => exact congrArg not (isWhole_splitExpr point.1)

theorem splitList_cons (s : Stmt) (ss : List Stmt) :
    result (editList splitting (s :: ss)) =
      ((splitStmt (result (editStmtParts splitting s))).run 0).1 ++
        result (editList splitting ss) := by
  show _ = _ ++ ((splitStmts (result (editStmts splitting ss))).run 0).1
  rw [(splitStmts_steady (result (editStmts splitting ss)) 0
    ((splitStmt (result (editStmtParts splitting s))).run 0).2 trivial).1]
  rfl

theorem splitting_keepsDirectives : splitting.KeepsDirectives splitsOpen where
  nil := rfl
  directive s us ss h := by
    unfold Stmt.directive? at h
    split at h
    · rename_i s
      exact ⟨.expr (.lit (.str s)), h, splitList_cons _ _⟩
    · cases h
  ordinary s ss h hopens := by
    rw [splitList_cons, splitStmt_of_whole ((splitsOpen_parts s).trans hopens)]
    exact prologue_ordinary (directive?_parts (fun _ => rfl) h) _

theorem seqParts?_of_whole (h : splitsOpen (.return (some e)) = false) : seqParts? e = none := by
  have hwhole : isWhole e := by simpa [splitsOpen, splitPoint?] using h
  unfold seqParts?
  split
  · rename_i he
    exact (isWhole_spec hwhole _ _ _ he).elim
  · rfl

theorem splitArrow_extends : ∀ f : Func,
    Extends splitsOpen f.body.stmts
      (result (splitting.arrow (result (editFunc splitting f)))).body.stmts
  | .mk _ _ _ _ _ .absent => ⟨List.prefix_refl _, fun _ => rfl⟩
  | .mk _ _ _ _ _ (.block ss) => splitting_keepsDirectives.extends_list ss
  | .mk isAsync isGenerator typeParams params ret (.expr e) => by
    refine ⟨List.nil_prefix, fun hsettled => ?_⟩
    have hparts : seqParts? (splitExpr e) = none := by
      refine seqParts?_of_whole ?_
      rw [← hsettled (.return (some e)) rfl]
      exact splitsOpen_parts (.return (some e))
    have harrow : ∀ typeParams params ret,
        splitArrow (.mk isAsync isGenerator typeParams params ret (.expr (splitExpr e))) =
          pure (.mk isAsync isGenerator typeParams params ret (.expr (splitExpr e))) := by
      intro typeParams params ret
      rw [splitArrow, hparts]
    show prologue
      ((splitArrow (.mk isAsync isGenerator _ _ _ (.expr (splitExpr e)))).run 0).1.body.stmts = []
    rw [harrow]
    rfl

theorem splitting_tracesBodies : splitting.TracesBodies
    fun b b' => splitting.Remakes b b' ∧ Extends splitsOpen b.stmts b'.stmts where
  body b := ⟨.inl rfl, splitting_keepsDirectives.extends_body b⟩
  arrow f := ⟨.inr ⟨f, rfl, rfl⟩, splitArrow_extends f⟩
  arrowParts := bodies_splitArrow
  single := bodies_single
  list ss := bodies_splitStmts ss 0

end Pass

/-! ### The three passes -/

open Pass

/-- No directive is lost by simplifying, removing dead code or splitting sequences, in a program or
in a function that is left of it. One is added only where the first ordinary statement is of a kind
that may give way to a string: for the first pass one that folds or drops its parentheses, for the
second one that goes away or opens up, for the third one with a sequence in front. -/
theorem passes_extend_prologues (p : Program) :
    (∀ limit, ExtendsPrologues (simplifying limit) foldsOpen p (simplify limit p).1) ∧
      ExtendsPrologues pruning prunesOpen p (removeDeadCode p).1 ∧
      ExtendsPrologues splitting splitsOpen p (splitSequences p).1 := by
  refine ⟨fun limit => ?_, ?_, ?_⟩
  · rw [simplify_eq]
    exact simplifying_keepsDirectives.extendsPrologues simplifying_tracesBodies p
  · rw [removeDeadCode_eq]
    exact pruning_keepsDirectives.extendsPrologues pruning_tracesBodies p
  · rw [splitSequences_eq]
    exact splitting_keepsDirectives.extendsPrologues splitting_tracesBodies p

/-- `'use ' + 'strict'; f();` -/
def foldingDirective : Program where
  grammar := .script
  body := [.expr (.binary .add (.ofText "use ") (.ofText "strict")), .expr (.call (.ofName "f") [])]

/-- The condition cannot be dropped: an operator over strings becomes a directive. -/
theorem simplify_adds_directive :
    prologue foldingDirective.body = [] ∧
      (prologue (simplify 1024 foldingDirective).1.body).map Units.toString? =
        [some "use strict"] := by
  decide +kernel

end Untangle
