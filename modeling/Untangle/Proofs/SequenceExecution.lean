import Untangle.Proofs.EditedExecution
import Untangle.Proofs.SequenceEvaluation

/-!
# Splitting sequences keeps what is evaluated

* `runList_splitStmt`, `runBody_splitArrow` — a statement, and the body of an arrow.
* `refer_split` — the pass inside an expression changes only the functions and classes it makes.

A variable is known by its binding, so a name that is moved out of a loop head still means what it
meant there. The scope that a `let` or `const` opens in a loop head is outside the semantics.
-/

namespace Untangle

open Behaviour

variable {ω V : Type}

theorem result_editStmts (w : Edits Unit) (ss : List Stmt) :
    result (editStmts w ss) = ss.map fun s => result (editStmtParts w s) := by
  induction ss with
  | nil => rfl
  | cons s ss ih => exact congrArg (List.cons _) ih

namespace Pass

variable (H : Host ω V)

/-! ### Statements -/

/-- Whether the head of a loop over elements gives no first value. -/
def isBareHead : ForHead → Bool
  | .var (.mk _ decls) => decls.all fun
    | .mk _ init _ => init.isNone
  | _ => true

/-- Whether a statement does nothing before it evaluates the value that a sequence can be moved out
of. Only the first value that a loop over elements may give comes before. -/
def startsBare : Stmt → Bool
  | .forIn head _ _ => isBareHead head
  | .forOf _ head _ _ => isBareHead head
  | _ => true

/-- Whether a statement can be taken apart without a change of order. -/
def stmtInOrder (s : Stmt) : Bool :=
  match s with
  | .expr e => flattensInOrder e
  | s =>
    match splitPoint? s with
    | some (e, _) => splitsInOrder e && (startsBare s || isWhole e)
    | none => true

variable {labels : List String}

theorem runList_effects (es : List Expr) (ss : List Stmt) :
    runList H.machine labels (es.map .expr ++ ss) =
      after (H.effects es) fun _ => runList H.machine labels ss := by
  induction es with
  | nil => exact (after_pure () fun _ => runList H.machine labels ss).symm
  | cons e es ih =>
    show andThen (after (H.value e) fun _ => ends .normal)
      (runList H.machine labels (es.map .expr ++ ss)) = _
    rw [ih, after_andThen, Host.effects, after_bind]
    simp only [ends_andThen]

variable {M : Machine ω V} {around : Expr → Stmt} {e : Expr} {s : Stmt} {ss : List Stmt} {f : Func}

theorem startHead_bare {head : ForHead} (h : isBareHead head) :
    startHead M head = ends .normal := by
  cases head with
  | absent | pat | expr => rfl
  | var d =>
    obtain ⟨kind, ds⟩ := d
    rw [isBareHead] at h
    show runDeclarators M .var ds = _
    induction ds with
    | nil => rfl
    | cons d ds ih =>
      obtain ⟨target, init, definite⟩ := d
      rw [List.all_cons, Bool.and_eq_true, Option.isNone_iff_eq_none] at h
      obtain ⟨rfl, hds⟩ := h
      exact ih hds

/-- A statement that a sequence can be moved out of evaluates the value before all else. -/
theorem run_around (h : splitPoint? s = some (e, around)) (hs : startsBare s) :
    ∃ k, ∀ e', run M labels (around e') = after (M.eval e') k := by
  unfold splitPoint? at h
  split at h
  case h_3 test yes no =>
    cases h
    cases no <;> exact ⟨_, fun _ => rfl⟩
  case h_7 | h_8 =>
    cases h
    exact ⟨_, fun _ => after_andThen⟩
  case h_9 head obj body | h_10 isAwait head obj body =>
    cases h
    refine ⟨fun v => Looping (elementTurn M labels head (run M [] body) v), fun e' => ?_⟩
    show andThen (startHead M head) _ = _
    rw [startHead_bare hs, ends_andThen]
  case h_11 => cases h
  all_goals
    cases h
    exact ⟨_, fun _ => rfl⟩

theorem splitPoint?_around (h : splitPoint? s = some (e, around)) : around e = s := by
  unfold splitPoint? at h
  split at h <;> cases h <;> rfl

theorem isWhole_spec (h : isWhole e) (e₁ e₂ : Expr) (es : List Expr) :
    e.unparen = .seq (e₁ :: e₂ :: es) → False := by
  intro he
  simp [isWhole, he] at h

theorem runList_splitStmt (hs : stmtInOrder s) (n : Nat) :
    runList H.machine labels ((splitStmt s).run n).1 = run H.machine labels s := by
  fun_cases splitStmt s with
  | case1 e =>
    show runList H.machine labels (((flattenExpr e).run n).1.map .expr) = _
    rw [← List.append_nil (List.map _ _), runList_effects, (flatten_preserves H).1 e hs n,
      Host.effects, after_bind]
    simp only [Host.effects, after_pure]
    rfl
  | case2 s hexpr e around hp =>
    have hs' : splitsInOrder e && (startsBare s || isWhole e) := by
      simpa only [stmtInOrder, hp] using hs
    rw [Bool.and_eq_true, Bool.or_eq_true] at hs'
    obtain ⟨he, hbare | hwhole⟩ := hs'
    · obtain ⟨k, hk⟩ : ∃ k, ∀ e', run H.machine labels (around e') = after (H.value e') k :=
        run_around hp hbare
      show runList H.machine labels (((splitValue e).run n).1.1.map .expr ++
        [around ((splitValue e).run n).1.2]) = _
      rw [runList_effects, runList_cons, runList_nil, andThen_ends, hk]
      rw [← splitPoint?_around hp, hk, ← after_bind]
      exact congrArg (fun x => after x k) ((flatten_preserves H).2.1 e he n)
    · rw [splitValue_whole (isWhole_spec hwhole)]
      show andThen (run H.machine labels (around e)) (ends .normal) = _
      rw [andThen_ends, splitPoint?_around hp]
  | case3 s hexpr hp =>
    exact andThen_ends

theorem runList_splitStmts (hs : ∀ s ∈ ss, stmtInOrder s) (n : Nat) :
    runList H.machine labels ((splitStmts ss).run n).1 = runList H.machine labels ss := by
  induction ss generalizing n with
  | nil => rfl
  | cons s ss ih =>
    rw [List.forall_mem_cons] at hs
    show runList H.machine labels (((splitStmt s).run n).1 ++
      ((splitStmts ss).run ((splitStmt s).run n).2).1) = _
    rw [runList_append, runList_splitStmt H hs.1, ih hs.2]
    rfl

/-! ### The pass as edits without a count -/

theorem splitStmt_steady (s : Stmt) : Steady (splitStmt s) := by
  fun_cases splitStmt s with
  | case1 e => exact (flatten_steady.1 e).bind fun _ => .pure _
  | case2 s hexpr e around hp => exact (flatten_steady.2.1 e).bind fun _ => .pure _
  | case3 => exact .pure _

theorem splitStmts_steady (ss : List Stmt) : Steady (splitStmts ss) := by
  induction ss with
  | nil => exact .pure _
  | cons s ss ih => exact (splitStmt_steady s).bind fun _ => ih.bind fun _ => .pure _

theorem splitArrow_steady (f : Func) : Steady (splitArrow f) := by
  fun_cases splitArrow f with
  | case1 =>
    exact (steady_modify _).bind fun _ => (flatten_steady.2.2.2 _).bind fun _ => .pure _
  | case2 => exact .pure _
  | case3 => exact .pure _

/-- The pass as edits, without a count. -/
def splitting : Edits Unit where
  arrow := fun f => uncounted (splitArrow f)
  single := fun s => uncounted (sequenceEdits.single s)
  labelled := pure
  list := fun ss => uncounted (splitStmts ss)

theorem single_steady (s : Stmt) : Steady (sequenceEdits.single s) := by
  refine (splitStmt_steady s).bind fun ss => ?_
  split <;> exact .pure _

theorem sequenceEdits_agrees : Edits.Agrees (fun _ _ => True) sequenceEdits splitting where
  arrow f := (splitArrow_steady f).agree_uncounted.to
  single s := (single_steady s).agree_uncounted.to
  list ss := (splitStmts_steady ss).agree_uncounted.to

/-! ### The pass inside expressions -/

/-- The pass inside the syntax that an operation is given. -/
def splitOperation : Operation → Operation
  | .cls name c => .cls (result (editIdent? splitting name)) (result (editClass splitting c))
  | op => op

/-- A host that is given what the pass makes of functions, classes and patterns. -/
def splitHost (H : Host ω V) : Host ω V :=
  { H with
    constant := fun e => H.constant (result (editExpr splitting e))
    isNumber_literal := H.isNumber_literal
    method := fun p => H.method (result (editProperty splitting p))
    bind := fun kind p => H.bind kind (result (editPat splitting p))
    perform := fun op => H.perform (splitOperation op) }

def splitExpr (e : Expr) : Expr := result (editExpr splitting e)

section Edited

variable {σ : Type} {w : Edits σ} (hexpr : ∀ e, w.expr e = pure e)

include hexpr

theorem editExpr_eq_parts (e : Expr) : editExpr w e = editParts w e := by
  rw [editExpr, funext hexpr]
  rfl

theorem unparen_edited (e : Expr) (s : σ) :
    ((editParts w e).run s).1.unparen = ((editParts w e.unparen).run s).1 := by
  cases e with
  | paren e =>
    show ((editExpr w e).run s).1.unparen = _
    rw [editExpr_eq_parts hexpr]
    exact unparen_edited e s
  | _ => rfl

theorem isWhole_edited (e : Expr) (s : σ) : isWhole ((editParts w e).run s).1 = isWhole e := by
  unfold isWhole
  rw [unparen_edited hexpr]
  generalize e.unparen = u
  cases u with
  | seq es => obtain _ | ⟨_, _ | ⟨_, _⟩⟩ := es <;> rfl
  | _ => rfl

end Edited

theorem unparen_splitExpr (e : Expr) : (splitExpr e).unparen = splitExpr e.unparen :=
  unparen_edited (fun _ => rfl) e ()

theorem unary_split (op : UnaryOp) (r : Ref V) : H.unary op r = (splitHost H).unary op r := by
  cases op <;> cases r <;> rfl

theorem assign_split (v : V) (r : Ref V) (target : AssignTarget) :
    H.assign v r (result (editTarget splitting target)) =
      (splitHost H).assign v r target := by
  cases target <;> cases r <;> rfl

theorem shape_split (p : Property) : (result (editProperty splitting p)).shape = p.shape := by
  cases p with
  | shorthand id =>
    show (Property.ofName id.name id).shape = _
    rw [Property.ofName, if_pos rfl]
  | keyValue key value => cases key <;> rfl
  | initialized id value => rfl
  | getter key body => cases key <;> rfl
  | setter key param body => cases key <;> rfl
  | method key f => cases key <;> rfl
  | spread e => rfl

theorem shapes_split (ps : List Property) :
    (result (editProperties splitting ps)).map Property.shape = ps.map Property.shape := by
  induction ps with
  | nil => rfl
  | cons p ps ih => exact congrArg₂ List.cons (shape_split p) ih

mutual

theorem refer_split : ∀ e, H.refer (splitExpr e) = (splitHost H).refer e
  | .this | .ident _ | .hole | .newTarget | .importMeta | .privateName _ | .placeholder => rfl
  | .lit (.str _) | .lit (.num _) | .lit (.bool _) | .lit .null | .lit (.bigint _)
  | .lit (.regex _ _) => rfl
  | .func _ _ | .arrow _ | .cls _ _ => rfl
  | .array exprs | .seq exprs | .superCall exprs | .importCall exprs => by
    rw [Host.refer, ← values_split exprs]
    rfl
  | .object props => by
    rw [Host.refer, ← propertyValues_split props, ← shapes_split]
    rfl
  | .unary op arg => by
    rw [Host.refer, ← refer_split arg, ← funext (unary_split H op)]
    rfl
  | .update _ _ e | .await e | .paren e | .spread e | .new e none | .yield _ (some e) => by
    rw [Host.refer, ← refer_split e]
    rfl
  | .binary _ left right => by
    rw [Host.refer, ← refer_split left, ← refer_split right]
    rfl
  | .assign .plain target value | .assign (.combined _) target value => by
    rw [Host.refer, ← place_split target, ← refer_split value]
    simp only [← assign_split]
    rfl
  | .cond test yes no => by
    rw [Host.refer, ← refer_split test, ← refer_split yes, ← refer_split no]
    rfl
  | .member obj prop | .chainMember _ obj prop => by
    rw [Host.refer, ← refer_split obj, ← access_split prop]
    rfl
  | .superMember prop => by
    rw [Host.refer, ← access_split prop]
    rfl
  | .call callee args | .chainCall _ callee args | .tagged callee _ args
  | .new callee (some args) => by
    rw [Host.refer, ← refer_split callee, ← values_split args]
    rfl
  | .template _ exprs => by
    rw [Host.refer, ← texts_split exprs]
    rfl
  | .yield _ none => rfl
  | .typed _ e _ | .typeAssert _ e | .nonNull e => refer_split e

theorem values_split : ∀ es,
    H.values (result (editExprs splitting es)) = (splitHost H).values es
  | [] => rfl
  | e :: es => by
    rw [Host.values, ← refer_split e, ← values_split es]
    rfl

theorem texts_split : ∀ es,
    H.texts (result (editExprs splitting es)) = (splitHost H).texts es
  | [] => rfl
  | e :: es => by
    rw [Host.texts, ← refer_split e, ← texts_split es]
    rfl

theorem propertyValue_split : ∀ p,
    H.propertyValue (result (editProperty splitting p)) = (splitHost H).propertyValue p
  | .shorthand id => by
    show H.propertyValue (Property.ofName id.name id) = _
    rw [Property.ofName, if_pos rfl]
    rfl
  | .keyValue key value => by
    rw [Host.propertyValue, ← keyValue_split key, ← refer_split value]
    rfl
  | .initialized _ value => by
    rw [Host.propertyValue, ← refer_split value]
    rfl
  | .getter key _ | .setter key _ _ | .method key _ => by
    rw [Host.propertyValue, ← keyValue_split key]
    rfl
  | .spread e => by
    rw [Host.propertyValue, ← refer_split e]
    rfl

theorem propertyValues_split : ∀ ps,
    H.propertyValues (result (editProperties splitting ps)) =
      (splitHost H).propertyValues ps
  | [] => rfl
  | p :: ps => by
    rw [Host.propertyValues, ← propertyValue_split p, ← propertyValues_split ps]
    rfl

theorem keyValue_split : ∀ key,
    H.keyValue (result (editKey splitting key)) = (splitHost H).keyValue key
  | .computed e => by
    rw [Host.keyValue, ← refer_split e]
    rfl
  | .name _ | .str _ | .num _ | .bigint _ | .privateName _ => rfl

theorem access_split : ∀ prop,
    H.access (result (editAccess splitting prop)) = (splitHost H).access prop
  | .name _ | .privateName _ => rfl
  | .computed e => by
    rw [Host.access, ← refer_split e]
    rfl

theorem place_split : ∀ target,
    H.place (result (editTarget splitting target)) = (splitHost H).place target
  | .name _ | .pattern _ => rfl
  | .member obj prop => by
    rw [Host.place, ← refer_split obj, ← access_split prop]
    rfl
  | .superMember prop => by
    rw [Host.place, ← access_split prop]
    rfl
  | .paren e | .chain e | .typed e => refer_split e

end


/-! ### What is in order stays in order -/

theorem isWhole_splitExpr (e : Expr) : isWhole (splitExpr e) = isWhole e :=
  isWhole_edited (fun _ => rfl) e ()

/-- Under parentheses the two questions are asked of the sequence inside. -/
theorem flattensInOrder_paren (e : Expr) :
    flattensInOrder (.paren e) = (isWhole e || flattensInOrder e) := by
  rw [flattensInOrder, isWhole]
  split <;> simp

theorem splitsInOrder_paren (e : Expr) :
    splitsInOrder (.paren e) = (isWhole e || splitsInOrder e) := by
  rw [splitsInOrder, isWhole]
  split <;> simp

mutual

theorem flattensInOrder_splitExpr (e : Expr) :
    flattensInOrder (splitExpr e) = flattensInOrder e := by
  cases e with
  | seq es =>
    match es with
    | [] | [_] => rfl
    | e₁ :: e₂ :: es =>
      exact congrArg₂ and (flattensInOrder_splitExpr e₁) (flattenInOrder_splitExprs (e₂ :: es))
  | paren e =>
    show flattensInOrder (.paren (splitExpr e)) = _
    rw [flattensInOrder_paren, flattensInOrder_paren, isWhole_splitExpr,
      flattensInOrder_splitExpr e]
  | assign op target value =>
    cases target with
    | name b =>
      cases op with
      | plain => exact splitsInOrder_splitExpr value
      | combined => exact isWhole_splitExpr value
    | _ => cases op <;> rfl
  | _ => rfl

theorem flattenInOrder_splitExprs : ∀ es,
    flattenInOrder (result (editExprs splitting es)) = flattenInOrder es
  | [] => rfl
  | e :: es => congrArg₂ and (flattensInOrder_splitExpr e) (flattenInOrder_splitExprs es)

theorem splitsInOrder_splitExpr (e : Expr) : splitsInOrder (splitExpr e) = splitsInOrder e := by
  cases e with
  | seq es =>
    match es with
    | [] | [_] => rfl
    | e₁ :: e₂ :: es =>
      exact congrArg₂ and (flattensInOrder_splitExpr e₁) (lastInOrder_splitExprs (e₂ :: es))
  | paren e =>
    show splitsInOrder (.paren (splitExpr e)) = _
    rw [splitsInOrder_paren, splitsInOrder_paren, isWhole_splitExpr, splitsInOrder_splitExpr e]
  | _ => rfl

theorem lastInOrder_splitExprs : ∀ es,
    lastInOrder (result (editExprs splitting es)) = lastInOrder es
  | [] => rfl
  | [e] => splitsInOrder_splitExpr e
  | e :: f :: es =>
    congrArg₂ and (flattensInOrder_splitExpr e) (lastInOrder_splitExprs (f :: es))

end

theorem isBareHead_split (head : ForHead) :
    isBareHead (result (editHead splitting head)) = isBareHead head := by
  match head with
  | .absent | .pat _ | .expr _ => rfl
  | .var (.mk kind ds) =>
    simp only [isBareHead]
    induction ds with
    | nil => rfl
    | cons d ds ih =>
      obtain ⟨target, init, definite⟩ := d
      cases init with
      | none => exact congrArg (and true) ih
      | some e => rfl

theorem splitPoint?_parts (s : Stmt) :
    (splitPoint? (result (editStmtParts splitting s))).map Prod.fst =
      (splitPoint? s).map fun point => splitExpr point.1 := by
  cases s with
  | decl d =>
    cases d with
    | var d => obtain ⟨_, _ | ⟨⟨_, _ | _, _⟩, _⟩⟩ := d <;> rfl
    | ambient d =>
      cases d with
      | var d => obtain ⟨_, _ | ⟨⟨_, _ | _, _⟩, _⟩⟩ := d <;> rfl
      | _ => rfl
    | _ => rfl
  | «for» init test step =>
    cases init with
    | var d =>
      obtain ⟨_, _ | ⟨⟨_, _ | _, _⟩, _⟩⟩ := d <;> rfl
    | _ => rfl
  | «return» arg => cases arg <;> rfl
  | _ => rfl

theorem startsBare_parts (s : Stmt) :
    startsBare (result (editStmtParts splitting s)) = startsBare s := by
  cases s with
  | forIn head | forOf _ head => exact isBareHead_split head
  | _ => rfl

theorem stmtInOrder_eq (h : ∀ e, s ≠ .expr e) :
    stmtInOrder s = ((splitPoint? s).map Prod.fst).all fun e =>
      splitsInOrder e && (startsBare s || isWhole e) := by
  unfold stmtInOrder
  split
  · exact (h _ rfl).elim
  · cases splitPoint? s <;> rfl

theorem stmtInOrder_parts (s : Stmt) :
    stmtInOrder (result (editStmtParts splitting s)) = stmtInOrder s := by
  by_cases hs : ∃ e, s = .expr e
  · obtain ⟨e, rfl⟩ := hs
    exact flattensInOrder_splitExpr e
  · have hne : ∀ e, s ≠ .expr e := fun e he => hs ⟨e, he⟩
    rw [stmtInOrder_eq (editStmtParts_ne_expr _ hne), stmtInOrder_eq hne, splitPoint?_parts,
      startsBare_parts]
    cases splitPoint? s with
    | none => rfl
    | some point =>
      simp only [Option.map_some, Option.all_some, splitsInOrder_splitExpr, isWhole_splitExpr]

/-! ### The whole pass -/

theorem run_asOne (ss : List Stmt) (n : Nat) :
    run M labels ((match ss with
      | [s] => pure s
      | ss => pure (.block ss) : StateM Nat Stmt).run n).1 = runList M labels ss := by
  split
  · exact andThen_ends.symm
  · rfl

theorem run_single_split (hs : stmtInOrder s) (labels : List String) :
    run H.machine labels (result (splitting.single s)) = run H.machine labels s :=
  (run_asOne ((splitStmt s).run 0).1 _).trans (runList_splitStmt H hs 0)

theorem splitting_keepsRuns : splitting.KeepsRuns H.machine (stmtInOrder ·) where
  label _ := rfl
  expr _ := rfl
  varDecl _ := rfl
  single s labels hs := run_single_split H ((stmtInOrder_parts s).trans hs) labels
  labelled _ _ := rfl
  list ss labels hs := by
    have hparts : ∀ s ∈ result (editStmts splitting ss), stmtInOrder s := by
      intro s hs'
      rw [result_editStmts, List.mem_map] at hs'
      obtain ⟨t, ht, rfl⟩ := hs'
      exact (stmtInOrder_parts t).trans (hs t ht)
    exact runList_splitStmts H hparts 0

theorem machine_edited_split : H.machine.edited splitting = (splitHost H).machine := by
  have heval : ∀ e, H.value (splitExpr e) = (splitHost H).value e := fun e =>
    congrArg (fun x => x >>= H.load) (refer_split H e)
  unfold Machine.edited Machine.through
  rw [show (fun e => H.machine.eval (result (editExpr splitting e))) =
    (splitHost H).machine.eval from funext heval]
  rfl

/-! ### Bodies of functions -/

/-- Whether the body of an arrow, if it is a sequence, can be taken apart without a change of order.
The value returned is taken as it stands. -/
def arrowInOrder (e : Expr) : Bool :=
  match e.unparen with
  | .seq (e₁ :: e₂ :: es) => flattenInOrder (e₁ :: e₂ :: es).dropLast
  | _ => true

/-- Whether the body of a function can be taken apart without a change of order. -/
def bodyInOrder : Body → Prop
  | .absent => True
  | .expr e => arrowInOrder e
  | .block stmts => ∀ s ∈ stmtsInner stmts, stmtInOrder s

theorem runList_split (h : ∀ s ∈ stmtsInner ss, stmtInOrder s) (labels : List String) :
    runList H.machine labels (result (editList splitting ss)) =
      runList (splitHost H).machine labels ss := by
  rw [(splitting_keepsRuns H).runList_edited ss labels h, machine_edited_split]

theorem runBody_split {b : Body} (h : bodyInOrder b) :
    runBody H.machine (result (editBody splitting b)) = runBody (splitHost H).machine b := by
  rw [(splitting_keepsRuns H).runBody_edited b, machine_edited_split]
  rintro stmts rfl
  exact h

theorem flattenInOrder_dropLast (es : List Expr) :
    flattenInOrder (result (editExprs splitting es)).dropLast = flattenInOrder es.dropLast := by
  have hmap : ∀ fs : List Expr, result (editExprs splitting fs) = fs.map splitExpr := by
    intro fs
    induction fs with
    | nil => rfl
    | cons f fs ih => exact congrArg (List.cons _) ih
  rw [hmap, ← List.map_dropLast, ← hmap, flattenInOrder_splitExprs]

theorem arrowInOrder_splitExpr (e : Expr) : arrowInOrder (splitExpr e) = arrowInOrder e := by
  unfold arrowInOrder
  rw [unparen_splitExpr]
  generalize e.unparen = u
  cases u with
  | seq es =>
    match es with
    | [] | [_] => rfl
    | e₁ :: e₂ :: es => exact flattenInOrder_dropLast (e₁ :: e₂ :: es)
  | _ => rfl

theorem value_seq_dropLast (es : List Expr) (h : es ≠ []) :
    H.value (.seq es) = (do H.effects es.dropLast; H.value (es.getLast h)) := by
  induction es with
  | nil => exact absurd rfl h
  | cons e es ih =>
    cases es with
    | nil => simp [Host.effects, H.value_seq_singleton]
    | cons f es =>
      rw [H.value_seq_cons, ih (by simp)]
      simp [Host.effects]

theorem runBody_splitArrow (h : ∀ e, f.body = .expr e → arrowInOrder e) (n : Nat) :
    runBody H.machine ((splitArrow f).run n).1.body = runBody H.machine f.body := by
  fun_cases splitArrow f with
  | case1 isAsync isGenerator typeParams params ret e before last he =>
    have hf := h e rfl
    unfold seqParts? at he
    unfold arrowInOrder at hf
    split at he
    · rename_i e₁ e₂ es hu
      simp only [hu] at hf
      cases he
      show runList H.machine [] ((((flattenEach (e₁ :: e₂ :: es).dropLast).run (n + 1)).1.map
        .expr) ++ [.return (some ((e₂ :: es).getLast (by simp)))]) =
          after (H.value e) fun v => ends (.return (some v))
      rw [runList_effects, (flatten_preserves H).2.2.2 _ hf, ← H.value_unparen e, hu,
        value_seq_dropLast H _ (by simp), after_bind, runList_cons, runList_nil, andThen_ends]
      rfl
    · cases he
  | case2 => rfl
  | case3 => rfl

theorem runBody_splitArrow_edited (h : bodyInOrder f.body) (n : Nat) :
    runBody H.machine ((splitArrow (result (editFunc splitting f))).run n).1.body =
      runBody (splitHost H).machine f.body := by
  obtain ⟨isAsync, isGenerator, typeParams, params, ret, body⟩ := f
  rw [runBody_splitArrow, ← runBody_split H h]
  · rfl
  · intro e he
    cases body with
    | absent => cases he
    | block stmts => cases he
    | expr e' =>
      cases he
      exact (arrowInOrder_splitExpr e').trans h

/-- **Splitting sequences keeps what is evaluated.** A program, the body of a function or an arrow
and a list of statements do the same over every host before and after the pass, if no assignment
that is taken apart combines its target with a sequence, and no loop head gives a first value
before a sequence that is walked over. The functions made by the split code are the split
functions. Scopes of `let` and `const` in loop heads are outside the semantics: in a program,
the `x` that `for (let x = (f(x), 2);;)` passes is the one of the loop, and what is moved out,
`f(x)` before the loop, passes another variable. -/
theorem splitSequences_preserves_evaluation (H : Host ω V) :
    (∀ p : Program, bodyInOrder (.block p.body) →
      runList H.machine [] (splitSequences p).1.body =
        runList (splitHost H).machine [] p.body) ∧
    (∀ (b : Body) (n : Nat), bodyInOrder b →
      runBody H.machine ((editBody sequenceEdits b).run n).1 =
        runBody (splitHost H).machine b) ∧
    (∀ (f : Func) (n : Nat), bodyInOrder f.body →
      runBody H.machine ((editFunc sequenceEdits f >>= splitArrow).run n).1.body =
        runBody (splitHost H).machine f.body) ∧
    (∀ (labels : List String) (ss : List Stmt) (n : Nat), bodyInOrder (.block ss) →
      runList H.machine labels ((editList sequenceEdits ss).run n).1 =
        runList (splitHost H).machine labels ss) := by
  have hlist : ∀ ss n, ((editList sequenceEdits ss).run n).1 = result (editList splitting ss) :=
    fun ss => (editList_agree sequenceEdits_agrees ss).result_eq
  refine ⟨fun p hp => ?_, fun b n hb => ?_, fun f n hf => ?_, fun labels ss n hss => ?_⟩
  · have hbody : (splitSequences p).1.body = result (editList splitting p.body) := hlist p.body 0
    rw [hbody]
    exact runList_split H hp []
  · rw [(editBody_agree sequenceEdits_agrees b).result_eq n]
    exact runBody_split H hb
  · show runBody H.machine ((splitArrow ((editFunc sequenceEdits f).run n).1).run
      ((editFunc sequenceEdits f).run n).2).1.body = _
    rw [(editFunc_agree sequenceEdits_agrees f).result_eq n]
    exact runBody_splitArrow_edited H hf _
  · rw [hlist]
    exact runList_split H hss labels

/-- `x = (f(), y); if (g(), x) f(), g();` -/
def sequencesEverywhere : Program where
  grammar := .script
  body :=
    [.expr (.assign .plain (.name (.ofIdent { name := "x" }))
      (.paren (.seq [.call (.ofName "f") [], .ofName "y"]))),
    .ite (.seq [.call (.ofName "g") [], .ofName "x"])
      (.expr (.seq [.call (.ofName "f") [], .call (.ofName "g") []])) none]

theorem splitSequences_everywhere :
    (∀ s ∈ stmtsInner sequencesEverywhere.body, stmtInOrder s) ∧
    runList Values.made.host.watched.machine [] (splitSequences sequencesEverywhere).1.body =
      runList (splitHost Values.made.host.watched).machine [] sequencesEverywhere.body :=
  have h : ∀ s ∈ stmtsInner sequencesEverywhere.body, stmtInOrder s := by decide
  ⟨h, (splitSequences_preserves_evaluation Values.made.host.watched).1 _ h⟩

end Pass

end Untangle
