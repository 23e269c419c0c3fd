import Mathlib
import Untangle.Proofs.EditedOutlines
import Untangle.Proofs.Mentions
import Untangle.Proofs.SequenceExecution

/-!
# Splitting sequences loses nothing

What is taken apart is all still there, once, and only the sequences themselves are gone: as many as
are counted.

* `flatten_loses`, `splitStmts_loses`, `splitArrow_loses` — the steps of the pass.
-/

namespace Untangle

variable {F : Expr → List Outline} {e last : Expr} {m n : Nat} {os : List Outline}

section Weights

variable {M : Type} [AddCommMonoid M]

def weigh (weight : Item → M) (os : List Outline) : M := ((Outline.itemsOf os).map weight).sum

variable {weight : Item → M} {one : M}

theorem weigh_append (os qs : List Outline) :
    weigh weight (os ++ qs) = weigh weight os + weigh weight qs := by
  simp [weigh, itemsOf_append]

theorem weigh_cons (o : Outline) (os : List Outline) :
    weigh weight (o :: os) = weigh weight [o] + weigh weight os := weigh_append [o] os

theorem weigh_node (i : Item) (os : List Outline) :
    weigh weight [.node i os] = weight i + weigh weight os := by
  simp [weigh, Outline.itemsOf, Outline.items]

theorem weigh_perm {qs : List Outline} (h : os.Perm qs) : weigh weight os = weigh weight qs := by
  induction h with
  | nil => rfl
  | cons o _ ih => rw [weigh_cons, ih, ← weigh_cons]
  | swap o q os =>
    rw [weigh_cons q (o :: os), weigh_cons o os, weigh_cons o (q :: os), weigh_cons q os,
      add_left_comm]
  | trans _ _ ih ih' => exact ih.trans ih'

theorem weigh_shown {α : Type} (view : Item → List α) (os : List Outline) :
    weigh (fun i => (view i : Multiset α)) os = ((Outline.itemsOf os).flatMap view : List α) := by
  rw [weigh]
  induction Outline.itemsOf os with
  | nil => rfl
  | cons i is ih => rw [List.map_cons, List.sum_cons, ih, Multiset.coe_add, List.flatMap_cons]

/-- Weights to which statements and parentheses add nothing, each sequence adds the same, and an
assignment adds the same whatever is assigned. -/
structure SplitWeight (weight : Item → M) (one : M) : Prop where
  stmt : ∀ s, weight (.stmt s) = 0
  varDecl : ∀ d, weight (.varDecl d) = 0
  declarator : ∀ d, weight (.declarator d) = 0
  paren : ∀ e, weight (.expr (.paren e)) = 0
  seq : ∀ es, weight (.expr (.seq es)) = one
  assign : ∀ op t e e', weight (.expr (.assign op t e)) = weight (.expr (.assign op t e'))

/-- From one count to another, outlines lose as many sequences as are counted, and nothing else. -/
def Loses (weight : Item → M) (one : M) : OutlineRel Nat := fun n before m after =>
  ∃ k, m = n + k ∧ weigh weight before = weigh weight after + k • one

namespace Loses

variable {n m k : Nat} {a a' b b' c : List Outline} {i i' : Item}

theorem of_eq (h : weigh weight a = weigh weight b) (n : Nat) : Loses weight one n a n b :=
  ⟨0, rfl, by rw [h, zero_nsmul, add_zero]⟩

theorem refl (a : List Outline) (n : Nat) : Loses weight one n a n a := of_eq rfl n

theorem trans (h : Loses weight one n a m b) (h' : Loses weight one m b k c) :
    Loses weight one n a k c := by
  obtain ⟨j, rfl, hj⟩ := h
  obtain ⟨j', rfl, hj'⟩ := h'
  exact ⟨j' + j, by omega, by rw [hj, hj', add_nsmul, add_assoc]⟩

theorem append (h : Loses weight one n a m a') (h' : Loses weight one m b k b') :
    Loses weight one n (a ++ b) k (a' ++ b') := by
  obtain ⟨j, rfl, hj⟩ := h
  obtain ⟨j', rfl, hj'⟩ := h'
  refine ⟨j + j', by omega, ?_⟩
  rw [weigh_append, weigh_append, hj, hj', add_nsmul]
  exact add_add_add_comm _ _ _ _

theorem perm (ha : a.Perm b) (ha' : a'.Perm b') (h : Loses weight one n a m a') :
    Loses weight one n b m b' := by
  obtain ⟨j, hm, hj⟩ := h
  exact ⟨j, hm, by rw [← weigh_perm ha, ← weigh_perm ha', hj]⟩

theorem node (hi : weight i' = weight i) (h : Loses weight one n a m a') :
    Loses weight one n [.node i a] m [.node i' a'] := by
  obtain ⟨j, hm, hj⟩ := h
  exact ⟨j, hm, by rw [weigh_node, weigh_node, hi, hj, add_assoc]⟩

end Loses

/-! ### Where a value stands

The weight of what stands around a value does not depend on the value. -/

def Frames (weight : Item → M) (F : Expr → List Outline) : Prop :=
  ∃ c, ∀ e, weigh weight (F e) = c + weigh weight [outlineExpr e]

namespace Frames

variable {F : Expr → List Outline} {item : Expr → Item}

theorem value : Frames weight fun e => [outlineExpr e] := ⟨0, fun _ => (zero_add _).symm⟩

theorem after (os : List Outline) (h : Frames weight F) : Frames weight fun e => os ++ F e := by
  obtain ⟨c, hc⟩ := h
  exact ⟨weigh weight os + c, fun e => by rw [weigh_append, hc, add_assoc]⟩

theorem before (os : List Outline) (h : Frames weight F) : Frames weight fun e => F e ++ os := by
  obtain ⟨c, hc⟩ := h
  exact ⟨weigh weight os + c, fun e => by rw [weigh_append, hc, add_comm, add_assoc]⟩

theorem node (hitem : ∀ e e', weight (item e) = weight (item e')) (h : Frames weight F) :
    Frames weight fun e => [.node (item e) (F e)] := by
  obtain ⟨c, hc⟩ := h
  exact ⟨weight (item .this) + c, fun e => by rw [weigh_node, hc, add_assoc, hitem e .this]⟩

end Frames

/-- What is lost of a value is lost of what stands around it. What comes before the value goes to the
front. -/
theorem Loses.framed {front : List Outline} (hF : Frames weight F)
    (h : Loses weight one n [outlineExpr e] m (front ++ [outlineExpr last])) :
    Loses weight one n (F e) m (front ++ F last) := by
  obtain ⟨c, hc⟩ := hF
  obtain ⟨j, hm, hj⟩ := h
  refine ⟨j, hm, ?_⟩
  rw [weigh_append] at hj ⊢
  rw [hc, hc, hj, add_left_comm _ c, ← add_assoc c, ← add_assoc c]

end Weights

theorem outlineExprs_append (es fs : List Expr) :
    outlineExprs (es ++ fs) = outlineExprs es ++ outlineExprs fs := by
  induction es with
  | nil => rfl
  | cons e es ih => exact congrArg (outlineExpr e :: ·) ih

namespace Pass

variable {M : Type} [AddCommMonoid M] {weight : Item → M} {one : M} (hw : SplitWeight weight one)

include hw

/-! ### Expressions -/

theorem weigh_paren (e : Expr) :
    weigh weight [outlineExpr (.paren e)] = weigh weight [outlineExpr e] := by
  rw [outlineExpr, weigh_node, hw.paren, zero_add]

theorem weigh_unparen (e : Expr) :
    weigh weight [outlineExpr e.unparen] = weigh weight [outlineExpr e] := by
  induction e using Expr.unparen_induct with
  | paren e ih => exact ih.trans (weigh_paren hw e).symm
  | bare e hbare => rw [hbare]

theorem seq_loses (es : List Expr) (n : Nat) :
    Loses weight one n [outlineExpr (.seq es)] (n + 1) (outlineExprs es) :=
  ⟨1, rfl, by rw [outlineExpr, weigh_node, hw.seq, one_nsmul, add_comm]⟩

theorem assign_frames (op : AssignOp) (t : AssignTarget) :
    Frames weight fun e => [outlineExpr (.assign op t e)] :=
  (Frames.value.after (outlineTarget t)).node (hw.assign op t)

/-- Taking expressions apart loses the sequences that are counted. -/
theorem flatten_loses :
    (∀ e n, Loses weight one n [outlineExpr e] ((flattenExpr e).run n).2
      (outlineExprs ((flattenExpr e).run n).1)) ∧
    (∀ e n, Loses weight one n [outlineExpr e] ((splitValue e).run n).2
      (outlineExprs ((splitValue e).run n).1.1 ++ [outlineExpr ((splitValue e).run n).1.2])) ∧
    (∀ es d, es ≠ [] → ∀ n, Loses weight one n (outlineExprs es) ((splitLast es d).run n).2
      (outlineExprs ((splitLast es d).run n).1.1 ++ [outlineExpr ((splitLast es d).run n).1.2])) ∧
    (∀ es n, Loses weight one n (outlineExprs es) ((flattenEach es).run n).2
      (outlineExprs ((flattenEach es).run n).1)) := by
  apply flattenExpr.mutual_induct
  case case1 =>
    intro e₁ e₂ es ih₁ ih₄ n
    refine (seq_loses hw _ n).trans ?_
    show Loses weight one (n + 1) _ _ (outlineExprs (((flattenExpr e₁).run (n + 1)).1 ++ _))
    rw [outlineExprs_append]
    exact (ih₁ (n + 1)).append (ih₄ _)
  case case2 =>
    intro e e₁ e₂ es he ih n
    refine (Loses.of_eq (weigh_paren hw e) n).trans ?_
    simpa only [flattenExpr, he] using ih n
  case case3 =>
    intro e he n
    rw [flattenExpr]
    split
    · rename_i h'
      exact (he _ _ _ h').elim
    · exact .refl _ n
  case case4 =>
    intro op b value ih n
    rw [flattenExpr]
    show Loses weight one n _ _ (outlineExprs (((splitValue value).run n).1.1 ++ [_]))
    rw [outlineExprs_append]
    exact (ih n).framed (assign_frames hw op (.name b))
  case case5 =>
    intro e hseq hparen hassign n
    rw [flattenExpr]
    · exact .refl _ n
    all_goals assumption
  case case6 =>
    intro e₁ e₂ es ih₁ ih₃ n
    refine (seq_loses hw _ n).trans ?_
    show Loses weight one (n + 1) _ _ (outlineExprs (((flattenExpr e₁).run (n + 1)).1 ++ _) ++ _)
    rw [outlineExprs_append, List.append_assoc]
    exact (ih₁ (n + 1)).append (ih₃ (by simp) _)
  case case7 =>
    intro e e₁ e₂ es he ih n
    refine (Loses.of_eq (weigh_paren hw e) n).trans ?_
    simpa only [splitValue, he] using ih n
  case case8 =>
    intro e he n
    rw [splitValue_whole (e := .paren e) he]
    exact .refl _ n
  case case9 =>
    intro e hseq hparen n
    rw [splitValue]
    · exact .refl _ n
    all_goals assumption
  case case10 =>
    intro d h
    exact absurd rfl h
  case case11 =>
    intro e d ih h n
    exact ih n
  case case12 =>
    intro e es d hes ih₁ ih₃ h n
    rw [splitLast]
    · show Loses weight one n _ _ (outlineExprs (((flattenExpr e).run n).1 ++ _) ++ _)
      rw [outlineExprs_append, List.append_assoc]
      exact (ih₁ n).append (ih₃ hes _)
    · exact hes
  case case13 =>
    intro n
    exact .refl _ n
  case case14 =>
    intro e es ih₁ ih₄ n
    show Loses weight one n _ _ (outlineExprs (((flattenExpr e).run n).1 ++ _))
    rw [outlineExprs_append]
    exact (ih₁ n).append (ih₄ _)

/-! ### Statements -/

theorem stmt_frames (s : Expr → Stmt) (h : Frames weight F) :
    Frames weight fun e => [.node (.stmt (s e)) (F e)] :=
  h.node fun _ _ => by rw [hw.stmt, hw.stmt]

theorem varDecl_frames (kind : VarKind) (target : Pat) (definite : Bool) (rest : List Declarator) :
    Frames weight fun e => [outlineVarDecl (.mk kind (.mk target (some e) definite :: rest))] :=
  (((Frames.value.after [outlinePat target]).node fun _ _ => by
    rw [hw.declarator, hw.declarator]).before (outlineDeclarators rest)).node fun _ _ => by
      rw [hw.varDecl, hw.varDecl]

/-- The value that a sequence can be moved out of stands in its statement. -/
theorem splitPoint?_frames {s : Stmt} {around : Expr → Stmt} (h : splitPoint? s = some (e, around)) :
    Frames weight fun e => [outlineStmt (around e)] := by
  have hfor : ∀ {F : Expr → List Outline} (s : Expr → Stmt) (os qs rs : List Outline),
      Frames weight F → Frames weight fun e => [.node (.stmt (s e)) (F e ++ os ++ qs ++ rs)] :=
    fun s os qs rs hF => stmt_frames hw s (((hF.before os).before qs).before rs)
  have hover : ∀ (s : Expr → Stmt) (head : ForHead) (body : Stmt), Frames weight fun e =>
      [.node (.stmt (s e)) (outlineHead head ++ [outlineExpr e, outlineStmt body])] :=
    fun s head body => stmt_frames hw s
      ((Frames.value.before [outlineStmt body]).after (outlineHead head))
  unfold splitPoint? at h
  split at h <;> cases h
  case h_1 | h_2 => exact stmt_frames hw _ .value
  case h_3 yes no => exact stmt_frames hw _ (Frames.value.before _)
  case h_4 => exact stmt_frames hw _ (Frames.value.before _)
  case h_5 | h_6 => exact stmt_frames hw _ (varDecl_frames hw _ _ _ _)
  case h_7 test step body => exact hfor _ _ _ _ .value
  case h_8 test step body =>
    exact hfor _ _ _ _ (varDecl_frames hw _ _ _ _)
  case h_9 | h_10 => exact hover _ _ _

theorem weigh_exprStmts (es : List Expr) :
    weigh weight (outlineStmts (es.map .expr)) = weigh weight (outlineExprs es) := by
  induction es with
  | nil => rfl
  | cons e es ih =>
    rw [List.map_cons, outlineStmts, outlineExprs, weigh_cons, weigh_cons (outlineExpr e), ih,
      outlineStmt, weigh_node, hw.stmt, zero_add]

theorem loses_exprStmts {a : List Outline} {es : List Expr}
    (h : Loses weight one n a m (outlineExprs es ++ os)) :
    Loses weight one n a m (outlineStmts (es.map .expr) ++ os) := by
  refine h.trans (.of_eq ?_ m)
  rw [weigh_append, weigh_append, weigh_exprStmts hw]

theorem splitStmt_loses (s : Stmt) (n : Nat) :
    Loses weight one n [outlineStmt s] ((splitStmt s).run n).2
      (outlineStmts ((splitStmt s).run n).1) := by
  fun_cases splitStmt s with
  | case1 e =>
    show Loses weight one n _ _ (outlineStmts (((flattenExpr e).run n).1.map .expr))
    refine (Loses.of_eq ?_ n).trans
      (((flatten_loses hw).1 e n).trans (.of_eq (weigh_exprStmts hw _).symm _))
    rw [outlineStmt, weigh_node, hw.stmt, zero_add]
  | case2 s hexpr e around hp =>
    show Loses weight one n _ _ (outlineStmts (((splitValue e).run n).1.1.map .expr ++ [_]))
    rw [outlineStmts_append, ← splitPoint?_around hp]
    exact loses_exprStmts hw (((flatten_loses hw).2.1 e n).framed (splitPoint?_frames hw hp))
  | case3 => exact .refl _ n

theorem splitStmts_loses (ss : List Stmt) (n : Nat) :
    Loses weight one n (outlineStmts ss) ((splitStmts ss).run n).2
      (outlineStmts ((splitStmts ss).run n).1) := by
  induction ss generalizing n with
  | nil => exact .refl _ n
  | cons s ss ih =>
    show Loses weight one n _ _ (outlineStmts (((splitStmt s).run n).1 ++ _))
    rw [outlineStmts_append]
    exact (splitStmt_loses hw s n).append (ih _)

theorem weigh_asOne (ss : List Stmt) (n : Nat) :
    weigh weight [outlineStmt ((match ss with
      | [s] => pure s
      | ss => pure (.block ss) : StateM Nat Stmt).run n).1] = weigh weight (outlineStmts ss) ∧
    ((match ss with
      | [s] => pure s
      | ss => pure (.block ss) : StateM Nat Stmt).run n).2 = n := by
  split
  · exact ⟨rfl, rfl⟩
  · refine ⟨?_, rfl⟩
    show weigh weight [.node (.stmt _) _] = _
    rw [weigh_node, hw.stmt, zero_add]

theorem single_loses (s : Stmt) (n : Nat) :
    Loses weight one n [outlineStmt s] ((sequenceEdits.single s).run n).2
      [outlineStmt ((sequenceEdits.single s).run n).1] := by
  have h := splitStmt_loses hw s n
  obtain ⟨hone, hcount⟩ := weigh_asOne hw ((splitStmt s).run n).1 ((splitStmt s).run n).2
  obtain ⟨k, hk, hweigh⟩ := h.trans (.of_eq hone.symm _)
  exact ⟨k, hcount.trans hk, hweigh⟩

/-! ### Arrows -/

theorem seqParts?_loses {before : List Expr} (h : seqParts? e = some (before, last)) (n : Nat) :
    Loses weight one n [outlineExpr e] (n + 1) (outlineExprs before ++ [outlineExpr last]) := by
  refine (Loses.of_eq (weigh_unparen hw e).symm n).trans ?_
  unfold seqParts? at h
  split at h
  · rename_i e₁ e₂ es he
    cases h
    have hlast : (e₁ :: e₂ :: es).dropLast ++ [(e₂ :: es).getLast (by simp)] = e₁ :: e₂ :: es :=
      List.dropLast_concat_getLast (l := e₁ :: e₂ :: es) (by simp)
    have hparts := seq_loses hw (e₁ :: e₂ :: es) n
    rw [he]
    rwa [← hlast, outlineExprs_append, hlast] at hparts
  · cases h

theorem splitArrow_loses (f : Func) (n : Nat) :
    Loses weight one n (outlineArrow f) ((splitArrow f).run n).2
      (outlineArrow ((splitArrow f).run n).1) := by
  fun_cases splitArrow f with
  | case1 isAsync isGenerator typeParams params ret e before last h =>
    have hreturn : Loses weight one n [outlineExpr e] ((flattenEach before).run (n + 1)).2
        (outlineStmts (((flattenEach before).run (n + 1)).1.map .expr ++ [.return (some last)])) := by
      rw [outlineStmts_append]
      refine loses_exprStmts hw ((seqParts?_loses hw h n).trans
        (((flatten_loses hw).2.2.2 before (n + 1)).append (.of_eq ?_ _)))
      show _ = weigh weight [.node _ [outlineExpr last]]
      rw [weigh_node, hw.stmt, zero_add]
    exact (((Loses.refl (outlinePats params) n).append hreturn).append (.refl _ _)).append
      (.refl _ _)
  | case2 => exact .refl _ n
  | case3 => exact .refl _ n

/-! ### Programs -/

/-- A weight that edited parts do not change goes through the whole pass. -/
theorem sequenceEdits_relatesOutlines
    (hnode : ∀ i i', Item.Edited sequenceEdits i i' → weight i' = weight i)
    (hexpr : ∀ e n, weight (.expr ((editParts sequenceEdits e).run n).1) = weight (.expr e)) :
    sequenceEdits.RelatesOutlines (Loses weight one) (Loses weight one) (Loses weight one) where
  nil n := .refl _ n
  append := .append
  perm := .perm
  ident _ n := .refl _ n
  label _ n := .refl _ n
  word _ n := .refl _ n
  str _ n := .refl _ n
  num _ n := .refl _ n
  node hi h := h.node (hnode _ _ hi)
  exprNode e h := h.node (hexpr e _)
  arrow f h := h.trans (splitArrow_loses hw f _)
  stmt _ h := h.node (by rw [hw.stmt, hw.stmt])
  rawNil n := .refl _ n
  rawCons := .append
  single s h := h.trans (single_loses hw s _)
  list ss h := h.trans (splitStmts_loses hw ss _)

end Pass

/-! ### What a program holds -/

/-- What is counted of a program besides its sequences. -/
inductive Mark
  | name (spelling : String)
  | literal (l : Lit)
  | text (part : Quasi)
  | call
  | assignment
  | function
  deriving DecidableEq

/-- What is to be seen of a key that is neither quoted nor computed. -/
def PropName.marks : PropName → List Mark
  | .name s => [.name s]
  | .privateName s => [.name s]
  | .bigint raw => [.literal (.bigint raw)]
  | _ => []

def MemberProp.marks : MemberProp → List Mark
  | .name s => [.name s]
  | .privateName s => [.name s]
  | .computed _ => []

def Expr.marks : Expr → List Mark
  | .lit (.str _) => []
  | .lit (.num _) => []
  | .lit l => [.literal l]
  | .privateName s => [.name s]
  | .template quasis _ | .tagged _ quasis _ => quasis.map .text
  | .call .. | .chainCall .. | .superCall _ | .importCall _ => [.call]
  | .assign .. => [.assignment]
  | .func .. | .arrow _ => [.function]
  | _ => []

def Property.marks : Property → List Mark
  | .keyValue key _ | .getter key _ | .setter key _ _ | .method key _ => key.marks
  | _ => []

def PatProp.marks : PatProp → List Mark
  | .keyValue key _ => key.marks
  | _ => []

def ClassMember.marks : ClassMember → List Mark
  | .ctor _ key _ _ | .method _ _ key _ | .field _ key _ _ => key.marks
  | _ => []

/-- The names and literals at a node, and whether it is a call, an assignment or a function. -/
def Item.marks : Item → List Mark
  | .ident id => [.name id.name]
  | .str s => [.literal (.str s)]
  | .num n => [.literal (.num n)]
  | .expr e => e.marks
  | .access _ prop => prop.marks
  | .superAccess prop => prop.marks
  | .property p => p.marks
  | .pat (.object props _) => props.flatMap PatProp.marks
  | .cls (.mk _ _ _ _ members) => members.flatMap ClassMember.marks
  | _ => []

/-- All names, literals, calls, assignments and functions of a program. -/
def Program.marks (p : Program) : List Mark := p.items.flatMap Item.marks

def Item.isSequence : Item → Bool
  | .expr (.seq _) => true
  | _ => false

def Program.sequences (p : Program) : Nat := p.items.countP Item.isSequence

namespace Pass

theorem marks_editAccess (prop : MemberProp) (n : Nat) :
    ((editAccess sequenceEdits prop).run n).1.marks = prop.marks := by
  cases prop <;> rfl

theorem marks_editKey (key : PropName) (n : Nat) :
    ((editKey sequenceEdits key).run n).1.marks = key.marks := by
  cases key <;> rfl

theorem marks_editProperty (p : Property) (n : Nat) :
    ((editProperty sequenceEdits p).run n).1.marks = p.marks := by
  cases p with
  | shorthand id => rw [editProperty_shorthand fun _ => rfl]; rfl
  | keyValue key | getter key | setter key | method key => exact marks_editKey key n
  | initialized | spread => rfl

theorem marks_editPatProps (ps : List PatProp) (n : Nat) :
    ((editPatProps sequenceEdits ps).run n).1.flatMap PatProp.marks =
      ps.flatMap PatProp.marks := by
  induction ps generalizing n with
  | nil => rfl
  | cons p ps ih =>
    have hp : ((editPatProp sequenceEdits p).run n).1.marks = p.marks := by
      cases p with
      | keyValue key value => exact marks_editKey key n
      | assign b value => rw [editPatProp_assign fun _ => rfl]; rfl
      | rest p => rfl
    exact congrArg₂ List.append hp (ih _)

theorem marks_editMembers (ms : List ClassMember) (n : Nat) :
    ((editMembers sequenceEdits ms).run n).1.flatMap ClassMember.marks =
      ms.flatMap ClassMember.marks := by
  induction ms generalizing n with
  | nil => rfl
  | cons m ms ih =>
    have hm : ((editMember sequenceEdits m).run n).1.marks = m.marks := by
      cases m with
      | ctor _ key | method _ _ key => exact marks_editKey key n
      | field _ key _ value => exact marks_editKey key n
      | staticBlock | empty => rfl
    exact congrArg₂ List.append hm (ih _)

variable {i i' : Item}

theorem marks_edited (h : i.Edited sequenceEdits i') : i'.marks = i.marks := by
  cases h with
  | access _ _ prop n => exact marks_editAccess prop n
  | superAccess prop n => exact marks_editAccess prop n
  | property p n => exact marks_editProperty p n
  | pat p n =>
    cases p with
    | object props ann => exact marks_editPatProps props n
    | _ => rfl
  | cls c n =>
    obtain ⟨isAbstract, typeParams, base, implemented, members⟩ := c
    exact marks_editMembers members _
  | _ => rfl

theorem isSequence_edited (h : i.Edited sequenceEdits i') : i'.isSequence = i.isSequence := by
  cases h <;> rfl

theorem expr_edited (e : Expr) (n : Nat) :
    ((editParts sequenceEdits e).run n).1.marks = e.marks ∧
      (Item.expr ((editParts sequenceEdits e).run n).1).isSequence = (Item.expr e).isSequence := by
  cases e with
  | lit l => cases l <;> exact ⟨rfl, rfl⟩
  | _ => exact ⟨rfl, rfl⟩

/-- **Splitting loses and doubles nothing, and counts exactly.** Every name, literal, call, assignment
and function is there as often as before, and as many sequences are gone as are reported. -/
theorem splitSequences_keeps_marks (p : Program) :
    (splitSequences p).1.marks.Perm p.marks ∧
      (splitSequences p).1.sequences + ((splitSequences p).2.map Finding.occurrences).sum =
        p.sequences := by
  constructor
  · have hweight : SplitWeight (fun i => (i.marks : Multiset Mark)) 0 :=
      ⟨fun _ => rfl, fun _ => rfl, fun _ => rfl, fun _ => rfl, fun _ => rfl, fun _ _ _ _ => rfl⟩
    obtain ⟨k, -, hk⟩ := (sequenceEdits_relatesOutlines hweight
      (fun _ _ h => congrArg _ (marks_edited h)) fun e n => congrArg _ (expr_edited e n).1).program p 0
    rw [nsmul_zero, add_zero, weigh_shown, weigh_shown] at hk
    exact Multiset.coe_eq_coe.1 hk.symm
  · have hweight : SplitWeight (fun i : Item => i.isSequence.toNat) 1 :=
      ⟨fun _ => rfl, fun _ => rfl, fun _ => rfl, fun _ => rfl, fun _ => rfl, fun _ _ _ _ => rfl⟩
    obtain ⟨k, hcount, hk⟩ := (sequenceEdits_relatesOutlines hweight
      (fun _ _ h => congrArg _ (isSequence_edited h))
      fun e n => congrArg _ (expr_edited e n).2).program p 0
    have hreported : ((splitSequences p).2.map Finding.occurrences).sum = k := by
      show ((findings _ [(_, ((editProgram sequenceEdits p).run 0).2)]).map _).sum = k
      rw [hcount, Nat.zero_add]
      cases k <;> rfl
    have hsequences : ∀ q : Program,
        weigh (fun i : Item => i.isSequence.toNat) (outlineProgram q) = q.sequences := by
      intro q
      rw [weigh, Program.sequences, Program.items]
      induction Outline.itemsOf (outlineProgram q) with
      | nil => rfl
      | cons i is ih =>
        rw [List.map_cons, List.sum_cons, ih, List.countP_cons, Nat.add_comm]
        cases i.isSequence <;> rfl
    have hone : k • 1 = k := Nat.mul_one k
    rw [hreported, ← hsequences, ← hsequences, hk, hone]
    rfl

end Pass

end Untangle
