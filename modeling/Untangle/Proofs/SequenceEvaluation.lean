import Untangle.Pass.Sequence
import Untangle.Proofs.Editing
import Untangle.Proofs.Evaluation

/-!
# Taking sequences apart

What comes before the last value of a sequence moves in front of the statement. That keeps the order
of evaluation as long as nothing is done before the sequence is evaluated. Among expressions there is
one exception: an assignment that combines reads its target first.

* `flatten_steady` — what comes out does not depend on the count.
-/

namespace Untangle

variable {ω V : Type}

namespace Host

variable (H : Host ω V)

def effects : List Expr → Comp ω V Unit
  | [] => pure ()
  | e :: es => do
    let _ ← H.value e
    effects es

theorem effects_append (es fs : List Expr) :
    H.effects (es ++ fs) = (do H.effects es; H.effects fs) := by
  induction es with
  | nil => simp [effects]
  | cons e es ih => simp [effects, ih]

theorem effects_seq (es : List Expr) : H.effects [.seq es] = H.effects es := by
  induction es with
  | nil =>
    show (H.value (.seq []) >>= fun _ => pure ()) = pure ()
    rw [value_seq, show H.values [] = pure [] from rfl]
    simp only [pure_bind]
  | cons e es ih =>
    cases es with
    | nil => simp [effects, value_seq_singleton]
    | cons f es =>
      rw [effects, value_seq_cons, bind_assoc]
      exact congrArg (H.value e >>= ·) (funext fun _ => ih)

theorem effects_paren (e : Expr) : H.effects [.paren e] = H.effects [e] := by
  rw [effects, value_paren]
  rfl

end Host

namespace Pass

variable (H : Host ω V)

/-- Whether an expression is no sequence of two or more. -/
def isWhole (e : Expr) : Bool :=
  match e.unparen with
  | .seq (_ :: _ :: _) => false
  | _ => true

mutual

/-- Whether an expression statement can be taken apart without a change of order: an assignment that
combines reads its target before its right side, so the right side must stay whole. -/
def flattensInOrder : Expr → Bool
  | .seq (e₁ :: e₂ :: es) => flattensInOrder e₁ && flattenInOrder (e₂ :: es)
  | .paren e =>
    match e.unparen with
    | .seq (_ :: _ :: _) => flattensInOrder e
    | _ => true
  | .assign .plain (.name _) value => splitsInOrder value
  | .assign (.combined _) (.name _) value => isWhole value
  | _ => true

def flattenInOrder : List Expr → Bool
  | [] => true
  | e :: es => flattensInOrder e && flattenInOrder es

/-- The same for an expression whose value is used. -/
def splitsInOrder : Expr → Bool
  | .seq (e₁ :: e₂ :: es) => flattensInOrder e₁ && lastInOrder (e₂ :: es)
  | .paren e =>
    match e.unparen with
    | .seq (_ :: _ :: _) => splitsInOrder e
    | _ => true
  | _ => true

def lastInOrder : List Expr → Bool
  | [] => true
  | [e] => splitsInOrder e
  | e :: es => flattensInOrder e && lastInOrder es

end

theorem splitValue_whole {e : Expr} (h : ∀ e₁ e₂ es, e.unparen = .seq (e₁ :: e₂ :: es) → False) :
    splitValue e = pure ([], e) := by
  fun_cases splitValue e with
  | case1 e₁ e₂ es => exact (h e₁ e₂ es rfl).elim
  | case2 e e₁ e₂ es he => exact (h e₁ e₂ es he).elim
  | case3 | case4 => rfl

/-- Taking expressions apart keeps what they do, and what they give if a value is used. -/
theorem flatten_preserves :
    (∀ e, flattensInOrder e → ∀ n, H.effects ((flattenExpr e).run n).1 = H.effects [e]) ∧
    (∀ e, splitsInOrder e → ∀ n,
      (do H.effects ((splitValue e).run n).1.1; H.value ((splitValue e).run n).1.2) = H.value e) ∧
    (∀ es d, lastInOrder es → es ≠ [] → ∀ n,
      (do H.effects ((splitLast es d).run n).1.1; H.value ((splitLast es d).run n).1.2) =
        H.value (.seq es)) ∧
    (∀ es, flattenInOrder es → ∀ n, H.effects ((flattenEach es).run n).1 = H.effects es) := by
  apply flattenExpr.mutual_induct
  case case1 =>
    intro e₁ e₂ es ih₁ ih₂ h n
    rw [flattensInOrder, Bool.and_eq_true] at h
    show H.effects (((flattenExpr e₁).run (n + 1)).1 ++
      ((flattenEach (e₂ :: es)).run ((flattenExpr e₁).run (n + 1)).2).1) = _
    rw [H.effects_append, ih₁ h.1, ih₂ h.2, ← H.effects_append, H.effects_seq]
    rfl
  case case2 =>
    intro e e₁ e₂ es he ih h n
    simp only [flattensInOrder, he] at h
    simp only [flattenExpr, he]
    rw [ih h, H.effects_paren]
  case case3 =>
    intro e he h n
    rw [flattenExpr]
    split
    · rename_i h'
      exact (he _ _ _ h').elim
    · rfl
  case case4 =>
    intro op b value ih h n
    rw [flattenExpr]
    show H.effects (((splitValue value).run n).1.1 ++
      [.assign op (.name b) ((splitValue value).run n).1.2]) = _
    cases op with
    | plain =>
      rw [flattensInOrder] at h
      have hv := ih h n
      simp only [H.effects_append, Host.effects, H.value_assign_name, ← hv, bind_assoc]
    | combined op =>
      have hwhole : ∀ e₁ e₂ es, value.unparen = .seq (e₁ :: e₂ :: es) → False := by
        intro e₁ e₂ es hv
        simp [flattensInOrder, isWhole, hv] at h
      rw [splitValue_whole hwhole]
      rfl
  case case5 =>
    intro e hseq hparen hassign h n
    rw [flattenExpr]
    · rfl
    all_goals assumption
  case case6 =>
    intro e₁ e₂ es ih₁ ih₃ h n
    rw [splitsInOrder, Bool.and_eq_true] at h
    show (do H.effects (((flattenExpr e₁).run (n + 1)).1 ++
      ((splitLast (e₂ :: es) e₂).run ((flattenExpr e₁).run (n + 1)).2).1.1)
             H.value ((splitLast (e₂ :: es) e₂).run ((flattenExpr e₁).run (n + 1)).2).1.2) = _
    rw [H.effects_append, ih₁ h.1, H.value_seq_cons,
      ← ih₃ h.2 (by simp) ((flattenExpr e₁).run (n + 1)).2]
    simp [Host.effects]
  case case7 =>
    intro e e₁ e₂ es he ih h n
    simp only [splitsInOrder, he] at h
    simp only [splitValue, he]
    rw [ih h, H.value_paren]
  case case8 =>
    intro e he h n
    rw [splitValue_whole (e := .paren e) he]
    exact pure_bind _ _
  case case9 =>
    intro e hseq hparen h n
    rw [splitValue]
    · exact pure_bind _ _
    all_goals assumption
  case case10 =>
    intro d _ h
    exact absurd rfl h
  case case11 =>
    intro e d ih h _ n
    rw [H.value_seq_singleton]
    exact ih h n
  case case12 =>
    intro e es d hes ih₁ ih₃ h _ n
    obtain ⟨f, fs, rfl⟩ := List.exists_cons_of_ne_nil hes
    rw [lastInOrder, Bool.and_eq_true] at h
    · show (do H.effects (((flattenExpr e).run n).1 ++
        ((splitLast (f :: fs) d).run ((flattenExpr e).run n).2).1.1)
               H.value ((splitLast (f :: fs) d).run ((flattenExpr e).run n).2).1.2) = _
      rw [H.effects_append, ih₁ h.1, H.value_seq_cons, ← ih₃ h.2 hes ((flattenExpr e).run n).2]
      simp [Host.effects]
    · exact hes
  case case13 =>
    intro h n
    rfl
  case case14 =>
    intro e es ih₁ ih₄ h n
    rw [flattenInOrder, Bool.and_eq_true] at h
    show H.effects (((flattenExpr e).run n).1 ++
      ((flattenEach es).run ((flattenExpr e).run n).2).1) = _
    rw [H.effects_append, ih₁ h.1, ih₄ h.2, ← H.effects_append]
    rfl

/-- `x ||= (f(), y)` -/
def combinedSequence : Expr :=
  .assign (.combined .or) (.name (.ofIdent { name := "x" }))
    (.paren (.seq [.call (.ofName "f") [], .ofName "y"]))

/-- A memory in which every variable counts as true and no call comes to an end. -/
def truthful : Memory Datum := ⟨fun _ => .bool true, []⟩

/-- The condition on assignments that combine cannot be dropped: a variable that counts as true keeps
its value and the right side is never evaluated, but the split code evaluates the sequence first. -/
theorem flatten_combined_reorders :
    Values.made.host.effects ((flattenExpr combinedSequence).run 0).1 ≠
      Values.made.host.effects [combinedSequence] := by
  intro h
  have hwhole : Values.made.host.effects [combinedSequence] truthful (.value ()) truthful := by
    refine Comp.bind_value_iff.2 ⟨.bool true, truthful, ?_, rfl, rfl⟩
    refine Comp.bind_value_iff.2 ⟨.value (.bool true), truthful, ?_, rfl, rfl⟩
    refine Comp.bind_value_iff.2 ⟨.name ⟨"x", .unset⟩, truthful, ⟨rfl, rfl⟩, ?_⟩
    exact Comp.bind_value_iff.2 ⟨.bool true, truthful, ⟨rfl, rfl⟩, rfl, rfl⟩
  rw [← h] at hwhole
  obtain ⟨_, _, hcall, -⟩ := Comp.bind_value_iff.1 hwhole
  obtain ⟨_, _, hcall, -⟩ := Comp.bind_value_iff.1 hcall
  obtain ⟨_, _, ⟨hf, rfl⟩, hcall⟩ := Comp.bind_value_iff.1 hcall
  cases hf
  obtain ⟨_, _, ⟨-, rfl⟩, hcall⟩ := Comp.bind_value_iff.1 hcall
  obtain ⟨_, _, ⟨-, rfl⟩, hcall⟩ := Comp.bind_value_iff.1 hcall
  obtain ⟨_, _, ⟨hstopped, -⟩, -⟩ := Comp.bind_value_iff.1 hcall
  cases hstopped
/-! ### The count -/

/-- A step from a count of zero, the count being dropped. -/
def uncounted {α : Type} (x : StateM Nat α) : StateM Unit α := pure (x.run 0).1

/-- A step that gives the same whatever has been counted before. -/
abbrev Steady {α : Type} (x : StateM Nat α) : Prop := Agree (fun _ _ => True) x x

theorem Steady.agree_uncounted {α : Type} {x : StateM Nat α} (h : Steady x) :
    Agree (fun _ _ => True) x (uncounted x) :=
  fun n _ _ => ⟨(h n 0 trivial).1, trivial⟩

theorem steady_modify (f : Nat → Nat) : Steady (modify f) := fun _ _ _ => ⟨rfl, trivial⟩

theorem flatten_steady :
    (∀ e, Steady (flattenExpr e)) ∧ (∀ e, Steady (splitValue e)) ∧
    (∀ es d, Steady (splitLast es d)) ∧ (∀ es, Steady (flattenEach es)) := by
  apply flattenExpr.mutual_induct
  case case1 =>
    intro e₁ e₂ es ih₁ ih₄
    exact (steady_modify _).bind fun _ => ih₁.bind fun _ => ih₄.bind fun _ => .pure _
  case case2 =>
    intro e e₁ e₂ es he ih
    simpa only [flattenExpr, he] using ih
  case case3 =>
    intro e he
    rw [flattenExpr]
    split
    · rename_i h'
      exact (he _ _ _ h').elim
    · exact .pure _
  case case4 =>
    intro op b value ih
    rw [flattenExpr]
    exact ih.bind fun _ => .pure _
  case case5 =>
    intro e hseq hparen hassign
    rw [flattenExpr]
    · exact .pure _
    all_goals assumption
  case case6 =>
    intro e₁ e₂ es ih₁ ih₃
    exact (steady_modify _).bind fun _ => ih₁.bind fun _ => ih₃.bind fun _ => .pure _
  case case7 =>
    intro e e₁ e₂ es he ih
    simpa only [splitValue, he] using ih
  case case8 =>
    intro e he
    rw [splitValue_whole (e := .paren e) he]
    exact .pure _
  case case9 =>
    intro e hseq hparen
    rw [splitValue]
    · exact .pure _
    all_goals assumption
  case case10 =>
    intro d
    exact .pure _
  case case11 =>
    intro e d ih
    exact ih
  case case12 =>
    intro e es d hes ih₁ ih₃
    rw [splitLast]
    · exact ih₁.bind fun _ => ih₃.bind fun _ => .pure _
    · exact hes
  case case13 => exact .pure _
  case case14 =>
    intro e es ih₁ ih₄
    exact ih₁.bind fun _ => ih₄.bind fun _ => .pure _

end Pass

end Untangle
