import Untangle.Pass.DeadCode
import Untangle.Pass.Dispatcher
import Untangle.Proofs.Execution

/-!
# Jumps that leave some code

A `break` or `continue` without a label belongs to a statement around it. Code in which each such jump
has its statement never ends with one.

* `runList_stays` — the check on the code keeps its promise about the run.
-/

namespace Untangle

open Behaviour

variable {ω V : Type}

/-! ### Ways to end -/

/-- Code inside the given kinds of statements may end like this: without a label, a `break` belongs
to a loop or a switch and a `continue` to a loop. -/
def Completion.Stays (loops switches : Bool) : Completion V → Prop
  | .break none => loops = true ∨ switches = true
  | .continue none => loops = true
  | _ => True

/-- All the ways some code can end are among these. -/
def Confined (P : Completion V → Prop) (d : Behaviour ω V) : Prop := ∀ ⦃a c b⦄, d a c b → P c

/-- All the ways some code can end inside the given kinds of statements. -/
abbrev Staying (loops switches : Bool) (d : Behaviour ω V) : Prop :=
  Confined (Completion.Stays loops switches) d

/-- All the ways a turn can leave its loop belong to no statement around the loop. -/
def Turn.Confined (t : Turn ω V) : Prop :=
  ∀ ⦃a c b⦄, t a (some c) b → Completion.Stays false false c

variable {d : Behaviour ω V}

section Confined

variable {P : Completion V → Prop} {d e : Behaviour ω V}

variable {c : Completion V} {a b : ω}

theorem confined_ends (h : P c) : Confined P (ends c : Behaviour ω V) := by
  rintro a c' b ⟨rfl, -⟩
  exact h

theorem Confined.andThen (hd : Confined P d) (he : Confined P e) : Confined P (andThen d e) := by
  rintro a c b (⟨m, -, hb⟩ | ⟨-, hb⟩)
  · exact he hb
  · exact hd hb

theorem Confined.absorbing (Q : Completion V → Prop) (hn : P .normal) (hd : Confined P d) :
    Confined P (absorbing Q d) := by
  rintro a c b (⟨rfl, -⟩ | ⟨-, hb⟩)
  · exact hn
  · exact hd hb

theorem Confined.handling {k : V → Behaviour ω V} (hd : Confined P d) (hk : ∀ v, Confined P (k v)) :
    Confined P (handling d k) := by
  rintro a c b (⟨v, m, -, hb⟩ | ⟨-, hb⟩)
  · exact hk v hb
  · exact hd hb

theorem Confined.finalizing (hd : Confined P d) (he : Confined P e) :
    Confined P (finalizing d e) := by
  rintro a c b (⟨rfl, hb⟩ | ⟨c', m, -, hm, ⟨rfl, -⟩ | ⟨-, hb⟩⟩)
  · exact hd hb
  · exact hd hm
  · exact he hb

variable {loops switches : Bool} {α : Type}

theorem confined_after {x : ω → Answer V α → ω → Prop} {k : α → Behaviour ω V}
    (hk : ∀ v, Staying loops switches (k v)) :
    Staying loops switches (after x k) := by
  rintro a c b (⟨v, m, -, hb⟩ | ⟨v, rfl, -⟩ | ⟨rfl, -⟩)
  · exact hk v hb
  · trivial
  · trivial

theorem Turn.confined_after {x : ω → Answer V α → ω → Prop} {k : α → Turn ω V}
    (hk : ∀ v, (k v).Confined) : (Turn.after x k).Confined := by
  rintro a c b (⟨v, m, -, hb⟩ | ⟨v, h, -⟩ | ⟨h, -⟩)
  · exact hk v hb
  · cases h
    trivial
  · cases h
    trivial

theorem Turn.confined_again : (Turn.again : Turn ω V).Confined := by
  rintro a c b ⟨h, -⟩
  cases h

theorem Turn.confined_leave : (Turn.leave : Turn ω V).Confined := by
  rintro a c b ⟨h, -⟩
  cases h
  trivial

/-- Whatever the body of a loop does, the loop takes up the jumps without a label. -/
theorem Turn.confined_body (labels : List String) (d : Behaviour ω V) {k : Turn ω V}
    (hk : k.Confined) : (Turn.body labels d k).Confined := by
  rintro a c b ⟨c', m, -, ⟨-, hb⟩ | ⟨hc, h, -⟩⟩
  · exact hk hb
  · cases h
    match c', hc with
    | .normal, hc => exact absurd trivial hc
    | .break none, _ => trivial
    | .break (some _), _ => trivial
    | .continue none, hc => exact absurd trivial hc
    | .continue (some _), _ => trivial
    | .return _, _ => trivial
    | .throw _, _ => trivial
    | .stopped, _ => trivial

theorem Completion.Stays.weaken (h : c.Stays false false) : c.Stays loops switches := by
  match c, h with
  | .break none, h => simp [Completion.Stays] at h
  | .continue none, h => simp [Completion.Stays] at h
  | .normal, _ | .break (some _), _ | .continue (some _), _ | .return _, _ | .throw _, _
  | .stopped, _ => trivial

theorem confined_looping {t : Turn ω V} (ht : t.Confined) : Staying loops switches (Looping t) := by
  intro a c b h
  induction h with
  | leave h => exact (ht h).weaken
  | again _ _ ih => exact ih

theorem Confined.ne_break (hd : Staying false false d) :
    ¬d a (.break none) b := fun h => by simpa [Completion.Stays] using hd h

theorem Confined.ne_continue (hd : Staying false false d) :
    ¬d a (.continue none) b := fun h => by simpa [Completion.Stays] using hd h

end Confined

/-! ### The check -/

section Stray

open Pass

variable {M : Machine ω V} {labels : List String} {loops switches : Bool}

/-- What follows an act can end normally only if what is done with the value can. -/
theorem after_abrupt {α : Type} {x : ω → Answer V α → ω → Prop} {k : α → Behaviour ω V}
    (hk : ∀ v a b, ¬k v a .normal b) (a b : ω) : ¬after x k a .normal b := by
  rintro (⟨v, m, -, hb⟩ | ⟨v, h, -⟩ | ⟨h, -⟩)
  · exact hk v m b hb
  · cases h
  · cases h

theorem run_jump_abrupt {s : Stmt} (h : isJump s = true) (a b : ω) :
    ¬run M labels s a .normal b := by
  match s, h with
  | .return none, _ => rintro ⟨h, -⟩; cases h
  | .return (some e), _ => exact after_abrupt (fun v a b ⟨h, _⟩ => by cases h) a b
  | .throw e, _ => exact after_abrupt (fun v a b ⟨h, _⟩ => by cases h) a b
  | .break l, _ => rintro ⟨h, -⟩; cases h
  | .continue l, _ => rintro ⟨h, -⟩; cases h

theorem runList_jump_abrupt {ss : List Stmt} (h : ss.any isJump = true) (a b : ω) :
    ¬runList M labels ss a .normal b := by
  induction ss generalizing a with
  | nil => cases h
  | cons s ss ih =>
    rintro (⟨m, hm, hb⟩ | ⟨hc, -⟩)
    · rcases Bool.or_eq_true_iff.1 h with hs | hss
      · exact run_jump_abrupt hs a m hm
      · exact ih hss m hb
    · exact hc rfl

theorem strayIn_append (os qs : List Outline) :
    strayIn loops switches (os ++ qs) = (strayIn loops switches os || strayIn loops switches qs) := by
  induction os with
  | nil => rfl
  | cons o os ih => simp [strayIn, ih, Bool.or_assoc]

theorem strayIn_case {test : Option Expr} {body : List Stmt} {rest : List Case}
    (h : strayIn loops switches (outlineCases (.mk test body :: rest)) = false) :
    strayIn loops switches (outlineStmts body) = false ∧
      strayIn loops switches (outlineCases rest) = false := by
  simp only [outlineCases, outlineCase, strayIn_append, Bool.or_eq_false_iff] at h
  exact ⟨h.1.2, h.2⟩

theorem confined_runDeclarators (kind : VarKind) (ds : List Declarator) :
    Staying loops switches (runDeclarators M kind ds) := by
  induction ds with
  | nil => exact confined_ends trivial
  | cons d ds ih =>
    obtain ⟨target, init, definite⟩ := d
    cases init with
    | some e => exact confined_after fun _ => confined_after fun _ => ih
    | none =>
      unfold runDeclarators
      split
      · exact ih
      · exact confined_after fun _ => ih

theorem confined_runEnumMembers (ms : List EnumMember) :
    Staying loops switches (runEnumMembers M ms) := by
  induction ms with
  | nil => exact confined_ends trivial
  | cons m ms ih =>
    obtain ⟨name, init⟩ := m
    cases init with
    | some e => exact confined_after fun _ => ih
    | none => exact ih

theorem confined_runClass (name : Option Ident) (c : Class) :
    Staying loops switches (runClass M name c) := by
  refine confined_after fun v => ?_
  cases name with
  | none => exact confined_ends trivial
  | some id => exact confined_after fun _ => confined_ends trivial

theorem confined_runDecl : ∀ d : Decl, Staying loops switches (runDecl M d)
  | .func .. | .iface _ | .typeAlias .. => confined_ends trivial
  | .cls name c => confined_runClass (some name) c
  | .var (.mk kind ds) => confined_runDeclarators kind ds
  | .enum _ _ ms => confined_runEnumMembers ms
  | .ambient d => confined_runDecl d

theorem confined_runHead (head : ForHead) : Staying loops switches (runHead M head) := by
  cases head with
  | absent => exact confined_ends trivial
  | var d =>
    obtain ⟨kind, ds⟩ := d
    exact confined_runDeclarators kind ds
  | pat p => exact confined_ends trivial
  | expr e => exact confined_after fun _ => confined_ends trivial

theorem confined_startHead (head : ForHead) : Staying loops switches (startHead M head) := by
  cases head with
  | var d =>
    obtain ⟨kind, ds⟩ := d
    exact confined_runDeclarators .var ds
  | absent => exact confined_ends trivial
  | pat p => exact confined_ends trivial
  | expr e => exact confined_ends trivial

theorem confined_elements {labels : List String} {head : ForHead} {obj : Expr} :
    Staying loops switches (andThen (startHead M head)
      (after (M.eval obj) fun v => Looping (elementTurn M labels head d v))) := by
  refine (confined_startHead head).andThen (confined_after fun v => confined_looping ?_)
  refine Turn.confined_after fun element => ?_
  cases element with
  | none => exact Turn.confined_leave
  | some u =>
    exact Turn.confined_after fun _ => Turn.confined_body _ _ Turn.confined_again

mutual

theorem run_stays {loops switches : Bool} {labels : List String} : ∀ s : Stmt,
    straysAt loops switches (outlineStmt s) = false →
      Staying loops switches (run M labels s)
  | .expr _, _ | .exportDefaultExpr _, _ =>
    confined_after fun _ => confined_ends trivial
  | .block body, h => runList_stays body h
  | .empty, _ | .debugger, _ | .return none, _ => confined_ends trivial
  | .with _ body, h => by
    simp only [outlineStmt, straysAt, strayIn, Bool.or_eq_false_iff] at h
    exact confined_after fun _ => run_stays body h.2.1
  | .return (some _), _ | .throw _, _ =>
    confined_after fun _ => confined_ends trivial
  | .labelled _ body, h => by
    simp only [outlineStmt, straysAt, strayIn, Bool.or_eq_false_iff] at h
    exact (run_stays body h.2.1).absorbing _ trivial
  | .break none, h => by
    simp only [outlineStmt, straysAt, Bool.and_eq_false_iff, Bool.not_eq_false'] at h
    exact confined_ends h
  | .continue none, h => by
    simp only [outlineStmt, straysAt, Bool.not_eq_false'] at h
    exact confined_ends h
  | .break (some _), _ | .continue (some _), _ => confined_ends trivial
  | .ite _ yes none, h => by
    simp only [outlineStmt, straysAt, strayIn, Bool.or_eq_false_iff] at h
    refine confined_after fun v => ?_
    split
    · exact run_stays yes h.2.1
    · exact confined_ends trivial
  | .ite _ yes (some no), h => by
    simp only [outlineStmt, outlineStmt?, straysAt, strayIn, Bool.or_eq_false_iff] at h
    refine confined_after fun v => ?_
    split
    · exact run_stays yes h.2.1
    · exact run_stays no h.2.2.1
  | .switch _ cases, h => by
    simp only [outlineStmt, straysAt, strayIn, Bool.or_eq_false_iff] at h
    refine confined_after fun v => ?_
    -- The switch takes up the jumps that would leave its clauses.
    have hcases : Staying loops true
        (runChosen M labels v (runDefault M labels cases) cases) :=
      runChosen_stays cases h.2 (runDefault_stays cases h.2)
    rintro a c b (⟨rfl, -⟩ | ⟨hc, hb⟩)
    · trivial
    · have := hcases hb
      match c with
      | .break none => exact absurd rfl hc
      | .continue none => exact this
      | .normal | .break (some _) | .continue (some _) | .return _ | .throw _ | .stopped => trivial
  | .try body none none, h => by
    simp only [outlineStmt, straysAt, strayIn_append, Bool.or_eq_false_iff] at h
    exact runList_stays body h.1.1
  | .try body (some c) none, h => by
    simp only [outlineStmt, straysAt, strayIn_append, outlineCatch?, strayIn,
      Bool.or_eq_false_iff] at h
    exact (runList_stays body h.1.1).handling (runCatch_stays c h.1.2.1)
  | .try body none (some f), h => by
    simp only [outlineStmt, straysAt, strayIn_append, Bool.or_eq_false_iff] at h
    exact (runList_stays body h.1.1).finalizing (runList_stays f h.2)
  | .try body (some c) (some f), h => by
    simp only [outlineStmt, straysAt, strayIn_append, outlineCatch?, strayIn,
      Bool.or_eq_false_iff] at h
    exact ((runList_stays body h.1.1).handling (runCatch_stays c h.1.2.1)).finalizing
      (runList_stays f h.2)
  | .while _ _, _ => by
    refine confined_looping (Turn.confined_after fun v => ?_)
    split
    · exact Turn.confined_body _ _ Turn.confined_again
    · exact Turn.confined_leave
  | .doWhile _ _, _ => by
    refine confined_looping (Turn.confined_body _ _ (Turn.confined_after fun v => ?_))
    split
    · exact Turn.confined_again
    · exact Turn.confined_leave
  | .for init test step body, _ => by
    refine (confined_runHead init).andThen (confined_looping ?_)
    have hstep : (forStep M step).Confined := by
      cases step with
      | none => exact Turn.confined_again
      | some e => exact Turn.confined_after fun _ => Turn.confined_again
    cases test with
    | none => exact Turn.confined_body _ _ hstep
    | some e =>
      refine Turn.confined_after fun v => ?_
      split
      · exact Turn.confined_body _ _ hstep
      · exact Turn.confined_leave
  | .forIn _ _ _, _ | .forOf _ _ _ _, _ => confined_elements
  | .decl d, _ | .exportDecl d, _ => confined_runDecl d
  | .exportDefaultClass name c, _ => confined_runClass name c
  | .importDecl .., _ | .exportNamed .., _ | .exportAll .., _
  | .exportDefaultFunc .., _ | .exportDefaultInterface _, _ =>
    confined_ends trivial

theorem runList_stays {loops switches : Bool} {labels : List String} : ∀ ss : List Stmt,
    strayIn loops switches (outlineStmts ss) = false →
      Staying loops switches (runList M labels ss)
  | [], _ => confined_ends trivial
  | s :: ss, h => by
    simp only [outlineStmts, strayIn, Bool.or_eq_false_iff] at h
    exact (run_stays s h.1).andThen (runList_stays ss h.2)

theorem runCatch_stays {loops switches : Bool} {labels : List String} : ∀ c : Catch,
    straysAt loops switches (outlineCatch c) = false →
      ∀ v, Staying loops switches (runCatch M labels c v)
  | .mk none body, h, _ => by
    simp only [outlineCatch, straysAt, strayIn_append, Bool.or_eq_false_iff] at h
    exact runList_stays body h.2
  | .mk (some _) body, h, _ => by
    simp only [outlineCatch, straysAt, strayIn_append, Bool.or_eq_false_iff] at h
    exact confined_after fun _ => runList_stays body h.2

theorem runClauses_stays {loops switches : Bool} {labels : List String} : ∀ cs : List Case,
    strayIn loops switches (outlineCases cs) = false →
      Staying loops switches (runClauses M labels cs)
  | [], _ => confined_ends trivial
  | .mk _ body :: rest, h =>
    (runList_stays body (strayIn_case h).1).andThen (runClauses_stays rest (strayIn_case h).2)

theorem runDefault_stays {loops switches : Bool} {labels : List String} : ∀ cs : List Case,
    strayIn loops switches (outlineCases cs) = false →
      Staying loops switches (runDefault M labels cs)
  | [], _ => confined_ends trivial
  | .mk none body :: rest, h =>
    (runList_stays body (strayIn_case h).1).andThen (runClauses_stays rest (strayIn_case h).2)
  | .mk (some _) _ :: rest, h => runDefault_stays rest (strayIn_case h).2

theorem runChosen_stays {loops switches : Bool} {labels : List String} : ∀ cs : List Case,
    ∀ {v : V} {d : Behaviour ω V}, strayIn loops switches (outlineCases cs) = false →
      Staying loops switches d →
      Staying loops switches (runChosen M labels v d cs)
  | [], _, _, _, hd => hd
  | .mk none _ :: rest, _, _, h, hd => runChosen_stays rest (strayIn_case h).2 hd
  | .mk (some _) body :: rest, _, _, h, hd => by
    obtain ⟨hbody, hrest⟩ := strayIn_case h
    refine confined_after fun t => ?_
    split
    · exact (runList_stays body hbody).andThen (runClauses_stays rest hrest)
    · exact runChosen_stays rest hrest hd

end

end Stray

end Untangle
