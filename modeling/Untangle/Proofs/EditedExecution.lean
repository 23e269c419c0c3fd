import Mathlib.Logic.Basic
import Untangle.Proofs.Editing
import Untangle.Proofs.Execution

/-!
# Running edited code

Edits that only rearrange statements, and never change how a rearranged statement runs, leave a
program as it was but for the expressions and patterns in it.

* `run_edited`, `runList_edited` — edited code runs like the code before, on the machine that is
  given the edited expressions.
-/

namespace Untangle

open Behaviour

variable {ω V : Type}

def Machine.through (M : Machine ω V) (onExpr : Expr → Expr) (onPat : Pat → Pat) : Machine ω V :=
  { M with
    eval := fun e => M.eval (onExpr e)
    bind := fun kind p => M.bind kind (onPat p) }

/-- A machine that is given what some edits make of expressions and patterns. -/
abbrev Machine.edited (M : Machine ω V) (w : Edits Unit) : Machine ω V :=
  M.through (fun e => result (editExpr w e)) (fun p => result (editPat w p))

/-! ### Statements inside a statement -/

mutual

/-- The statements inside a statement that stand in a list or are the whole body or branch of
another. One after a label is left out, and so is what functions hold. -/
def Stmt.inner : Stmt → List Stmt
  | .block body => stmtsInner body
  | .with _ body => body :: body.inner
  | .labelled _ body => body.inner
  | .ite _ yes none => yes :: yes.inner
  | .ite _ yes (some no) => yes :: (yes.inner ++ no :: no.inner)
  | .switch _ cases => casesInner cases
  | .try body none none => stmtsInner body
  | .try body (some c) none => stmtsInner body ++ c.inner
  | .try body none (some f) => stmtsInner body ++ stmtsInner f
  | .try body (some c) (some f) => stmtsInner body ++ c.inner ++ stmtsInner f
  | .while _ body => body :: body.inner
  | .doWhile body _ => body :: body.inner
  | .for _ _ _ body => body :: body.inner
  | .forIn _ _ body => body :: body.inner
  | .forOf _ _ _ body => body :: body.inner
  | _ => []

def stmtsInner : List Stmt → List Stmt
  | [] => []
  | s :: ss => s :: (s.inner ++ stmtsInner ss)

def Catch.inner : Catch → List Stmt
  | .mk _ body => stmtsInner body

def casesInner : List Case → List Stmt
  | [] => []
  | .mk _ body :: rest => stmtsInner body ++ casesInner rest

end

theorem mem_stmtsInner {s : Stmt} {ss : List Stmt} (h : s ∈ ss) : s ∈ stmtsInner ss := by
  induction ss with
  | nil => cases h
  | cons t ts ih =>
    rcases List.mem_cons.1 h with rfl | hs
    · simp [stmtsInner]
    · simp [stmtsInner, ih hs]

/-! ### Edits that keep runs -/

/-- Edits of statements that leave how they run on a machine, where `P` holds. -/
structure Edits.KeepsRuns (w : Edits Unit) (M : Machine ω V) (P : Stmt → Prop) : Prop where
  label : ∀ l, (result (w.label l)).name = l.name
  expr : ∀ e, result (w.expr e) = e
  varDecl : ∀ d, result (w.varDecl d) = d
  single : ∀ s labels, P s → run M labels (result (w.single (result (editStmtParts w s)))) =
    run M labels (result (editStmtParts w s))
  labelled : ∀ s labels, run M labels (result (w.labelled s)) = run M labels s
  list : ∀ ss labels, (∀ s ∈ ss, P s) → runList M labels (result (editList w ss)) =
    runList M labels (result (editStmts w ss))

variable {w : Edits Unit} {M : Machine ω V} {P : Stmt → Prop} {labels : List String}

theorem runDeclarators_edited (kind : VarKind) (ds : List Declarator) :
    runDeclarators M kind (result (editDeclarators w ds)) =
      runDeclarators (M.edited w) kind ds := by
  induction ds with
  | nil => rfl
  | cons d ds ih =>
    obtain ⟨target, init, definite⟩ := d
    cases init with
    | some e =>
      show after (M.eval (result (editExpr w e))) (fun v =>
        after (M.bind _ (result (editPat w target)) v) fun _ =>
          runDeclarators M kind (result (editDeclarators w ds))) = _
      rw [ih]
      rfl
    | none =>
      show (if kind = .var then runDeclarators M kind (result (editDeclarators w ds)) else
        after (M.bind _ (result (editPat w target)) _) fun _ =>
          runDeclarators M kind (result (editDeclarators w ds))) = _
      rw [ih]
      rfl

theorem runEnumMembers_edited (ms : List EnumMember) :
    runEnumMembers M (result (editEnumMembers w ms)) = runEnumMembers (M.edited w) ms := by
  induction ms with
  | nil => rfl
  | cons m ms ih =>
    obtain ⟨name, init⟩ := m
    cases init with
    | some e => exact congrArg (fun k => after (M.eval (result (editExpr w e))) fun _ => k) ih
    | none => exact ih

namespace Edits.KeepsRuns

section

variable (hw : w.KeepsRuns M P)

include hw

theorem runClass_edited (name : Option Ident) (c : Class) :
    runClass M (result (editIdent? w name)) (result (editClass w c)) =
      runClass (M.edited w) name c := by
  cases name with
  | none =>
    show after (M.eval (.cls none (result (editClass w c)))) _ =
      after (M.eval (result (w.expr (.cls none (result (editClass w c)))))) _
    rw [hw.expr]
    rfl
  | some id =>
    show after (M.eval (.cls (some (result (w.ident id))) (result (editClass w c)))) _ =
      after (M.eval (result (w.expr (.cls (some (result (w.ident id)))
        (result (editClass w c)))))) _
    rw [hw.expr]
    rfl

theorem runVarDecl_edited (d : VarDecl) :
    runVarDecl M (result (editVarDecl w d)) = runVarDecl (M.edited w) d := by
  obtain ⟨kind, ds⟩ := d
  show runVarDecl M (result (w.varDecl (.mk kind (result (editDeclarators w ds))))) = _
  rw [hw.varDecl]
  exact runDeclarators_edited kind ds

theorem runDecl_edited (d : Decl) : runDecl M (result (editDecl w d)) = runDecl (M.edited w) d := by
  cases d with
  | func => rfl
  | cls name c => exact hw.runClass_edited (some name) c
  | var d => exact hw.runVarDecl_edited d
  | iface => rfl
  | typeAlias => rfl
  | enum _ _ ms => exact runEnumMembers_edited ms
  | ambient d => exact runDecl_edited d

theorem runHead_edited (head : ForHead) :
    runHead M (result (editHead w head)) = runHead (M.edited w) head := by
  cases head with
  | var d => exact hw.runVarDecl_edited d
  | absent => rfl
  | pat p => rfl
  | expr e => rfl

theorem editHead_var (kind : VarKind) (ds : List Declarator) :
    result (editHead w (.var (.mk kind ds))) =
      .var (.mk kind (result (editDeclarators w ds))) :=
  congrArg ForHead.var (hw.varDecl _)

theorem startHead_edited (head : ForHead) :
    startHead M (result (editHead w head)) = startHead (M.edited w) head := by
  cases head with
  | var d =>
    obtain ⟨kind, ds⟩ := d
    rw [hw.editHead_var]
    exact runDeclarators_edited .var ds
  | absent => rfl
  | pat p => rfl
  | expr e => rfl

theorem bindHead_edited (v : V) (head : ForHead) :
    bindHead M v (result (editHead w head)) = bindHead (M.edited w) v head := by
  match head with
  | .var (.mk kind ds) =>
    rw [hw.editHead_var]
    match ds with
    | [] => rfl
    | .mk _ none _ :: _ => rfl
    | .mk _ (some _) _ :: _ => rfl
  | .absent => rfl
  | .pat _ => rfl
  | .expr _ => rfl

theorem elements_edited (head : ForHead) (obj : Expr)
    {d d' : Behaviour ω V} (hd : d = d') :
    Behaviour.andThen (startHead M (result (editHead w head)))
      (after (M.eval (result (editExpr w obj))) fun v =>
        Looping (elementTurn M labels (result (editHead w head)) d v)) =
    Behaviour.andThen (startHead (M.edited w) head) (after ((M.edited w).eval obj) fun v =>
      Looping (elementTurn (M.edited w) labels head d' v)) := by
  unfold elementTurn
  simp only [hw.startHead_edited, hw.bindHead_edited, hd]
  rfl

theorem run_single {s : Stmt} (h : ∀ t ∈ s :: s.inner, P t) (hparts : (∀ t ∈ s.inner, P t) →
      run M labels (result (editStmtParts w s)) = run (M.edited w) labels s) :
    run M labels (result (w.single (result (editStmtParts w s)))) = run (M.edited w) labels s := by
  obtain ⟨hs, hinner⟩ := List.forall_mem_cons.1 h
  exact (hw.single s labels hs).trans (hparts hinner)

end

mutual

theorem run_edited (hw : w.KeepsRuns M P) : ∀ (s : Stmt) (labels : List String),
    (∀ t ∈ s.inner, P t) →
      run M labels (result (editStmtParts w s)) = run (M.edited w) labels s
  | .expr _, _, _ | .empty, _, _ | .debugger, _, _ | .return none, _, _ | .return (some _), _, _
  | .throw _, _, _ | .break none, _, _ | .continue none, _, _ | .importDecl .., _, _
  | .exportNamed _ _ none _, _, _ | .exportNamed _ _ (some _) _, _, _ | .exportAll .., _, _
  | .exportDefaultExpr _, _, _ | .exportDefaultFunc .., _, _
  | .exportDefaultInterface _, _, _ => rfl
  | .break (some l), _, _ => congrArg (fun n => ends (.break (some n))) (hw.label l)
  | .continue (some l), _, _ => congrArg (fun n => ends (.continue (some n))) (hw.label l)
  | .block body, labels, h => hw.runList_edited body labels h
  | .with obj body, labels, h => by
    have hb := hw.run_single h (hw.run_edited body labels)
    exact congrArg (fun d => after (M.eval (result (editExpr w obj))) fun _ => d) hb
  | .labelled l body, labels, h => by
    have hb := (hw.labelled _ (l.name :: labels)).trans (hw.run_edited body (l.name :: labels) h)
    show absorbing (· = .break (some (result (w.label l)).name))
      (run M ((result (w.label l)).name :: labels) _) = _
    rw [hw.label]
    exact congrArg (absorbing _) hb
  | .ite test yes none, labels, h => by
    have hy := hw.run_single h (hw.run_edited yes labels)
    exact congrArg (fun d => after (M.eval (result (editExpr w test))) fun v =>
      if M.truthy v then d else ends .normal) hy
  | .ite test yes (some no), labels, h => by
    replace h : ∀ t ∈ (yes :: yes.inner) ++ no :: no.inner, P t := h
    obtain ⟨hyes, hno⟩ := List.forall_mem_append.1 h
    have hy := hw.run_single hyes (hw.run_edited yes labels)
    have hn := hw.run_single hno (hw.run_edited no labels)
    exact congrArg₂ (fun d e => after (M.eval (result (editExpr w test))) fun v =>
      if M.truthy v then d else e) hy hn
  | .switch disc cases, labels, h => by
    show after (M.eval (result (editExpr w disc))) (fun v => absorbing _ (runChosen M labels v
      (runDefault M labels (result (editCases w cases))) (result (editCases w cases)))) = _
    rw [hw.runDefault_edited cases labels h]
    exact congrArg (after (M.eval (result (editExpr w disc))))
      (funext fun v => congrArg (absorbing _) (hw.runChosen_edited cases labels h v _))
  | .try body none none, labels, h => hw.runList_edited body labels h
  | .try body (some c) none, labels, h => by
    obtain ⟨hbody, hrest⟩ := List.forall_mem_append.1 h
    exact congrArg₂ handling (hw.runList_edited body labels hbody)
      (hw.runCatch_edited c labels hrest)
  | .try body none (some f), labels, h => by
    obtain ⟨hbody, hrest⟩ := List.forall_mem_append.1 h
    exact congrArg₂ finalizing (hw.runList_edited body labels hbody)
      (hw.runList_edited f labels hrest)
  | .try body (some c) (some f), labels, h => by
    obtain ⟨h, hfin⟩ := List.forall_mem_append.1 h
    obtain ⟨hbody, hcatch⟩ := List.forall_mem_append.1 h
    have hb := congrArg₂ handling (hw.runList_edited body labels hbody)
      (hw.runCatch_edited c labels hcatch)
    exact congrArg₂ finalizing hb (hw.runList_edited f labels hfin)
  | .while test body, labels, h => by
    have hb := hw.run_single h (hw.run_edited body [])
    exact congrArg (fun d => Looping (Turn.after (M.eval (result (editExpr w test))) fun v =>
      if M.truthy v then Turn.body labels d Turn.again else Turn.leave)) hb
  | .doWhile body test, labels, h => by
    have hb := hw.run_single h (hw.run_edited body [])
    exact congrArg (fun d => Looping (Turn.body labels d
      (Turn.after (M.eval (result (editExpr w test))) fun v =>
        if M.truthy v then Turn.again else Turn.leave))) hb
  | .for init test step body, labels, h => by
    have hb := hw.run_single h (hw.run_edited body [])
    cases test <;> cases step <;> exact congrArg₂ (fun d e => Behaviour.andThen d
      (Looping (forTest _ _ (Turn.body labels e (forStep _ _))))) (hw.runHead_edited init) hb
  | .forIn head obj body, _, h | .forOf _ head obj body, _, h =>
    hw.elements_edited head obj (hw.run_single h (hw.run_edited body []))
  | .decl d, _, _ | .exportDecl d, _, _ => hw.runDecl_edited d
  | .exportDefaultClass name c, _, _ => hw.runClass_edited name c

theorem runList_edited (hw : w.KeepsRuns M P) : ∀ (ss : List Stmt) (labels : List String),
    (∀ t ∈ stmtsInner ss, P t) →
      runList M labels (result (editList w ss)) = runList (M.edited w) labels ss
  | [], labels, _ => hw.list [] labels (by simp)
  | s :: ss, labels, h => by
    obtain ⟨hs, hss⟩ := List.forall_mem_append.1 (List.forall_mem_cons.1 h).2
    rw [hw.list _ labels fun s hs => h s (mem_stmtsInner hs)]
    exact congrArg₂ Behaviour.andThen (hw.run_edited s labels hs) (hw.runStmts_edited ss labels hss)

theorem runStmts_edited (hw : w.KeepsRuns M P) : ∀ (ss : List Stmt) (labels : List String),
    (∀ t ∈ stmtsInner ss, P t) →
      runList M labels (result (editStmts w ss)) = runList (M.edited w) labels ss
  | [], _, _ => rfl
  | s :: ss, labels, h => by
    obtain ⟨hs, hss⟩ := List.forall_mem_append.1 (List.forall_mem_cons.1 h).2
    exact congrArg₂ Behaviour.andThen (hw.run_edited s labels hs) (hw.runStmts_edited ss labels hss)

theorem runCatch_edited (hw : w.KeepsRuns M P) : ∀ (c : Catch) (labels : List String),
    (∀ t ∈ c.inner, P t) →
      runCatch M labels (result (editCatch w c)) = runCatch (M.edited w) labels c
  | .mk none body, labels, h => congrArg (fun d _ => d) (hw.runList_edited body labels h)
  | .mk (some p) body, labels, h =>
    congrArg (fun d v => after (M.bind (some .let) (result (editPat w p)) v) fun _ => d)
      (hw.runList_edited body labels h)

theorem runClauses_edited (hw : w.KeepsRuns M P) : ∀ (cs : List Case) (labels : List String),
    (∀ t ∈ casesInner cs, P t) →
      runClauses M labels (result (editCases w cs)) = runClauses (M.edited w) labels cs
  | [], _, _ => rfl
  | .mk _ body :: rest, labels, h => by
    obtain ⟨hbody, hrest⟩ := List.forall_mem_append.1 h
    exact congrArg₂ Behaviour.andThen (hw.runList_edited body labels hbody)
      (hw.runClauses_edited rest labels hrest)

theorem runDefault_edited (hw : w.KeepsRuns M P) : ∀ (cs : List Case) (labels : List String),
    (∀ t ∈ casesInner cs, P t) →
      runDefault M labels (result (editCases w cs)) = runDefault (M.edited w) labels cs
  | [], _, _ => rfl
  | .mk none body :: rest, labels, h => by
    obtain ⟨hbody, hrest⟩ := List.forall_mem_append.1 h
    exact congrArg₂ Behaviour.andThen (hw.runList_edited body labels hbody)
      (hw.runClauses_edited rest labels hrest)
  | .mk (some _) _ :: rest, labels, h => by
    obtain ⟨hbody, hrest⟩ := List.forall_mem_append.1 h
    exact hw.runDefault_edited rest labels hrest

theorem runChosen_edited (hw : w.KeepsRuns M P) : ∀ (cs : List Case) (labels : List String),
    (∀ t ∈ casesInner cs, P t) → ∀ (v : V) (d : Behaviour ω V),
      runChosen M labels v d (result (editCases w cs)) = runChosen (M.edited w) labels v d cs
  | [], _, _, _, _ => rfl
  | .mk none _ :: rest, labels, h, v, d => by
    obtain ⟨hbody, hrest⟩ := List.forall_mem_append.1 h
    exact hw.runChosen_edited rest labels hrest v d
  | .mk (some e) body :: rest, labels, h, v, d => by
    obtain ⟨hbody, hrest⟩ := List.forall_mem_append.1 h
    exact congrArg₂ (fun x y => after (M.eval (result (editExpr w e))) fun t =>
        if M.same v t then x else y)
      (congrArg₂ Behaviour.andThen (hw.runList_edited body labels hbody)
        (hw.runClauses_edited rest labels hrest))
      (hw.runChosen_edited rest labels hrest v d)

end

theorem runBody_edited (hw : w.KeepsRuns M P) (b : Body)
    (h : ∀ stmts, b = .block stmts → ∀ t ∈ stmtsInner stmts, P t) :
    runBody M (result (editBody w b)) = runBody (M.edited w) b := by
  cases b with
  | absent => rfl
  | expr e => rfl
  | block stmts => exact hw.runList_edited stmts [] (h stmts rfl)

end Edits.KeepsRuns

end Untangle
