import Untangle.Proofs.EditedExecution
import Untangle.Proofs.Jumps

/-!
# Removing dead code keeps what runs

An expression whose truth is known does nothing when it is evaluated. Everything else is an event,
and what comes of it is up to the world: a value or something thrown. A program is then known by
which events happen for which outcomes, and by how its run ends.

* `run_reduced`, `runList_cleanList` — the two steps of the pass, on a statement and on a list.
* `runList_pruned`, `runBody_pruned` — the pass on the code is the pass on each expression that the
  code evaluates: nothing else about the run changes.

The pass also works inside the functions that an expression holds, so the events after it are the
events before it with the pass applied to each.
-/

namespace Untangle

open Behaviour

variable {ω V : Type}

namespace Pass

variable {M : Machine ω V} {labels : List String}

/-! ### One statement -/

def reduced (s : Stmt) : Stmt := (foldBranch? (dropEmptyElse s)).getD (dropEmptyElse s)

theorem runDeclarators_bare (ids : List Ident) :
    runDeclarators M .var (ids.map fun id => .mk (.name (.ofIdent id)) none false) =
      ends .normal := by
  induction ids with
  | nil => rfl
  | cons id ids ih => simpa [runDeclarators] using ih

/-- The declaration that takes the place of dropped code does nothing. -/
theorem run_hoistedDecl {s d : Stmt} (h : hoistedDecl? s = some d) :
    run M labels d = ends .normal := by
  unfold hoistedDecl? at h
  split at h
  · cases h
  · cases h
    exact runDeclarators_bare _

theorem run_withHoisted {decl : Option Stmt} (h : ∀ d, decl = some d → run M labels d = ends .normal)
    (s : Stmt) : run M labels (withHoisted decl s) = run M labels s := by
  cases decl with
  | none => rfl
  | some d =>
    have hd := h d rfl
    unfold withHoisted
    dsimp only
    split
    · simp [run, hd]
    · split <;> simp [run, hd]
    · simp [run, hd]

theorem run_headStmt (head : ForHead) : run M labels (headStmt head) = runHead M head := by
  cases head <;> rfl

theorem run_dropEmptyElse (s : Stmt) : run M labels (dropEmptyElse s) = run M labels s := by
  unfold dropEmptyElse
  split
  · simp [run]
  · rfl

/-- A statement whose test is known runs like what it is reduced to. -/
theorem run_foldBranch (hM : M.KnowsTruth) {s s' : Stmt} (h : foldBranch? s = some s') :
    run M labels s' = run M labels s := by
  unfold foldBranch? at h
  split at h
  · rename_i test yes no
    obtain ⟨t, ht, rfl⟩ := Option.map_eq_some_iff.1 h
    obtain ⟨v, rfl, hv⟩ := hM test t ht
    cases no with
    | none =>
      cases hv' : M.truthy v <;> simp only [hv', ↓reduceIte, Bool.false_eq_true, Option.bind_none,
        Option.getD_none, run, after_silent hv]
      · exact run_withHoisted (fun d hd => run_hoistedDecl hd) _
      · exact run_withHoisted (fun d hd => by cases hd) _
    | some no =>
      cases hv' : M.truthy v <;> simp only [hv', ↓reduceIte, Bool.false_eq_true, Option.bind_some,
        Option.getD_some, run, after_silent hv]
      · exact run_withHoisted (fun d hd => run_hoistedDecl hd) _
      · exact run_withHoisted (fun d hd => run_hoistedDecl hd) _
  · rename_i test body
    split at h
    · rename_i ht
      cases h
      obtain ⟨v, hf, hv⟩ := hM test false (by simpa using ht)
      rw [run_withHoisted fun d hd => run_hoistedDecl hd]
      simp [run, turnAfter_silent hv, hf]
    · cases h
  · rename_i init test step body
    split at h
    · rename_i ht
      cases h
      obtain ⟨v, hf, hv⟩ := hM test false (by simpa using ht)
      rw [run_withHoisted fun d hd => run_hoistedDecl hd, run_headStmt]
      simp [run, forTest, turnAfter_silent hv, hf]
    · cases h
  · cases h

theorem run_reduced (hM : M.KnowsTruth) (s : Stmt) : run M labels (reduced s) = run M labels s := by
  unfold reduced
  cases h : foldBranch? (dropEmptyElse s) with
  | none => exact run_dropEmptyElse s
  | some s' => exact (run_foldBranch hM h).trans (run_dropEmptyElse s)

theorem runList_map_reduced (hM : M.KnowsTruth) (ss : List Stmt) :
    runList M labels (ss.map reduced) = runList M labels ss := by
  induction ss with
  | nil => rfl
  | cons s ss ih => simp [run_reduced hM, ih]

/-! ### Statement lists -/

theorem run_inert (hM : M.KnowsTruth) {s : Stmt} (h : isInert s = true) :
    run M labels s = ends .normal := by
  have hsilent : ∀ {e : Expr} {t : Bool}, truthiness? e = some t →
      run M labels (.expr e) = ends .normal := by
    intro e t ht
    obtain ⟨v, -, hv⟩ := hM e t ht
    exact after_silent hv _
  match s, h with
  | .expr (.lit (.num n)), _ => exact hsilent (t := (Value.number n.value).toBoolean) rfl
  | .expr (.lit (.bool b)), _ => exact hsilent (t := b) rfl
  | .expr (.lit .null), _ => exact hsilent (t := false) rfl
  | .expr (.unary .void (.lit (.num n))), _ => exact hsilent (t := false) rfl

/-- Dropping what is dead in a list keeps its run. What is dropped after a jump does not matter at
all, so nothing has to be known of the list from there on. -/
theorem runList_cleanList (hM : M.KnowsTruth) (ss : List Stmt) :
    runList M labels (cleanList true ss).1 = runList M labels ss := by
  induction ss with
  | nil => rfl
  | cons s rest ih =>
    unfold cleanList
    split
    · simp [ih]
    · rw [if_neg (by simp)]
      split
      · simpa [run] using ih
      · rename_i body _
        split
        · -- The block joins the list; the rest is reached unless the block holds a jump.
          simp only [runList_append, runList_cons, run]
          cases hj : body.any isJump with
          | false => rw [Bool.not_false, ih]
          | true =>
            rw [andThen_of_abrupt (runList_jump_abrupt hj),
              andThen_of_abrupt (runList_jump_abrupt hj)]
        · simp [ih]
      · split
        · rename_i hi
          simp [run_inert hM hi, ih]
        · simp only [runList_cons]
          cases hj : isJump s with
          | false => rw [Bool.not_false, ih]
          | true =>
            rw [andThen_of_abrupt (run_jump_abrupt hj), andThen_of_abrupt (run_jump_abrupt hj)]

/-! ### Cleaning a list -/

/-- The statements of a list that are dropped because they are never reached. -/
def unreached : Bool → List Stmt → List Stmt
  | _, [] => []
  | reachable, s :: rest =>
    if s.isModuleDecl then unreached reachable rest
    else if !reachable then
      if isFuncDecl s then unreached reachable rest else s :: unreached reachable rest
    else match s with
      | .empty => unreached reachable rest
      | .block body =>
        if isFlattenable body then unreached (!body.any isJump) rest else unreached true rest
      | s => if isInert s then unreached reachable rest else unreached (!isJump s) rest

/-- The blocks of a list whose statements join it. -/
def opened : Bool → List Stmt → List (List Stmt)
  | _, [] => []
  | reachable, s :: rest =>
    if s.isModuleDecl then opened reachable rest
    else if !reachable then opened reachable rest
    else match s with
      | .empty => opened reachable rest
      | .block body =>
        if isFlattenable body then body :: opened (!body.any isJump) rest else opened true rest
      | s => if isInert s then opened reachable rest else opened (!isJump s) rest

theorem cleanList_relates {R : List Stmt → List Stmt → Prop} (nil : R [] [])
    (append : ∀ {ss ss' ts ts'}, R ss ss' → R ts ts' → R (ss ++ ts) (ss' ++ ts'))
    (keep : ∀ s, R [s] [s]) (empty : R [.empty] []) (inert : ∀ s, isInert s = true → R [s] [])
    (reachable : Bool) (ss : List Stmt) (block : ∀ body ∈ opened reachable ss, R [.block body] body)
    (drop : ∀ s ∈ unreached reachable ss, R [s] (hoistedDecl? s).toList) :
    R ss (cleanList reachable ss).1 := by
  fun_induction cleanList reachable ss with
  | case1 => exact nil
  | case2 reachable s rest hmod rest' n hrest ih =>
    unfold opened at block
    unfold unreached at drop
    rw [if_pos hmod] at block drop
    rw [hrest] at ih
    exact append (keep s) (ih block drop)
  | case3 reachable s rest hmod hr rest' n hrest ih =>
    unfold opened at block
    unfold unreached at drop
    rw [if_neg hmod, if_pos hr] at block drop
    rw [hrest] at ih
    unfold remains
    split at drop
    · rename_i hfunc
      rw [if_pos hfunc]
      exact append (keep s) (ih block drop)
    · rename_i hfunc
      rw [if_neg hfunc]
      exact append (drop s List.mem_cons_self)
        (ih block fun d hd => drop d (List.mem_cons_of_mem _ hd))
  | case4 reachable rest hr hmod ih =>
    simp only [opened, hmod, hr] at block
    simp only [unreached, hmod, hr] at drop
    exact append empty (ih block drop)
  | case5 reachable rest hr body hflat rest' n hrest hmod ih =>
    simp only [opened, hmod, hr, hflat, if_true] at block
    simp only [unreached, hmod, hr, hflat, if_true] at drop
    rw [hrest] at ih
    exact append (block body List.mem_cons_self)
      (ih (fun b hb => block b (List.mem_cons_of_mem _ hb)) drop)
  | case6 reachable rest hr body hflat rest' n hrest hmod ih =>
    simp only [opened, hmod, hr, hflat] at block
    simp only [unreached, hmod, hr, hflat] at drop
    rw [hrest] at ih
    exact append (keep _) (ih block drop)
  | case7 reachable rest hr s hempty hblock hinert rest' n hrest hmod ih =>
    simp only [opened, hmod, hr, hinert, if_true] at block
    simp only [unreached, hmod, hr, hinert, if_true] at drop
    rw [hrest] at ih
    exact append (inert s hinert) (ih block drop)
  | case8 reachable rest hr s hempty hblock hinert rest' n hrest hmod ih =>
    simp only [opened, hmod, hr, hinert] at block
    simp only [unreached, hmod, hr, hinert] at drop
    rw [hrest] at ih
    exact append (keep s) (ih block drop)

/-! ### The pass without its count -/

/-- The pass as edits, without a count. -/
def pruning : Edits Unit where
  single := fun s => pure (reduced s)
  list := fun ss => pure (cleanList true (ss.map reduced)).1

theorem foldStmt_agree (s : Stmt) :
    Agree (fun _ _ => True) (foldStmt s) (pure (reduced s) : StateM Unit Stmt) := by
  intro t u _
  refine ⟨?_, trivial⟩
  show _ = reduced s
  unfold foldStmt reduced
  dsimp only
  cases foldBranch? (dropEmptyElse s) <;> rfl

theorem foldStmts_agree (ss : List Stmt) :
    Agree (fun _ _ => True) (foldStmts ss) (pure (ss.map reduced) : StateM Unit (List Stmt)) := by
  induction ss with
  | nil => exact .pure _
  | cons s ss ih => exact (foldStmt_agree s).bind fun _ => ih.bind fun _ => .pure _

theorem deadCodeEdits_agrees : Edits.Agrees (fun _ _ => True) deadCodeEdits pruning where
  single s := (foldStmt_agree s).to
  labelled s := (foldStmt_agree s).to
  list ss := Agree.to fun t u _ => by
    refine ⟨?_, trivial⟩
    show (cleanList true ((foldStmts ss).run t).1).1 = (cleanList true (ss.map reduced)).1
    rw [(foldStmts_agree ss t u trivial).1]
    rfl

def prunedExpr (e : Expr) : Expr := result (editExpr pruning e)

def prunedPat (p : Pat) : Pat := result (editPat pruning p)

def prunedList (ss : List Stmt) : List Stmt := result (editList pruning ss)

/-! ### The pass on code is the pass on its expressions -/

/-- A machine that is given what the pass makes of expressions and patterns. -/
abbrev pruned (M : Machine ω V) : Machine ω V := M.through prunedExpr prunedPat

theorem pruning_keepsRuns (hM : M.KnowsTruth) : pruning.KeepsRuns M fun _ => True where
  label _ := rfl
  expr _ := rfl
  varDecl _ := rfl
  single _ _ _ := run_reduced hM _
  labelled _ _ := run_reduced hM _
  list ss labels _ :=
    calc runList M labels (prunedList ss)
      _ = runList M labels ((result (editStmts pruning ss)).map reduced) := runList_cleanList hM _
      _ = runList M labels (result (editStmts pruning ss)) := runList_map_reduced hM _

theorem runList_pruned (hM : M.KnowsTruth) (ss : List Stmt) (labels : List String) :
    runList M labels (prunedList ss) = runList (pruned M) labels ss :=
  (pruning_keepsRuns hM).runList_edited ss labels fun _ _ => trivial

theorem runBody_pruned (hM : M.KnowsTruth) (b : Body) :
    runBody M (result (editBody pruning b)) = runBody (pruned M) b :=
  (pruning_keepsRuns hM).runBody_edited b fun _ _ _ _ => trivial

/-! ### What is known of an expression stays known -/

theorem evaluateAt?_prunedExpr (e : Expr) (depth : Nat) :
    evaluateAt? depth (prunedExpr e) = evaluateAt? depth e := by
  cases e with
  | paren e => exact evaluateAt?_prunedExpr e depth
  | unary op arg =>
    show evaluateAt? depth (.unary op (prunedExpr arg)) = _
    simp only [evaluateAt?, evaluateAt?_prunedExpr arg (depth + 1)]
  | binary op left right =>
    show evaluateAt? depth (.binary op (prunedExpr left) (prunedExpr right)) = _
    simp only [evaluateAt?, evaluateAt?_prunedExpr left (depth + 1),
      evaluateAt?_prunedExpr right (depth + 1)]
  | cond test yes no =>
    show evaluateAt? depth (.cond (prunedExpr test) (prunedExpr yes) (prunedExpr no)) = _
    simp only [evaluateAt?, evaluateAt?_prunedExpr test (depth + 1),
      evaluateAt?_prunedExpr yes (depth + 1), evaluateAt?_prunedExpr no (depth + 1)]
  | array elems => cases elems <;> rfl
  | template quasis exprs => cases quasis <;> cases exprs <;> rfl
  | lit l => cases l <;> rfl
  | _ => rfl

theorem unparen_prunedExpr (e : Expr) : (prunedExpr e).unparen = prunedExpr e.unparen := by
  cases e with
  | paren e => exact unparen_prunedExpr e
  | _ => rfl

theorem evaluate?_prunedExpr (e : Expr) : evaluate? (prunedExpr e) = evaluate? e :=
  evaluateAt?_prunedExpr e 0

theorem truthiness?_prunedExpr (e : Expr) : truthiness? (prunedExpr e) = truthiness? e := by
  unfold truthiness?
  rw [unparen_prunedExpr]
  generalize e.unparen = u
  have hu := congrArg (Option.map Value.toBoolean) (evaluate?_prunedExpr u)
  cases u with
  | func name f => cases name <;> rfl
  | arrow f => rfl
  | cls name c => cases name <;> exact hu
  | _ => exact hu

end Pass

/-! ### Events -/

/-- A value: one that was known without running anything, where functions are all alike, or any
other. -/
inductive Seen (U : Type)
  | known (v : Option Value)
  | other (u : U)

/-- How values that are not known count. -/
structure World (U : Type) where
  counts : U → Bool
  same : Seen U → Seen U → Bool

/-- What comes of an event. -/
inductive Outcome (U : Type)
  | value (v : Seen U)
  | throw (v : Seen U)

/-- A run at some point: the outcomes that are still to come, and the events so far. -/
structure Trace (U : Type) where
  outcomes : List (Outcome U)
  events : List Event

variable {U α : Type}

def World.truthy (W : World U) : Seen U → Bool
  | .known v => v.elim true Value.toBoolean
  | .other u => W.counts u

/-- What the next outcome makes of an event; without one the run is watched no further. -/
def Trace.answer (f : Seen U → α) (a : Trace U) : Answer (Seen U) α :=
  match a.outcomes with
  | [] => .stopped
  | .value v :: _ => .value (f v)
  | .throw v :: _ => .throw v

/-- An event happens, with the next outcome. -/
def Trace.happens (x : Event) (f : Seen U → α) (a : Trace U) (r : Answer (Seen U) α)
    (b : Trace U) : Prop :=
  r = a.answer f ∧ b = { outcomes := a.outcomes.tail, events := a.events ++ [x] }

/-- Expressions of known truth are silent, and so is giving a value to a plain name. Anything else is
an event. -/
def World.machine (W : World U) : Machine (Trace U) (Seen U) where
  eval e a r b :=
    match truthiness? e with
    | some _ => r = .value (.known (evaluate? e.unparen)) ∧ b = a
    | none => a.happens (.expr e) id r b
  bind _ p _ a r b :=
    if p.binding?.isSome then r = .value () ∧ b = a else a.happens (.bind p) (fun _ => ()) r b
  next _ a r b := a.happens .next (fun v => if W.truthy v then some v else none) r b
  truthy := W.truthy
  same := W.same
  undefined := .known (some .undefined)

theorem World.machine_knowsTruth (W : World U) : W.machine.KnowsTruth := by
  intro e t ht
  refine ⟨.known (evaluate? e.unparen), ?_, fun a r b => by simp [World.machine, ht]⟩
  show (evaluate? e.unparen).elim true Value.toBoolean = t
  unfold truthiness? at ht
  split at ht
  · rename_i h
    cases ht
    rw [h]
    rfl
  · rename_i h
    cases ht
    rw [h]
    rfl
  · obtain ⟨v, hv, rfl⟩ := Option.map_eq_some_iff.1 ht
    rw [hv]
    rfl

/-- A run of some code for the given outcomes: the events that happen and how it ends. -/
def Executes (d : Behaviour (Trace U) (Seen U)) (outcomes : List (Outcome U)) (events : List Event)
    (c : Completion (Seen U)) : Prop :=
  ∃ rest, d ⟨outcomes, []⟩ c ⟨rest, events⟩

namespace Pass

def prunedEvent : Event → Event
  | .expr e => .expr (prunedExpr e)
  | .bind p => .bind (prunedPat p)
  | .next => .next

def prunedTrace (a : Trace U) : Trace U := { a with events := a.events.map prunedEvent }

/-- The same events, those of the second with the pass inside them, and the same end. -/
def SameRuns (d d' : Behaviour (Trace U) (Seen U)) : Prop :=
  ∀ outcomes events c, Executes d' outcomes events c ↔
    ∃ before, Executes d outcomes before c ∧ events = before.map prunedEvent

theorem happens_pruned {x : Event} {f : Seen U → α} {a : Trace U} {r : Answer (Seen U) α}
    {b' : Trace U} : (prunedTrace a).happens (prunedEvent x) f r b' ↔
      ∃ b, a.happens x f r b ∧ b' = prunedTrace b := by
  constructor
  · rintro ⟨rfl, rfl⟩
    exact ⟨_, ⟨rfl, rfl⟩, by simp [prunedTrace]⟩
  · rintro ⟨b, ⟨rfl, rfl⟩, rfl⟩
    exact ⟨rfl, by simp [prunedTrace]⟩

theorem binding?_prunedPat (p : Pat) : (prunedPat p).binding? = p.binding? := by
  cases p <;> rfl

/-! Each act of the machine that is given pruned code is the act of the machine itself, with the pass
inside the event. -/

section Acts

variable (W : World U) {a b' : Trace U}

theorem eval_pruned (e : Expr) {r : Answer (Seen U) (Seen U)} :
    (pruned W.machine).eval e (prunedTrace a) r b' ↔
      ∃ b, W.machine.eval e a r b ∧ b' = prunedTrace b := by
  simp only [pruned, Machine.through, World.machine, truthiness?_prunedExpr]
  cases truthiness? e with
  | none => exact happens_pruned (x := .expr e)
  | some t =>
    simp only [unparen_prunedExpr, evaluate?_prunedExpr]
    constructor
    · rintro ⟨rfl, rfl⟩
      exact ⟨a, ⟨rfl, rfl⟩, rfl⟩
    · rintro ⟨b, ⟨rfl, rfl⟩, rfl⟩
      exact ⟨rfl, rfl⟩

theorem bind_pruned (kind : Option VarKind) (p : Pat) (v : Seen U) {r : Answer (Seen U) Unit} :
    (pruned W.machine).bind kind p v (prunedTrace a) r b' ↔
      ∃ b, W.machine.bind kind p v a r b ∧ b' = prunedTrace b := by
  simp only [pruned, Machine.through, World.machine, binding?_prunedPat]
  split
  · constructor
    · rintro ⟨rfl, rfl⟩
      exact ⟨a, ⟨rfl, rfl⟩, rfl⟩
    · rintro ⟨b, ⟨rfl, rfl⟩, rfl⟩
      exact ⟨rfl, rfl⟩
  · exact happens_pruned (x := .bind p)

theorem machine_matching_pruned :
    W.machine.Matching (fun a a' => a' = prunedTrace a) (pruned W.machine) where
  next v := by
    constructor
    · rintro a a' r b rfl hb
      exact ⟨_, happens_pruned.2 ⟨b, hb, rfl⟩, rfl⟩
    · rintro a' a r b rfl hb
      exact happens_pruned.1 hb
  truthy := rfl
  same := rfl
  undefined := rfl

theorem act_matches_pruned (x : Act) :
    x.Matches (fun a a' => a' = prunedTrace a) W.machine (pruned W.machine) := by
  cases x with
  | eval e =>
    constructor
    · rintro a a' r b rfl hb
      exact ⟨_, (eval_pruned W e).2 ⟨b, hb, rfl⟩, rfl⟩
    · rintro a' a r b rfl hb
      exact (eval_pruned W e).1 hb
  | bind p =>
    constructor
    · rintro kind v a a' r b rfl hb
      exact ⟨_, (bind_pruned W kind p v).2 ⟨b, hb, rfl⟩, rfl⟩
    · rintro kind v a' a r b rfl hb
      exact (bind_pruned W kind p v).1 hb

end Acts

theorem SameRuns.of_matches {d d' : Behaviour (Trace U) (Seen U)}
    (h : Matches (fun a a' => a' = prunedTrace a) d d') : SameRuns d d' := by
  have hstart : ∀ outcomes, (⟨outcomes, []⟩ : Trace U) = prunedTrace ⟨outcomes, []⟩ := fun _ => rfl
  intro outcomes events c
  constructor
  · rintro ⟨rest, hr⟩
    obtain ⟨⟨rest', before⟩, hb, hbefore⟩ := h.2 (hstart outcomes) hr
    cases hbefore
    exact ⟨before, ⟨_, hb⟩, rfl⟩
  · rintro ⟨before, ⟨rest, hr⟩, rfl⟩
    obtain ⟨b', hb, rfl⟩ := h.1 (hstart outcomes) hr
    exact ⟨rest, hb⟩

theorem runList_sameRuns (W : World U) (labels : List String) (ss : List Stmt) :
    SameRuns (runList W.machine labels ss) (runList W.machine labels (prunedList ss)) := by
  rw [runList_pruned W.machine_knowsTruth]
  exact .of_matches (runList_matches (machine_matching_pruned W) fun x _ => act_matches_pruned W x)

theorem runBody_sameRuns (W : World U) (b : Body) :
    SameRuns (runBody W.machine b) (runBody W.machine (result (editBody pruning b))) := by
  rw [runBody_pruned W.machine_knowsTruth]
  exact .of_matches (runBody_matches (machine_matching_pruned W) fun x _ => act_matches_pruned W x)

/-- **Removing dead code keeps what runs.** For every choice of outcomes, a program, the body of a
function and a list of statements run through the same events to the same end before and after the
pass. -/
theorem removeDeadCode_preserves_execution (W : World U) :
    (∀ p : Program,
      SameRuns (runList W.machine [] p.body) (runList W.machine [] (removeDeadCode p).1.body)) ∧
    (∀ (b : Body) (t : DeadCodeTally),
      SameRuns (runBody W.machine b) (runBody W.machine ((editBody deadCodeEdits b).run t).1)) ∧
    (∀ (labels : List String) (ss : List Stmt) (t : DeadCodeTally),
      SameRuns (runList W.machine labels ss)
        (runList W.machine labels ((editList deadCodeEdits ss).run t).1)) := by
  have hlist : ∀ ss t, ((editList deadCodeEdits ss).run t).1 = prunedList ss := fun ss =>
    (editList_agree deadCodeEdits_agrees ss).result_eq
  refine ⟨fun p => ?_, fun b t => ?_, fun labels ss t => ?_⟩
  · have hp : (removeDeadCode p).1.body = prunedList p.body := hlist p.body {}
    rw [hp]
    exact runList_sameRuns W [] p.body
  · rw [(editBody_agree deadCodeEdits_agrees b).result_eq t]
    exact runBody_sameRuns W b
  · rw [hlist]
    exact runList_sameRuns W labels ss

end Pass

end Untangle
