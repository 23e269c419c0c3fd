import Untangle.Proofs.DeadCodeNames
import Untangle.Proofs.DispatcherExecution
import Untangle.Proofs.DispatcherSteps
import Untangle.Proofs.Renaming

/-!
# Names that dispatchers declare

A restored dispatcher gives up its order and its counter, and it gives up the cases that the order
does not visit with all that they declare. Every other name that is hoisted out of a body stays
hoisted out of it (`restoreControlFlow_sheds_hoisted`), also if some of its declarations go.
-/

namespace Untangle

/-! ### Lifted names -/

variable {own : String → Bool} {ss : List Stmt} {x : Ident} {cs : List Case}

theorem mem_liftedOf : x ∈ liftedOf own ss ↔ ∃ s ∈ ss, x ∈ s.lifted own := by
  induction ss with
  | nil => simp [liftedOf]
  | cons s ss ih => simp [liftedOf, ih]

theorem hoistedIn_append (ss ts : List Stmt) :
    hoistedIn (ss ++ ts) = hoistedIn ss ++ hoistedIn ts := liftedOf_append loosely ss ts

theorem mem_liftedOfCases : x ∈ liftedOfCases own cs ↔ ∃ c ∈ cs, x ∈ liftedOf own c.body := by
  induction cs with
  | nil => simp [liftedOfCases]
  | cons c cs ih =>
    obtain ⟨test, body⟩ := c
    simp [liftedOfCases, ih, Case.body]

/-- The same occurrence without a tag. -/
def Ident.untagged (id : Ident) : Ident := { id with scope := .unset }

def Body.untagged (b : Body) : Body := result (editBody untagEdits b)

theorem untagEdits_liftsAs :
    untagEdits.LiftsAs loosely Ident.untagged (fun _ => ([] : List Unit)) fun _ => Eq where
  refl _ := rfl
  trans := Eq.trans
  append h h' := h ▸ h' ▸ rfl
  ident _ := rfl
  owned _ := rfl
  varDecl _ := rfl
  single _ := rfl
  labelled _ := rfl
  list _ := rfl

theorem hoistedIn_untagged (ss : List Stmt) :
    hoistedIn (result (editList untagEdits ss)) = (hoistedIn ss).map Ident.untagged :=
  (untagEdits_liftsAs.edited ss).symm

theorem untagEdits_tracesBodies : untagEdits.TracesBodies fun b b' => b' = b.untagged where
  body _ := rfl
  arrow f := body_editFunc untagEdits f

/-- Resolving a program changes nothing but tags. -/
theorem resolved_untagged (p : Program) : p.resolved.untagged = p.untagged := by
  show edited untagEdits () (edited (tagEdits p.numbered.tags) () (edited numberEdits 0 p)) =
    edited untagEdits () p
  rw [edited_twice numberEdits_namesOnly (tagEdits_namesOnly _) (.inl numberEdits_keepsText),
    edited_twice (Edits.namesOnly_andThen _ _) untagEdits_namesOnly (.inr untagEdits_keepsText)]
  refine edited_congr (R := fun _ _ => True) (Edits.namesOnly_andThen _ _) untagEdits_namesOnly
    ?_ ?_ trivial p
  · exact fun id _ _ _ => ⟨rfl, trivial⟩
  · exact fun id _ _ _ => ⟨rfl, trivial⟩

namespace Pass

/-! ### Losses -/

/-- What a restored dispatcher takes along. -/
inductive Loss
  /-- The order or the counter. -/
  | internal (b : Binding)
  /-- A name that is declared in a case which the order does not visit. -/
  | skipped (id : Ident)
  deriving DecidableEq

/-- The names that are hoisted before are hoisted after as often, losses apart, and there are no
others. -/
structure Sheds (N : List Loss) (before after : List Ident) : Prop where
  kept : ∀ x, .internal x.binding ∈ N ∨ before.count x ≤ after.count x + N.count (.skipped x)
  known : ∀ x ∈ after, x ∈ before

namespace Sheds

variable {M N : List Loss} {a b c d : List Ident}

theorem refl (a : List Ident) : Sheds N a a := ⟨fun _ => .inr (Nat.le_add_right _ _), fun _ => id⟩

theorem trans (h : Sheds M a b) (h' : Sheds N b c) : Sheds (M ++ N) a c where
  kept x := by
    rw [List.mem_append, List.count_append]
    rcases h.kept x, h'.kept x with ⟨hM | hM, hN | hN⟩
    · exact .inl (.inl hM)
    · exact .inl (.inl hM)
    · exact .inl (.inr hN)
    · exact .inr (by omega)
  known x hx := h.known x (h'.known x hx)

theorem append (h : Sheds M a b) (h' : Sheds N c d) : Sheds (M ++ N) (a ++ c) (b ++ d) where
  kept x := by
    rw [List.mem_append, List.count_append, List.count_append, List.count_append]
    rcases h.kept x, h'.kept x with ⟨hM | hM, hN | hN⟩
    · exact .inl (.inl hM)
    · exact .inl (.inl hM)
    · exact .inl (.inr hN)
    · exact .inr (by omega)
  known x hx := List.mem_append.2 ((List.mem_append.1 hx).imp (h.known x) (h'.known x))

theorem of_perm (h : Sheds N a b) (hc : c.Perm a) (hd : d.Perm b) : Sheds N c d where
  kept x := by
    rw [hc.count_eq, hd.count_eq]
    exact h.kept x
  known x hx := hc.mem_iff.2 (h.known x (hd.mem_iff.1 hx))

end Sheds

/-- The keys of an order from where the counter starts. -/
def orderFrom (before : List Stmt) (d : Dispatcher) : List String :=
  match (initOf? (planDecls d.init before) d.order).bind orderKeys?,
    (initOf? (planDecls d.init before) d.counter).bind Expr.whole? with
  | some keys, some start => keys.drop start
  | _, _ => []

/-- The cases of a dispatcher that its order does not visit. -/
def skippedCases (before : List Stmt) (d : Dispatcher) (p : Plan) : List Case :=
  d.cases.filter fun c => !((orderFrom before d).take p.steps.length).any (c.key? == some ·)

/-- The order and the counter. -/
def Plan.internals (p : Plan) : List Loss := [.internal p.order, .internal p.counter]

/-- What is lost where a plan is carried out for a statement after others. -/
def Plan.losses (p : Plan) (before : List Stmt) (s : Stmt) : List Loss :=
  p.internals ++ match dispatcher? s with
    | some d => (liftedOfCases loosely (skippedCases before d p)).map .skipped
    | none => []

/-! ### One dispatcher -/

variable {before : List Stmt} {refs : List Binding} {s : Stmt} {N : List Loss}

theorem headStmts_var (p : Plan) (v : VarDecl) :
    p.headStmts (.var v) = ((p.pruneStmt? (.var v)).map Stmt.decl).toList := by
  rw [Plan.headStmts, Plan.pruneStmt?]
  split <;> rfl

theorem pruneTrailing_cons (p : Plan) (s : Stmt) (ss : List Stmt) :
    p.pruneTrailing (s :: ss) = s :: ss ∨ ∃ d, s = .decl d ∧
      p.pruneTrailing (s :: ss) = ((p.pruneStmt? d).map Stmt.decl).toList ++ p.pruneTrailing ss := by
  cases hvar : isVarStmt s with
  | false => exact .inl (by simp [Plan.pruneTrailing, hvar])
  | true =>
    cases s with
    | decl d => exact .inr ⟨d, rfl, by simp [Plan.pruneTrailing, hvar]⟩
    | _ => cases hvar

section Restoring

variable {p : Plan}

theorem internal_of_owns {d : Declarator} (hd : p.owns d = true) (hx : x ∈ d.bound) :
    .internal x.binding ∈ p.internals := by
  obtain ⟨b, hb, hdecl⟩ := (owns_iff p d).1 hd
  obtain ⟨target, init, definite⟩ := d
  cases target with
  | name t =>
    cases hdecl
    cases List.mem_singleton.1 hx
    rcases List.mem_cons.1 hb with hb | hb
    · simp [Plan.internals, hb]
    · simp [Plan.internals, List.mem_singleton.1 hb]
  | _ => cases hdecl

/-- The order and the counter need be named once only. -/
theorem Sheds.once {K : List Loss} {a b : List Ident}
    (h : Sheds (p.internals ++ (p.internals ++ K)) a b) : Sheds (p.internals ++ K) a b where
  kept x := by
    have hkept := h.kept x
    simp [Plan.internals] at hkept ⊢
    tauto
  known := h.known

theorem sheds_prune (v : VarDecl) : Sheds p.internals v.lifted (p.prune v).lifted := by
  obtain ⟨kind, ds⟩ := v
  rw [Plan.prune, VarDecl.lifted, VarDecl.lifted]
  split
  · constructor
    · intro x
      by_cases hx : .internal x.binding ∈ p.internals
      · exact .inl hx
      · right
        refine Nat.le_add_right_of_le (Nat.le_of_eq ?_)
        induction ds with
        | nil => rfl
        | cons d ds ih =>
          rw [List.flatMap_cons, List.count_append, ih]
          cases hown : p.owns d with
          | false => rw [List.filter_cons_of_pos (by simp [hown]), List.flatMap_cons, List.count_append]
          | true =>
            rw [List.filter_cons_of_neg (by simp [hown]),
              List.count_eq_zero.2 fun hd => hx (internal_of_owns hown hd), Nat.zero_add]
    · intro x hx
      obtain ⟨d, hd, hx⟩ := List.mem_flatMap.1 hx
      exact List.mem_flatMap.2 ⟨d, (List.mem_filter.1 hd).1, hx⟩
  · exact .refl _

theorem sheds_pruneStmt? : ∀ d : Decl, Sheds p.internals (d.lifted loosely)
    (hoistedIn ((p.pruneStmt? d).map Stmt.decl).toList)
  | .var v => by
    have hprune := sheds_prune (p := p) v
    rw [Plan.pruneStmt?]
    split
    · rename_i kind h
      rw [h] at hprune
      exact hprune.of_perm .rfl (by simp [hoistedIn, liftedOf, VarDecl.lifted])
    · exact hprune.of_perm .rfl (by simp [hoistedIn, liftedOf, Stmt.lifted, Decl.lifted])
  | .ambient d => by
    have hd := sheds_pruneStmt? d
    rw [Plan.pruneStmt?]
    cases hp : p.pruneStmt? d with
    | none =>
      rw [hp] at hd
      exact hd
    | some d' =>
      rw [hp] at hd
      exact hd
  | .func .. | .cls .. | .iface _ | .typeAlias .. | .enum .. =>
    (Sheds.refl _).of_perm .rfl (by simp [Plan.pruneStmt?, hoistedIn, liftedOf, Stmt.lifted])

theorem sheds_headStmts (head : ForHead) :
    Sheds p.internals head.lifted (hoistedIn (p.headStmts head)) := by
  cases head with
  | var v =>
    rw [headStmts_var]
    exact sheds_pruneStmt? (.var v)
  | absent | pat | expr => exact .refl []

/-- The declarations before the loop, which are given last first. -/
theorem sheds_pruneTrailing (ss : List Stmt) :
    Sheds p.internals (hoistedIn ss) (hoistedIn (p.pruneTrailing ss)) := by
  induction ss with
  | nil => exact .refl _
  | cons s ss ih =>
    rcases pruneTrailing_cons p s ss with h | ⟨d, rfl, h⟩
    · rw [h]
      exact .refl _
    · rw [h, hoistedIn_append]
      rw [← List.append_nil p.internals] at ih ⊢
      exact ((sheds_pruneStmt? d).append ih).once

theorem hoistedIn_reverse (ss : List Stmt) : (hoistedIn ss.reverse).Perm (hoistedIn ss) := by
  induction ss with
  | nil => exact .refl _
  | cons s ss ih =>
    rw [List.reverse_cons, hoistedIn_append]
    refine List.perm_append_comm.trans ?_
    rw [show s :: ss = [s] ++ ss from rfl, hoistedIn_append [s] ss]
    exact ih.append_left _

theorem sheds_before (before : List Stmt) :
    Sheds p.internals (hoistedIn before) (hoistedIn (p.pruneTrailing before.reverse).reverse) :=
  (sheds_pruneTrailing before.reverse).of_perm (hoistedIn_reverse before).symm (hoistedIn_reverse _)

theorem hoistedIn_bodyOf {body : List Stmt} {isLast : Bool} {exit : Exit}
    (h : exit? body isLast = some exit) : hoistedIn (bodyOf body exit) = hoistedIn body := by
  rcases exit_cases h with ⟨-, hbody⟩ | ⟨-, hbody, -⟩
  · have hjump : hoistedIn body = hoistedIn (bodyOf body exit) ++ hoistedIn [.continue none] := by
      rw [← hoistedIn_append, ← hbody]
    rw [hjump]
    exact (List.append_nil _).symm
  · rw [hbody]

theorem lifted_dispatcher {d : Dispatcher} (h : dispatcher? s = some d) :
    s.lifted loosely = d.init.lifted ++ liftedOfCases loosely d.cases := by
  obtain ⟨disc, -, hinit, ⟨test, -, rfl⟩ | ⟨test, -, rfl⟩⟩ := dispatcher_eq h
  · rw [hinit]
    simp [loopHead, ForHead.lifted, Stmt.lifted, liftedOf]
  · simp [Stmt.lifted, liftedOf]

/-- The names that the case for a key hoists. -/
def hoistedAt (table : Table String (List Stmt × Bool)) (key : String) : List Ident :=
  match table.find? key with
  | some (body, _) => hoistedIn body
  | none => []

/-- Each step hoists what the case for its key does. -/
theorem Walks.hoistedIn_steps {table : Table String (List Stmt × Bool)} {keys : List String}
    {steps : List Step} (h : Walks table keys steps) :
    hoistedIn (steps.flatMap fun s => bodyOf s.body s.exit) =
      (keys.take steps.length).flatMap (hoistedAt table) := by
  have hcase : ∀ {key body isLast exit}, table.find? key = some (body, isLast) →
      exit? body isLast = some exit → hoistedIn (bodyOf body exit) = hoistedAt table key := by
    intro key body isLast exit hfind hexit
    rw [hoistedIn_bodyOf hexit, hoistedAt, hfind]
  induction h with
  | done | unknown => rfl
  | last hfind hexit => simpa using hcase hfind hexit
  | next hfind hexit _ ih =>
    rw [List.flatMap_cons, hoistedIn_append, ih, hcase hfind hexit, List.length_cons,
      List.take_succ_cons, List.flatMap_cons]

theorem caseTable?_nodup {table : Table String (List Stmt × Bool)} (h : caseTable? cs = some table) :
    (cs.filterMap Case.key?).Nodup := by
  induction cs generalizing table with
  | nil => exact List.nodup_nil
  | cons c cs ih =>
    obtain ⟨key, rest, hkey, hrest, hnew, rfl⟩ := caseTable?_cons h
    rw [List.filterMap_cons_some hkey]
    refine List.nodup_cons.2 ⟨fun hmem => ?_, ih hrest⟩
    obtain ⟨c', hc', hkey'⟩ := List.mem_filterMap.1 hmem
    obtain ⟨key', isLast, hkey'', hfind⟩ := caseTable?_mem hrest hc'
    cases hkey'.symm.trans hkey''
    simp [Table.has, hfind] at hnew

/-- Some of the cases, told by their keys. -/
theorem liftedOfCases_eq {table : Table String (List Stmt × Bool)} {cs' : List Case}
    (h : caseTable? cs = some table) (hcs' : cs' ⊆ cs) :
    liftedOfCases loosely cs' = (cs'.filterMap Case.key?).flatMap (hoistedAt table) := by
  induction cs' with
  | nil => rfl
  | cons c cs' ih =>
    obtain ⟨hc, hrest⟩ := List.cons_subset.1 hcs'
    obtain ⟨key, isLast, hkey, hfind⟩ := caseTable?_mem h hc
    obtain ⟨test, body⟩ := c
    rw [List.filterMap_cons_some hkey, List.flatMap_cons, ← ih hrest, hoistedAt, hfind]
    rfl

theorem count_liftedOfCases (P : Case → Bool) (x : Ident) (cs : List Case) :
    (liftedOfCases own cs).count x = (liftedOfCases own (cs.filter P)).count x +
      (liftedOfCases own (cs.filter fun c => !P c)).count x := by
  induction cs with
  | nil => rfl
  | cons c cs ih =>
    obtain ⟨test, body⟩ := c
    cases hc : P (.mk test body) with
    | true => simp [hc, liftedOfCases, List.count_append, ih, Nat.add_assoc]
    | false => simp [hc, liftedOfCases, List.count_append, ih, Nat.add_left_comm]

/-- The cases in the order of their keys, without those that are not visited. As no key is there
twice, each case that is visited has a step of its own. -/
theorem sheds_steps {d : Dispatcher} (hplan : plan? refs before s = some p)
    (hd : dispatcher? s = some d) :
    Sheds ((liftedOfCases loosely (skippedCases before d p)).map .skipped)
      (liftedOfCases loosely d.cases)
      (hoistedIn (p.steps.flatMap fun s => bodyOf s.body s.exit)) := by
  obtain ⟨d', orderInit, counterInit, keys, start, table, hd', horder, hcounter, -, -, -, horderInit,
    hkeys, hcounterInit, hstart, htable, hsteps⟩ := plan_eq hplan
  cases hd.symm.trans hd'
  have hfrom : orderFrom before d = keys.drop start := by
    rw [horder] at horderInit
    rw [hcounter] at hcounterInit
    simp [orderFrom, horderInit, hcounterInit, hkeys, hstart]
  have hwalks := steps?_walks hsteps
  let visited (c : Case) : Bool := ((keys.drop start).take p.steps.length).any (c.key? == some ·)
  constructor
  · intro x
    right
    have hkept : (liftedOfCases loosely (d.cases.filter visited)).count x ≤
        (hoistedIn (p.steps.flatMap fun s => bodyOf s.body s.exit)).count x := by
      rw [liftedOfCases_eq htable List.filter_sublist.subset, hwalks.hoistedIn_steps]
      have hnodup : ((d.cases.filter visited).filterMap Case.key?).Nodup :=
        (caseTable?_nodup htable).sublist (List.filter_sublist.filterMap Case.key?)
      obtain ⟨l, hl, hsub⟩ := List.subperm_of_subset hnodup fun key hkey => by
        obtain ⟨c, hc, hckey⟩ := List.mem_filterMap.1 hkey
        obtain ⟨key', hkey', heq⟩ := List.any_eq_true.1 (List.mem_filter.1 hc).2
        rw [hckey] at heq
        exact Option.some.inj (beq_iff_eq.1 heq) ▸ hkey'
      rw [← (hl.flatMap_right (hoistedAt table)).count_eq]
      exact (hsub.flatMap (hoistedAt table)).count_le x
    have hskipped : skippedCases before d p = d.cases.filter fun c => !visited c := by
      rw [skippedCases, hfrom]
    calc (liftedOfCases loosely d.cases).count x
        = (liftedOfCases loosely (d.cases.filter visited)).count x +
            (liftedOfCases loosely (skippedCases before d p)).count x := by
          rw [hskipped]
          exact count_liftedOfCases visited x d.cases
      _ ≤ _ := Nat.add_le_add hkept List.count_le_count_map
  · intro x hx
    obtain ⟨t, ht, hx⟩ := mem_liftedOf.1 hx
    obtain ⟨step, hstep, ht⟩ := List.mem_flatMap.1 ht
    obtain ⟨k, hk⟩ := List.mem_iff_getElem?.1 hstep
    obtain ⟨key, isLast, -, hfind, hexit⟩ := hwalks.step hk
    obtain ⟨c, hc, -, hbody⟩ := caseTable?_find htable hfind
    have hx : x ∈ hoistedIn (bodyOf step.body step.exit) := mem_liftedOf.2 ⟨t, ht, hx⟩
    rw [hoistedIn_bodyOf hexit, ← hbody] at hx
    exact mem_liftedOfCases.2 ⟨c, hc, hx⟩

theorem hoistedIn_restore (p : Plan) (before : List Stmt) (head : ForHead) :
    hoistedIn (p.restore before head) = hoistedIn (p.pruneTrailing before.reverse).reverse ++
      (hoistedIn (p.headStmts head) ++
        hoistedIn (p.steps.flatMap fun s => bodyOf s.body s.exit)) := by
  rw [← hoistedIn_append (p.headStmts head), Plan.restore]
  -- a block around the statements makes no difference
  split
  · rw [hoistedIn_append]
    exact congrArg _ (liftedOf_singleton _ _)
  · exact hoistedIn_append _ _

/-- **One dispatcher.** What is hoisted out of the statements before a dispatcher and out of the
dispatcher is hoisted out of what takes their place, losses apart. -/
theorem sheds_restore (hplan : plan? refs before s = some p) :
    Sheds (p.losses before s) (hoistedIn (before ++ [s]))
      (hoistedIn (p.restore before (loopHead s))) := by
  obtain ⟨d, -, -, -, -, -, hd, -⟩ := plan_eq hplan
  obtain ⟨disc, -, hinit, -⟩ := dispatcher_eq hd
  rw [hoistedIn_restore, hoistedIn_append, hoistedIn, hoistedIn, liftedOf_singleton,
    lifted_dispatcher hd, ← hinit, Plan.losses, hd]
  exact ((sheds_before before).append
    ((sheds_headStmts d.init).append (sheds_steps hplan hd))).once

end Restoring

/-! ### Lists -/

/-- A statement list with its dispatchers restored, after the statements already done. -/
def restored (refs : List Binding) : List Stmt → List Stmt → List Stmt
  | done, [] => done
  | done, s :: rest =>
    match plan? refs done s with
    | some p => restored refs (p.restore done (loopHead s)) rest
    | none => restored refs (done ++ [s]) rest

/-- What is lost with the dispatchers of a statement list. -/
def listLosses (refs : List Binding) : List Stmt → List Stmt → List Loss
  | _, [] => []
  | done, s :: rest =>
    match plan? refs done s with
    | some p => p.losses done s ++ listLosses refs (p.restore done (loopHead s)) rest
    | none => listLosses refs (done ++ [s]) rest

theorem restoreList_run (refs : List Binding) (done ss : List Stmt) (n : Nat) :
    ((restoreList refs done ss).run n).1 = restored refs done ss := by
  induction ss generalizing done n with
  | nil => rfl
  | cons s ss ih =>
    rw [restoreList, restored]
    cases plan? refs done s with
    | none => exact ih _ _
    | some p => exact ih _ _

/-- All dispatchers of a list, one after the other. The induction is on the statements still to come,
with those already done before them. -/
theorem sheds_restored (refs : List Binding) (done ss : List Stmt) :
    Sheds (listLosses refs done ss) (hoistedIn (done ++ ss)) (hoistedIn (restored refs done ss)) := by
  induction ss generalizing done with
  | nil =>
    rw [List.append_nil]
    exact .refl _
  | cons s ss ih =>
    rw [List.append_cons]
    cases hplan : plan? refs done s with
    | none =>
      simp only [restored, listLosses, hplan]
      exact ih _
    | some p =>
      simp only [restored, listLosses, hplan]
      refine Sheds.trans ?_ (ih _)
      rw [hoistedIn_append, hoistedIn_append (p.restore done (loopHead s)), ← List.append_nil (p.losses _ _)]
      exact (sheds_restore hplan).append (.refl _)

/-! ### The pass as edits -/

/-- The pass as edits, without a count. -/
def restoring (refs : List Binding) : Edits Unit where
  list := fun ss => pure (restored refs [] ss)

/-- What is lost with the dispatchers of a body, in its blocks and loops too. Functions in it are
bodies of their own. -/
def lossesIn (refs : List Binding) (ss : List Stmt) : List Loss :=
  notesIn (restoring refs) (listLosses refs []) ss

section Record

variable {refs : List Binding}

theorem dispatcherEdits_agrees :
    Edits.Agrees (fun _ _ => True) (dispatcherEdits refs) (restoring refs) where
  list ss := Agree.to fun n _ _ => ⟨restoreList_run refs [] ss n, trivial⟩

theorem restoring_liftsAs (refs : List Binding) :
    (restoring refs).LiftsAs loosely id (listLosses refs []) Sheds where
  refl := .refl
  trans := .trans
  append := .append
  ident _ := rfl
  owned _ := rfl
  varDecl _ := .refl _
  single _ := .refl _
  labelled _ := .refl _
  list ss := sheds_restored refs [] ss

theorem sheds_edited (ss : List Stmt) :
    Sheds (lossesIn refs ss) (hoistedIn ss) (hoistedIn (result (editList (restoring refs) ss))) := by
  have h := (restoring_liftsAs refs).edited ss
  rwa [List.map_id] at h

end Record

/-! ### Bodies -/

theorem mem_bodiesOf_declarators {b : Body} {ds : List Declarator} :
    b ∈ bodiesOf (outlineDeclarators ds) ↔ ∃ d ∈ ds, b ∈ bodiesOf [outlineDeclarator d] := by
  rw [outlineDeclarators_eq_map, mem_bodiesOf_map]

theorem bodies_case {c : Case} (hc : c ∈ cs) :
    bodiesOf (outlineStmts c.body) ⊆ bodiesOf (outlineCases cs) := by
  induction cs with
  | nil => cases hc
  | cons c' cs ih =>
    rw [outlineCases, bodiesOf_append]
    rcases List.mem_cons.1 hc with rfl | hc
    · obtain ⟨test, body⟩ := c
      refine List.Subset.trans ?_ (List.subset_append_left _ _)
      cases test with
      | none => exact List.Subset.refl _
      | some e =>
        show _ ⊆ bodiesOf ([outlineExpr e] ++ outlineStmts body)
        rw [bodiesOf_append]
        exact List.subset_append_right _ _
    · exact List.Subset.trans (ih hc) (List.subset_append_right _ _)

theorem bodies_sublist {ts : List Stmt} (h : ss ⊆ ts) :
    bodiesOf (outlineStmts ss) ⊆ bodiesOf (outlineStmts ts) := by
  intro b hb
  obtain ⟨s, hs, hb⟩ := mem_bodiesOf_stmts.1 hb
  exact mem_bodiesOf_stmts.2 ⟨s, h hs, hb⟩

section Bodies

variable {p : Plan}

theorem bodies_prune (p : Plan) (v : VarDecl) :
    bodiesOf [outlineVarDecl (p.prune v)] ⊆ bodiesOf [outlineVarDecl v] := by
  cases v with
  | mk kind ds =>
    rw [Plan.prune, outlineVarDecl, outlineVarDecl, bodiesOf_node, bodiesOf_node]
    intro b hb
    obtain ⟨d, hd, hb⟩ := mem_bodiesOf_declarators.1 hb
    exact mem_bodiesOf_declarators.2 ⟨d, (List.mem_filter.1 hd).1, hb⟩

theorem bodies_pruneStmt? (p : Plan) : ∀ d : Decl,
    bodiesOf (outlineStmts ((p.pruneStmt? d).map Stmt.decl).toList) ⊆
      bodiesOf [outlineStmt (.decl d)]
  | .var v => by
    rw [Plan.pruneStmt?]
    split
    · exact List.nil_subset _
    · show bodiesOf [.node _ [outlineVarDecl (p.prune v)]] ⊆ bodiesOf [.node _ [outlineVarDecl v]]
      rw [bodiesOf_node, bodiesOf_node]
      exact bodies_prune p v
  | .ambient d => by
    have hd := bodies_pruneStmt? p d
    rw [Plan.pruneStmt?]
    cases hp : p.pruneStmt? d with
    | none => exact List.nil_subset _
    | some d' =>
      rw [hp] at hd
      exact hd
  | .func .. | .cls .. | .iface _ | .typeAlias .. | .enum .. => List.Subset.refl _

theorem bodies_headStmts (p : Plan) (head : ForHead) :
    bodiesOf (outlineStmts (p.headStmts head)) ⊆ bodiesOf (outlineHead head) := by
  cases head with
  | var v =>
    rw [headStmts_var]
    refine List.Subset.trans (bodies_pruneStmt? p (.var v)) ?_
    rw [outlineStmt, bodiesOf_node]
    exact List.Subset.refl _
  | expr e =>
    rw [Plan.headStmts, outlineStmts, outlineStmts, outlineStmt, bodiesOf_node]
    exact List.Subset.refl _
  | absent | pat => exact List.nil_subset _

theorem bodies_pruneTrailing (p : Plan) (ss : List Stmt) :
    bodiesOf (outlineStmts (p.pruneTrailing ss)) ⊆ bodiesOf (outlineStmts ss) := by
  induction ss with
  | nil => exact List.Subset.refl _
  | cons s ss ih =>
    rcases pruneTrailing_cons p s ss with h | ⟨d, rfl, h⟩
    · rw [h]
      exact List.Subset.refl _
    · rw [h]
      exact bodies_append_subset (bodies_pruneStmt? p d) ih

theorem bodies_before (p : Plan) (before : List Stmt) :
    bodiesOf (outlineStmts (p.pruneTrailing before.reverse).reverse) ⊆
      bodiesOf (outlineStmts before) := by
  refine List.Subset.trans (bodies_sublist (List.reverse_subset.2 (List.Subset.refl _))) ?_
  refine List.Subset.trans (bodies_pruneTrailing p before.reverse) ?_
  exact bodies_sublist (List.reverse_subset.2 (List.Subset.refl _))

theorem bodies_bodyOf (body : List Stmt) (exit : Exit) :
    bodiesOf (outlineStmts (bodyOf body exit)) ⊆ bodiesOf (outlineStmts body) := by
  cases exit with
  | next => exact bodies_sublist (List.dropLast_subset body)
  | leave | finish => exact List.Subset.refl _

theorem bodies_dispatcher {d : Dispatcher} (h : dispatcher? s = some d) :
    bodiesOf (outlineHead (loopHead s)) ⊆ bodiesOf [outlineStmt s] ∧
      bodiesOf (outlineCases d.cases) ⊆ bodiesOf [outlineStmt s] := by
  have hbody : ∀ disc, bodiesOf (outlineCases d.cases) ⊆
      bodiesOf [outlineStmt (.block [.switch disc d.cases, .break none])] := by
    intro disc
    rw [bodies_block, outlineStmts, bodiesOf_cons, outlineStmt, bodiesOf_node, bodiesOf_cons]
    exact fun b hb => List.mem_append_left _ (List.mem_append_right _ (List.mem_append_right _ hb))
  obtain ⟨disc, -, -, ⟨test, -, rfl⟩ | ⟨test, -, rfl⟩⟩ := dispatcher_eq h
  · refine ⟨List.nil_subset _, fun b hb => ?_⟩
    rw [outlineStmt, bodiesOf_node, bodiesOf_cons]
    exact List.mem_append_right _ (List.mem_append_right _ (hbody disc hb))
  · obtain ⟨hinit, hloop⟩ := bodies_for d.init test none
      (.block [.switch disc d.cases, .break none])
    exact ⟨hinit, List.Subset.trans (hbody disc) hloop⟩

/-- A restored dispatcher has no functions but those that were there. -/
theorem bodies_restore (hplan : plan? refs before s = some p) :
    bodiesOf (outlineStmts (p.restore before (loopHead s))) ⊆
      bodiesOf (outlineStmts (before ++ [s])) := by
  obtain ⟨d, _, _, _, _, table, hd, -, -, -, -, -, -, -, -, -, htable, hsteps⟩ := plan_eq hplan
  obtain ⟨hhead, hcases⟩ := bodies_dispatcher hd
  have hwalks := steps?_walks hsteps
  have hstmts : bodiesOf (outlineStmts (p.headStmts (loopHead s) ++
      p.steps.flatMap fun s => bodyOf s.body s.exit)) ⊆ bodiesOf [outlineStmt s] := by
    rw [outlineStmts_append, bodiesOf_append, List.append_subset]
    refine ⟨List.Subset.trans (bodies_headStmts p _) hhead, fun b hb => hcases ?_⟩
    obtain ⟨t, ht, hb⟩ := mem_bodiesOf_stmts.1 hb
    obtain ⟨step, hstep, ht⟩ := List.mem_flatMap.1 ht
    obtain ⟨k, hk⟩ := List.mem_iff_getElem?.1 hstep
    obtain ⟨key, isLast, -, hfind, -⟩ := hwalks.step hk
    obtain ⟨c, hc, -, hbody⟩ := caseTable?_find htable hfind
    refine bodies_case hc ?_
    rw [hbody]
    exact bodies_bodyOf _ _ (mem_bodiesOf_stmts.2 ⟨t, ht, hb⟩)
  have hafter : ∀ ts, bodiesOf (outlineStmts ts) ⊆ bodiesOf [outlineStmt s] →
      bodiesOf (outlineStmts ((p.pruneTrailing before.reverse).reverse ++ ts)) ⊆
        bodiesOf (outlineStmts (before ++ [s])) := by
    intro ts hts
    rw [outlineStmts_append, bodiesOf_append, outlineStmts_append, bodiesOf_append,
      List.append_subset]
    exact ⟨List.Subset.trans (bodies_before p before) (List.subset_append_left _ _),
      List.Subset.trans hts (List.subset_append_right _ _)⟩
  rw [Plan.restore]
  split
  · apply hafter
    rw [outlineStmts, outlineStmts, bodies_block]
    exact hstmts
  · exact hafter _ hstmts

theorem bodies_restored (refs : List Binding) (done ss : List Stmt) :
    bodiesOf (outlineStmts (restored refs done ss)) ⊆ bodiesOf (outlineStmts (done ++ ss)) := by
  induction ss generalizing done with
  | nil =>
    rw [List.append_nil]
    exact List.Subset.refl _
  | cons s ss ih =>
    rw [List.append_cons]
    cases hplan : plan? refs done s with
    | none =>
      simp only [restored, hplan]
      exact ih _
    | some p =>
      simp only [restored, hplan]
      refine List.Subset.trans (ih _) ?_
      rw [outlineStmts_append, bodiesOf_append, outlineStmts_append (done ++ [s]), bodiesOf_append]
      exact List.append_subset.2 ⟨List.Subset.trans (bodies_restore hplan)
        (List.subset_append_left _ _), List.subset_append_right _ _⟩

theorem restoring_tracesBodies (refs : List Binding) : (restoring refs).TracesBodies
    fun b b' => b' = result (editBody (restoring refs) b) where
  body _ := rfl
  arrow f := body_editFunc (restoring refs) f
  list ss := bodies_restored refs [] ss

end Bodies

/-! ### The pass -/

/-- The names that are hoisted before are hoisted after, whatever their tags are, and there are no
others. An order or a counter may be lost, and a name with as many declarations lost as it has. -/
structure ShedsNames (N : List Loss) (before after : List Ident) : Prop where
  kept : ∀ x ∈ before, x.name ∈ after.map Ident.name ∨ .internal x.binding ∈ N ∨
    before.count x ≤ N.count (.skipped x)
  known : ∀ y ∈ after, y.name ∈ before.map Ident.name

theorem Sheds.untagged {a b : List Ident} (h : Sheds N a b) :
    ShedsNames N a (b.map Ident.untagged) where
  kept x hx := by
    rw [List.map_map]
    by_cases hb : x ∈ b
    · exact .inl (List.mem_map_of_mem hb)
    · have hkept := h.kept x
      rw [List.count_eq_zero.2 hb, Nat.zero_add] at hkept
      exact .inr hkept
  known y hy := by
    obtain ⟨x, hx, rfl⟩ := List.mem_map.1 hy
    exact List.mem_map.2 ⟨x, h.known x hx, rfl⟩

theorem sheds_list (refs : List Binding) (ss : List Stmt) : ShedsNames (lossesIn refs ss)
    (hoistedIn ss) (hoistedIn (result (editList untagEdits
      (result (editList (restoring refs) ss))))) := by
  rw [hoistedIn_untagged]
  exact (sheds_edited ss).untagged

theorem sheds_body (refs : List Binding) (b : Body) : ShedsNames (lossesIn refs b.stmts)
    (hoistedIn b.stmts) (hoistedIn (result (editBody (restoring refs) b)).untagged.stmts) := by
  cases b with
  | absent | expr => constructor <;> intro x hx <;> cases hx
  | block ss => exact sheds_list refs ss

theorem restoreControlFlow_eq (p : Program) : (restoreControlFlow p).1 =
    (result (editProgram (restoring p.resolved.references) p.resolved)).untagged :=
  congrArg Program.untagged ((editProgram_agree dispatcherEdits_agrees p.resolved).result_eq 0)

/-- **Restoring dispatchers keeps hoisted names, but for what goes with a dispatcher.** A name that
the program or one of its functions hoists, functions in blocks among them, is hoisted afterwards,
unless it is the order or the counter of a dispatcher that was restored, or all its declarations are
in cases of such dispatchers that their orders do not visit. No other names come in. -/
theorem restoreControlFlow_sheds_hoisted (p : Program) :
    p.resolved.untagged = p.untagged ∧
    ShedsNames (lossesIn p.resolved.references p.resolved.body) (hoistedIn p.resolved.body)
      (hoistedIn (restoreControlFlow p).1.body) ∧
    ∀ b' ∈ (restoreControlFlow p).1.bodies, ∃ b ∈ p.resolved.bodies,
      b' = (result (editBody (restoring p.resolved.references) b)).untagged ∧
      ShedsNames (lossesIn p.resolved.references b.stmts) (hoistedIn b.stmts)
        (hoistedIn b'.stmts) := by
  refine ⟨resolved_untagged p, ?_, ?_⟩
  · rw [restoreControlFlow_eq]
    exact sheds_list p.resolved.references p.resolved.body
  · intro b' hb'
    rw [restoreControlFlow_eq] at hb'
    obtain ⟨b₁, hb₁, rfl⟩ := untagEdits_tracesBodies.program _ b' hb'
    obtain ⟨b, hb, rfl⟩ := (restoring_tracesBodies _).program p.resolved b₁ hb₁
    exact ⟨b, hb, rfl, sheds_body _ b⟩

/-- `var o = ['0'], i = 0; while (true) { switch (o[i++]) { case '0': a(); continue;
case '1': var x = 1; continue; } break; }` -/
def skippingLoop : List Stmt :=
  [.decl (.var (.mk .var [
      .mk (.name (.ofIdent { name := "o" })) (some (.array [textLit "0"])) false,
      .mk (.name (.ofIdent { name := "i" })) (some (.lit (.num { value := 0 }))) false])),
    .while (.ofBool true) (.block [
      .switch (.member (.ofName "o") (.computed (.update .increment false (.ofName "i")))) [
        .mk (some (textLit "0")) [.expr (callOf "a"), .continue none],
        .mk (some (textLit "1"))
          [.decl (.var (.single .var { name := "x" } (some (.lit (.num { value := 1 }))))),
            .continue none]],
      .break none])]

/-- `function f() { … return x; }` around the loop. -/
def skippingFunction : Program where
  grammar := .script
  body := [.decl (.func { name := "f" } (.mk false false [] [] none
    (.block (skippingLoop ++ [.return (some (.ofName "x"))]))))]

/-- **What is declared in a case that is not visited is lost.** The function hoists `x` before the
pass and returns it; afterwards it hoists nothing, and returns a variable of the program around. -/
theorem restoreControlFlow_skips_declaration :
    skippingFunction.bodies.map (fun b => (hoistedIn b.stmts).map Ident.name) = [["o", "i", "x"]] ∧
    (restoreControlFlow skippingFunction).1.bodies.map
      (fun b => (hoistedIn b.stmts).map Ident.name) = [[]] := by
  decide +kernel

end Pass

end Untangle
