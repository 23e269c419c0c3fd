import Untangle.Proofs.DispatcherLoop

/-!
# Restoring control flow keeps what runs

The statements before a dispatcher end with the declarations of its order and its counter. Restoring
drops these two, keeps whatever else is declared there, and puts the bodies of the cases in the place
of the loop.

* `restore_preserves_execution` — both run alike, unless the counter is a constant.

Variables are cells of a store, which all are there from the start: that a name which only a skipped
case declares is hoisted no longer is not seen here. `Untangle.Proofs.DispatcherNames` says which
names stay hoisted.
-/

namespace Untangle.Pass

open Behaviour

variable {ω V U : Type}

/-! ### Declarations one by one -/

def declarations : VarDecl → List (VarKind × Declarator)
  | .mk kind ds => ds.map fun d => (kind, d)

def runEach (M : Machine ω V) : List (VarKind × Declarator) → Behaviour ω V
  | [] => ends .normal
  | (kind, d) :: rest => andThen (runDeclarators M kind [d]) (runEach M rest)

variable {M : Machine ω V}

theorem runDeclarators_cons (kind : VarKind) (d : Declarator) (ds : List Declarator) :
    runDeclarators M kind (d :: ds) =
      andThen (runDeclarators M kind [d]) (runDeclarators M kind ds) := by
  obtain ⟨target, init, definite⟩ := d
  cases init with
  | some e => simp [runDeclarators, after_andThen]
  | none =>
    simp only [runDeclarators]
    split
    · simp
    · simp [after_andThen]

theorem runEach_append (ds es : List (VarKind × Declarator)) :
    runEach M (ds ++ es) = andThen (runEach M ds) (runEach M es) := by
  induction ds with
  | nil => simp [runEach]
  | cons d ds ih => simp [runEach, ih, andThen_assoc]

theorem runVarDecl_eq (v : VarDecl) : runVarDecl M v = runEach M (declarations v) := by
  obtain ⟨kind, ds⟩ := v
  show runDeclarators M kind ds = runEach M (ds.map fun d => (kind, d))
  induction ds with
  | nil => rfl
  | cons d ds ih => rw [runDeclarators_cons, ih]; rfl

variable {v : VarDecl} {s : Stmt} {d : VarKind × Declarator} {e disc : Expr} {before : List Stmt}
  {p : Plan} {refs : List Binding}

theorem runDecl_plain : ∀ d : Decl, d.plain = .var v →
    runDecl M d = runEach M (declarations v)
  | .ambient d, h => runDecl_plain d h
  | .var w, h => by
    cases h
    exact runVarDecl_eq v
  | .func .., h | .cls .., h | .iface _, h | .typeAlias .., h | .enum .., h => by cases h

/-! ### The declarations before the loop -/

def eachMentions (ds : List (VarKind × Declarator)) : List Binding :=
  ds.flatMap fun d => (outlineDeclarator d.2).mentions

theorem declarations_mentions (v : VarDecl) :
    (outlineVarDecl v).mentions = eachMentions (declarations v) := by
  obtain ⟨kind, ds⟩ := v
  simp only [outlineVarDecl, Outline.mentions_node, Item.ident?, Option.map_none,
    Option.toList_none, List.nil_append]
  induction ds with
  | nil => rfl
  | cons d ds ih => simp [outlineDeclarators, ih, eachMentions, declarations]

theorem plain_mentions : ∀ d : Decl, d.plain = .var v →
    mentionsOf (outlineDecl d) = eachMentions (declarations v)
  | .ambient d, h => plain_mentions d h
  | .var w, h => by
    cases h
    simpa [outlineDecl] using declarations_mentions v
  | .func .., h | .cls .., h | .iface _, h | .typeAlias .., h | .enum .., h => by cases h

/-- The declarators that are left when the order and the counter go. -/
def Plan.kept (p : Plan) (ds : List (VarKind × Declarator)) : List (VarKind × Declarator) :=
  ds.filter fun d => !p.owns d.2

theorem Plan.kept_append (p : Plan) (ds es : List (VarKind × Declarator)) :
    p.kept (ds ++ es) = p.kept ds ++ p.kept es := List.filter_append ..

theorem declarations_prune (p : Plan) (v : VarDecl) :
    declarations (p.prune v) = p.kept (declarations v) := by
  obtain ⟨kind, ds⟩ := v
  simp [Plan.prune, declarations, Plan.kept, List.filter_map, Function.comp_def]

theorem runEach_prune (p : Plan) (v : VarDecl) :
    (match p.prune v with
      | .mk _ [] => ends .normal
      | d => runVarDecl M d) = runEach M (p.kept (declarations v)) := by
  rw [← declarations_prune]
  split
  · rename_i h
    rw [h]
    rfl
  · exact runVarDecl_eq _

theorem run_pruneStmt (p : Plan) : ∀ d : Decl, d.plain = .var v →
    (match p.pruneStmt? d with
      | none => ends .normal
      | some d' => runDecl M d') = runEach M (p.kept (declarations v))
  | .ambient d, h => by
    rw [← run_pruneStmt p d h, Plan.pruneStmt?]
    cases p.pruneStmt? d <;> rfl
  | .var w, h => by
    cases h
    rw [← runEach_prune, Plan.pruneStmt?]
    obtain ⟨kind, ds⟩ := p.prune v
    cases ds <;> rfl
  | .func .., h | .cls .., h | .iface _, h | .typeAlias .., h | .enum .., h => by cases h

/-- The variable that a statement declares, however it is marked. -/
def varDecl? : Stmt → Option VarDecl
  | .decl d => match d.plain with
    | .var v => some v
    | _ => none
  | _ => none

theorem isVarStmt_eq (s : Stmt) : isVarStmt s = (varDecl? s).isSome := by
  cases s with
  | decl d =>
    simp only [isVarStmt, varDecl?]
    cases d.plain <;> rfl
  | _ => rfl

theorem varDecl_eq_some (h : varDecl? s = some v) : ∃ d, s = .decl d ∧ d.plain = .var v := by
  cases s with
  | decl d =>
    simp only [varDecl?] at h
    split at h
    · rename_i hd
      cases h
      exact ⟨d, rfl, hd⟩
    · cases h
  | _ => cases h

theorem trailingDecls_nil : trailingDecls [] = [] := rfl

theorem trailingDecls_append (ss : List Stmt) (s : Stmt) :
    trailingDecls (ss ++ [s]) = match varDecl? s with
      | some v => v :: trailingDecls ss
      | none => [] := by
  have h : trailingDecls (ss ++ [s]) =
      (((s :: ss.reverse).map varDecl?).takeWhile Option.isSome).filterMap id := by
    rw [trailingDecls, List.reverse_append, List.reverse_singleton, List.singleton_append]
    rfl
  rw [h, List.map_cons, List.takeWhile_cons]
  cases varDecl? s <;> rfl

/-- The statements before the loop end with declarations, which are pruned; what stands before these
stays. -/
theorem before_eq (p : Plan) (before : List Stmt) : ∃ pre : List Stmt,
    (∀ b, (mentionsOf (outlineStmts before)).count b = (mentionsOf (outlineStmts pre)).count b +
      (eachMentions ((trailingDecls before).reverse.flatMap declarations)).count b) ∧
    ∀ {ω V : Type} (M : Machine ω V),
      runList M [] before = andThen (runList M [] pre)
        (runEach M ((trailingDecls before).reverse.flatMap declarations)) ∧
      runList M [] (p.pruneTrailing before.reverse).reverse = andThen (runList M [] pre)
        (runEach M (p.kept ((trailingDecls before).reverse.flatMap declarations))) := by
  induction before using List.reverseRecOn with
  | nil => exact ⟨[], by simp [trailingDecls_nil, eachMentions, outlineStmts], fun M => by
      simp [trailingDecls_nil, runEach, Plan.kept, Plan.pruneTrailing]⟩
  | append_singleton ss s ih =>
    rw [trailingDecls_append]
    cases hs : varDecl? s with
    | none =>
      refine ⟨ss ++ [s], by simp [eachMentions], fun M => ?_⟩
      simp [runEach, Plan.kept, Plan.pruneTrailing, isVarStmt_eq, hs]
    | some v =>
      obtain ⟨pre, hcount, hrun⟩ := ih
      obtain ⟨d, rfl, hd⟩ := varDecl_eq_some hs
      refine ⟨pre, fun b => ?_, fun M => ⟨?_, ?_⟩⟩
      · have hb := hcount b
        simp only [eachMentions] at hb
        simp only [outlineStmts_append, outlineStmts, outlineStmt, mentionsOf_append,
          mentionsOf_cons, Outline.mentions_node, Item.ident?, plain_mentions d hd, eachMentions,
          List.reverse_cons, List.flatMap_append, List.flatMap_singleton, List.count_append, hb,
          mentionsOf_nil, Option.map_none, Option.toList_none, List.count_nil]
        omega
      · simp only [runList_append, (hrun M).1, List.reverse_cons, List.flatMap_append,
          List.flatMap_singleton, runEach_append, andThen_assoc, runList_cons, runList_nil, run,
          andThen_ends, runDecl_plain d hd]
      · have hprune : runList M [] ((p.pruneStmt? d).map Stmt.decl).toList =
            runEach M (p.kept (declarations v)) := by
          rw [← run_pruneStmt p d hd]
          cases p.pruneStmt? d <;> simp [run]
        have htrail : (p.pruneTrailing (ss ++ [Stmt.decl d]).reverse).reverse =
            (p.pruneTrailing ss.reverse).reverse ++ ((p.pruneStmt? d).map Stmt.decl).toList := by
          cases hp : p.pruneStmt? d <;>
            simp [Plan.pruneTrailing, isVarStmt_eq, hs, hp]
        rw [htrail, runList_append, (hrun M).2, hprune, List.reverse_cons, List.flatMap_append,
          List.flatMap_singleton, Plan.kept_append, runEach_append, andThen_assoc]

/-! ### The loop statement -/

theorem dispatcher_eq {d : Dispatcher} (h : dispatcher? s = some d) :
    ∃ disc, readNext? disc = some (d.order, d.counter) ∧ d.init = loopHead s ∧
      ((∃ test, truthiness? test = some true ∧
          s = .while test (.block [.switch disc d.cases, .break none])) ∨
        ∃ test, (∀ e, test = some e → truthiness? e = some true) ∧
          s = .for d.init test none (.block [.switch disc d.cases, .break none])) := by
  have hbody : ∀ {init : ForHead} {body : Stmt}, dispatcherOf? init body = some d →
      ∃ disc, readNext? disc = some (d.order, d.counter) ∧ d.init = init ∧
        body = .block [.switch disc d.cases, .break none] := by
    intro init body hb
    unfold dispatcherOf? at hb
    split at hb
    · obtain ⟨⟨order, counter⟩, hread, rfl⟩ := Option.map_eq_some_iff.1 hb
      exact ⟨_, hread, rfl, rfl⟩
    · cases hb
  unfold dispatcher? at h
  split at h
  · rename_i test body
    split at h
    · rename_i ht
      obtain ⟨disc, hread, hinit, rfl⟩ := hbody h
      exact ⟨disc, hread, hinit, .inl ⟨test, by simpa using ht, rfl⟩⟩
    · cases h
  · rename_i init test body
    split at h
    · rename_i e
      split at h
      · rename_i ht
        obtain ⟨disc, hread, rfl, rfl⟩ := hbody h
        exact ⟨disc, hread, rfl, .inr ⟨some e, by simpa using ht, rfl⟩⟩
      · cases h
    · obtain ⟨disc, hread, rfl, rfl⟩ := hbody h
      exact ⟨disc, hread, rfl, .inr ⟨none, by simp, rfl⟩⟩
  · cases h

theorem run_dispatcher (hM : M.KnowsTruth) {d : Dispatcher} (h : dispatcher? s = some d) :
    ∃ disc, readNext? disc = some (d.order, d.counter) ∧
      run M [] s = andThen (runHead M d.init) (Looping (dispatchTurn M disc d.cases)) ∧
      ∀ b, (mentionsOf (outlineHead d.init)).count b + (outlineExpr disc).mentions.count b +
        (mentionsOf (outlineCases d.cases)).count b ≤ (outlineStmt s).mentions.count b := by
  obtain ⟨disc, hread, hinit, ⟨test, ht, rfl⟩ | ⟨test, ht, rfl⟩⟩ := dispatcher_eq h
  · refine ⟨disc, hread, ?_, fun b => ?_⟩
    · obtain ⟨v, hv, hsilent⟩ := hM test true ht
      simp only [run, turnAfter_silent hsilent, hv, ↓reduceIte, hinit, loopHead, runHead,
        ends_andThen]
      rfl
    · simp [hinit, loopHead, outlineHead, outlineStmt, outlineStmts, outlineIdent?, Item.ident?]
  · refine ⟨disc, hread, ?_, fun b => ?_⟩
    · cases test with
      | none => rfl
      | some e =>
        obtain ⟨v, hv, hsilent⟩ := hM e true (ht e rfl)
        simp only [run, forTest, turnAfter_silent hsilent, hv, ↓reduceIte]
        rfl
    · simp [outlineStmt, outlineStmts, outlineIdent?, Item.ident?]
      omega

/-! ### Declaring the order and the counter -/

section Declaring

variable (W : Setting U) {hidden : List Binding}

def declared? : Declarator → Option Binding
  | .mk target _ _ => target.binding?

variable {x : Binding} {keys texts : List String}

theorem declared_mentions {d : Declarator} (h : declared? d = some x) :
    x ∈ (outlineDeclarator d).mentions := by
  obtain ⟨target, init, definite⟩ := d
  simp only [declared?, Pat.binding?] at h
  split at h
  · cases h
    simp [outlineDeclarator, outlinePat, outlineBinding]
  · cases h

theorem owns_iff (p : Plan) (d : Declarator) :
    p.owns d = true ↔ ∃ x ∈ [p.order, p.counter], declared? d = some x := by
  obtain ⟨target, init, definite⟩ := d
  simp only [Plan.owns, Declarator.declaresOneOf, declared?]
  cases target.binding? <;> simp

/-- A declarator that does nothing but set a variable. -/
def Sets (M : Machine (Store U) (Val U)) (d : VarKind × Declarator) (x : Binding) (cell : Cell U) :
    Prop :=
  ∀ a c b, runDeclarators M d.1 [d.2] a c b ↔ c = .normal ∧ b = a.set x cell

def Settled (hidden : List Binding) (cell before after : Binding → Cell U)
    (ds : List (VarKind × Declarator)) : Prop :=
  ∀ x ∈ hidden, after x = cell x ∨ (after x = before x ∧ ∀ d ∈ ds, declared? d.2 ≠ some x)

theorem Sets.andThen_iff {M : Machine (Store U) (Val U)} {cell : Cell U} (h : Sets M d x cell)
    (e : Behaviour (Store U) (Val U)) (a : Store U) (c : Completion (Val U)) (b : Store U) :
    andThen (runDeclarators M d.1 [d.2]) e a c b ↔ e (a.set x cell) c b := by
  constructor
  · rintro (⟨m, hm, hb⟩ | ⟨hc, hb⟩)
    · obtain ⟨-, rfl⟩ := (h a .normal m).1 hm
      exact hb
    · exact absurd ((h a c b).1 hb).1 hc
  · intro hb
    exact .inl ⟨_, (h a .normal _).2 ⟨rfl, rfl⟩, hb⟩

theorem runDeclarators_hiding {cells : Binding → Cell U}
    (hm : ∀ x ∈ (outlineDeclarator d.2).mentions, x ∉ hidden) :
    Matches (Store.Hiding hidden cells) (runDeclarators (W.machine hidden) d.1 [d.2])
      (runDeclarators (W.machine hidden) d.1 [d.2]) := by
  have hrun : runDeclarators (W.machine hidden) d.1 [d.2] =
      runList (W.machine hidden) [] [.decl (.var (.mk d.1 [d.2]))] := by
    simp [run, runDecl, runVarDecl]
  rw [hrun]
  refine runList_hiding W ?_
  simpa [outlineStmts, outlineStmt, outlineDecl, outlineVarDecl, outlineDeclarators, Item.ident?]
    using hm

/-- The order and the counter are set, one way or another; the other declarators run as they do
without them. -/
theorem runEach_matchAt (p : Plan) {cell : Binding → Cell U} {ds : List (VarKind × Declarator)}
    (howns : ∀ d ∈ ds, p.owns d.2 = true →
      ∃ x ∈ hidden, declared? d.2 = some x ∧ Sets (W.machine hidden) d x (cell x))
    (hkept : ∀ d ∈ ds, p.owns d.2 = false → ∀ x ∈ (outlineDeclarator d.2).mentions, x ∉ hidden)
    {e e' : Behaviour (Store U) (Val U)} {before : Binding → Cell U} {a a' : Store U}
    (ha : Store.Hiding hidden before a a')
    (hrest : ∀ (after : Binding → Cell U) (m m' : Store U), Settled hidden cell before after ds →
      Store.Hiding hidden after m m' → MatchAt hidden e m e' m') :
    MatchAt hidden (andThen (runEach (W.machine hidden) ds) e) a
      (andThen (runEach (W.machine hidden) (p.kept ds)) e') a' := by
  induction ds generalizing before a a' with
  | nil =>
    have := hrest before a a' (fun x _ => .inr ⟨rfl, by simp⟩) ha
    simpa [runEach, Plan.kept] using this
  | cons d ds ih =>
    have ih' := @ih (fun d hd => howns d (by simp [hd])) (fun d hd => hkept d (by simp [hd]))
    cases ho : p.owns d.2 with
    | true =>
      obtain ⟨x, hx, hdx, hsets⟩ := howns d (by simp) ho
      have hk : p.kept (d :: ds) = p.kept ds := by simp [Plan.kept, ho]
      rw [runEach, andThen_assoc, hk]
      have hset : Store.Hiding hidden (fun y => if y = x then cell x else before y)
          (a.set x (cell x)) a' :=
        ⟨(Store.SameBut.set hx _).trans ha.1, fun y hy => by simp [Store.set, ha.2 y hy]⟩
      refine .congr (hsets.andThen_iff _ a) (ih' hset fun after m m' hafter hm =>
        hrest after m m' (fun y hy => ?_) hm)
      rcases hafter y hy with h | ⟨h, hds⟩
      · exact .inl h
      · by_cases hyx : y = x
        · subst hyx
          exact .inl (by simpa using h)
        · refine .inr ⟨by simpa [hyx] using h, ?_⟩
          simpa [hdx, Ne.symm hyx] using hds
    | false =>
      have hk : p.kept (d :: ds) = d :: p.kept ds := by simp [Plan.kept, ho]
      have hdne : ∀ y ∈ hidden, declared? d.2 ≠ some y := fun y hy hdy =>
        hkept d (by simp) ho y (declared_mentions hdy) hy
      rw [runEach, hk, runEach, andThen_assoc, andThen_assoc]
      refine .andThen (runDeclarators_hiding W (hkept d (by simp) ho)) ha fun m m' hmm' =>
        ih' hmm' fun after n n' hafter hn => hrest after n n' (fun y hy => ?_) hn
      rcases hafter y hy with h | ⟨h, hds⟩
      · exact .inl h
      · exact .inr ⟨h, by simpa [hdne y hy] using hds⟩

/-- An order whose keys are texts: an array of string literals, or a text split at a separator that is
not empty. -/
def TextOrder (e : Expr) : Prop := e.texts?.isSome = true ∨ e.splitCall?.isSome = true

theorem mapM_caseKey {es : List Expr} (h : es.mapM Expr.text? = some texts)
    (hkeys : es.mapM caseKey? = some keys) : texts = keys := by
  induction es generalizing texts keys with
  | nil =>
    cases h
    cases hkeys
    rfl
  | cons e es ih =>
    simp only [List.mapM_cons, Option.bind_eq_bind, Option.bind_eq_some_iff] at h hkeys
    obtain ⟨s, hs, ss, hss, h⟩ := h
    obtain ⟨k, hk, ks, hks, hkeys⟩ := hkeys
    cases h
    cases hkeys
    rw [caseKey_text hs hk, ih hss hks]

theorem texts_eq (h : e.texts? = some texts) :
    ∃ elems, e.unparen = .array elems ∧ elems.mapM Expr.text? = some texts := by
  unfold Expr.texts? at h
  split at h
  · rename_i elems he
    exact ⟨elems, he, h⟩
  · cases h

theorem splitCall_eq {text sep : String} (h : e.splitCall? = some (text, sep)) :
    sep.toList ≠ [] ∧ orderKeys? e = some (splitText text sep) ∧
      ∃ callee args, e.unparen = .call callee args := by
  unfold Expr.splitCall? at h
  split at h
  · rename_i callee arg he
    split at h
    · rename_i obj prop hcallee
      split at h
      · rename_i hkey
        split at h
        · rename_i htext hsep
          split at h
          · cases h
          · rename_i hne
            cases h
            refine ⟨by simpa using hne, ?_, callee, [arg], he⟩
            simp [orderKeys?, he, hcallee, hkey, htext, hsep]
        · cases h
      · cases h
    · cases h
  · cases h

theorem eval_order (he : TextOrder e) (hkeys : orderKeys? e = some keys) :
    ∃ t, ∀ a r b, (W.machine hidden).eval e a r b ↔ r = .value ⟨t, .list keys⟩ ∧ b = a := by
  rcases he with he | he
  · obtain ⟨texts, htexts⟩ := Option.isSome_iff_exists.1 he
    obtain ⟨elems, hu, helems⟩ := texts_eq htexts
    obtain rfl := mapM_caseKey helems (by simpa [orderKeys?, hu] using hkeys)
    have hv : W.value? e = some ⟨(truthiness? e).getD true, .list texts⟩ := by
      simp [Setting.value?, Expr.shape?, Expr.text?, Expr.whole?, Expr.number?, hu, htexts]
    exact ⟨(truthiness? e).getD true, fun a r b => by simp [Setting.machine, hv]⟩
  · obtain ⟨⟨text, sep⟩, hsplit⟩ := Option.isSome_iff_exists.1 he
    obtain ⟨hsep, hkeys', callee, args, hu⟩ := splitCall_eq hsplit
    obtain rfl := Option.some_inj.1 (hkeys'.symm.trans hkeys)
    have hv : W.value? e = none := by
      simp [Setting.value?, Expr.shape?, Expr.text?, Expr.whole?, Expr.number?, Expr.texts?,
        truthiness?, evaluate?, evaluateAt?, hu]
    have htext : splitText text sep = (splitAt sep.toList 0 [] text.toList).map String.ofList :=
      if_neg (by simpa using hsep)
    exact ⟨true, fun a r b => by simp [Setting.machine, hv, hsplit, splits_iff hsep, htext]⟩

theorem eval_whole {n : Nat} (he : e.whole? = some n) :
    ∃ t, ∀ a r b, (W.machine hidden).eval e a r b ↔ r = .value ⟨t, .whole n⟩ ∧ b = a := by
  have htext : e.text? = none := by
    unfold Expr.text?
    split
    · rename_i s hs
      simp [Expr.whole?, Expr.number?, hs] at he
    · rfl
  refine ⟨(truthiness? e).getD true, fun a r b => ?_⟩
  have hv : W.value? e = some ⟨(truthiness? e).getD true, .whole n⟩ := by
    simp [Setting.value?, Expr.shape?, htext, he]
  simp [Setting.machine, hv]

theorem sets_of_eval {kind : VarKind} {target : Pat} {definite : Bool} {v : Val U}
    (hx : target.binding? = some x)
    (he : ∀ a r b, (W.machine hidden).eval e a r b ↔ r = .value v ∧ b = a) :
    Sets (W.machine hidden) (kind, .mk target (some e) definite) x
      { value := v, isConst := kind = .const } := by
  intro a c b
  simp only [runDeclarators, after_silent he]
  simp [after, succeed, Setting.machine, hx, ends]

end Declaring

/-! ### Plans -/

/-- The declarations among which a plan looks for the order and the counter: the head of the loop,
and those before the loop from the last to the first. -/
def planDecls (head : ForHead) (before : List Stmt) : List VarDecl :=
  (match head with
    | .var v => [v]
    | _ => []) ++ trailingDecls before

def kindOf? (decls : List VarDecl) (b : Binding) : Option VarKind :=
  decls.findSome? fun v => (declaratorOf? b v).map fun _ => match v with
    | .mk kind _ => kind

theorem plan_eq (h : plan? refs before s = some p) : ∃ d orderInit counterInit keys start table,
      dispatcher? s = some d ∧ p.order = d.order ∧ p.counter = d.counter ∧
      p.order ≠ p.counter ∧ refs.count p.order = 2 ∧ refs.count p.counter = 2 ∧
      initOf? (planDecls d.init before) p.order = some orderInit ∧
      orderKeys? orderInit = some keys ∧
      initOf? (planDecls d.init before) p.counter = some counterInit ∧
      counterInit.whole? = some start ∧ caseTable? d.cases = some table ∧
      steps? table (keys.drop start) [] = some p.steps := by
  simp only [plan?, Option.bind_eq_bind, Option.bind_eq_some_iff] at h
  obtain ⟨d, hd, h⟩ := h
  split at h
  · cases h
  · rename_i hcounts
    simp only [Bool.or_eq_true, beq_iff_eq, bne_iff_ne, not_or, ne_eq, not_not] at hcounts
    simp only [Option.bind_eq_some_iff] at h
    obtain ⟨orderInit, horder, keys, hkeys, counterInit, hcounter, x, hx, h⟩ := h
    split at h
    · cases h
    · rename_i hwhole
      simp only [Option.bind_eq_some_iff] at h
      obtain ⟨table, htable, steps, hsteps, h⟩ := h
      cases h
      exact ⟨d, orderInit, counterInit, keys, Number.wholeMagnitude x, table, hd, rfl, rfl,
        hcounts.1.1, hcounts.1.2, hcounts.2, horder, hkeys, hcounter,
        by simp [Expr.whole?, hx, hwhole], htable, hsteps⟩

theorem initOf_eq {decls : List VarDecl} {b : Binding} (h : initOf? decls b = some e) :
    ∃ kind target definite, kindOf? decls b = some kind ∧ target.binding? = some b ∧
      (kind, Declarator.mk target (some e) definite) ∈ decls.flatMap declarations := by
  induction decls with
  | nil => cases h
  | cons v decls ih =>
    obtain ⟨kind, ds⟩ := v
    cases hv : declaratorOf? b (.mk kind ds) with
    | none =>
      have h' : initOf? decls b = some e := by simpa [initOf?, hv] using h
      obtain ⟨kind', target, definite, hk, ht, hmem⟩ := ih h'
      exact ⟨kind', target, definite, by simpa [kindOf?, hv] using hk, ht, by simp [hmem]⟩
    | some d =>
      obtain ⟨target, init, definite⟩ := d
      obtain rfl : init = some e := by simpa [initOf?, hv] using h
      have hmem := List.mem_of_find?_eq_some hv
      have htarget := List.find?_some hv
      refine ⟨kind, target, definite, by simp [kindOf?, hv], by simpa using htarget, ?_⟩
      simp [declarations, hmem]

/-- What is mentioned at most once is mentioned in one place. -/
theorem eq_of_count_flatMap_le_one {α β : Type} [DecidableEq β] {f : α → List β} {xs : List α}
    {b : β} (h : (xs.flatMap f).count b ≤ 1) {x y : α} (hx : x ∈ xs) (hy : y ∈ xs) (hbx : b ∈ f x)
    (hby : b ∈ f y) : x = y := by
  induction xs with
  | nil => cases hx
  | cons z xs ih =>
    rw [List.flatMap_cons, List.count_append] at h
    have hpos : ∀ {w}, w ∈ xs → b ∈ f w → 0 < (xs.flatMap f).count b := fun hw hbw =>
      List.count_pos_iff.2 (List.mem_flatMap.2 ⟨_, hw, hbw⟩)
    have hz : ∀ {w}, w = z → b ∈ f w → 0 < (f z).count b := fun hw hbw =>
      List.count_pos_iff.2 (hw ▸ hbw)
    rcases List.mem_cons.1 hx with hxz | hxs <;> rcases List.mem_cons.1 hy with hyz | hys
    · rw [hxz, hyz]
    · have := hz hxz hbx
      have := hpos hys hby
      omega
    · have := hpos hxs hbx
      have := hz hyz hby
      omega
    · exact ih (by omega) hxs hys

/-! ### The head of the loop -/

def headDecls : ForHead → List (VarKind × Declarator)
  | .var v => declarations v
  | _ => []

/-- What else the head of a loop does once. -/
def headExprs : ForHead → List Stmt
  | .expr e => [.expr e]
  | _ => []

theorem runHead_eq (head : ForHead) :
    runHead M head = andThen (runEach M (headDecls head)) (runList M [] (headExprs head)) := by
  cases head with
  | absent => simp [runHead, headDecls, headExprs, runEach]
  | var v => simp [runHead, headDecls, headExprs, runVarDecl_eq]
  | pat p => simp [runHead, headDecls, headExprs, runEach]
  | expr e => simp [runHead, headDecls, headExprs, runEach, run]

theorem runList_headStmts (p : Plan) (head : ForHead) :
    runList M [] (p.headStmts head) =
      andThen (runEach M (p.kept (headDecls head))) (runList M [] (headExprs head)) := by
  cases head with
  | absent => simp [Plan.headStmts, headDecls, headExprs, runEach, Plan.kept]
  | var v =>
    rw [headDecls, ← runEach_prune, Plan.headStmts]
    obtain ⟨kind, ds⟩ := p.prune v
    cases ds <;> simp [headExprs, run, runDecl]
  | pat p => simp [Plan.headStmts, headDecls, headExprs, runEach, Plan.kept]
  | expr e => simp [Plan.headStmts, headDecls, headExprs, runEach, Plan.kept]

theorem head_mentions (head : ForHead) (b : Binding) :
    (eachMentions (headDecls head)).count b +
      (mentionsOf (outlineStmts (headExprs head))).count b ≤
      (mentionsOf (outlineHead head)).count b := by
  cases head with
  | absent => simp [headDecls, headExprs, eachMentions, outlineStmts]
  | var v =>
    simp [headDecls, headExprs, outlineStmts, outlineHead, declarations_mentions]
  | pat p => simp [headDecls, headExprs, eachMentions, outlineStmts]
  | expr e =>
    simp [headDecls, headExprs, eachMentions, outlineStmts, outlineStmt, outlineHead, Item.ident?]

theorem runList_restore (p : Plan) (before : List Stmt) (head : ForHead) :
    runList M [] (p.restore before head) = andThen (runList M [] (p.pruneTrailing before.reverse).reverse)
      (andThen (runList M [] (p.headStmts head))
        (runList M [] (p.steps.flatMap fun s => bodyOf s.body s.exit))) := by
  unfold Plan.restore
  dsimp only
  split <;> simp [runList_append, run]

/-! ### The whole -/

/-- The declarators before the loop and in its head, in the order in which they run. -/
def allDecls (head : ForHead) (before : List Stmt) : List (VarKind × Declarator) :=
  (trailingDecls before).reverse.flatMap declarations ++ headDecls head

theorem mem_allDecls {head : ForHead} :
    d ∈ allDecls head before ↔ d ∈ (planDecls head before).flatMap declarations := by
  cases head <;> simp [allDecls, planDecls, headDecls, or_comm]

theorem runEach_allDecls (head : ForHead) (before : List Stmt) (d : Behaviour ω V) :
    andThen (runEach M ((trailingDecls before).reverse.flatMap declarations))
      (andThen (runEach M (headDecls head)) d) =
    andThen (runEach M (allDecls head before)) d := by
  rw [allDecls, runEach_append, andThen_assoc]

theorem runEach_kept_allDecls (p : Plan) (head : ForHead) (before : List Stmt)
    (d : Behaviour ω V) :
    andThen (runEach M (p.kept ((trailingDecls before).reverse.flatMap declarations)))
      (andThen (runEach M (p.kept (headDecls head))) d) =
    andThen (runEach M (p.kept (allDecls head before))) d := by
  rw [allDecls, p.kept_append, runEach_append, andThen_assoc]

/-- What a plan knows of the places where its variables are mentioned: besides the switch, one
declarator, and nothing else. -/
structure Hides (p : Plan) (pre : List Stmt) (d : Dispatcher) (before : List Stmt) : Prop where
  pre : ∀ x ∈ [p.order, p.counter], x ∉ mentionsOf (outlineStmts pre)
  decls : ∀ x ∈ [p.order, p.counter], (eachMentions (allDecls d.init before)).count x ≤ 1
  head : ∀ x ∈ [p.order, p.counter], x ∉ mentionsOf (outlineStmts (headExprs d.init))
  cases : ∀ x ∈ [p.order, p.counter], x ∉ mentionsOf (outlineCases d.cases)

/-- A variable that is mentioned twice in all, once by a declarator and once by the switch, is
mentioned nowhere else. -/
theorem hides {pre : List Stmt} {d : Dispatcher}
    (hread : readNext? disc = some (p.order, p.counter))
    (hrefs : ∀ b, (mentionsOf (outlineStmts (before ++ [s]))).count b ≤ refs.count b)
    (hbefore : ∀ b, (mentionsOf (outlineStmts before)).count b =
      (mentionsOf (outlineStmts pre)).count b +
        (eachMentions ((trailingDecls before).reverse.flatMap declarations)).count b)
    (hloop : ∀ b, (mentionsOf (outlineHead d.init)).count b + (outlineExpr disc).mentions.count b +
        (mentionsOf (outlineCases d.cases)).count b ≤ (outlineStmt s).mentions.count b)
    (htwice : ∀ x ∈ [p.order, p.counter], refs.count x = 2)
    (hdecls : ∀ x ∈ [p.order, p.counter], x ∈ eachMentions (allDecls d.init before)) :
    Hides p pre d before := by
  have hcounts : ∀ x ∈ [p.order, p.counter], (mentionsOf (outlineStmts pre)).count x = 0 ∧
      (eachMentions (allDecls d.init before)).count x ≤ 1 ∧
      (mentionsOf (outlineStmts (headExprs d.init))).count x = 0 ∧
      (mentionsOf (outlineCases d.cases)).count x = 0 := by
    intro x hx
    have h1 := hrefs x
    have h2 := hbefore x
    have h3 := hloop x
    have h4 := head_mentions d.init x
    have h5 := htwice x hx
    have h6 := List.count_pos_iff.2 (hdecls x hx)
    have h7 : 0 < (outlineExpr disc).mentions.count x := by
      rw [readNext_mentions hread]
      exact List.count_pos_iff.2 hx
    have h8 : (eachMentions (allDecls d.init before)).count x =
        (eachMentions ((trailingDecls before).reverse.flatMap declarations)).count x +
          (eachMentions (headDecls d.init)).count x := by
      simp [eachMentions, allDecls]
    rw [outlineStmts_append, mentionsOf_append, List.count_append] at h1
    simp only [outlineStmts, mentionsOf_cons, mentionsOf_nil, List.append_nil] at h1
    omega
  exact ⟨fun x hx => List.count_eq_zero.1 (hcounts x hx).1, fun x hx => (hcounts x hx).2.1,
    fun x hx => List.count_eq_zero.1 (hcounts x hx).2.2.1,
    fun x hx => List.count_eq_zero.1 (hcounts x hx).2.2.2⟩

/-- What comes after the declarations, given what these make of the order and the counter. -/
theorem before_matchAt (W : Setting U) {p : Plan} {pre before : List Stmt} {d : Dispatcher}
    (hne : p.order ≠ p.counter) (hhides : Hides p pre d before)
    (hpre : ∀ {ω V : Type} (M : Machine ω V),
      runList M [] before = andThen (runList M [] pre)
        (runEach M ((trailingDecls before).reverse.flatMap declarations)) ∧
      runList M [] (p.pruneTrailing before.reverse).reverse = andThen (runList M [] pre)
        (runEach M (p.kept ((trailingDecls before).reverse.flatMap declarations))))
    {orderDecl counterDecl : VarKind × Declarator} {orderCell counterCell : Cell U}
    (horder : orderDecl ∈ allDecls d.init before) (hcounter : counterDecl ∈ allDecls d.init before)
    (hsets : declared? orderDecl.2 = some p.order ∧
      Sets (W.machine [p.order, p.counter]) orderDecl p.order orderCell)
    (hsets' : declared? counterDecl.2 = some p.counter ∧
      Sets (W.machine [p.order, p.counter]) counterDecl p.counter counterCell)
    {e e' : Behaviour (Store U) (Val U)} {a a' : Store U} (haa' : a.SameBut [p.order, p.counter] a')
    (hrest : ∀ m m', m.cells p.order = orderCell → m.cells p.counter = counterCell →
      m.SameBut [p.order, p.counter] m' → MatchAt [p.order, p.counter] e m e' m') :
    MatchAt [p.order, p.counter]
      (andThen (runList (W.machine [p.order, p.counter]) [] before)
        (andThen (runHead (W.machine [p.order, p.counter]) d.init) e)) a
      (andThen (runList (W.machine [p.order, p.counter]) [] (p.pruneTrailing before.reverse).reverse)
        (andThen (runList (W.machine [p.order, p.counter]) [] (p.headStmts d.init)) e')) a' := by
  have hunique : ∀ {x : Binding} {y z : VarKind × Declarator}, x ∈ [p.order, p.counter] →
      y ∈ allDecls d.init before → z ∈ allDecls d.init before → declared? z.2 = some x →
      x ∈ (outlineDeclarator y.2).mentions → y = z := fun hx hy hz hdz hmy =>
    eq_of_count_flatMap_le_one (hhides.decls _ hx) hy hz hmy (declared_mentions hdz)
  have hdeclares : ∀ x ∈ [p.order, p.counter], ∃ z ∈ allDecls d.init before,
      declared? z.2 = some x ∧ Sets (W.machine [p.order, p.counter]) z x
        (if x = p.order then orderCell else counterCell) := by
    simp only [List.mem_cons, List.not_mem_nil, or_false, forall_eq_or_imp, forall_eq, ↓reduceIte,
      Ne.symm hne]
    exact ⟨⟨orderDecl, horder, hsets⟩, ⟨counterDecl, hcounter, hsets'⟩⟩
  have howns : ∀ y ∈ allDecls d.init before, p.owns y.2 = true → ∃ x ∈ [p.order, p.counter],
      declared? y.2 = some x ∧ Sets (W.machine [p.order, p.counter]) y x
        (if x = p.order then orderCell else counterCell) := by
    intro y hy ho
    obtain ⟨x, hx, hdx⟩ := (owns_iff p y.2).1 ho
    obtain ⟨z, hz, hdz, hset⟩ := hdeclares x hx
    obtain rfl := hunique hx hy hz hdz (declared_mentions hdx)
    exact ⟨x, hx, hdz, hset⟩
  have hkept : ∀ y ∈ allDecls d.init before, p.owns y.2 = false →
      ∀ x ∈ (outlineDeclarator y.2).mentions, x ∉ [p.order, p.counter] := by
    intro y hy ho x hm hx
    obtain ⟨z, hz, hdz, -⟩ := hdeclares x hx
    obtain rfl := hunique hx hy hz hdz hm
    exact absurd ((owns_iff p y.2).2 ⟨x, hx, hdz⟩) (by simp [ho])
  rw [(hpre _).1, (hpre _).2, runHead_eq, runList_headStmts]
  simp only [andThen_assoc]
  rw [runEach_allDecls, runEach_kept_allDecls]
  have hstart : Store.Hiding [p.order, p.counter] a.cells a a' := ⟨haa', fun _ _ => rfl⟩
  have hnot : ∀ {bs : List Binding}, (∀ x ∈ [p.order, p.counter], x ∉ bs) →
      ∀ x ∈ bs, x ∉ [p.order, p.counter] := fun h x hx hmem => h x hmem hx
  refine .andThen (runList_hiding W (hnot hhides.pre)) hstart fun m m' hmm' =>
    runEach_matchAt W p howns hkept hmm' fun after n n' hafter hnn' =>
      .andThen (runList_hiding W (hnot hhides.head)) hnn' fun q q' hqq' => ?_
  have hcells : ∀ x ∈ [p.order, p.counter],
      q.cells x = if x = p.order then orderCell else counterCell := by
    intro x hx
    obtain ⟨z, hz, hdz, -⟩ := hdeclares x hx
    rw [hqq'.2 x hx]
    exact (hafter x hx).resolve_right fun h => h.2 z hz hdz
  refine hrest q q' ?_ ?_ hqq'.1
  · simpa using hcells p.order (by simp)
  · simpa [Ne.symm hne] using hcells p.counter (by simp)

/-- A counter that may not change makes the loop throw at once. -/
theorem loop_throws (W : Setting U) {hidden : List Binding} {order counter : Binding}
    {cases : List Case} (hread : readNext? disc = some (order, counter)) {a a' : Store U}
    (hconst : (a.cells counter).isConst = true) (haa' : a.SameBut hidden a') :
    MatchAt hidden (Looping (dispatchTurn (W.machine hidden) disc cases)) a
      (ends (.throw W.typeError)) a' := by
  have hturn : ∀ r b, dispatchTurn (W.machine hidden) disc cases a r b ↔
      ∃ c, (ends (.throw W.typeError) : Behaviour (Store U) (Val U)) a c b ∧ r = some c := by
    intro r b
    have hafter : ∀ (k : Val U → Behaviour (Store U) (Val U)) c m,
        after ((W.machine hidden).eval disc) k a c m ↔ c = .throw W.typeError ∧ m = a := by
      intro k c m
      simp [after, succeed, eval_readNext W hread, Setting.reads, hconst]
    rw [run_dispatch]
    simp only [Turn.body, andThen, hafter, ends, goesOn_nil_iff]
    constructor
    · rintro ⟨c, m, ⟨n, ⟨hn, -⟩, -⟩ | ⟨-, rfl, rfl⟩, ⟨h, -⟩ | ⟨-, rfl, rfl⟩⟩
      · cases hn
      · cases hn
      · rcases h with h | h <;> cases h
      · exact ⟨_, ⟨rfl, rfl⟩, rfl⟩
    · rintro ⟨c, ⟨rfl, rfl⟩, rfl⟩
      exact ⟨_, _, .inr ⟨by simp, rfl, rfl⟩, .inr ⟨by simp, rfl, rfl⟩⟩
  refine .congr (looping_settled hturn) ⟨?_, ?_⟩
  · rintro c b ⟨rfl, rfl⟩
    exact ⟨a', ⟨rfl, rfl⟩, haa'⟩
  · rintro c b ⟨rfl, rfl⟩
    exact ⟨a, ⟨rfl, rfl⟩, haa'⟩

/-- **Restoring control flow keeps what runs**, unless the counter is declared `const`. Whatever the
other expressions do, the statements before the loop and the loop run through the same events to the
same end as the restored statements, and leave the same values in all variables but the order and the
counter. With a constant counter the loop throws at its first turn, and no case ever runs. What is
hoisted is another matter, and is treated where names are. -/
theorem restore_preserves_execution (W : Setting U) {refs : List Binding} {before : List Stmt}
    {s : Stmt} {p : Plan} {d : Dispatcher} (hplan : plan? refs before s = some p)
    (hd : dispatcher? s = some d)
    (hrefs : ∀ b, (mentionsOf (outlineStmts (before ++ [s]))).count b ≤ refs.count b)
    (htests : TextTests d.cases)
    (horder : ∀ e, initOf? (planDecls d.init before) p.order = some e → TextOrder e)
    {a a' : Store U} (haa' : a.SameBut [p.order, p.counter] a') :
    (kindOf? (planDecls d.init before) p.counter ≠ some .const →
      MatchAt [p.order, p.counter]
        (runList (W.machine [p.order, p.counter]) [] (before ++ [s])) a
        (runList (W.machine [p.order, p.counter]) [] (p.restore before (loopHead s))) a') ∧
    (kindOf? (planDecls d.init before) p.counter = some .const →
      MatchAt [p.order, p.counter]
        (runList (W.machine [p.order, p.counter]) [] (before ++ [s])) a
        (andThen (runList (W.machine [p.order, p.counter]) []
            ((p.pruneTrailing before.reverse).reverse ++ p.headStmts (loopHead s)))
          (ends (.throw W.typeError))) a') := by
  obtain ⟨d', orderInit, counterInit, keys, start, table, hd', ho, hc, hne, hcount, hcount',
    horderInit, hkeys, hcounterInit, hstart, htable, hsteps⟩ := plan_eq hplan
  obtain rfl : d' = d := Option.some_inj.1 (hd'.symm.trans hd)
  obtain ⟨-, -, hinit, -⟩ := dispatcher_eq hd
  obtain ⟨disc, hread, hrun, hloop⟩ := run_dispatcher
    (W.machine_knowsTruth [p.order, p.counter]) hd
  rw [← ho, ← hc] at hread
  obtain ⟨pre, hbefore, hpre⟩ := before_eq p before
  -- The order and the counter each have one declarator, which sets it.
  obtain ⟨orderKind, orderTarget, orderDef, -, hot, homem⟩ := initOf_eq horderInit
  obtain ⟨counterKind, counterTarget, counterDef, hkind, hct, hcmem⟩ := initOf_eq hcounterInit
  rw [← mem_allDecls] at homem hcmem
  obtain ⟨t, hevalOrder⟩ := eval_order W (horder orderInit horderInit) hkeys
  obtain ⟨t', hevalCounter⟩ := eval_whole W hstart
  have hhides : Hides p pre d' before := by
    refine hides hread hrefs hbefore hloop ?_ ?_
    · simp [hcount, hcount']
    · simp only [List.mem_cons, List.not_mem_nil, or_false, forall_eq_or_imp, forall_eq]
      exact ⟨List.mem_flatMap.2 ⟨_, homem, declared_mentions hot⟩,
        List.mem_flatMap.2 ⟨_, hcmem, declared_mentions hct⟩⟩
  have hsplit : runList (W.machine [p.order, p.counter]) [] (before ++ [s]) =
      andThen (runList (W.machine [p.order, p.counter]) [] before)
        (andThen (runHead (W.machine [p.order, p.counter]) d'.init)
          (Looping (dispatchTurn (W.machine [p.order, p.counter]) disc d'.cases))) := by
    simp [runList_append, hrun]
  have hdecls := @before_matchAt U W p pre before d' hne hhides hpre _ _ _ _ homem hcmem
    ⟨hot, sets_of_eval W hot hevalOrder⟩ ⟨hct, sets_of_eval W hct hevalCounter⟩
  rw [hsplit, ← hinit]
  refine ⟨fun hvar => ?_, fun hconst => ?_⟩
  · rw [runList_restore]
    refine hdecls haa' fun m m' hmo hmc hmm' => ?_
    refine loop_matchAt W hread htable htests (by simp) (by simp) hne
      (fun x hx hmem => hhides.cases x hmem hx) _ _ _ _ _ _ hsteps rfl ⟨?_, ?_, ?_⟩ hmm'
    · rw [hmo]
    · rw [hmc]
    · rw [hmc]
      exact decide_eq_false fun h => hvar (hkind.trans (congrArg some h))
  · rw [runList_append, andThen_assoc]
    refine hdecls haa' fun m m' hmo hmc hmm' => loop_throws W hread ?_ hmm'
    rw [hmc]
    exact decide_eq_true (Option.some_inj.1 (hkind.symm.trans hconst))

/-! An order of two keys, counted through from the first: `"1|0"` runs the second case and then the
first. -/

section TwoKeys

def textLit (s : String) : Expr := .lit (.str (.ofText s))

def callOf (name : String) : Expr := .call (.ident { name }) []

/-- The order and the counter of the two cases. -/
def twoKeys (kind : VarKind) : List Stmt :=
  [.decl (.var (.mk kind
    [.mk (.name (.ofIdent { name := "order" }))
        (some (.call (.member (textLit "1|0") (.name "split")) [textLit "|"])) false,
      .mk (.name (.ofIdent { name := "at" })) (some (.lit (.num { value := 0 }))) false]))]

/-- Two cases that go on to the next key. -/
def twoCases : List Case :=
  [.mk (some (textLit "0")) [.expr (callOf "first"), .continue none],
    .mk (some (textLit "1")) [.expr (callOf "second"), .continue none]]

def twoLoop : Stmt :=
  .while (.lit (.bool true)) (.block [.switch (.member (.ident { name := "order" })
    (.computed (.update .increment false (.ident { name := "at" })))) twoCases, .break none])

def bareSetting : Setting Unit where
  typeError := { truth := true, shape := .other () }
  constant := fun _ => ()
  same := fun _ _ => false

/-- Two effects to come, neither of which changes anything. -/
def bareStore : Store Unit where
  cells := fun _ => { value := { truth := false, shape := .undefined }, isConst := false }
  effects := List.replicate 2
    { answer := .value { truth := false, shape := .undefined }
      cells := fun _ => { value := { truth := false, shape := .undefined }, isConst := false } }
  events := []

theorem twoKeys_plan (kind : VarKind) :
    (plan? (mentionsOf (outlineStmts (twoKeys kind ++ [twoLoop]))) (twoKeys kind)
      twoLoop).isSome = true := by
  cases kind <;> decide +kernel

theorem twoKeys_order
    (h : initOf? (planDecls .absent (twoKeys .let)) { name := "order", scope := .unset } = some e) :
    TextOrder e := by
  have he : initOf? (planDecls .absent (twoKeys .let)) { name := "order", scope := .unset } =
      some (.call (.member (textLit "1|0") (.name "split")) [textLit "|"]) := rfl
  cases he.symm.trans h
  exact .inr rfl

theorem twoCases_text : TextTests twoCases := by
  intro test body h
  simp only [twoCases, List.mem_cons, Case.mk.injEq, List.not_mem_nil, or_false] at h
  rcases h with ⟨rfl, -⟩ | ⟨rfl, -⟩
  · exact ⟨_, "0", rfl, rfl⟩
  · exact ⟨_, "1", rfl, rfl⟩

theorem restore_two_keys : ∃ p, plan? (mentionsOf (outlineStmts (twoKeys .let ++ [twoLoop])))
      (twoKeys .let) twoLoop = some p ∧
    MatchAt [p.order, p.counter]
      (runList (bareSetting.machine [p.order, p.counter]) [] (twoKeys .let ++ [twoLoop])) bareStore
      (runList (bareSetting.machine [p.order, p.counter]) []
        (p.restore (twoKeys .let) (loopHead twoLoop))) bareStore := by
  obtain ⟨p, hp⟩ := Option.isSome_iff_exists.1 (twoKeys_plan .let)
  have hd : dispatcher? twoLoop = some
      { order := { name := "order", scope := .unset }, counter := { name := "at", scope := .unset }
        init := .absent, cases := twoCases } := rfl
  obtain ⟨d, -, -, -, -, -, hd', ho, hc, -⟩ := plan_eq hp
  cases hd.symm.trans hd'
  have horder : ∀ e, initOf? (planDecls .absent (twoKeys .let)) p.order = some e → TextOrder e := by
    intro e he
    rw [ho] at he
    exact twoKeys_order he
  refine ⟨p, hp, (restore_preserves_execution bareSetting hp hd (fun b => Nat.le_refl _)
    twoCases_text horder Store.SameBut.refl).1 ?_⟩
  rw [hc]
  exact fun h => by cases h

end TwoKeys

end Untangle.Pass
