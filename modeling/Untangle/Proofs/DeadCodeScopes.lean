import Untangle.Proofs.DeadCodeNames
import Untangle.Proofs.EditedScopes
import Untangle.Proofs.Thinning

/-!
# What names refer to once dead code is gone

Removing dead code drops occurrences of names, opens blocks and puts the heads of dropped loops in
their place. It makes up no occurrence, and each one that is left refers to what it did, up to two
kinds of change: a declaration moves to another scope, or it is dropped because it is not reached
while a function that mentions it stays.
-/

namespace Untangle

open ScopeTree (block occurrencesOf)

namespace Pass

variable {ss : List Stmt}

section Steps

variable {own : String → Bool} {N : List Waiver}

/-! ### One statement -/

theorem scopesDeclarators_bare (own : String → Bool) (ids : List Ident) :
    scopesDeclarators own (ids.map fun id => .mk (.name (.ofIdent id)) none false) = [] := by
  induction ids with
  | nil => rfl
  | cons id ids ih => exact ih

variable {d s : Stmt} {ts : List Stmt}

/-- The declaration that takes the place of dropped code mentions nothing and declares nothing for
its block. -/
theorem scopes_hoistedDecl (own : String → Bool) (h : hoistedDecl? s = some d) :
    scopesStmt own d = [] ∧ d.direct own = [] := by
  unfold hoistedDecl? at h
  split at h
  · cases h
  · cases h
    exact ⟨scopesDeclarators_bare own _, rfl⟩

theorem scopesOf_hoistedDecl (own : String → Bool) (s : Stmt) :
    scopesOf own (hoistedDecl? s).toList = [] ∧ directOf own (hoistedDecl? s).toList = [] := by
  cases h : hoistedDecl? s with
  | none => exact ⟨rfl, rfl⟩
  | some d =>
    obtain ⟨hscopes, hdirect⟩ := scopes_hoistedDecl own h
    exact ⟨by simp [scopesOf, hscopes], by simp [directOf, hdirect]⟩

theorem thins_withHoisted (hd : scopesStmt own d = [] ∧ d.direct own = []) (s : Stmt) :
    (withHoisted (some d) s).direct own = [] ∧
      Thins N [lone own s] (scopesStmt own (withHoisted (some d) s)) := by
  have hlist : ∀ ss,
      scopesStmt own (.block (d :: ss)) = [block (directOf own ss) (scopesOf own ss)] := by
    intro ss
    simp [scopesStmt, scopesOf, directOf, hd.1, hd.2]
  unfold withHoisted
  dsimp only
  split
  · rw [hlist]
    exact ⟨rfl, .refl _⟩
  · rename_i body
    have hblock : lone own (.block body) =
        block [] [block (directOf own body) (scopesOf own body)] := rfl
    split
    · rw [hlist, hblock]
      exact ⟨rfl, .opened (by simp) _⟩
    · rw [hlist, hblock]
      exact ⟨rfl, .refl _⟩
  · rw [hlist, scopesOf_singleton, directOf_singleton]
    exact ⟨rfl, .refl _⟩

/-- What a statement is reduced to stands in one of its scopes, or is a scope by itself. -/
def Settles (own : String → Bool) (N : List Waiver) (before : List ScopeTree) (s : Stmt) : Prop :=
  Thins N before [lone own s] ∨ s.direct own = [] ∧ Thins N before (scopesStmt own s)

theorem settles_withHoisted {before : List ScopeTree} (dropped : Option Stmt)
    (h : Thins N before [lone own s]) :
    Settles own N before (withHoisted (dropped.bind hoistedDecl?) s) := by
  cases hd : dropped.bind hoistedDecl? with
  | none => exact .inl h
  | some d =>
    obtain ⟨s', -, hs'⟩ := Option.bind_eq_some_iff.1 hd
    obtain ⟨hdirect, hthins⟩ := thins_withHoisted (N := N) (scopes_hoistedDecl own hs') s
    exact .inr ⟨hdirect, h.trans hthins⟩

theorem scopes_headStmt (init : ForHead) (test step : Option Expr) (body : Stmt) :
    Thins N (scopesStmt own (.for init test step body)) [lone own (headStmt init)] := by
  rw [scopesStmt.eq_def]
  refine .block ?_ ?_
  · cases init <;> exact .refl _
  · cases init with
    | absent | pat => exact .drop _
    | var | expr => exact ((Thins.left _ _).trans (.left _ _)).trans (.left _ _)

/-- A statement that is replaced declares nothing for its list, and its replacement is in place. -/
theorem settles_foldBranch (own : String → Bool) (N : List Waiver) {s' : Stmt}
    (h : foldBranch? s = some s') : s.direct own = [] ∧ Settles own N (scopesStmt own s) s' := by
  have hempty : ∀ before, Thins N before [lone own .empty] := fun before => .hollow before
  unfold foldBranch? at h
  split at h
  · rename_i test yes no
    refine ⟨rfl, ?_⟩
    obtain ⟨t, -, rfl⟩ := Option.map_eq_some_iff.1 h
    cases t with
    | true =>
      rw [if_pos rfl]
      refine settles_withHoisted no ?_
      cases no with
      | none => exact .right_part _ _
      | some no => exact (Thins.left _ _).trans (.right_part _ _)
    | false =>
      rw [if_neg (by decide)]
      refine settles_withHoisted (some yes) ?_
      cases no with
      | none => exact hempty _
      | some no => exact .right_part _ _
  · rename_i test body
    split at h
    · cases h
      exact ⟨rfl, settles_withHoisted (some body) (hempty _)⟩
    · cases h
  · rename_i init test step body
    split at h
    · cases h
      exact ⟨rfl, settles_withHoisted (some body) (scopes_headStmt init test step body)⟩
    · cases h
  · cases h

theorem direct_dropEmptyElse (s : Stmt) : (dropEmptyElse s).direct own = s.direct own := by
  unfold dropEmptyElse
  split <;> rfl

theorem thins_dropEmptyElse (s : Stmt) :
    Thins N (scopesStmt own s) (scopesStmt own (dropEmptyElse s)) := by
  unfold dropEmptyElse
  split
  · exact .left _ _
  · exact .refl _

/-- A statement that stands alone may be reduced whatever its names. -/
theorem thins_lone_reduced (s : Stmt) : Thins N [lone own s] [lone own (reduced s)] := by
  have hdrop : Thins N [lone own s] [lone own (dropEmptyElse s)] := by
    unfold lone
    rw [direct_dropEmptyElse]
    exact .block (.refl _) (thins_dropEmptyElse s)
  refine hdrop.trans ?_
  unfold reduced
  cases hs : foldBranch? (dropEmptyElse s) with
  | none => exact .refl _
  | some s' =>
    obtain ⟨hdirect, hthins | ⟨hdirect', hthins⟩⟩ := settles_foldBranch own N hs
    · refine .trans ?_ hthins
      unfold lone
      rw [hdirect]
      exact .opened (by simp) _
    · show Thins N [lone own (dropEmptyElse s)] [lone own s']
      unfold lone
      rw [hdirect, hdirect']
      exact .block (.refl _) hthins

/-! ### Lists -/

/-- What a step does to the scopes of a list and to what the list declares. -/
structure ThinsList (own : String → Bool) (N : List Waiver) (ss ts : List Stmt) : Prop where
  scopes : Thins N (scopesOf own ss) (scopesOf own ts)
  direct : Redeclares N (directOf own ss) (directOf own ts)

theorem ThinsList.refl (ss : List Stmt) : ThinsList own N ss ss := ⟨.refl _, .refl _⟩

theorem ThinsList.trans {us : List Stmt} (h : ThinsList own N ss ts) (h' : ThinsList own N ts us) :
    ThinsList own N ss us :=
  ⟨h.scopes.trans h'.scopes, h.direct.trans h'.direct⟩

theorem ThinsList.append {ss' ts' : List Stmt} (h : ThinsList own N ss ss')
    (h' : ThinsList own N ts ts') : ThinsList own N (ss ++ ts) (ss' ++ ts') where
  scopes := by
    rw [scopesOf_append, scopesOf_append]
    exact h.scopes.append h'.scopes
  direct := by
    rw [directOf_append, directOf_append]
    exact h.direct.append h'.direct

/-- What a statement declares for its list once it is reduced, and did not before. -/
def exposed (own : String → Bool) (s : Stmt) : List Ident :=
  if (foldBranch? (dropEmptyElse s)).isSome then (reduced s).direct own else []

theorem thinsList_reduced (h : ∀ d ∈ exposed own s, .name d.name ∈ N) :
    ThinsList own N [s] [reduced s] := by
  have hdrop : ThinsList own N [s] [dropEmptyElse s] := by
    constructor
    · rw [scopesOf_singleton, scopesOf_singleton]
      exact thins_dropEmptyElse s
    · rw [directOf_singleton, directOf_singleton, direct_dropEmptyElse]
      exact .refl _
  refine hdrop.trans ?_
  unfold exposed at h
  unfold reduced at h ⊢
  cases hs : foldBranch? (dropEmptyElse s) with
  | none => exact .refl _
  | some s' =>
    rw [hs] at h
    obtain ⟨hdirect, hsettles⟩ := settles_foldBranch own N hs
    have hexposed : ∀ d ∈ s'.direct own, .name d.name ∈ N := h
    constructor
    · rw [scopesOf_singleton, scopesOf_singleton]
      rcases hsettles with hthins | ⟨-, hthins⟩
      · exact hthins.trans (.opened hexposed _)
      · exact hthins
    · rw [directOf_singleton, directOf_singleton, hdirect]
      exact .added hexposed

theorem thinsList_map_reduced (h : ∀ s ∈ ss, ∀ d ∈ exposed own s, .name d.name ∈ N) :
    ThinsList own N ss (ss.map reduced) := by
  induction ss with
  | nil => exact .refl _
  | cons s ss ih =>
    exact (thinsList_reduced (h s List.mem_cons_self)).append
      (ih fun t ht => h t (List.mem_cons_of_mem _ ht))

theorem scopes_of_isInert (own : String → Bool) (h : isInert s = true) :
    scopesStmt own s = [] ∧ s.direct own = [] := by
  unfold isInert at h
  split at h <;> first | exact ⟨rfl, rfl⟩ | cases h

theorem thinsList_cleanList {reachable : Bool}
    (hopened : ∀ body ∈ opened reachable ss, ∀ d ∈ directOf own body, .name d.name ∈ N)
    (hdropped : ∀ s ∈ unreached reachable ss, ∀ d ∈ s.direct own, Waives N d.name d.scope) :
    ThinsList own N ss (cleanList reachable ss).1 := by
  refine cleanList_relates (R := ThinsList own N) (.refl _) .append (fun s => .refl _)
    ⟨.refl _, .refl _⟩ ?_ reachable ss ?_ ?_
  · intro s hs
    obtain ⟨hscopes, hdirect⟩ := scopes_of_isInert own hs
    constructor
    · rw [scopesOf_singleton, hscopes]
      exact .refl _
    · rw [directOf_singleton, hdirect]
      exact .refl _
  · intro body hbody
    constructor
    · rw [scopesOf_singleton]
      exact .opened (hopened body hbody) _
    · exact .added (hopened body hbody)
  · intro s hs
    obtain ⟨hscopes, hdirect⟩ := scopesOf_hoistedDecl own s
    constructor
    · rw [hscopes]
      exact .drop _
    · rw [hdirect, directOf_singleton]
      exact .lost (hdropped s hs)

end Steps

/-! ### The pass -/

section Run

variable {own : String → Bool} {N : List Waiver}

/-- What a reduced statement leaves out of account. -/
def branchWaivers (own : String → Bool) (s : Stmt) : List Waiver :=
  (branchStrays own s).map .name

/-- What a cleaned list leaves out of account: the names that it brings in, those whose declarations
move into it, and the variables whose declarations it drops. -/
def listWaivers (own : String → Bool) (ss : List Stmt) : List Waiver :=
  (listStrays own ss).map .name ++
    (ss.flatMap (exposed own) ++ (opened true (ss.map reduced)).flatMap (directOf own)).map
      (.name ∘ Ident.name) ++
    (directOf own (unreached true (ss.map reduced))).map (.binding ∘ Ident.binding)

/-- The names that removing dead code from a list declares in another scope, and the variables whose
declarations it drops. -/
def displaced (own : String → Bool) (ss : List Stmt) : List Waiver :=
  noted (branchWaivers own) (listWaivers own) ss

theorem names_of_map {xs : List String} (h : xs.map Waiver.name ⊆ N) :
    xs ⊆ N.filterMap fun | .name x => some x | .binding _ => none := by
  intro x hx
  exact List.mem_filterMap.2 ⟨.name x, h (List.mem_map_of_mem hx), rfl⟩

theorem thinsList_list (h : listWaivers own ss ⊆ N) :
    ThinsList own N ss (cleanList true (ss.map reduced)).1 := by
  unfold listWaivers at h
  rw [List.append_subset, List.append_subset, List.map_append, List.append_subset] at h
  obtain ⟨⟨-, hexposed, hopened⟩, hdropped⟩ := h
  refine .trans (thinsList_map_reduced ?_) (thinsList_cleanList ?_ ?_)
  · intro s hs d hd
    exact hexposed (List.mem_map_of_mem (List.mem_flatMap.2 ⟨s, hs, hd⟩))
  · intro body hbody d hd
    exact hopened (List.mem_map_of_mem (List.mem_flatMap.2 ⟨body, hbody, hd⟩))
  · intro s hs d hd
    exact .inr (hdropped (List.mem_map_of_mem (List.mem_flatMap.2 ⟨s, hs, hd⟩)))

theorem pruningWithin_relatesScopes (own : String → Bool) (N : List Waiver) :
    (pruningWithin N (branchWaivers own) (listWaivers own)).RelatesScopes own (Redeclares N)
      (Thins N) := by
  have hsingle : ∀ a s, Thins N a [lone own s] →
      Thins N a [lone own (if branchWaivers own s ⊆ N then reduced s else s)] := by
    intro a s ha
    split
    · exact ha.trans (thins_lone_reduced s)
    · exact ha
  have hlist : ∀ ss, ThinsList own N ss
      (if listWaivers own ss ⊆ N then (cleanList true (ss.map reduced)).1 else ss) := by
    intro ss
    split
    · exact thinsList_list ‹_›
    · exact .refl _
  exact {
    lifts := by
      refine (pruningWithin_lifts (fun s h => names_of_map h) fun ss h => ?_).mono
        (Redeclares.composes N) fun h => .of_carries h ?_
      · unfold listWaivers at h
        rw [List.append_subset, List.append_subset] at h
        exact names_of_map h.1.1
      · intro x hx
        obtain ⟨w, hw, hname⟩ := List.mem_filterMap.1 hx
        cases w with
        | name y =>
          cases hname
          exact hw
        | binding => cases hname
    nil := .refl _
    append := .append
    scope := .scope
    other := fun _ => .refl _
    name := fun _ => .refl _
    nameBase := fun _ => .refl _
    varDeclDirect := fun _ => .refl _
    single := hsingle
    labelled := hsingle
    list := fun a ss h => h.trans (hlist ss).scopes
    listDirect := fun ss => (hlist ss).direct
  }

/-- Removing dead code makes up no occurrence of a name, and each that is left refers to the
variable that it referred to, if its name is not declared in another scope now and the declaration
of the variable is not dropped. -/
theorem removeDeadCode_preserves_bindings (own : String → Bool) (p : Program) :
    ((removeDeadCode p).1.scopes own).occurrences.Sublist (p.scopes own).occurrences ∧
      (p.WellBound own [] → (removeDeadCode p).1.WellBound own (displaced own p.body)) := by
  have hthins := (pruningWithin_relatesScopes own (displaced own p.body)).program p
  have hprogram : result (editProgram (pruningWithin (displaced own p.body) (branchWaivers own)
      (listWaivers own)) p) = result (editProgram pruning p) :=
    congrArg (fun body => { p with body }) (pruned_within _ _ p.body)
  rw [hprogram] at hthins
  rw [removeDeadCode_eq]
  refine ⟨by simpa [occurrencesOf] using hthins.kept, fun hp => ?_⟩
  have hp' := ScopeTree.Right.mono (List.nil_subset (displaced own p.body)) _ hp
  exact (hthins.right .outside .outside (.refl _) ⟨hp', trivial⟩).1

end Run

/-- `if (true) { var x = true; } return g(); function g() { return x; } let y = true;` as the body of
a function, and `x;` after it, which is free. -/
def unreachableLexical : Program where
  grammar := .script
  body := [
    .decl (.func { name := "f", scope := .top } (.mk false false [] [] none (.block [
      .ite (.ofBool true) (.block [.decl (.var (.single .var { name := "x", scope := .inner 1 }
        (some (.ofBool true))))]) none,
      .return (some (.call (.ident { name := "g", scope := .inner 1 }) [])),
      .decl (.func { name := "g", scope := .inner 1 } (.mk false false [] [] none (.block [
        .return (some (.ident { name := "x", scope := .inner 1 }))]))),
      .decl (.var (.single .let { name := "y", scope := .inner 1 } (some (.ofBool true))))]))),
    .expr (.ident { name := "x", scope := .free })]

theorem removeDeadCode_preserves_bindings_unreachable :
    unreachableLexical.WellBound loosely [] ∧
      displaced loosely unreachableLexical.body =
        [.binding { name := "y", scope := .inner 1 }] ∧
      (removeDeadCode unreachableLexical).1.WellBound loosely
        (displaced loosely unreachableLexical.body) := by
  have hbound : unreachableLexical.WellBound loosely [] := by decide
  exact ⟨hbound, by decide, (removeDeadCode_preserves_bindings loosely _).2 hbound⟩

/-- `for (let i = true; false;) {} i;` -/
def deadLoopHead : Program where
  grammar := .script
  body := [
    .for (.var (.single .let { name := "i", scope := .inner 1 } (some (.ofBool true))))
      (some (.ofBool false)) none (.block []),
    .expr (.ident { name := "i", scope := .free })]

/-- A name that is declared in the head of a dropped loop is one of the program afterwards. -/
theorem removeDeadCode_moves_head :
    deadLoopHead.WellBound loosely [] ∧ ¬ (removeDeadCode deadLoopHead).1.WellBound loosely [] := by
  decide

/-- `return g(); function g() { return x; } let x = true;` as the body of a function. -/
def unreachableCaptured : Program where
  grammar := .script
  body := [.decl (.func { name := "f", scope := .top } (.mk false false [] [] none (.block [
    .return (some (.call (.ident { name := "g", scope := .inner 1 }) [])),
    .decl (.func { name := "g", scope := .inner 1 } (.mk false false [] [] none (.block [
      .return (some (.ident { name := "x", scope := .inner 1 }))]))),
    .decl (.var (.single .let { name := "x", scope := .inner 1 } (some (.ofBool true))))])))]

/-- A declaration that is not reached goes although a function that stays reads its variable. -/
theorem removeDeadCode_drops_captured :
    unreachableCaptured.WellBound loosely [] ∧
      ¬ (removeDeadCode unreachableCaptured).1.WellBound loosely [] := by
  decide

end Pass

end Untangle
