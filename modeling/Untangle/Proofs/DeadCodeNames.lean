import Untangle.Proofs.LiftedNames
import Untangle.Proofs.Prologues

/-!
# Names that outlive dead code

Where dead code goes away the names that it declares for the function around have to stay, and a
plain declaration of them takes its place.
-/

namespace Untangle

/-! ### What the pass collects -/

/-- The names that what stands at a node declares for the function around. -/
def Item.lifted : Item → List Ident
  | .stmt s => s.lifted loosely
  | .varDecl d => d.lifted
  | .funcDecl name _ => [name]
  | .caught c => c.lifted loosely
  | _ => []

def Item.accessorNames : Item → List Ident
  | .property (.getter _ body) => hoistedIn body
  | .property (.setter _ _ body) => hoistedIn body
  | _ => []

/-- Whether names are not looked for in the parts of a node. -/
def Item.isClosed : Item → Bool
  | .varDecl _ | .funcDecl .. | .func _ | .expr (.arrow _) | .cls _ => true
  | _ => false

mutual

/-- The names that are declared in the accessors of object literals, initial values of variables and
inner functions and classes apart. -/
def Outline.accessorNames : Outline → List Ident
  | .node i parts => if i.isClosed then [] else i.accessorNames ++ accessorNamesOf parts

def Outline.accessorNamesOf : List Outline → List Ident
  | [] => []
  | o :: os => accessorNames o ++ accessorNamesOf os

end

open Outline (leaf accessorNamesOf)

/-- The names that some outlines declare for the function around. -/
def liftedIn (os : List Outline) : List Ident := os.flatMap fun o => o.item.lifted

@[simp] theorem liftedIn_nil : liftedIn [] = [] := rfl

@[simp] theorem liftedIn_cons (o : Outline) (os : List Outline) :
    liftedIn (o :: os) = o.item.lifted ++ liftedIn os := List.flatMap_cons

@[simp] theorem liftedIn_append (os qs : List Outline) :
    liftedIn (os ++ qs) = liftedIn os ++ liftedIn qs := List.flatMap_append

variable {os : List Outline} {α : Type} {i : Item}

@[simp] theorem item_stmt (s : Stmt) : (outlineStmt s).item = .stmt s := by
  obtain ⟨parts, hs, -⟩ := outlineStmt_eq s
  rw [hs, item_node]

@[simp] theorem liftedIn_plain (h : AllPlain os) : liftedIn os = [] := by
  refine List.flatMap_eq_nil_iff.2 fun o ho => ?_
  have hplain := (h o ho).2
  cases hi : o.item with
  | stmt | varDecl | funcDecl | caught => simp [hi, Item.isPlain] at hplain
  | _ => rfl

@[simp] theorem liftedIn_stmts (ss : List Stmt) : liftedIn (outlineStmts ss) = hoistedIn ss := by
  induction ss with
  | nil => rfl
  | cons s ss ih => simp [outlineStmts, ih, Item.lifted, hoistedIn, liftedOf]

@[simp] theorem liftedIn_cases (cs : List Case) :
    liftedIn (outlineCases cs) = liftedOfCases loosely cs := by
  induction cs with
  | nil => rfl
  | cons c cs ih =>
    obtain ⟨test, body⟩ := c
    simp [outlineCases, outlineCase, ih, hoistedIn, liftedOfCases]

@[simp] theorem liftedIn_head (h : ForHead) : liftedIn (outlineHead h) = h.lifted := by
  cases h <;> simp [outlineHead, Item.lifted, ForHead.lifted]

theorem liftedIn_decl (d : Decl) : liftedIn (outlineDecl d) = d.lifted loosely := by
  cases d with
  | ambient d => exact liftedIn_decl d
  | _ => simp [outlineDecl, Decl.lifted, Item.lifted, loosely]

attribute [simp] liftedIn_decl

/-- What the parts of a node declare is what the node declares, or what it declares for itself if it
is an accessor. -/
theorem liftedIn_parts {parts : List Outline} (h : Outline.Made (.node i parts))
    (hi : i.isClosed = false) : liftedIn parts = i.lifted ++ i.accessorNames := by
  generalize ho : Outline.node i parts = o at h
  cases h with
  | ident | str | num =>
    cases ho
    rfl
  | binding | access | superAccess | param | classDecl =>
    cases ho
    simp [Item.lifted, Item.accessorNames]
  | importItem i => cases i <;> cases ho <;> simp [Item.lifted, Item.accessorNames]
  | function f =>
    obtain ⟨isAsync, isGenerator, typeParams, params, ret, body⟩ := f
    cases ho
    cases hi
  | cls c =>
    obtain ⟨isAbstract, typeParams, base, implemented, members⟩ := c
    cases ho
    cases hi
  | varDecl d =>
    obtain ⟨kind, decls⟩ := d
    cases ho
    cases hi
  | funcDecl name f =>
    cases ho
    cases hi
  | expr e =>
    cases e with
    | arrow f =>
      cases ho
      cases hi
    | _ =>
      cases ho
      simp [Item.lifted, Item.accessorNames]
  | property p => cases p <;> cases ho <;> simp [Item.lifted, Item.accessorNames]
  | pat p => cases p <;> cases ho <;> simp [Item.lifted, Item.accessorNames]
  | caught c =>
    obtain ⟨param, body⟩ := c
    cases ho
    simp [Item.lifted, Item.accessorNames, Catch.lifted, hoistedIn]
  | declarator d =>
    obtain ⟨target, init, definite⟩ := d
    cases ho
    simp [Item.lifted, Item.accessorNames]
  | stmt s =>
    cases s with
    | ite _ _ no => cases no <;> cases ho <;> simp [Item.lifted, Item.accessorNames, Stmt.lifted]
    | «try» _ handler finalizer =>
      cases handler <;> cases finalizer <;> cases ho <;>
        simp [Item.lifted, Item.accessorNames, Stmt.lifted, hoistedIn]
    | _ =>
      cases ho
      simp [Item.lifted, Item.accessorNames, Stmt.lifted, hoistedIn]

namespace Pass

theorem hoisted_of_open (hi : i.isClosed = false) (parts : List Outline) :
    hoisted (.node i parts) = hoistedOf parts := by
  unfold hoisted
  split <;> first | rfl | cases hi

theorem hoisted_of_closed (hi : i.isClosed = true) (parts : List Outline) :
    hoisted (.node i parts) = i.lifted := by
  cases i with
  | varDecl d =>
    obtain ⟨kind, decls⟩ := d
    simp only [hoisted, beq_iff_eq, Item.lifted, VarDecl.lifted]
    split <;> rfl
  | funcDecl | func | cls => rfl
  | expr e =>
    cases e with
    | arrow => rfl
    | _ => cases hi
  | _ => cases hi

variable {x : Ident} {s : Stmt}

mutual

theorem mem_hoisted : ∀ {o : Outline}, o.Made →
    (x ∈ hoisted o ↔ x ∈ o.item.lifted ∨ x ∈ o.accessorNames)
  | .node i parts, h => by
    unfold Outline.accessorNames
    cases hi : i.isClosed with
    | true => simp [hoisted_of_closed hi]
    | false =>
      rw [hoisted_of_open hi, mem_hoistedOf h.node.1, liftedIn_parts h hi]
      simp [or_assoc]

theorem mem_hoistedOf : ∀ {os : List Outline}, AllMade os →
    (x ∈ hoistedOf os ↔ x ∈ liftedIn os ∨ x ∈ accessorNamesOf os)
  | [], _ => by simp [hoistedOf, accessorNamesOf]
  | o :: os, h => by
    obtain ⟨ho, hos⟩ := allMade_cons.1 h
    rw [hoistedOf, List.mem_append, mem_hoisted ho, mem_hoistedOf hos, liftedIn_cons,
      accessorNamesOf, List.mem_append, List.mem_append]
    exact or_or_or_comm

end

theorem addOnce_sublist (ids : List Ident) (id : Ident) :
    (addOnce ids id).Sublist (ids ++ [id]) := by
  unfold addOnce
  split
  · exact List.sublist_append_left ids [id]
  · exact List.Sublist.refl _

theorem mem_addOnce {x : String} {ids : List Ident} {id : Ident} :
    x ∈ (addOnce ids id).map Ident.name ↔ x ∈ ids.map Ident.name ∨ x = id.name := by
  unfold addOnce
  split
  · rename_i h
    obtain ⟨i, hi, hname⟩ := List.any_eq_true.1 h
    have hid : id.name ∈ ids.map Ident.name := List.mem_map.2 ⟨i, hi, eq_of_beq hname⟩
    constructor
    · exact .inl
    · rintro (hx | rfl)
      · exact hx
      · exact hid
  · simp

theorem foldl_addOnce_sublist (ids acc : List Ident) :
    (ids.foldl addOnce acc).Sublist (acc ++ ids) := by
  induction ids generalizing acc with
  | nil => simp
  | cons id ids ih =>
    have h := (ih (addOnce acc id)).trans ((addOnce_sublist acc id).append_right ids)
    rwa [List.append_assoc, List.singleton_append] at h

theorem mem_foldl_addOnce {x : String} (ids acc : List Ident) :
    x ∈ (ids.foldl addOnce acc).map Ident.name ↔
      x ∈ acc.map Ident.name ∨ x ∈ ids.map Ident.name := by
  induction ids generalizing acc with
  | nil => simp
  | cons id ids ih =>
    rw [List.foldl_cons, ih, mem_addOnce, List.map_cons, List.mem_cons, or_assoc]

theorem of_mem_hoistedNames (h : x ∈ hoistedNames s) :
    x ∈ s.lifted loosely ∨ x ∈ (outlineStmt s).accessorNames := by
  have hx : x ∈ hoisted (outlineStmt s) := (foldl_addOnce_sublist _ []).subset h
  rw [mem_hoisted (.stmt s), item_stmt] at hx
  exact hx

theorem mem_hoistedNames (h : x ∈ s.lifted loosely) : x.name ∈ (hoistedNames s).map Ident.name := by
  have hx : x ∈ hoisted (outlineStmt s) := by
    rw [mem_hoisted (.stmt s), item_stmt]
    exact .inl h
  exact (mem_foldl_addOnce _ _).2 (.inr (List.mem_map_of_mem hx))

/-! ### One step of the pass -/

section Steps

variable {own : String → Bool}

/-- The names that the pass declares in place of a statement although the statement does not lift
them: those in accessors, and functions that belong to their block. -/
def strays (own : String → Bool) (s : Stmt) : List String :=
  ((outlineStmt s).accessorNames ++
    (s.lifted loosely).filter fun d => d ∉ s.lifted own).map Ident.name

theorem liftedOf_hoistedDecl (own : String → Bool) (s : Stmt) :
    liftedOf own (hoistedDecl? s).toList = hoistedNames s := by
  unfold hoistedDecl?
  split
  · rename_i h
    rw [h]
    rfl
  · show liftedOf own [_] = _
    rw [liftedOf_singleton]
    show (List.map _ _).flatMap Declarator.bound = _
    rw [List.flatMap_map]
    simp [Declarator.bound, Pat.bound, BindingName.ofIdent]

theorem carries_hoistedDecl (s : Stmt) :
    Carries [] (strays own s) (s.lifted own) (liftedOf own (hoistedDecl? s).toList) := by
  rw [liftedOf_hoistedDecl]
  constructor
  · intro x hx
    exact .inl (mem_hoistedNames (s.mem_loosely hx))
  · intro x hx
    by_cases hown : x ∈ s.lifted own
    · exact .inl hown
    · right
      refine List.mem_map_of_mem ?_
      rcases of_mem_hoistedNames hx with hx | hx
      · exact List.mem_append_right _ (List.mem_filter.2 ⟨hx, by simpa using hown⟩)
      · exact List.mem_append_left _ hx

theorem lifted_withHoisted (own : String → Bool) (d : Option Stmt) (s : Stmt) :
    (withHoisted d s).lifted own = liftedOf own d.toList ++ s.lifted own := by
  cases d with
  | none => rfl
  | some d =>
    unfold withHoisted
    dsimp only
    split
    · simp [Stmt.lifted, liftedOf]
    · split <;> simp [Stmt.lifted, liftedOf]
    · simp [Stmt.lifted, liftedOf]

theorem lifted_headStmt (own : String → Bool) (head : ForHead) :
    (headStmt head).lifted own = head.lifted := by
  cases head <;> rfl

theorem lifted_dropEmptyElse (own : String → Bool) (s : Stmt) :
    (dropEmptyElse s).lifted own = s.lifted own := by
  unfold dropEmptyElse
  split <;> rfl

/-- The branches and bodies that are dropped where the test of a statement is known. -/
def skipped : Stmt → List Stmt
  | .ite test yes no =>
    match truthiness? test with
    | some true => no.toList
    | some false => [yes]
    | none => []
  | .while test body => if truthiness? test == some false then [body] else []
  | .for _ (some test) _ body => if truthiness? test == some false then [body] else []
  | _ => []

theorem skipped_dropEmptyElse (s : Stmt) : skipped (dropEmptyElse s) ⊆ skipped s := by
  unfold dropEmptyElse
  split
  · rename_i test yes
    simp only [skipped]
    cases truthiness? test with
    | none => exact List.Subset.refl _
    | some t => cases t <;> simp
  · exact List.Subset.refl _

variable {N : List String}

theorem carries_dropped (h : strays own s ⊆ N) {a b : List Ident} (hab : Carries [] N a b) :
    Carries [] N (s.lifted own ++ a) (liftedOf own (hoistedDecl? s).toList ++ b) :=
  ((carries_hoistedDecl s).mono (List.Subset.refl _) h).append hab

theorem carries_foldBranch {s' : Stmt} (hs : foldBranch? s = some s')
    (h : ∀ d ∈ skipped s, strays own d ⊆ N) : Carries [] N (s.lifted own) (s'.lifted own) := by
  unfold foldBranch? at hs
  split at hs
  · rename_i test yes no
    obtain ⟨t, ht, rfl⟩ := Option.map_eq_some_iff.1 hs
    simp only [skipped, ht] at h
    cases t with
    | true =>
      rw [if_pos rfl, lifted_withHoisted]
      cases no with
      | none => exact .of_eq (List.append_nil _)
      | some no =>
        have hno := carries_dropped (h no (by simp)) (Carries.refl (yes.lifted own))
        -- the declaration comes first, and what it stands for came last
        exact hno.of_mem (fun x => by simp [Stmt.lifted, or_comm]) fun x => Iff.rfl
    | false =>
      rw [if_neg (by decide), lifted_withHoisted]
      cases no <;> exact carries_dropped (h yes (by simp)) (.refl _)
  · rename_i test body
    split at hs
    · rename_i ht
      cases hs
      rw [lifted_withHoisted]
      have hbody := carries_dropped (h body (by simp [skipped, ht])) (Carries.refl [])
      rwa [List.append_nil] at hbody
    · cases hs
  · rename_i init test step body
    split at hs
    · rename_i ht
      cases hs
      rw [lifted_withHoisted, lifted_headStmt]
      have hbody := carries_dropped (h body (by simp [skipped, ht])) (Carries.refl init.lifted)
      exact hbody.of_mem (fun x => by simp [Stmt.lifted, or_comm]) fun x => Iff.rfl
    · cases hs
  · cases hs

theorem carries_reduced (h : ∀ d ∈ skipped s, strays own d ⊆ N) :
    Carries [] N (s.lifted own) ((reduced s).lifted own) := by
  rw [← lifted_dropEmptyElse own s]
  unfold reduced
  cases hs : foldBranch? (dropEmptyElse s) with
  | none => exact .refl _
  | some s' => exact carries_foldBranch hs fun d hd => h d (skipped_dropEmptyElse s hd)

variable {ss : List Stmt}

theorem carries_map_reduced (h : ∀ d ∈ ss.flatMap skipped, strays own d ⊆ N) :
    Carries [] N (liftedOf own ss) (liftedOf own (ss.map reduced)) := by
  induction ss with
  | nil => exact .refl _
  | cons s ss ih =>
    simp only [List.flatMap_cons, List.mem_append] at h
    exact (carries_reduced fun d hd => h d (.inl hd)).append (ih fun d hd => h d (.inr hd))

theorem lifted_of_isInert (h : isInert s = true) : s.lifted own = [] := by
  unfold isInert at h
  split at h <;> first | rfl | cases h

theorem carries_cleanList {reachable : Bool} (h : ∀ d ∈ unreached reachable ss, strays own d ⊆ N) :
    Carries [] N (liftedOf own ss) (liftedOf own (cleanList reachable ss).1) := by
  refine cleanList_relates (R := fun ss ts => Carries [] N (liftedOf own ss) (liftedOf own ts))
    (.refl _) ?_ (fun s => .refl _) (.refl _) ?_ reachable ss ?_ ?_
  · intro ss ss' ts ts' hs ht
    rw [liftedOf_append, liftedOf_append]
    exact hs.append ht
  · intro s hs
    rw [liftedOf_singleton, lifted_of_isInert hs]
    exact .refl _
  · intro body _
    exact .of_eq (liftedOf_singleton ..)
  · intro s hs
    rw [liftedOf_singleton]
    exact (carries_hoistedDecl s).mono (List.Subset.refl _) (h s hs)

end Steps

/-! ### The pass with a record -/

section Record

variable {β : Type} [DecidableEq β] {one : Stmt → List β} {all : List Stmt → List β}

/-- The pass, with a note for each step: that of `one` for a statement that stands alone, that of
`all` for a list. -/
def noting (one : Stmt → List β) (all : List Stmt → List β) : Edits (List β) where
  single := fun s => do
    modify (· ++ one s)
    return reduced s
  list := fun ss => do
    modify (· ++ all ss)
    return (cleanList true (ss.map reduced)).1

def noted (one : Stmt → List β) (all : List Stmt → List β) (ss : List Stmt) : List β :=
  ((editList (noting one all) ss).run []).2

/-- The pass, leaving alone what would be noted with more than is given. -/
def pruningWithin (N : List β) (one : Stmt → List β) (all : List Stmt → List β) : Edits Unit where
  single := fun s => pure (if one s ⊆ N then reduced s else s)
  list := fun ss => pure (if all ss ⊆ N then (cleanList true (ss.map reduced)).1 else ss)

omit [DecidableEq β] in
theorem noting_agrees : Edits.Agrees (fun _ _ => True) (noting one all) pruning where
  single _ := Agree.to fun _ _ _ => ⟨rfl, trivial⟩
  labelled _ := Agree.to fun _ _ _ => ⟨rfl, trivial⟩
  list _ := Agree.to fun _ _ _ => ⟨rfl, trivial⟩

/-- A step that only adds to the record agrees with a choice by what it adds. -/
theorem agreeTo_note {N notes : List β} {a b : α} :
    AgreeTo (· ⊆ N) (fun _ _ => True) (do modify (· ++ notes); return a : StateM (List β) α)
      (pure (if notes ⊆ N then a else b) : StateM Unit α) := by
  refine ⟨fun s hend => ?_, fun s t _ hend => ⟨?_, trivial⟩⟩
  · exact fun x hx => hend (List.mem_append_left notes hx)
  · have hnotes : notes ⊆ N := fun x hx => hend (List.mem_append_right s hx)
    exact (if_pos hnotes).symm

theorem noting_agreesTo (N : List β) :
    Edits.AgreesTo (· ⊆ N) (fun _ _ => True) (noting one all) (pruningWithin N one all) where
  single _ := agreeTo_note
  labelled _ := agreeTo_note
  list _ := agreeTo_note

/-- With what it notes allowed, the pass is not held back anywhere. -/
theorem pruned_within (one : Stmt → List β) (all : List Stmt → List β) (ss : List Stmt) :
    result (editList (pruningWithin (noted one all ss) one all) ss) =
      result (editList pruning ss) := by
  have hpruning : ((editList (noting one all) ss).run []).1 = result (editList pruning ss) :=
    (editList_agree noting_agrees ss).result_eq []
  have hwithin := (editList_agreeTo (noting_agreesTo (noted one all ss)) ss).2 [] () trivial
    (List.Subset.refl _)
  exact hwithin.1.symm.trans hpruning

end Record

/-! ### Hoisted names -/

/-- The names that a reduced statement brings in besides those it lifts. -/
def branchStrays (own : String → Bool) (s : Stmt) : List String :=
  (skipped s).flatMap (strays own)

/-- The names that a cleaned list brings in besides those it lifts. -/
def listStrays (own : String → Bool) (ss : List Stmt) : List String :=
  (ss.flatMap skipped ++ unreached true (ss.map reduced)).flatMap (strays own)

theorem pruningWithin_lifts {β : Type} [DecidableEq β] {own : String → Bool} {M : List String}
    {N : List β} {one : Stmt → List β} {all : List Stmt → List β}
    (hone : ∀ s, one s ⊆ N → branchStrays own s ⊆ M)
    (hall : ∀ ss, all ss ⊆ N → listStrays own ss ⊆ M) :
    (pruningWithin N one all).Lifts own (Carries [] M) := by
  have hsingle : ∀ s, Carries [] M (s.lifted own)
      ((if one s ⊆ N then reduced s else s).lifted own) := by
    intro s
    split
    · rename_i h
      exact carries_reduced fun d hd x hx => hone s h (List.mem_flatMap.2 ⟨d, hd, hx⟩)
    · exact .refl _
  have hlist : ∀ ss, Carries [] M (liftedOf own ss)
      (liftedOf own (if all ss ⊆ N then (cleanList true (ss.map reduced)).1 else ss)) := by
    intro ss
    split
    · rename_i h
      have hstrays : ∀ d ∈ ss.flatMap skipped ++ unreached true (ss.map reduced),
          strays own d ⊆ M := fun d hd x hx => hall ss h (List.mem_flatMap.2 ⟨d, hd, hx⟩)
      rw [List.forall_mem_append] at hstrays
      exact (carries_map_reduced hstrays.1).trans (carries_cleanList hstrays.2)
    · exact .refl _
  exact ⟨Carries.composes _ _, fun _ => rfl, fun _ => .refl _, hsingle, hsingle, hlist⟩

/-- The names declared in the accessors of object literals in the code that is dropped from a list
and from inside it. -/
def strayNames (ss : List Stmt) : List String :=
  noted (branchStrays loosely) (listStrays loosely) ss

theorem carries_pruned (ss : List Stmt) :
    Carries [] (strayNames ss) (hoistedIn ss) (hoistedIn (result (editList pruning ss))) := by
  have hw : (pruningWithin (strayNames ss) (branchStrays loosely) (listStrays loosely)).Lifts
      loosely (Carries [] (strayNames ss)) :=
    pruningWithin_lifts (fun _ => id) (fun _ => id)
  have h := hw.edited ss
  rwa [strayNames, pruned_within] at h

theorem carries_prunedBody (b : Body) :
    Carries [] (strayNames b.stmts) (hoistedIn b.stmts)
      (hoistedIn (result (editBody pruning b)).stmts) := by
  cases b with
  | absent => exact .refl _
  | expr => exact .refl []
  | block ss => exact carries_pruned ss

/-- Removing dead code loses no name that the program or one of its functions hoists, and adds none
but those that are declared in the accessors of object literals in dropped code. -/
theorem removeDeadCode_carries_hoisted (p : Program) :
    Carries [] (strayNames p.body) (hoistedIn p.body) (hoistedIn (removeDeadCode p).1.body) ∧
      ∀ b' ∈ (removeDeadCode p).1.bodies, ∃ b ∈ p.bodies, b' = result (editBody pruning b) ∧
        Carries [] (strayNames b.stmts) (hoistedIn b.stmts) (hoistedIn b'.stmts) := by
  rw [removeDeadCode_eq]
  refine ⟨carries_pruned p.body, fun b' hb' => ?_⟩
  obtain ⟨b, hb, hmade, -⟩ := pruning_tracesBodies.program p b' hb'
  have hb'eq : b' = result (editBody pruning b) := by
    rcases hmade with rfl | ⟨f, rfl, rfl⟩
    · rfl
    · exact body_editFunc pruning f
  exact ⟨b, hb, hb'eq, hb'eq ▸ carries_prunedBody b⟩

/-- `if (false) { o = { get a() { var x; } }; }` -/
def deadAccessor : Stmt :=
  .ite (.ofBool false)
    (.block [.expr (.assign .plain (.name (.ofIdent { name := "o" }))
      (.object [.getter (.name "a") [.decl (.var (.single .var { name := "x" } none))]]))]) none

/-- `function f() { if (false) { o = { get a() { var x; } }; } var y; }` -/
def deadAccessorInside : Program where
  grammar := .script
  body := [.decl (.func { name := "f" } (.mk false false [] [] none
    (.block [deadAccessor, .decl (.var (.single .var { name := "y" } none))])))]

theorem removeDeadCode_carries_hoisted_function :
    ∃ b' ∈ (removeDeadCode deadAccessorInside).1.bodies,
      (hoistedIn b'.stmts).map Ident.name = ["x", "y"] ∧
      ∃ b ∈ deadAccessorInside.bodies, b' = result (editBody pruning b) ∧
        Carries [] (strayNames b.stmts) (hoistedIn b.stmts) (hoistedIn b'.stmts) :=
  ⟨_, .head _, by decide, (removeDeadCode_carries_hoisted deadAccessorInside).2 _ (.head _)⟩

/-- What is added cannot be left out: the name in a dropped accessor becomes one of the program. -/
theorem removeDeadCode_hoists_from_accessor :
    hoistedIn [deadAccessor] = [] ∧
      hoistedIn (removeDeadCode { grammar := .script, body := [deadAccessor] }).1.body =
        [{ name := "x" }] := by
  decide

end Pass

end Untangle
