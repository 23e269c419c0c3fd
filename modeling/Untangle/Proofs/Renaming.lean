import Untangle.Proofs.FreshNames
import Untangle.Proofs.Respelling

/-!
# Renaming keeps variables apart

Renaming spells some variables anew and then drops all tags. Resolving the result gives the resolved
program back under the new spellings: two occurrences mean the same variable exactly if they did
before, and names that others can see stay.

* `Program.respelled` — a program with its variables spelled in another way. Labels and keys stay;
  where a key and a name were written as one, they are written apart.
* `Item.pinned` — the variables that must keep their names.
* `AlphaRenaming` — what a good renaming is.

The conditions are needed. A declaration that only tells of a variable elsewhere is not resolved, but
its name is changed (`rename_ambient`); the outer name of an export is changed with a variable that
happens to have it (`rename_alias`); and what resolution hoists can depend on a name in another
function (`rename_rehoists`). The last asks for more than is needed: a function of a block may be
hoisted otherwise and no occurrence change its variable.
-/

namespace Untangle

/-- Edits that spell every variable anew. -/
def spellEdits (ν : Binding → String) : Edits Unit where
  ident := fun id => pure (id.withName (ν id.binding))
  label := pure

/-- A program with its variables spelled in another way. -/
def Program.respelled (ν : Binding → String) (p : Program) : Program := edited (spellEdits ν) () p

/-! ### Walks over a program -/

/-- The occurrences of a numbered program under other spellings. -/
def respellEdits (ν : Binding → String) (tags : List (Nat × ScopeTag)) : Edits Unit where
  ident := fun id => pure (respellFor ν tags id)
  label := pure

theorem numberEdits_namesOnly : numberEdits.NamesOnly := rfl

theorem tagEdits_namesOnly (tags : List (Nat × ScopeTag)) : (tagEdits tags).NamesOnly := rfl

theorem untagEdits_namesOnly : untagEdits.NamesOnly := rfl

theorem spellEdits_namesOnly (ν : Binding → String) : (spellEdits ν).NamesOnly := rfl

theorem respellEdits_namesOnly (ν : Binding → String) (tags : List (Nat × ScopeTag)) :
    (respellEdits ν tags).NamesOnly := rfl

theorem renameEdits_namesOnly (names : Table Binding String) :
    (Pass.renameEdits names).NamesOnly := rfl

theorem numberEdits_keepsText : KeepsText numberEdits.ident := fun _ _ => rfl

theorem tagEdits_keepsText (tags : List (Nat × ScopeTag)) : KeepsText (tagEdits tags).ident :=
  fun _ _ => rfl

theorem untagEdits_keepsText : KeepsText untagEdits.ident := fun _ _ => rfl

theorem resolving_keepsText (tags : List (Nat × ScopeTag)) :
    KeepsText (numberEdits.andThen (tagEdits tags)).ident := fun _ _ => rfl

theorem tagged_respelled (ν : Binding → String) (tags : List (Nat × ScopeTag)) (p : Program) :
    edited (tagEdits tags) () (edited (respellEdits ν tags) () p.numbered) =
      (edited (tagEdits tags) () p.numbered).respelled ν := by
  show edited (tagEdits tags) () (edited (respellEdits ν tags) () (edited numberEdits 0 p)) =
    edited (spellEdits ν) () (edited (tagEdits tags) () (edited numberEdits 0 p))
  rw [edited_twice numberEdits_namesOnly (respellEdits_namesOnly ν tags)
      (.inl numberEdits_keepsText),
    edited_twice (Edits.namesOnly_andThen _ _) (tagEdits_namesOnly tags)
      (.inr (tagEdits_keepsText tags)),
    edited_twice numberEdits_namesOnly (tagEdits_namesOnly tags) (.inl numberEdits_keepsText),
    edited_twice (Edits.namesOnly_andThen _ _) (spellEdits_namesOnly ν)
      (.inl (resolving_keepsText tags))]
  refine edited_congr (R := fun s t => s.1.1 = t.1.1) (Edits.namesOnly_andThen _ _)
    (Edits.namesOnly_andThen _ _) ?_ ?_ rfl p
  · rintro id ⟨⟨n, _⟩, _⟩ ⟨⟨k, _⟩, _⟩ hst
    obtain rfl : n = k := hst
    exact ⟨rfl, rfl⟩
  · rintro id ⟨⟨n, _⟩, _⟩ ⟨⟨k, _⟩, _⟩ hst
    exact ⟨rfl, hst⟩

/-- Renaming the resolved program, dropping the tags and numbering again is the same as spelling the
numbered program anew. -/
theorem numbered_renamed {ν : Binding → String} {names : Table Binding String}
    (hν : ∀ id : Ident, (Pass.renamed? names id).getD id = id.withName (ν id.binding))
    (hunset : ∀ x, ν ⟨x, .unset⟩ = x) (tags : List (Nat × ScopeTag)) (p : Program) :
    (edited (Pass.renameEdits names) () (edited (tagEdits tags) () p.numbered)).untagged.numbered =
      edited (respellEdits ν tags) () p.numbered := by
  show edited numberEdits 0 (edited untagEdits () (edited (Pass.renameEdits names) ()
    (edited (tagEdits tags) () (edited numberEdits 0 p)))) =
    edited (respellEdits ν tags) () (edited numberEdits 0 p)
  rw [edited_twice numberEdits_namesOnly (tagEdits_namesOnly tags) (.inl numberEdits_keepsText),
    edited_twice (Edits.namesOnly_andThen _ _) (renameEdits_namesOnly names)
      (.inl (resolving_keepsText tags)),
    edited_twice (Edits.namesOnly_andThen _ _) untagEdits_namesOnly (.inr untagEdits_keepsText),
    edited_twice (Edits.namesOnly_andThen _ _) numberEdits_namesOnly (.inr numberEdits_keepsText),
    edited_twice numberEdits_namesOnly (respellEdits_namesOnly ν tags)
      (.inl numberEdits_keepsText)]
  -- both counters of the five walks in one are the counter of the two
  refine edited_congr (R := fun s t => s.1.1.1.1 = t.1 ∧ s.2 = t.1) (Edits.namesOnly_andThen _ _)
    (Edits.namesOnly_andThen _ _) ?_ ?_ ⟨rfl, rfl⟩ p
  · rintro id ⟨⟨⟨⟨n, _⟩, _⟩, _⟩, k⟩ ⟨i, _⟩ hst
    obtain ⟨rfl, rfl⟩ : n = i ∧ k = i := hst
    have hname := hν ⟨id.name, (tags.lookup k).getD .unset, id.pos⟩
    exact ⟨congrArg (fun x : Ident => { x with scope := .occurrence k }) hname, rfl, rfl⟩
  · rintro id ⟨⟨⟨⟨n, _⟩, _⟩, _⟩, k⟩ ⟨i, _⟩ hst
    have hname : (Pass.renamed? names ⟨id.name, .unset, id.pos⟩).getD ⟨id.name, .unset, id.pos⟩ =
        ⟨id.name, .unset, id.pos⟩ := by
      rw [hν]
      show Ident.mk (ν ⟨id.name, .unset⟩) .unset id.pos = _
      rw [hunset]
    exact ⟨congrArg (fun x : Ident => { x with scope := .unset }) hname, hst⟩

/-! ### Names that stay -/

/-- The name under which others know an exported variable, where it is written. -/
def ExportItem.alias? : ExportItem → Option Ident
  | .named _ _ (some (.ident id)) => some id
  | _ => none

def Item.aliases : Item → List Binding
  | .stmt (.exportNamed _ items none _) => (items.filterMap ExportItem.alias?).map Ident.binding
  | _ => []

/-- The variables that an item imports or exports, or that may mean something else where it stands. -/
def Item.pinned : Item → List Binding
  | .importItem i => [i.binding.binding]
  | .stmt (.exportDecl d) => (Pass.exportedNames d).map Ident.binding
  | .stmt (.exportDefaultFunc (some name) _) => [name.binding]
  | .stmt (.exportDefaultClass (some name) _) => [name.binding]
  | .stmt (.exportNamed _ items none _) => (Pass.localNames items).map Ident.binding
  | .stmt (.with _ body) => (outlineStmt body).mentions
  | _ => []

variable {onlyMangled : Bool} {p : Program}

namespace Pass

theorem declareAll_fixed (d : Declarations) (hint : String) (ids : List Ident) :
    (d.declareAll hint ids).fixed = d.fixed := by
  unfold Declarations.declareAll
  induction ids generalizing d with
  | nil => rfl
  | cons id ids ih =>
    rw [List.foldl_cons, ih]
    unfold Declarations.declare
    split <;> rfl

theorem note_fixed (d : Declarations) (item : Item) :
    (d.note item).fixed = d.fixed ++ item.pinned := by
  have hone : ∀ (hint : String) (id : Ident), (d.declare hint id).fixed = d.fixed ++ [] := by
    intro hint id
    rw [List.append_nil]
    exact declareAll_fixed d hint [id]
  have hall : ∀ (hint : String) (ids : List Ident),
      (d.declareAll hint ids).fixed = d.fixed ++ [] := by
    intro hint ids
    rw [List.append_nil, declareAll_fixed]
  have hnone : d.fixed = d.fixed ++ [] := (List.append_nil _).symm
  cases item with
  | declarator d =>
    obtain ⟨target, init, definite⟩ := d
    cases target with
    | name b => exact hone _ _
    | _ => exact hall _ _
  | funcDecl | classDecl => exact hone _ _
  | param => exact hall _ _
  | expr e =>
    cases e with
    | func name | cls name =>
      cases name with
      | none => exact hnone
      | some => exact hone _ _
    | arrow f =>
      obtain ⟨isAsync, isGenerator, typeParams, params, ret, body⟩ := f
      exact hall _ _
    | _ => exact hnone
  | property p =>
    cases p with
    | setter => exact hall _ _
    | _ => exact hnone
  | caught c =>
    obtain ⟨_ | p, body⟩ := c
    · exact hnone
    · exact hall _ _
  | importItem i => cases i <;> rfl
  | stmt s =>
    cases s with
    | exportDecl | «with» => rfl
    | exportDefaultFunc name | exportDefaultClass name =>
      cases name with
      | none => exact hnone
      | some => rfl
    | exportNamed _ _ source =>
      cases source with
      | none => rfl
      | some => exact hnone
    | _ => exact hnone
  | _ => exact hnone

theorem collect_fixed (p : Program) :
    (Declarations.collect p).fixed = p.items.flatMap Item.pinned := by
  have hfold : ∀ (items : List Item) (d : Declarations),
      (items.foldl Declarations.note d).fixed = d.fixed ++ items.flatMap Item.pinned := by
    intro items
    induction items with
    | nil => exact fun d => (List.append_nil _).symm
    | cons item items ih =>
      intro d
      rw [List.foldl_cons, ih, note_fixed, List.flatMap_cons, List.append_assoc]
  exact hfold p.items {}

/-! ### The pass -/

def renamedVariables (onlyMangled : Bool) (p : Program) : List Binding :=
  ((Declarations.collect p).targets p.isModule onlyMangled).map Prod.fst

variable {b : Binding}

theorem mem_renamedVariables (h : b ∈ renamedVariables onlyMangled p) :
    b ∉ p.items.flatMap Item.pinned ∧ (p.isModule = false → b.scope ≠ .top) := by
  obtain ⟨e, he, rfl⟩ := List.mem_map.1 h
  have hkept := (List.mem_filter.1 ((List.mergeSort_perm _ _).mem_iff.1 he)).2
  simp only [Bool.and_eq_true, Bool.not_eq_true', List.contains_eq_mem, decide_eq_false_iff_not,
    collect_fixed, Bool.or_eq_true, bne_iff_ne] at hkept
  obtain ⟨⟨hfixed, htop⟩, -⟩ := hkept
  refine ⟨hfixed, fun hscript => ?_⟩
  simpa [hscript] using htop

/-- The new names of the variables that are renamed. -/
def renamingTable (onlyMangled : Bool) (p : Program) : Table Binding String :=
  newNames { taken := p.names } ((Declarations.collect p).targets p.isModule onlyMangled)

/-- How every variable is spelled after renaming. -/
def newSpelling (onlyMangled : Bool) (p : Program) (b : Binding) : String :=
  ((renamingTable onlyMangled p).find? b).getD b.name

section Spelling

variable (onlyMangled : Bool) (p : Program)

theorem find_renamingTable {x : String} (h : (renamingTable onlyMangled p).find? b = some x) :
    (b, x) ∈ renamingTable onlyMangled p := by
  obtain ⟨before, after, heq, -⟩ := List.lookup_eq_some_iff.1 h
  rw [heq]
  simp

theorem renamingTable_variables :
    (renamingTable onlyMangled p).map Prod.fst = renamedVariables onlyMangled p :=
  newNames_variables _ _

theorem newSpelling_renamed (h : b ∈ renamedVariables onlyMangled p) :
    ∃ x, (renamingTable onlyMangled p).find? b = some x ∧ newSpelling onlyMangled p b = x := by
  rw [← renamingTable_variables] at h
  obtain ⟨e, he, rfl⟩ := List.mem_map.1 h
  have hfound : ((renamingTable onlyMangled p).find? e.1).isSome = true :=
    List.lookup_isSome_iff.2 ⟨e, he, by simp⟩
  obtain ⟨x, hx⟩ := Option.isSome_iff_exists.1 hfound
  exact ⟨x, hx, by simp [newSpelling, hx]⟩

theorem newSpelling_other (h : b ∉ renamedVariables onlyMangled p) :
    newSpelling onlyMangled p b = b.name := by
  unfold newSpelling
  rcases hfound : (renamingTable onlyMangled p).find? b with _ | x
  · rfl
  · have hmem := List.mem_map_of_mem (f := Prod.fst) (find_renamingTable onlyMangled p hfound)
    rw [renamingTable_variables] at hmem
    exact absurd hmem h

theorem newSpelling_fresh (h : b ∈ renamedVariables onlyMangled p) :
    newSpelling onlyMangled p b ∉ p.names := by
  obtain ⟨x, hfound, hx⟩ := newSpelling_renamed onlyMangled p h
  rw [hx]
  exact newNames_fresh (List.mem_map_of_mem (find_renamingTable onlyMangled p hfound))

variable {a : Binding}

theorem newSpelling_injective (ha : a ∈ renamedVariables onlyMangled p)
    (hb : b ∈ renamedVariables onlyMangled p)
    (heq : newSpelling onlyMangled p a = newSpelling onlyMangled p b) : a = b := by
  obtain ⟨x, hx, hax⟩ := newSpelling_renamed onlyMangled p ha
  obtain ⟨y, hy, hby⟩ := newSpelling_renamed onlyMangled p hb
  have hentries : (a, x) = (b, y) :=
    List.inj_on_of_nodup_map (newNames_nodup _ _) (find_renamingTable onlyMangled p hx)
      (find_renamingTable onlyMangled p hy) (hax.symm.trans (heq.trans hby))
  exact congrArg Prod.fst hentries

theorem newSpelling_apart (ha : a.name ∈ p.names) (hb : b.name ∈ p.names)
    (heq : newSpelling onlyMangled p a = newSpelling onlyMangled p b) :
    a = b ∨ (newSpelling onlyMangled p a = a.name ∧ newSpelling onlyMangled p b = b.name) := by
  by_cases hra : a ∈ renamedVariables onlyMangled p
  · by_cases hrb : b ∈ renamedVariables onlyMangled p
    · exact .inl (newSpelling_injective onlyMangled p hra hrb heq)
    · have hfresh := newSpelling_fresh onlyMangled p hra
      rw [heq, newSpelling_other onlyMangled p hrb] at hfresh
      exact absurd hb hfresh
  · by_cases hrb : b ∈ renamedVariables onlyMangled p
    · have hfresh := newSpelling_fresh onlyMangled p hrb
      rw [← heq, newSpelling_other onlyMangled p hra] at hfresh
      exact absurd ha hfresh
    · exact .inr ⟨newSpelling_other onlyMangled p hra, newSpelling_other onlyMangled p hrb⟩

theorem renamed?_eq (id : Ident) :
    (renamed? (renamingTable onlyMangled p) id).getD id =
      id.withName (newSpelling onlyMangled p id.binding) := by
  unfold renamed? newSpelling
  rcases (renamingTable onlyMangled p).find? id.binding with _ | x <;> rfl

end Spelling

end Pass

/-! ### Resolving a renamed program -/

/-- A resolved program that is another one under other spellings, with every variable told from
the others as before, and the names that mean something to others unchanged. -/
structure AlphaRenaming (q q' : Program) (ν : Binding → String) : Prop where
  /-- The tree is the same but for the spellings, and every occurrence is in the scope that it was
  in. -/
  tree : q' = q.respelled ν
  /-- Two occurrences mean the same variable now exactly if they did. -/
  apart : ∀ a ∈ mentionsOf (outlineProgram q), ∀ b ∈ mentionsOf (outlineProgram q),
    ν a = ν b ∧ a.scope = b.scope ↔ a = b
  free : ∀ b : Binding, b.scope = .free → ν b = b.name
  /-- Labels, names in types, and the far names of imports and re-exports. -/
  unresolved : ∀ b : Binding, b.scope = .unset → ν b = b.name
  script : q.isModule = false → ∀ b : Binding, b.scope = .top → ν b = b.name
  pinned : ∀ b ∈ q.items.flatMap Item.pinned, ν b = b.name
  aliases : ∀ b ∈ q.items.flatMap Item.aliases, ν b = b.name

theorem numbered_steps_names (p : Program) :
    ∀ s ∈ p.numbered.steps, s.Names p.resolved.names p.isModule := by
  intro s hs
  have hnumbered : s.Names p.numbered.names p.isModule :=
    steps_names numberEdits_namesOnly 0 p s hs
  have hresolved : p.resolved = edited (numberEdits.andThen (tagEdits p.numbered.tags)) (0, ()) p :=
    edited_twice numberEdits_namesOnly (tagEdits_namesOnly _) (.inl numberEdits_keepsText) 0 () p
  have hsteps : p.resolved.steps = p.numbered.steps.map (Step.map _ p.isModule) :=
    steps_mapping (fun id => { id with scope := tagFor p.numbered.tags id }) _ p.numbered
  have htagged := steps_names (Edits.namesOnly_andThen _ _) (0, ()) p
    (s.map _ p.isModule) (hresolved ▸ hsteps ▸ List.mem_map_of_mem hs)
  rw [← hresolved] at htagged
  cases s with
  | refer => exact ⟨hnumbered.1, htagged.2⟩
  | _ => exact htagged

namespace Pass

theorem newSpelling_spells (onlyMangled : Bool) (q : Program)
    (hfree : ∀ b ∈ renamedVariables onlyMangled q, b.scope ≠ .free) :
    Spells q.names q.isModule (newSpelling onlyMangled q) where
  apart _ _ ha hb heq := newSpelling_apart onlyMangled q ha hb heq
  free b hb := newSpelling_other onlyMangled q fun h => hfree b h hb
  top hscript _ hb := newSpelling_other onlyMangled q fun h =>
    (mem_renamedVariables h).2 hscript hb

/-- Renaming, and resolving the result, gives the resolved program under new spellings that keep its
variables apart. Names that others can see stay, and those that change are new to the program. -/
theorem rename_alpha (onlyMangled : Bool) (p : Program)
    (hknown : ∀ b ∈ renamedVariables onlyMangled p.resolved, b.scope ≠ .unset ∧ b.scope ≠ .free)
    (halias : ∀ b ∈ renamedVariables onlyMangled p.resolved,
      b ∉ p.resolved.items.flatMap Item.aliases)
    (hhoist : (rename onlyMangled p).1.hoistChoices = p.hoistChoices) :
    ∃ ν, AlphaRenaming p.resolved (rename onlyMangled p).1.resolved ν ∧
      ∀ b ∈ renamedVariables onlyMangled p.resolved, ν b ∉ p.resolved.names := by
  let T := p.numbered.tags
  let ν := newSpelling onlyMangled p.resolved
  have hspells : Spells p.resolved.names p.isModule ν :=
    newSpelling_spells onlyMangled p.resolved fun b hb => (hknown b hb).2
  have hunset : ∀ b : Binding, b.scope = .unset → ν b = b.name := fun b hb =>
    newSpelling_other onlyMangled _ fun h => (hknown b h).1 hb
  have hnumbered : (rename onlyMangled p).1.numbered = edited (respellEdits ν T) () p.numbered :=
    numbered_renamed (renamed?_eq onlyMangled p.resolved) (fun x => hunset ⟨x, .unset⟩ rfl) T p
  have hsteps : (rename onlyMangled p).1.numbered.steps =
      p.numbered.steps.map (Step.map (respellFor ν T) p.isModule) := by
    rw [hnumbered]
    exact steps_mapping (respellFor ν T) pure p.numbered
  have htags : (rename onlyMangled p).1.numbered.tags = T :=
    tags_respelled hspells hsteps (numbered_steps_names p) hhoist
  refine ⟨ν, ⟨?tree, ?apart, hspells.free, hunset, hspells.top, ?pinned, ?aliases⟩,
    fun b hb => newSpelling_fresh onlyMangled _ hb⟩
  case tree =>
    show edited (tagEdits (rename onlyMangled p).1.numbered.tags) ()
      (rename onlyMangled p).1.numbered = p.resolved.respelled ν
    rw [htags, hnumbered]
    exact tagged_respelled ν T p
  case apart =>
    intro a ha b hb
    refine ⟨fun ⟨heq, hscope⟩ => ?_, fun h => h ▸ ⟨rfl, rfl⟩⟩
    obtain ⟨i, hi, rfl⟩ := List.mem_map.1 ha
    obtain ⟨k, hk, rfl⟩ := List.mem_map.1 hb
    rcases hspells.apart _ _ (List.mem_map_of_mem hi) (List.mem_map_of_mem hk) heq with h | h
    · exact h
    · have hname : i.binding.name = k.binding.name := h.1.symm.trans (heq.trans h.2)
      exact Binding.mk.injEq .. ▸ ⟨hname, hscope⟩
  case pinned =>
    exact fun b hb => newSpelling_other onlyMangled _ fun h => (mem_renamedVariables h).1 hb
  case aliases =>
    exact fun b hb => newSpelling_other onlyMangled _ fun h => halias b h hb

/-! ### Programs -/

theorem rename_of_targets {ts : List (Binding × Declared)}
    (h : (Declarations.collect p.resolved).targets p.resolved.isModule onlyMangled = ts) :
    (rename onlyMangled p).1 =
      (edited (renameEdits (newNames { taken := p.resolved.names } ts)) () p.resolved).untagged := by
  rw [← h]
  rfl

/-- `function g(ab) { { let ab = []; f({ ab }); } return ab; }` -/
def shadowing : Program where
  grammar := .script
  body := [.decl (.func { name := "g" } (.mk false false [] [.name (.ofIdent { name := "ab" })] none
    (.block [
      .block [.decl (.var (.single .let { name := "ab" } (some (.array [])))),
        .expr (.call (.ofName "f") [.object [.shorthand { name := "ab" }]])],
      .return (some (.ofName "ab"))])))]

theorem shadowing_targets :
    (Declarations.collect shadowing.resolved).targets shadowing.resolved.isModule false =
      [(⟨"ab", .inner 0⟩, ⟨0, "arg"⟩), (⟨"ab", .inner 1⟩, ⟨0, "arr"⟩)] := by
  unfold Declarations.targets
  rw [List.mergeSort_of_pairwise (by decide +kernel)]
  rfl

/-- A parameter and a variable in a block that share a name are told apart afterwards. -/
theorem rename_alpha_shadowing :
    renamedVariables false shadowing.resolved = [⟨"ab", .inner 0⟩, ⟨"ab", .inner 1⟩] ∧
      ∃ ν, AlphaRenaming shadowing.resolved (rename false shadowing).1.resolved ν ∧
        ∀ b ∈ renamedVariables false shadowing.resolved, ν b ∉ shadowing.resolved.names := by
  have hvariables : renamedVariables false shadowing.resolved =
      [⟨"ab", .inner 0⟩, ⟨"ab", .inner 1⟩] := by
    unfold renamedVariables
    rw [shadowing_targets]
    rfl
  refine ⟨hvariables, rename_alpha false shadowing ?_ ?_ ?_⟩
  · rw [hvariables]
    decide
  · rw [hvariables]
    decide +kernel
  · rw [rename_of_targets shadowing_targets]
    decide +kernel

/-- `declare var foo; foo;` -/
def ambient : Program where
  grammar := .script
  body := [.decl (.ambient (.var (.single .var { name := "foo" } none))), .expr (.ofName "foo")]

/-- A variable that is declared elsewhere is not resolved, and its name at the top of a script is
changed. -/
theorem rename_ambient :
    mentionsOf (outlineProgram ambient.resolved) = [⟨"foo", .unset⟩, ⟨"foo", .free⟩] ∧
      mentionsOf (outlineProgram (rename false ambient).1.resolved) =
        [⟨"var_1", .unset⟩, ⟨"foo", .free⟩] := by
  have htargets : (Declarations.collect ambient.resolved).targets ambient.resolved.isModule false =
      [(⟨"foo", .unset⟩, ⟨0, "var"⟩)] := by
    unfold Declarations.targets
    rw [List.mergeSort_of_pairwise (by decide +kernel)]
    rfl
  rw [rename_of_targets htargets]
  decide +kernel

/-- `let a, b; export { a as b };` -/
def exportingAs : Program where
  grammar := .module
  body := [.decl (.var (.mk .let [.mk (.name (.ofIdent { name := "a" })) none false,
      .mk (.name (.ofIdent { name := "b" })) none false])),
    .exportNamed false [.named false (.ident { name := "a" }) (some (.ident { name := "b" }))] none none]

/-- The name under which a variable is exported is changed with another variable of that name. -/
theorem rename_alias :
    mentionsOf (outlineProgram exportingAs.resolved) =
        [⟨"a", .top⟩, ⟨"b", .top⟩, ⟨"a", .top⟩, ⟨"b", .top⟩] ∧
      mentionsOf (outlineProgram (rename false exportingAs).1.resolved) =
        [⟨"a", .top⟩, ⟨"var_1", .top⟩, ⟨"a", .top⟩, ⟨"var_1", .top⟩] := by
  have htargets :
      (Declarations.collect exportingAs.resolved).targets exportingAs.resolved.isModule false =
        [(⟨"b", .top⟩, ⟨0, "var"⟩)] := by
    unfold Declarations.targets
    rw [List.mergeSort_of_pairwise (by decide +kernel)]
    rfl
  rw [rename_of_targets htargets]
  decide +kernel

/-- `function g() { var e; try {} catch (e) { try {} catch { var e; } } }` -/
def nestedHandlers : Program where
  grammar := .script
  body := [.decl (.func { name := "g" } (.mk false false [] [] none (.block [
    .decl (.var (.single .var { name := "e" } none)),
    .try [] (some (.mk (some (.name (.ofIdent { name := "e" })))
      [.try [] (some (.mk none [.decl (.var (.single .var { name := "e" } none))])) none])) none])))]

/-- A declaration in a handler is hoisted once its name is not that of an outer variable any more. The
caught value and the declaration, one variable before, are two after. -/
theorem rename_rehoists :
    mentionsOf (outlineProgram nestedHandlers.resolved) =
        [⟨"g", .top⟩, ⟨"e", .inner 0⟩, ⟨"e", .inner 2⟩, ⟨"e", .inner 2⟩] ∧
      mentionsOf (outlineProgram (rename false nestedHandlers).1.resolved) =
        [⟨"g", .top⟩, ⟨"var_1", .inner 0⟩, ⟨"err", .inner 2⟩, ⟨"err", .inner 0⟩] := by
  have htargets :
      (Declarations.collect nestedHandlers.resolved).targets nestedHandlers.resolved.isModule false =
        [(⟨"e", .inner 0⟩, ⟨0, "var"⟩), (⟨"e", .inner 2⟩, ⟨0, "err"⟩)] := by
    unfold Declarations.targets
    rw [List.mergeSort_of_pairwise (by decide +kernel)]
    rfl
  rw [rename_of_targets htargets]
  decide +kernel

end Pass

end Untangle
