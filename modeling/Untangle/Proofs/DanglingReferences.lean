import Untangle.Print.Generate
import Untangle.Proofs.ProxyHygiene
import Untangle.Proofs.SequencePieces

/-!
# Nothing refers to what is removed

Lookup objects and string arrays are removed once nothing refers to them, with the functions that
read them and all that is declared inside. Where every name of a program refers to what its spelling
says, the same holds of what is left, so a variable that still occurs is still declared. Names in
types are not resolved and do not count.

Aliases and wrappers are removed in rounds, as one may be all that refers to another. A round takes
away at least as many declarations as it counts, so the rounds end by themselves.
-/

namespace Untangle

open ScopeTree (declarationsOf occurrencesOf)

variable {own : String → Bool} {p q : Program} {ids : List Binding}

/-! ### What occurs is declared -/

/-- Names refer to some variables only, or to nothing. -/
def Scoping.Among (bs : List Binding) (env : Scoping) : Prop :=
  ∀ x, env x = .free ∨ { name := x, scope := env x } ∈ bs

theorem Scoping.Among.within {bs : List Binding} {env : Scoping} (h : env.Among bs)
    {declared : List Ident} (hdeclared : ∀ d ∈ declared, d.binding ∈ bs) :
    (env.within declared).Among bs := by
  intro x
  by_cases hx : x ∈ declared.map Ident.name
  · obtain ⟨d, hd, rfl, hscope⟩ := Scoping.exists_within hx
    rw [hscope]
    exact .inr (hdeclared d hd)
  · rw [Scoping.within_of_not_mem hx]
    exact h x

section Occurrences

variable {bs : List Binding}

mutual

theorem occurs_declared : ∀ (t : ScopeTree) {env : Scoping}, env.Among bs →
    (∀ d ∈ t.declarations, d.binding ∈ bs) → t.Right [] env →
      ∀ o ∈ t.occurrences, o.2.scope = .free ∨ o.2.binding ∈ bs
  | .occurs _ id, env, henv, _, hright, o, ho => by
    have hscope : env id.name = id.scope := hright.resolve_left (by simp [Waives])
    have hamong := henv id.name
    rw [hscope] at hamong
    rw [List.mem_singleton.1 ho]
    exact hamong
  | .scope declared head added body, env, henv, hbs, ⟨_, hhead, _, hbody⟩, o, ho => by
    simp only [ScopeTree.declarations, List.forall_mem_append] at hbs
    obtain ⟨⟨⟨hdeclared, hbshead⟩, hadded⟩, hbsbody⟩ := hbs
    rcases List.mem_append.1 ho with ho | ho
    · exact occursOf_declared head (henv.within hdeclared) hbshead hhead o ho
    · exact occursOf_declared body ((henv.within hdeclared).within hadded) hbsbody hbody o ho

theorem occursOf_declared : ∀ (ts : List ScopeTree) {env : Scoping}, env.Among bs →
    (∀ d ∈ declarationsOf ts, d.binding ∈ bs) → ScopeTree.rightOf [] env ts →
      ∀ o ∈ occurrencesOf ts, o.2.scope = .free ∨ o.2.binding ∈ bs
  | t :: ts, _, henv, hbs, ⟨ht, hts⟩, o, ho => by
    obtain ⟨hbst, hbsts⟩ := List.forall_mem_append.1 hbs
    rcases List.mem_append.1 ho with ho | ho
    · exact occurs_declared t henv hbst ht o ho
    · exact occursOf_declared ts henv hbsts hts o ho

end

end Occurrences

/-- No variable of a program whose declarations are gone occurs in another one. -/
def Program.NoneDangle (own : String → Bool) (p q : Program) : Prop :=
  ∀ d ∈ (p.scopes own).declarations, d.scope ≠ .free →
    d.binding ∉ (q.scopes own).declarations.map Ident.binding →
      ∀ o ∈ (q.scopes own).occurrences, o.2.binding ≠ d.binding

theorem Program.WellBound.noneDangle (h : q.WellBound own []) (p : Program) : p.NoneDangle own q := by
  intro d _ hscope hgone o ho hbinding
  rcases occurs_declared _ (fun _ => .inl rfl) (fun d hd => List.mem_map_of_mem hd) h o ho with
    hfree | hdeclared
  · exact hscope ((congrArg Binding.scope hbinding).symm.trans hfree)
  · exact hgone (hbinding ▸ hdeclared)

theorem occurs_references {o : Bool × Ident} (ho : o ∈ (p.scopes own).occurrences) :
    o.2.binding ∈ p.references := by
  have hoccurs := tally_pos (List.mem_map_of_mem (f := Prod.snd) ho)
  have hweight := program_weight o.2.binding own p
  rw [weight_eq] at hweight
  exact List.count_pos_iff.1 (by omega)

/-! ### Expressions that are replaced -/

def replacing (f : Expr → Expr) : Edits Unit where
  expr := fun e => pure (f e)

/-- What takes the place of an expression mentions nothing. -/
theorem replacing_relatesScopes {f : Expr → Expr}
    (hf : ∀ e, f e = e ∨ scopesExpr own (f e) = []) :
    (replacing f).RelatesScopes own (Drops []) (Removes []) := by
  have hexpr : ∀ a e, Removes [] a (scopesExpr own e) → Removes [] a (scopesExpr own (f e)) := by
    intro a e h
    rcases hf e with hsame | hnone
    · rwa [hsame]
    · rw [hnone]
      exact .drop a
  exact {
    lifts := ⟨Drops.composes [], fun _ => rfl, fun _ => .refl _, fun _ => .refl _,
      fun _ => .refl _, fun _ => .refl _⟩
    nil := .refl _
    append := .append
    scope := .scope
    other := fun _ => .refl _
    name := fun id => hexpr _ (.ident id) (.refl _)
    nameBase := fun id => hexpr _ (.ident id) (.refl _)
    expr := fun a e _ => hexpr a e
    base := fun a e _ => hexpr a e
    varDeclDirect := fun _ => .refl _
    listDirect := fun _ => .refl _
  }

/-! ### Weights of removed declarations -/

/-- From one count to another, outlines lose at least as much as is counted. -/
def Sheds (weight : Item → Nat) : OutlineRel Nat := fun n before m after =>
  m + weigh weight after ≤ n + weigh weight before

/-- Weights that depend on the kind of an item, to which statements add nothing and everything that
can be removed adds something. -/
structure DeclWeight (weight : Item → Nat) : Prop where
  edited : ∀ {ids i i'}, Item.Edited (removeEdits ids) i i' → weight i' = weight i
  expr : ∀ e e', weight (.expr e) = weight (.expr e')
  stmt : ∀ s, weight (.stmt s) = 0
  varDecl : ∀ d d', weight (.varDecl d) = weight (.varDecl d')
  declarator : ∀ b init definite,
    1 ≤ weigh weight [outlineDeclarator (.mk (.name b) init definite)]
  func : ∀ name f, 1 ≤ weigh weight (outlineDecl (.func name f))

section Weights

variable {weight : Item → Nat} (hw : DeclWeight weight) (ids : List Binding)

/-- What a list loses is counted, where everything that goes weighs something. -/
theorem filter_sheds {α : Type} {outline : α → Outline} {goes : α → Bool}
    (h : ∀ x, goes x = true → 1 ≤ weigh weight [outline x]) (xs : List α) :
    xs.length - (xs.filter fun x => !goes x).length +
        weigh weight ((xs.filter fun x => !goes x).map outline) ≤
      weigh weight (xs.map outline) := by
  induction xs with
  | nil => exact Nat.le_refl _
  | cons x xs ih =>
    have hlength := List.length_filter_le (fun x => !goes x) xs
    rw [List.map_cons, weigh_cons]
    cases hx : goes x with
    | true =>
      have hone := h x hx
      rw [List.filter_cons_of_neg (by simp [hx]), List.length_cons]
      omega
    | false =>
      rw [List.filter_cons_of_pos (by simp [hx]), List.map_cons, weigh_cons]
      simp only [List.length_cons]
      omega

include hw

theorem weigh_tidyEmptied (s : Stmt) :
    weigh weight [outlineStmt (tidyEmptied s)] ≤ weigh weight [outlineStmt s] := by
  unfold tidyEmptied
  split
  · split
    · rw [outlineStmt, Outline.leaf, weigh_node, hw.stmt]
      exact Nat.zero_le _
    · exact Nat.le_refl _
  · rename_i kind test step body
    have hfor : ∃ c, ∀ head, weigh weight [outlineStmt (.for head test step body)] =
        weigh weight (outlineHead head) + c :=
      ⟨_, fun head => by
        rw [outlineStmt.eq_def]
        simp only [weigh_node, hw.stmt, Nat.zero_add, weigh_append, Nat.add_assoc]
        rfl⟩
    obtain ⟨c, hc⟩ := hfor
    rw [hc, hc]
    exact Nat.add_le_add_right (Nat.zero_le _) c
  · exact Nat.le_refl _

theorem declaresOneOf_weighs : ∀ d : Declarator, d.declaresOneOf ids = true →
    1 ≤ weigh weight [outlineDeclarator d]
  | .mk (.name b) init definite, _ => hw.declarator b init definite

theorem func_weighs : ∀ d : Decl, (Stmt.decl d).isFuncOf ids = true →
    1 ≤ weigh weight (outlineDecl d)
  | .ambient d, h => func_weighs d h
  | .func name f, _ => hw.func name f

theorem isFuncOf_weighs : ∀ s : Stmt, s.isFuncOf ids = true → 1 ≤ weigh weight [outlineStmt s]
  | .decl d, h => by
    rw [outlineStmt, weigh_node, hw.stmt, Nat.zero_add]
    exact func_weighs hw ids d h

theorem weigh_tidied (ss : List Stmt) :
    weigh weight (((ss.map tidyEmptied).filter fun s => !s.isEmpty).map outlineStmt) ≤
      weigh weight (ss.map outlineStmt) := by
  induction ss with
  | nil => exact Nat.le_refl _
  | cons s ss ih =>
    have htidy := weigh_tidyEmptied hw s
    rw [List.map_cons, List.map_cons, weigh_cons, List.filter_cons]
    split
    · rw [List.map_cons, weigh_cons]
      omega
    · omega

theorem removeEdits_sheds :
    (removeEdits ids).RelatesOutlines (Sheds weight) (Sheds weight) (Sheds weight) := by
  have happend : ∀ {n m k a a' b b'}, Sheds weight n a m a' → Sheds weight m b k b' →
      Sheds weight n (a ++ b) k (a' ++ b') := by
    intro n m k a a' b b' h h'
    unfold Sheds at h h' ⊢
    rw [weigh_append, weigh_append]
    omega
  have hnode : ∀ {n m i i' os os'}, weight i' = weight i → Sheds weight n os m os' →
      Sheds weight n [.node i os] m [.node i' os'] := by
    intro n m i i' os os' hi h
    unfold Sheds at h ⊢
    rw [weigh_node, weigh_node, hi]
    omega
  have hsingle : ∀ {n m a} s, Sheds weight n a m [outlineStmt s] →
      Sheds weight n a m [outlineStmt (tidyEmptied s)] := fun s h =>
    Nat.le_trans (Nat.add_le_add_left (weigh_tidyEmptied hw s) _) h
  have hstmt : ∀ s s', weight (.stmt s') = weight (.stmt s) := fun s s' => by
    rw [hw.stmt, hw.stmt]
  exact {
    nil := fun _ => Nat.le_refl _
    append := happend
    perm := fun ha hb h => by
      unfold Sheds at h ⊢
      rwa [← weigh_perm ha, ← weigh_perm hb]
    ident := fun _ _ => Nat.le_refl _
    label := fun _ _ => Nat.le_refl _
    word := fun _ _ => Nat.le_refl _
    str := fun _ _ => Nat.le_refl _
    num := fun _ _ => Nat.le_refl _
    node := fun hi => hnode (hw.edited hi)
    exprNode := fun _ => hnode (hw.expr _ _)
    varDecl := by
      rintro n m a ⟨kind, ds⟩ h
      have hds := filter_sheds (declaresOneOf_weighs hw ids) ds
      have hkind := hw.varDecl (.mk kind (ds.filter fun d => !d.declaresOneOf ids)) (.mk kind ds)
      unfold Sheds at h ⊢
      rw [outlineVarDecl, weigh_node, outlineDeclarators_eq_map] at h
      show m + (ds.length - (ds.filter fun d => !d.declaresOneOf ids).length) +
        weigh weight [.node (.varDecl _) (outlineDeclarators _)] ≤ _
      rw [weigh_node, outlineDeclarators_eq_map]
      omega
    stmt := fun s => hnode (hstmt s _)
    rawNil := fun _ => Nat.le_refl _
    rawCons := happend
    single := hsingle
    labelled := hsingle
    list := by
      intro n m a ss h
      have htidied := weigh_tidied hw ss
      have hkept := filter_sheds (isFuncOf_weighs hw ids)
        ((ss.map tidyEmptied).filter fun s => !s.isEmpty)
      unfold Sheds at h ⊢
      rw [outlineStmts_eq_map] at h
      show m + _ + weigh weight (outlineStmts
        (((ss.map tidyEmptied).filter fun s => !s.isEmpty).filter fun s => !s.isFuncOf ids)) ≤ _
      rw [outlineStmts_eq_map]
      omega
  }

/-- A removal takes away at least as much as it counts. -/
theorem removeDecls_sheds (p : Program) :
    (p.removeDecls ids).2 + weigh weight (outlineProgram (p.removeDecls ids).1) ≤
      weigh weight (outlineProgram p) := by
  unfold Program.removeDecls
  split
  · exact Nat.le_of_eq (Nat.zero_add _)
  · have h := (removeEdits_sheds hw ids).program p 0
    rwa [Sheds, Nat.zero_add] at h

end Weights

def Item.occurrence (i : Item) : Nat := i.ident?.toList.length

def Item.declaration : Item → Nat
  | .declarator _ => 1
  | .funcDecl .. => 1
  | _ => 0

theorem occurrence_declWeight : DeclWeight Item.occurrence where
  edited h := by cases h <;> rfl
  expr _ _ := rfl
  stmt _ := rfl
  varDecl _ _ := rfl
  declarator b init definite := by
    rw [outlineDeclarator.eq_def, weigh_node, weigh_cons, outlinePat, weigh_node, outlineBinding,
      weigh_node, weigh_cons]
    have hname : weigh Item.occurrence [Outline.leaf (.ident b.id)] = 1 := rfl
    omega
  func name f := by
    rw [outlineDecl, weigh_node, weigh_cons]
    have hname : weigh Item.occurrence [Outline.leaf (.ident name)] = 1 := rfl
    omega

theorem declaration_declWeight : DeclWeight Item.declaration where
  edited h := by cases h <;> rfl
  expr _ _ := rfl
  stmt _ := rfl
  varDecl _ _ := rfl
  declarator b init definite := by
    rw [outlineDeclarator.eq_def, weigh_node]
    exact Nat.le_add_right 1 _
  func name f := by
    rw [outlineDecl, weigh_node]
    exact Nat.le_add_right 1 _

theorem references_length (p : Program) :
    p.references.length = weigh Item.occurrence (outlineProgram p) := by
  unfold Program.references identsOf weigh
  rw [List.length_map]
  induction Outline.itemsOf (outlineProgram p) with
  | nil => rfl
  | cons i is ih =>
    rw [List.map_cons, List.sum_cons, ← ih, List.filterMap_cons, Item.occurrence]
    cases i.ident? with
    | none => exact (Nat.zero_add _).symm
    | some id => exact Nat.add_comm _ 1

/-- How many declarators and function declarations a program has. -/
def Program.declarationCount (p : Program) : Nat := weigh Item.declaration (outlineProgram p)

namespace Pass

variable {t : StringTables}

/-! ### Lookup objects -/

theorem scopes_of_isInlineable {e : Expr} (h : isInlineable e = true) : scopesExpr own e = [] := by
  rw [← scopesExpr_unparen]
  unfold isInlineable at h
  split at h
  · cases h
  · rename_i hlit
    rw [hlit]
    rfl
  · rename_i hvoid
    rw [hvoid]
    rfl
  · rw [← scopesExpr_unparen]
    unfold Expr.number? at h
    split at h
    · rename_i hlit
      rw [hlit]
      rfl
    · rename_i arg hminus
      rw [hminus, scopesExpr, ← scopesExpr_unparen]
      split at h
      · rename_i hlit
        rw [hlit]
        rfl
      · cases h
    · cases h

theorem lookupEdits_agrees (objs : Table Binding LookupObject) : Edits.Agrees (fun _ _ => True)
    (lookupEdits objs) (replacing fun e => (lookup? objs e).getD e) := by
  have hexpr : ∀ e, Agree (fun _ _ => True) ((lookupEdits objs).expr e)
      ((replacing fun e => (lookup? objs e).getD e).expr e) := by
    intro e s u _
    simp only [lookupEdits, replacing]
    cases lookup? objs e <;> exact ⟨rfl, trivial⟩
  exact { expr := fun e => (hexpr e).to, base := fun e => (hexpr e).to }

theorem lookup?_isInlineable {objs : Table Binding LookupObject} {e value : Expr}
    (h : lookup? objs e = some value) : isInlineable value = true := by
  unfold lookup? at h
  split at h
  · simp only [Option.bind_eq_bind, Option.bind_eq_some_iff] at h
    obtain ⟨o, -, k, -, v, -, h⟩ := h
    split at h
    · rename_i hv
      cases h
      exact hv
    · cases h
  · cases h

theorem inlineLookupsResolved_wellBound (removeUnused : Bool) (hp : p.WellBound own []) :
    (inlineLookupsResolved removeUnused p).1.WellBound own [] := by
  unfold inlineLookupsResolved
  dsimp only
  split
  · exact hp
  have hinlined : ((editProgram (lookupEdits (lookupObjects p)) p).run 0).1.WellBound own [] := by
    rw [(editProgram_agree (lookupEdits_agrees _) p).result_eq]
    refine ((replacing_relatesScopes fun e => ?_).program p).wellBound (by simp) hp
    cases h : lookup? (lookupObjects p) e with
    | none => exact .inl rfl
    | some value => exact .inr (scopes_of_isInlineable (lookup?_isInlineable h))
  generalize (editProgram (lookupEdits (lookupObjects p)) p).run 0 = r at hinlined ⊢
  obtain ⟨p', inlined⟩ := r
  dsimp only
  split
  · refine (removeDecls_wellBound (fun b hb => ?_) hinlined).2
    obtain ⟨e, he, rfl⟩ := List.mem_map.1 hb
    have hcount := (Bool.and_eq_true_iff.1 (List.mem_filter.1 he).2).2
    exact Nat.le_of_eq (eq_of_beq hcount)
  · exact hinlined

/-! ### String arrays -/

theorem removesList_decodeOutside (t : StringTables) (ids : List Binding) (ss : List Stmt)
    (n : Nat) : RemovesList [] own ss ((decodeOutside t ids ss).run n).1 := by
  have hw : (decoding t).RelatesScopes own (Drops []) (Removes []) :=
    replacing_relatesScopes fun e => by
      split
      · exact .inr rfl
      · exact .inl rfl
  rw [decodeOutside_eq]
  induction ss with
  | nil => exact .refl []
  | cons s ss ih =>
    have hs : RemovesList [] own [s]
        [if isOwnedBy ids s then s else result (editStmtParts (decoding t) s)] := by
      split
      · exact .refl [s]
      · refine ⟨?_, ?_, ?_⟩
        · rw [scopesOf_singleton, scopesOf_singleton]
          exact hw.stmt_rel s
        · rw [directOf_singleton, directOf_singleton]
          exact hw.stmt_direct s
        · rw [liftedOf_singleton, liftedOf_singleton, ← List.map_id (s.lifted own)]
          exact hw.lifts.liftsAs.parts_edited s
    exact hs.append ih

theorem removeArray_wellBound (array : Binding) (hp : p.WellBound own []) :
    (t.removeArray p array).1.WellBound own [] := by
  rcases removeArray_cases t p array with h | ⟨hbody, hgone⟩
  · rw [h]
    exact hp
  have hremoves : RemovesList (t.ownedWith array) own p.body (t.removeArray p array).1.body := by
    rw [hbody]
    refine .filter (fun s hs => ?_) _
    have howned : isOwnedBy (t.ownedWith array) s = true := by
      simpa using (Bool.or_eq_false_iff.1 hs).2
    rcases isOwnedBy_cases howned with h | ⟨b, -, f, n, hcall⟩
    · exact .of_declaresOnly h
    · cases s with
      | expr e => exact ⟨.drop _, .refl _, .refl _⟩
      | _ => cases hcall
  exact hremoves.program.wellBound
    (fun o ho hmem _ _ _ => hgone _ hmem (occurs_references ho)) hp

theorem removeIdleAtFuel_wellBound (t : StringTables) : ∀ (fuel : Nat) {p : Program} (n : Nat),
    p.WellBound own [] → (t.removeIdleAtFuel fuel p n).1.WellBound own []
  | 0, _, _, hp => hp
  | fuel + 1, p, n, hp => by
    have hround : (p.removeDecls (t.idle p)).1.WellBound own [] := by
      refine (removeDecls_wellBound (fun b hb => ?_) hp).2
      exact Nat.le_of_eq (eq_of_beq (List.mem_filter.1 hb).2)
    unfold StringTables.removeIdleAtFuel
    dsimp only
    split
    · exact hround
    · exact removeIdleAtFuel_wellBound t fuel _ hround

theorem removeUnused_wellBound (t : StringTables) (hp : p.WellBound own []) :
    (t.removeUnused p).1.WellBound own [] := by
  unfold StringTables.removeUnused
  have hidle : (t.removeIdle p).1.WellBound own [] := removeIdleAtFuel_wellBound t _ _ hp
  generalize t.removeIdle p = acc at hidle
  generalize t.orders.arrays.arrange t.arrays = arrays
  induction arrays generalizing acc with
  | nil => exact hidle
  | cons array arrays ih => exact ih _ (removeArray_wellBound array.1 hidle)

theorem decodeStringsResolved_wellBound (removeDecoders : Bool) (o : Orders)
    (hp : p.WellBound own []) : (decodeStringsResolved removeDecoders p o).1.WellBound own [] := by
  unfold decodeStringsResolved
  split
  · exact hp
  · rename_i t _
    have hdecoded : ∀ n, Program.WellBound own []
        { p with body := ((decodeOutside t (t.arrays.map Prod.fst ++ t.decoders.map Prod.fst)
          p.body).run n).1 } := fun n =>
      (removesList_decodeOutside t _ p.body n).program.wellBound (by simp) hp
    specialize hdecoded 0
    dsimp only
    generalize (decodeOutside t _ p.body).run 0 = r at hdecoded ⊢
    obtain ⟨body, decoded⟩ := r
    dsimp only
    split
    · exact removeUnused_wellBound t hdecoded
    · exact hdecoded

/-! ### Rounds -/

/-- More rounds than names make no difference. The induction is on the rounds: each but the last
takes a name away. -/
theorem removeIdleAtFuel_eq (t : StringTables) : ∀ (fuel fuel' : Nat) (p : Program) (n : Nat),
    p.references.length < fuel → p.references.length < fuel' →
      t.removeIdleAtFuel fuel p n = t.removeIdleAtFuel fuel' p n
  | fuel + 1, fuel' + 1, p, n, h, h' => by
    have hshed := removeDecls_sheds occurrence_declWeight (t.idle p) p
    rw [← references_length, ← references_length] at hshed
    unfold StringTables.removeIdleAtFuel
    dsimp only
    split
    · rfl
    · rename_i hcount
      have hpos : (p.removeDecls (t.idle p)).2 ≠ 0 := by simpa using hcount
      exact removeIdleAtFuel_eq t fuel fuel' _ _ (by omega) (by omega)

/-- **No name refers to what lookup objects and string arrays took along**, in a program whose names
refer to what their spelling says. After either pass, whatever its option and the order in which
tables are gone through, every name still does, and a variable with no declaration left no longer
occurs; of one that has a declaration left this says only that its names still refer to it. A round
that removes aliases and wrappers lowers the number of declarations by what it counts at least, and
the loop makes the same of a program with any number of rounds above that of its names. -/
theorem removal_leaves_none_dangling (own : String → Bool) (remove : Bool) (p : Program) (o : Orders)
    (hbound : p.resolved.WellBound own []) :
    ((inlineLookupsResolved remove p.resolved).1.WellBound own [] ∧
      p.resolved.NoneDangle own (inlineLookupsResolved remove p.resolved).1) ∧
    ((decodeStringsResolved remove p.resolved o).1.WellBound own [] ∧
      p.resolved.NoneDangle own (decodeStringsResolved remove p.resolved o).1) ∧
    ∀ (t : StringTables) (q : Program),
      (q.removeDecls (t.idle q)).2 + (q.removeDecls (t.idle q)).1.declarationCount ≤
        q.declarationCount ∧
      ∀ fuel > q.references.length, t.removeIdleAtFuel fuel q 0 = t.removeIdle q := by
  have hlookups := inlineLookupsResolved_wellBound remove hbound
  have hstrings := decodeStringsResolved_wellBound remove o hbound
  refine ⟨⟨hlookups, hlookups.noneDangle _⟩, ⟨hstrings, hstrings.noneDangle _⟩, fun t q => ⟨?_, ?_⟩⟩
  · exact removeDecls_sheds declaration_declWeight (t.idle q) q
  · exact fun fuel h => removeIdleAtFuel_eq t fuel _ q 0 h (Nat.lt_succ_self _)

/-- The array, its reader and the alias of that are all gone. -/
theorem removal_leaves_none_dangling_rotated :
    rotated.resolved.declarationCount = 3 ∧
    (decodeStringsResolved true rotated.resolved).1.declarationCount = 0 ∧
    rotated.resolved.NoneDangle loosely (decodeStringsResolved true rotated.resolved).1 :=
  ⟨by decide +kernel, by decide +kernel,
    (removal_leaves_none_dangling loosely true rotated {} (by decide +kernel)).2.1.2⟩

/-- `const o = { a: 1 }; let x: typeof o; f(o.a);` -/
def queried : Program where
  grammar := .script
  body := [
    .decl (.var (.single .const { name := "o" }
      (some (.object [.keyValue (.name "a") (.lit (.num { value := 1 }))])))),
    .decl (.var (.mk .let [
      .mk (.name ⟨{ name := "x" }, false, some (.typeQuery [{ name := "o" }])⟩) none false])),
    .expr (.call (.ofName "f") [.member (.ofName "o") (.name "a")])]

/-- A type may still ask for an object that is gone. -/
theorem inlineLookups_leaves_query : queried.resolved.WellBound loosely [] ∧
    generate (inlineLookups true queried).1 .latest = "let x: typeof o;\nf(1);\n" := by
  decide +kernel

end Pass

end Untangle
