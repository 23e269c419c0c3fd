import Untangle.Pass.StringArray
import Untangle.Proofs.Editing
import Untangle.Proofs.Mentions

/-!
# Removal of string tables

Once the calls are replaced, string arrays go together with what leads to them, in whatever order the
tables are gone through. At the top level of the program two more things go: empty statements, and
calls that are mistaken for rotations.

* `Thinned` — some statements are deleted from a list, the others are kept, reworked.
* `IsTableCode`, `IsMistaken` — the statements that go, but for empty ones. That there are no others
  is told of each deleted statement, for every program.
* `collect?_keeps`, `collect?_rotations` — what is noted in the tables stays when arrays are rotated.

Statements inside of functions and blocks are told of only as parts of the statements around them.
-/

namespace Untangle

variable {σ : Type}

/-! ### Keys of tables -/

section Keys

variable {κ α : Type} [BEq κ] [LawfulBEq κ]

variable {k : κ}

theorem Table.has_iff {t : Table κ α} : t.has k = true ↔ k ∈ t.map Prod.fst := by
  rw [Table.has, Table.find?, List.lookup_isSome_iff]
  constructor
  · rintro ⟨p, hp, hk⟩
    exact eq_of_beq hk ▸ List.mem_map_of_mem hp
  · intro hk
    obtain ⟨p, hp, rfl⟩ := List.mem_map.1 hk
    exact ⟨p, hp, beq_self_eq_true _⟩

/-- What is found stands in the table. -/
theorem Table.mem_of_find? {t : Table κ α} {a : α} (h : t.find? k = some a) : (k, a) ∈ t := by
  obtain ⟨before, after, rfl, -⟩ := List.lookup_eq_some_iff.1 h
  simp

theorem Table.has_put_self (t : Table κ α) (k : κ) (a : α) : (t.put k a).has k = true := by
  rw [Table.has_iff, Table.put, List.map_append]
  exact List.mem_append_right _ (List.mem_singleton_self k)

theorem Table.has_put {t : Table κ α} (h : t.has k = true) (l : κ) (a : α) :
    (t.put l a).has k = true := by
  rw [Table.has_iff] at h ⊢
  by_cases hkl : k = l
  · rw [hkl, ← Table.has_iff]
    exact Table.has_put_self t l a
  · obtain ⟨p, hp, rfl⟩ := List.mem_map.1 h
    have hkept : p ∈ Table.erase t l := List.mem_filter.2 ⟨hp, by simpa using hkl⟩
    exact List.mem_map_of_mem (List.mem_append_left _ hkept)

theorem Table.has_of_erase {t : Table κ α} {l : κ} (h : (Table.erase t l).has k = true) :
    t.has k = true := by
  rw [Table.has_iff] at h ⊢
  obtain ⟨p, hp, rfl⟩ := List.mem_map.1 h
  exact List.mem_map_of_mem (List.mem_filter.1 hp).1

theorem Table.has_change (t : Table κ α) (k l : κ) (f : α → α) :
    (t.change l f).has k = t.has k := by
  have hkeys : (t.change l f).map Prod.fst = t.map Prod.fst := by
    rw [Table.change, List.map_map]
    refine List.map_congr_left fun p _ => ?_
    show (if p.1 == l then (p.1, f p.2) else p).1 = p.1
    split <;> rfl
  rw [Bool.eq_iff_iff, Table.has_iff, Table.has_iff, hkeys]

end Keys

/-! ### Edits that keep the shape of statements -/

/-- Edits that replace expressions by strings at most and drop declarators of some variables at most.
-/
structure Edits.KeepsShape (ids : List Binding) (w : Edits Unit) : Prop where
  ident : ∀ id, result (w.ident id) = id
  num : ∀ n, result (w.num n) = n
  expr : ∀ e, result (w.expr e) = e ∨ ∃ s, result (w.expr e) = .ofText s
  base : ∀ e, result (w.base e) = e ∨ ∃ s, result (w.base e) = .ofText s
  varDecl : ∀ kind decls, ∃ kept : Declarator → Bool,
    result (w.varDecl (.mk kind decls)) = .mk kind (decls.filter kept) ∧
      ∀ d ∈ decls, kept d = false → d.declaresOneOf ids = true

/-- Whether a statement is neither empty nor a declaration nor an expression. -/
def Stmt.isCompound : Stmt → Bool
  | .expr _ => false
  | .decl _ => false
  | .empty => false
  | _ => true

/-- Whether a statement declares nothing but some variables, by plain names. -/
def Stmt.declaresOnly (ids : List Binding) : Stmt → Bool
  | .decl d => match d.plain with
    | .func name _ => ids.contains name.binding
    | .var (.mk _ decls) => decls.all fun d => d.declaresOneOf ids
    | _ => false
  | _ => false

variable {ids bs : List Binding} {w : Edits Unit}

theorem isCompound_edited (s : Stmt) : (result (editStmtParts w s)).isCompound = s.isCompound := by
  cases s <;> rfl

theorem plain_edited : ∀ d : Decl, (result (editDecl w d)).plain = result (editDecl w d.plain)
  | .ambient d => plain_edited d
  | .func .. | .cls .. | .var _ | .iface _ | .typeAlias .. | .enum .. => rfl

theorem declaresOneOf_mono (h : ids ⊆ bs) {d : Declarator} (hd : d.declaresOneOf ids = true) :
    d.declaresOneOf bs = true := by
  obtain ⟨target, init, definite⟩ := d
  cases target with
  | name b => exact List.contains_iff_mem.2 (h (List.contains_iff_mem.1 hd))
  | _ => cases hd

namespace Edits.KeepsShape

/-! #### Declarations -/

theorem declaresOneOf_edited (hw : w.KeepsShape ids) (d : Declarator) :
    (result (editDeclarator w d)).declaresOneOf bs = d.declaresOneOf bs := by
  obtain ⟨target, init, definite⟩ := d
  cases init with
  | none | some =>
    cases target with
    | name b =>
      show bs.contains (result (w.ident b.id)).binding = bs.contains b.id.binding
      rw [hw.ident]
    | _ => rfl

theorem editDeclarators_eq (ds : List Declarator) :
    result (editDeclarators w ds) = ds.map fun d => result (editDeclarator w d) := by
  induction ds with
  | nil => rfl
  | cons d ds ih => exact congrArg (result (editDeclarator w d) :: ·) ih

/-- A declaration that only declares some variables did so before, if those dropped are among them.
-/
theorem declaresOnly_of_edited (hw : w.KeepsShape ids) (hids : ids ⊆ bs) (d : Decl)
    (h : (Stmt.decl (result (editDecl w d))).declaresOnly bs = true) :
    (Stmt.decl d).declaresOnly bs = true := by
  simp only [Stmt.declaresOnly, plain_edited] at h ⊢
  generalize d.plain = d at h ⊢
  cases d with
  | func name f =>
    show bs.contains name.binding = true
    rw [← hw.ident name]
    exact h
  | var d =>
    obtain ⟨kind, decls⟩ := d
    obtain ⟨kept, hkept, hdropped⟩ := hw.varDecl kind (result (editDeclarators w decls))
    have hvar : result (editDecl w (.var (.mk kind decls))) =
        .var (result (w.varDecl (.mk kind (result (editDeclarators w decls))))) := rfl
    rw [hvar, hkept, editDeclarators_eq] at h
    rw [editDeclarators_eq] at hdropped
    refine List.all_eq_true.2 fun d hd => ?_
    have hmem : result (editDeclarator w d) ∈ decls.map fun d => result (editDeclarator w d) :=
      List.mem_map_of_mem hd
    rw [← hw.declaresOneOf_edited]
    cases hk : kept (result (editDeclarator w d)) with
    | true => exact List.all_eq_true.1 h _ (List.mem_filter.2 ⟨hmem, hk⟩)
    | false => exact declaresOneOf_mono hids (hdropped _ hmem hk)
  | _ => cases h

/-! #### Calls at once -/

theorem unparen_parts (e : Expr) (h : ∀ e', e ≠ .paren e') :
    (result (editParts w e)).unparen = result (editParts w e) ∧ e.unparen = e := by
  cases e with
  | paren e => exact absurd rfl (h e)
  | _ => exact ⟨rfl, rfl⟩

/-- What stands in the parentheses is edited in place, or a string stands there. -/
theorem unparen_edited {hook : Expr → StateM Unit Expr}
    (hexpr : ∀ e, result (w.expr e) = e ∨ ∃ s, result (w.expr e) = .ofText s)
    (hhook : ∀ e, result (hook e) = e ∨ ∃ s, result (hook e) = .ofText s) : ∀ e : Expr,
    (result (hook (result (editParts w e)))).unparen = result (editParts w e.unparen) ∨
      ∃ s, (result (hook (result (editParts w e)))).unparen = .ofText s := by
  intro e
  rcases hhook (result (editParts w e)) with hkept | ⟨s, hs⟩
  · rw [hkept]
    by_cases hparen : ∃ e', e = .paren e'
    · obtain ⟨e', rfl⟩ := hparen
      exact unparen_edited hexpr hexpr e'
    · obtain ⟨hparts, hself⟩ := unparen_parts (w := w) e fun e' he => hparen ⟨e', he⟩
      rw [hparts, hself]
      exact .inl rfl
  · rw [hs]
    exact .inr ⟨s, rfl⟩

end Edits.KeepsShape

end Untangle

namespace Untangle.Pass

variable {ids bs : List Binding} {w : Edits Unit}

/-! ### Calls at once -/

theorem unspread_edited (hw : w.KeepsShape ids) (e : Expr) :
    (unspread (result (w.expr (result (editParts w e))))).unparen =
        result (editParts w (unspread e).unparen) ∨
      ∃ s, (unspread (result (w.expr (result (editParts w e))))).unparen = .ofText s := by
  rcases hw.expr (result (editParts w e)) with hkept | ⟨s, hs⟩
  · by_cases hspread : ∃ e', e = .spread e'
    · obtain ⟨e', rfl⟩ := hspread
      rw [hkept]
      exact Edits.KeepsShape.unparen_edited hw.expr hw.expr e'
    · have hself : unspread e = e := by
        cases e with
        | spread e' => exact absurd ⟨e', rfl⟩ hspread
        | _ => rfl
      have hparts : unspread (result (editParts w e)) = result (editParts w e) := by
        cases e with
        | spread e' => exact absurd ⟨e', rfl⟩ hspread
        | _ => rfl
      rw [hself, hkept, hparts]
      have h := Edits.KeepsShape.unparen_edited hw.expr hw.expr e
      rwa [hkept] at h
  · rw [hs]
    exact .inr ⟨s, rfl⟩

variable {e : Expr} {f : Func} {array b : Binding} {n : Float} {s s' : Stmt} {t : StringTables}
  {q p : Program}

theorem ident_of_parts (hw : w.KeepsShape ids) {id : Ident} (h : result (editParts w e) = .ident id) :
    e = .ident id := by
  cases e with
  | ident id' =>
    have hid : result (editParts w (.ident id')) = .ident id' := congrArg Expr.ident (hw.ident id')
    rw [← h, hid]
  | _ => cases h

theorem num_of_parts (hw : w.KeepsShape ids) {n : NumLit}
    (h : result (editParts w e) = .lit (.num n)) : e = .lit (.num n) := by
  cases e with
  | lit l =>
    cases l with
    | num n' =>
      have hn : result (editParts w (.lit (.num n'))) = .lit (.num n') :=
        congrArg (fun m => Expr.lit (.num m)) (hw.num n')
      rw [← h, hn]
    | _ => cases h
  | _ => cases h

theorem func_of_parts {name : Option Ident} (h : result (editParts w e) = .func name f) :
    ∃ name f, e = .func name f := by
  cases e with
  | func name f => exact ⟨name, f, rfl⟩
  | _ => cases h

theorem call_of_parts {callee a c : Expr} (h : result (editParts w e) = .call callee [a, c]) :
    ∃ callee₀ a₀ c₀, e = .call callee₀ [a₀, c₀] ∧
      callee = result (w.base (result (editParts w callee₀))) ∧
      a = result (w.expr (result (editParts w a₀))) ∧
      c = result (w.expr (result (editParts w c₀))) := by
  cases e with
  | call callee₀ args =>
    match args, h with
    | [a₀, c₀], h =>
      cases h
      exact ⟨callee₀, a₀, c₀, rfl, rfl, rfl, rfl⟩
  | _ => cases h

theorem kept_of_unparen {x y z : Expr} (h : x = y ∨ ∃ s, x = .ofText s) (hx : x = z)
    (hz : ∀ s, z ≠ .ofText s) : x = y := by
  rcases h with h | ⟨s, hs⟩
  · exact h
  · exact absurd (hx.symm.trans hs) (hz s)

theorem rotationCall?_of_edited (hw : w.KeepsShape ids) {f' : Func}
    (h : rotationCall? (.expr (result (w.expr (result (editParts w e))))) = some (array, f', n)) :
    ∃ f, rotationCall? (.expr e) = some (array, f, n) := by
  simp only [rotationCall?] at h
  split at h
  · rename_i callee a c hcall
    split at h
    · rename_i name g id num hfunc hident hnum
      cases h
      rcases Edits.KeepsShape.unparen_edited hw.expr hw.expr e with he | ⟨s, hs⟩
      · obtain ⟨callee₀, a₀, c₀, he₀, rfl, rfl, rfl⟩ := call_of_parts (he.symm.trans hcall)
        obtain ⟨name₀, f₀, hfunc₀⟩ := func_of_parts
          ((kept_of_unparen (Edits.KeepsShape.unparen_edited hw.expr hw.base callee₀) hfunc
            nofun).symm.trans hfunc)
        have hident₀ := ident_of_parts hw
          ((kept_of_unparen (unspread_edited hw a₀) hident nofun).symm.trans hident)
        have hnum₀ := num_of_parts hw
          ((kept_of_unparen (unspread_edited hw c₀) hnum nofun).symm.trans hnum)
        exact ⟨f₀, by simp only [rotationCall?, he₀, hfunc₀, hident₀, hnum₀]⟩
      · rw [hs] at hcall
        cases hcall
    · cases h
  · cases h

/-! ### Statements that are kept and deleted -/

/-- Statements some of which were deleted and the others changed, in order. -/
inductive Thinned (R : Stmt → Stmt → Prop) (D : Stmt → Prop) : List Stmt → List Stmt → Prop
  | nil : Thinned R D [] []
  | keep {s s' : Stmt} {ss ss' : List Stmt} : R s s' → Thinned R D ss ss' →
    Thinned R D (s :: ss) (s' :: ss')
  | delete {s : Stmt} {ss ss' : List Stmt} : D s → Thinned R D ss ss' → Thinned R D (s :: ss) ss'

namespace Thinned

variable {R : Stmt → Stmt → Prop} {D D' : Stmt → Prop} {ss ss' ss'' : List Stmt}

theorem refl (hR : ∀ s, R s s) (ss : List Stmt) : Thinned R D ss ss := by
  induction ss with
  | nil => exact .nil
  | cons s ss ih => exact .keep (hR s) ih

theorem trans (hR : ∀ s s' s'', R s s' → R s' s'' → R s s'') (hD : ∀ s s', R s s' → D s' → D s)
    (h : Thinned R D ss ss') (h' : Thinned R D ss' ss'') : Thinned R D ss ss'' := by
  induction h generalizing ss'' with
  | nil => exact h'
  | keep hs _ ih =>
    cases h' with
    | keep hs' hss' => exact .keep (hR _ _ _ hs hs') (ih hss')
    | delete hs' hss' => exact .delete (hD _ _ hs hs') (ih hss')
  | delete hs _ ih => exact .delete hs (ih h')

theorem mono (h : Thinned R D ss ss') (hD : ∀ s ∈ ss, D s → D' s) : Thinned R D' ss ss' := by
  induction h with
  | nil => exact .nil
  | keep hs _ ih => exact .keep hs (ih fun s hmem => hD s (List.mem_cons_of_mem _ hmem))
  | delete hs _ ih =>
    exact .delete (hD _ List.mem_cons_self hs) (ih fun s hmem => hD s (List.mem_cons_of_mem _ hmem))

theorem exists_kept (h : Thinned R D ss ss') (hs : s ∈ ss) (hD : ¬D s) : ∃ s' ∈ ss', R s s' := by
  induction h with
  | nil => cases hs
  | keep hkept _ ih =>
    rcases List.mem_cons.1 hs with rfl | hs
    · exact ⟨_, List.mem_cons_self, hkept⟩
    · obtain ⟨s', hs', hr⟩ := ih hs
      exact ⟨s', List.mem_cons_of_mem _ hs', hr⟩
  | delete hdel _ ih =>
    rcases List.mem_cons.1 hs with rfl | hs
    · exact absurd hdel hD
    · exact ih hs

end Thinned

/-- The edits that replace calls, without a count. -/
def decoding (t : StringTables) : Edits Unit where
  expr := fun e => pure (match t.decode? e with
    | some s => .ofText s
    | none => e)

/-- The edits that remove declarations, without a count. -/
def removing (ids : List Binding) : Edits Unit where
  varDecl := fun
    | .mk kind decls => pure (.mk kind (decls.filter fun d => !d.declaresOneOf ids))
  single := fun s => pure (tidyEmptied s)
  list := fun ss => pure (((ss.map tidyEmptied).filter fun s => !s.isEmpty).filter
    fun s => !s.isFuncOf ids)

theorem decodeEdits_agrees (t : StringTables) :
    Edits.Agrees (fun _ _ => True) (decodeEdits t) (decoding t) := by
  have hexpr : ∀ e, Agree (fun _ _ => True) ((decodeEdits t).expr e) ((decoding t).expr e) := by
    intro e s u _
    simp only [decodeEdits, decoding]
    cases t.decode? e <;> exact ⟨rfl, trivial⟩
  exact { expr := fun e => (hexpr e).to, base := fun e => (hexpr e).to }

theorem removeEdits_agrees (ids : List Binding) :
    Edits.Agrees (fun _ _ => True) (removeEdits ids) (removing ids) where
  varDecl d := by
    cases d
    exact Agree.to fun _ _ _ => ⟨rfl, trivial⟩
  list _ := Agree.to fun _ _ _ => ⟨rfl, trivial⟩

theorem decoding_shape (t : StringTables) (e : Expr) : result ((decoding t).expr e) = e ∨
    ∃ s, result ((decoding t).expr e) = .ofText s := by
  show (match t.decode? e with | some s => Expr.ofText s | none => e) = e ∨ _
  cases h : t.decode? e with
  | none => exact .inl rfl
  | some s => exact .inr ⟨s, by simp only [decoding, h, result_pure]⟩

theorem decoding_keepsShape (t : StringTables) : (decoding t).KeepsShape [] where
  ident _ := rfl
  num _ := rfl
  expr := decoding_shape t
  base := decoding_shape t
  varDecl kind decls :=
    ⟨fun _ => true, congrArg (VarDecl.mk kind) (List.filter_eq_self.2 (by simp)).symm, by simp⟩

theorem removing_keepsShape (ids : List Binding) : (removing ids).KeepsShape ids where
  ident _ := rfl
  num _ := rfl
  expr _ := .inl rfl
  base _ := .inl rfl
  varDecl kind decls := ⟨fun d => !d.declaresOneOf ids, rfl, fun d _ hd => by simpa using hd⟩

/-- All variables that belong to the tables. -/
def StringTables.bindings (t : StringTables) : List Binding :=
  t.arrays.map Prod.fst ++ t.decoders.map Prod.fst ++ t.indirections

/-- What the pass may make of a statement that it keeps: calls are replaced in it, and declarations
of aliases and wrappers of decoders go from it. -/
inductive Reworked (t : StringTables) : Stmt → Stmt → Prop
  | refl (s : Stmt) : Reworked t s s
  | decoded {s s' : Stmt} : Reworked t s s' →
    Reworked t s (result (editStmtParts (decoding t) s'))
  | removed {s s' : Stmt} (ids : List Binding) :
    ids ⊆ t.indirections → Reworked t s s' →
    Reworked t s (tidyEmptied (result (editStmtParts (removing ids) s')))

theorem Reworked.trans {s'' : Stmt} (h : Reworked t s s') (h' : Reworked t s' s'') :
    Reworked t s s'' := by
  induction h' with
  | refl => exact h
  | decoded _ ih => exact .decoded ih
  | removed ids hids _ ih => exact .removed ids hids ih

/-- The statements that may be deleted on the way to a program: declarations of the tables, calls at
once of a function with an array or a decoder that is gone, and empty statements. -/
inductive Deletable (t : StringTables) (q : Program) : Stmt → Prop
  | declares {s : Stmt} : s.declaresOnly t.bindings = true → Deletable t q s
  | call {s : Stmt} {b : Binding} {f : Func} {n : Float} : rotationCall? s = some (b, f, n) →
    t.arrays.has b = true ∨ t.decoders.has b = true → b ∉ q.references → Deletable t q s
  | empty : Deletable t q .empty

theorem Deletable.not_compound (h : Deletable t q s) : s.isCompound = false := by
  cases h with
  | declares h =>
    cases s with
    | decl => rfl
    | _ => cases h
  | call hcall =>
    cases s with
    | expr => rfl
    | _ => cases hcall
  | empty => rfl

theorem Deletable.of_edited (hw : w.KeepsShape ids) (hids : ids ⊆ t.bindings)
    (h : Deletable t q (result (editStmtParts w s))) : Deletable t q s := by
  have hs : s.isCompound = false := by
    rw [← isCompound_edited (w := w)]
    exact h.not_compound
  cases s with
  | expr e =>
    cases h with
    | declares h => cases h
    | call hcall hb hrefs =>
      obtain ⟨f, hf⟩ := rotationCall?_of_edited hw hcall
      exact .call hf hb hrefs
  | decl d =>
    cases h with
    | declares h => exact .declares (hw.declaresOnly_of_edited hids d h)
    | call hcall => cases hcall
  | empty => exact .empty
  | _ => cases hs

theorem Deletable.of_tidied (h : Deletable t q (tidyEmptied s)) : Deletable t q s := by
  unfold tidyEmptied at h
  split at h
  · rename_i d
    split at h
    · rename_i kind hd
      exact .declares (by simp [Stmt.declaresOnly, hd])
    · exact h
  · cases h.not_compound
  · exact h

theorem Deletable.of_reworked (h : Reworked t s s') (hs' : Deletable t q s') : Deletable t q s := by
  induction h with
  | refl => exact hs'
  | decoded _ ih =>
    exact ih (.of_edited (decoding_keepsShape t) (List.nil_subset _) hs')
  | removed ids hids _ ih =>
    have hsub : ids ⊆ t.bindings := List.Subset.trans hids (List.subset_append_right _ _)
    exact ih (.of_edited (removing_keepsShape ids) hsub hs'.of_tidied)

/-! ### The pass step by step -/

/-- The statements of a program after some steps of the pass. -/
abbrev Pruned (t : StringTables) (q : Program) : List Stmt → List Stmt → Prop :=
  Thinned (Reworked t) (Deletable t q)

theorem Pruned.trans {ss ss' ss'' : List Stmt} (h : Pruned t q ss ss') (h' : Pruned t q ss' ss'') :
    Pruned t q ss ss'' :=
  Thinned.trans (fun _ _ _ => Reworked.trans) (fun _ _ hs => .of_reworked hs) h h'

theorem decodeOutside_eq (t : StringTables) (ids : List Binding) : ∀ (ss : List Stmt) (n : Nat),
    ((decodeOutside t ids ss).run n).1 =
      ss.map fun s => if isOwnedBy ids s then s else result (editStmtParts (decoding t) s)
  | [], _ => rfl
  | s :: ss, n => by
    rw [List.map_cons]
    by_cases hs : isOwnedBy ids s = true
    · simp only [decodeOutside, hs]
      exact congrArg (s :: ·) (decodeOutside_eq t ids ss n)
    · have hstep := (editStmtParts_agree (decodeEdits_agrees t) s).result_eq n
      simp only [decodeOutside, hs]
      exact congr (congrArg List.cons hstep) (decodeOutside_eq t ids ss _)

/-- Replacing calls deletes nothing. -/
theorem pruned_decodeOutside (t : StringTables) (q : Program) (ids : List Binding) (ss : List Stmt)
    (n : Nat) : Pruned t q ss ((decodeOutside t ids ss).run n).1 := by
  rw [decodeOutside_eq]
  induction ss with
  | nil => exact .nil
  | cons s ss ih =>
    refine .keep ?_ ih
    show Reworked t s (if isOwnedBy ids s then s else _)
    split
    · exact .refl s
    · exact .decoded (.refl s)

theorem eq_empty (h : s.isEmpty = true) : s = .empty := by
  cases s with
  | empty => rfl
  | _ => cases h

theorem declaresOnly_of_isFuncOf (hs : s.isFuncOf ids = true) : s.declaresOnly ids = true := by
  cases s with
  | decl d =>
    simp only [Stmt.isFuncOf, Stmt.declaresOnly] at hs ⊢
    split at hs
    · rename_i name f hd
      rw [hd]
      exact hs
    · cases hs
  | _ => cases hs

theorem declaresOnly_mono (h : ids ⊆ bs) (hs : s.declaresOnly ids = true) :
    s.declaresOnly bs = true := by
  cases s with
  | decl d =>
    simp only [Stmt.declaresOnly] at hs ⊢
    generalize d.plain = d at hs ⊢
    cases d with
    | func name f => exact List.contains_iff_mem.2 (h (List.contains_iff_mem.1 hs))
    | var d =>
      obtain ⟨kind, decls⟩ := d
      exact List.all_eq_true.2 fun d hd => declaresOneOf_mono h (List.all_eq_true.1 hs d hd)
    | _ => cases hs
  | _ => cases hs

/-- Removing declarations of aliases and wrappers deletes statements that declare nothing else. -/
theorem pruned_removing (q : Program) (hids : ids ⊆ t.indirections) (ss : List Stmt) :
    Pruned t q ss (result (editList (removing ids) ss)) := by
  induction ss with
  | nil => exact .nil
  | cons s ss hss =>
    let s' := tidyEmptied (result (editStmtParts (removing ids) s))
    have hs : Reworked t s s' := .removed ids hids (.refl s)
    have hlist : result (editList (removing ids) (s :: ss)) =
        (if s'.isEmpty || s'.isFuncOf ids then [] else [s']) ++
          result (editList (removing ids) ss) := by
      show ((s' :: (result (editStmts (removing ids) ss)).map tidyEmptied).filter
        fun s => !s.isEmpty).filter (fun s => !s.isFuncOf ids) = _ ++
          (((result (editStmts (removing ids) ss)).map tidyEmptied).filter
            fun s => !s.isEmpty).filter fun s => !s.isFuncOf ids
      cases hempty : s'.isEmpty <;> cases hfunc : s'.isFuncOf ids <;>
        simp [hempty, hfunc]
    rw [hlist]
    split
    · rename_i hgone
      refine .delete (.of_reworked hs ?_) hss
      rcases Bool.or_eq_true_iff.1 hgone with hempty | hfunc
      · rw [eq_empty hempty]
        exact .empty
      · have hsub : ids ⊆ t.bindings := List.Subset.trans hids (List.subset_append_right _ _)
        exact .declares (declaresOnly_mono hsub (declaresOnly_of_isFuncOf hfunc))
    · exact .keep hs hss

theorem pruned_removeDecls (q : Program) (hids : ids ⊆ t.indirections) (p : Program) :
    Pruned t q p.body (p.removeDecls ids).1.body := by
  unfold Program.removeDecls
  split
  · exact .refl Reworked.refl _
  · rw [(editProgram_agree (removeEdits_agrees ids) p).result_eq]
    exact pruned_removing q hids p.body

theorem pruned_removeIdleAtFuel (t : StringTables) (q : Program) : ∀ (fuel : Nat) (p : Program)
    (n : Nat), Pruned t q p.body (t.removeIdleAtFuel fuel p n).1.body
  | 0, p, _ => .refl Reworked.refl _
  | fuel + 1, p, n => by
    have hidle : t.idle p ⊆ t.indirections := fun b hb => (List.mem_filter.1 hb).1
    have hround := pruned_removeDecls q hidle p
    have hstep : t.removeIdleAtFuel (fuel + 1) p n =
        if (p.removeDecls (t.idle p)).2 == 0 then ((p.removeDecls (t.idle p)).1, n)
        else t.removeIdleAtFuel fuel (p.removeDecls (t.idle p)).1
          (n + (p.removeDecls (t.idle p)).2) := rfl
    rw [hstep]
    split
    · exact hround
    · exact hround.trans (pruned_removeIdleAtFuel t q fuel _ _)

/-! #### Arrays -/

theorem mem_references : b ∈ p.references ↔ ∃ s ∈ p.body, b ∈ (outlineStmt s).mentions := by
  show b ∈ mentionsOf (outlineStmts p.body) ↔ _
  rw [outlineStmts_eq_map, mentionsOf_eq, List.flatMap_map]
  exact List.mem_flatMap

/-- The variables whose statements go with an array. -/
def StringTables.ownedWith (t : StringTables) (array : Binding) : List Binding :=
  array :: (t.decoders.filter fun d => d.2.array == array).map Prod.fst

theorem ownedWith_has (harray : t.arrays.has array = true) (h : b ∈ t.ownedWith array) :
    t.arrays.has b = true ∨ t.decoders.has b = true := by
  rcases List.mem_cons.1 h with rfl | h
  · exact .inl harray
  · obtain ⟨d, hd, rfl⟩ := List.mem_map.1 h
    exact .inr (Table.has_iff.2 (List.mem_map_of_mem (List.mem_filter.1 hd).1))

theorem isOwnedBy_cases (h : isOwnedBy ids s = true) :
    s.declaresOnly ids = true ∨ ∃ b ∈ ids, ∃ f n, rotationCall? s = some (b, f, n) := by
  unfold isOwnedBy at h
  split at h
  · rename_i b f n hcall
    exact .inr ⟨b, List.contains_iff_mem.1 h, f, n, hcall⟩
  · refine .inl ?_
    split at h
    · split at h
      · rename_i name f hd
        simpa only [Stmt.declaresOnly, hd] using h
      · rename_i kind decls hd
        simpa only [Stmt.declaresOnly, hd] using (Bool.and_eq_true_iff.1 h).2
      · cases h
    · cases h

theorem deletable_of_isOwnedBy
    (hids : ∀ b ∈ ids, (t.arrays.has b = true ∨ t.decoders.has b = true) ∧ b ∉ q.references)
    (h : isOwnedBy ids s = true) : Deletable t q s := by
  have hsub : ids ⊆ t.bindings := by
    intro b hb
    refine List.mem_append_left _ (List.mem_append.2 ?_)
    exact (hids b hb).1.imp Table.has_iff.1 Table.has_iff.1
  rcases isOwnedBy_cases h with h | ⟨b, hb, f, n, hcall⟩
  · exact .declares (declaresOnly_mono hsub h)
  · exact .call hcall (hids b hb).1 (hids b hb).2

/-- Removing an array deletes its statements and those of its decoders, unless something else refers
to one of them. -/
theorem removeArray_cases (t : StringTables) (p : Program) (array : Binding) :
    (t.removeArray p array).1 = p ∨
      ((t.removeArray p array).1.body =
          p.body.filter (fun s => s.isModuleDecl || !isOwnedBy (t.ownedWith array) s) ∧
        ∀ b ∈ t.ownedWith array, b ∉ (t.removeArray p array).1.references) := by
  let rest : Program :=
    { p with body := p.body.filter fun s => s.isModuleDecl || !isOwnedBy (t.ownedWith array) s }
  have hstep : t.removeArray p array =
      if (t.ownedWith array).any rest.references.contains then (p, 0)
      else (rest, p.body.length - rest.body.length) := rfl
  rw [hstep]
  split
  · exact .inl rfl
  · rename_i hrefs
    refine .inr ⟨rfl, fun b hb hmem => hrefs ?_⟩
    exact List.any_eq_true.2 ⟨b, hb, List.contains_iff_mem.2 hmem⟩

theorem pruned_filter {kept : Stmt → Bool} (h : ∀ s, kept s = false → Deletable t q s)
    (ss : List Stmt) : Pruned t q ss (ss.filter kept) := by
  induction ss with
  | nil => exact .nil
  | cons s ss ih =>
    cases hs : kept s with
    | true =>
      rw [List.filter_cons_of_pos hs]
      exact .keep (.refl s) ih
    | false =>
      rw [List.filter_cons_of_neg (by simp [hs])]
      exact .delete (h s hs) ih

theorem removeArray_references (t : StringTables) (p : Program) (array : Binding) :
    (t.removeArray p array).1.references ⊆ p.references := by
  rcases removeArray_cases t p array with h | ⟨hbody, -⟩
  · rw [h]
    exact List.Subset.refl _
  · intro b hb
    obtain ⟨s, hs, hmem⟩ := mem_references.1 hb
    rw [hbody] at hs
    exact mem_references.2 ⟨s, (List.mem_filter.1 hs).1, hmem⟩

/-- The arrays are removed one after another; what is gone stays so. -/
theorem pruned_removeArrays (t : StringTables) : ∀ (arrays : Table Binding (List String))
    (acc : Program × Nat), (∀ a ∈ arrays, t.arrays.has a.1 = true) →
    let q := (arrays.foldl (fun acc array =>
      let (p', n) := t.removeArray acc.1 array.1
      (p', acc.2 + n)) acc).1
    Pruned t q acc.1.body q.body ∧ q.references ⊆ acc.1.references
  | [], acc, _ => ⟨.refl Reworked.refl _, List.Subset.refl _⟩
  | array :: arrays, acc, h => by
    obtain ⟨hpruned, hrefs⟩ := pruned_removeArrays t arrays
      ((t.removeArray acc.1 array.1).1, acc.2 + (t.removeArray acc.1 array.1).2)
      fun a ha => h a (List.mem_cons_of_mem _ ha)
    refine ⟨Pruned.trans ?_ hpruned, List.Subset.trans hrefs (removeArray_references t _ _)⟩
    rcases removeArray_cases t acc.1 array.1 with hsame | ⟨hbody, hgone⟩
    · show Pruned t _ acc.1.body (t.removeArray acc.1 array.1).1.body
      rw [hsame]
      exact .refl Reworked.refl _
    · show Pruned t _ acc.1.body (t.removeArray acc.1 array.1).1.body
      rw [hbody]
      refine pruned_filter (fun s hs => ?_) _
      have howned : isOwnedBy (t.ownedWith array.1) s = true := by
        cases hown : isOwnedBy (t.ownedWith array.1) s with
        | true => rfl
        | false => simp [hown] at hs
      refine deletable_of_isOwnedBy (fun b hb => ⟨?_, fun hmem => hgone b hb (hrefs hmem)⟩) howned
      exact ownedWith_has (h array List.mem_cons_self) hb

/-! ### Rotations that were noted -/

section Noted

variable {t : StringTables} {b : Binding}

theorem addDecoder_arrays (t : StringTables) (s : Stmt) : (t.addDecoder s).arrays = t.arrays := by
  unfold StringTables.addDecoder
  split
  · split
    · rfl
    · split <;> rfl
  · rfl

theorem addDecoder_rotations (t : StringTables) (s : Stmt) :
    (t.addDecoder s).rotations = t.rotations := by
  unfold StringTables.addDecoder
  split
  · split
    · rfl
    · split <;> rfl
  · rfl

theorem addRotation_arrays (t : StringTables) (s : Stmt) : (t.addRotation s).arrays = t.arrays := by
  unfold StringTables.addRotation
  split
  · split <;> rfl
  · rfl

theorem addRotation_has (t : StringTables) (s : Stmt) (h : t.rotations.has b = true) :
    (t.addRotation s).rotations.has b = true := by
  unfold StringTables.addRotation
  split
  · split
    · exact Table.has_put h _ _
    · exact h
  · exact h

theorem addRotations_arrays : ∀ (ss : List Stmt) (t : StringTables),
    (ss.foldl (fun t s => (t.addDecoder s).addRotation s) t).arrays = t.arrays
  | [], _ => rfl
  | s :: ss, t => by
    rw [List.foldl_cons, addRotations_arrays ss, addRotation_arrays, addDecoder_arrays]

theorem addRotations_has : ∀ (ss : List Stmt) (t : StringTables),
    let u := ss.foldl (fun t s => (t.addDecoder s).addRotation s) t
    (t.rotations.has b = true → u.rotations.has b = true) ∧
      ∀ s ∈ ss, ∀ f n, rotationCall? s = some (b, f, n) → t.arrays.has b = true →
        rotates f = true → u.rotations.has b = true
  | [], _ => ⟨id, by simp⟩
  | s :: ss, t => by
    obtain ⟨hkept, hnoted⟩ := addRotations_has ss ((t.addDecoder s).addRotation s)
    refine ⟨fun h => hkept (addRotation_has _ _ ?_), ?_⟩
    · rw [addDecoder_rotations]
      exact h
    · intro r hr f n hcall harray hrot
      rcases List.mem_cons.1 hr with rfl | hr
      · refine hkept ?_
        have hthen : ((t.addDecoder r).arrays.has b && rotates f) = true := by
          rw [addDecoder_arrays, harray, hrot]
          rfl
        simp only [StringTables.addRotation, hcall, hthen, if_true]
        exact Table.has_put_self _ _ _
      · refine hnoted r hr f n hcall ?_ hrot
        rw [addRotation_arrays, addDecoder_arrays]
        exact harray

theorem addIndirection_keeps (t : StringTables) (i : Item) :
    (t.addIndirection i).arrays = t.arrays ∧ (t.addIndirection i).rotations = t.rotations := by
  unfold StringTables.addIndirection
  split
  · split
    · split
      · exact ⟨rfl, rfl⟩
      · split <;> exact ⟨rfl, rfl⟩
      · exact ⟨rfl, rfl⟩
    · exact ⟨rfl, rfl⟩
  · split
    · exact ⟨rfl, rfl⟩
    · split <;> exact ⟨rfl, rfl⟩
  · exact ⟨rfl, rfl⟩

theorem addIndirections_keep : ∀ (is : List Item) (t : StringTables),
    (is.foldl StringTables.addIndirection t).arrays = t.arrays ∧
      (is.foldl StringTables.addIndirection t).rotations = t.rotations
  | [], _ => ⟨rfl, rfl⟩
  | i :: is, t => by
    obtain ⟨harrays, hrotations⟩ := addIndirections_keep is (t.addIndirection i)
    obtain ⟨harrays', hrotations'⟩ := addIndirection_keeps t i
    exact ⟨harrays.trans harrays', hrotations.trans hrotations'⟩

/-- What rotating leaves as it is: rotations and decoders stay, and no array comes in. -/
structure KeepsTables (t u : StringTables) : Prop where
  rotations : u.rotations = t.rotations
  decoders : u.decoders = t.decoders
  arrays : ∀ b, u.arrays.has b = true → t.arrays.has b = true

theorem KeepsTables.refl (t : StringTables) : KeepsTables t t := ⟨rfl, rfl, fun _ => id⟩

theorem KeepsTables.trans {u v : StringTables} (h : KeepsTables t u) (h' : KeepsTables u v) :
    KeepsTables t v :=
  ⟨h'.rotations.trans h.rotations, h'.decoders.trans h.decoders,
    fun b hb => h.arrays b (h'.arrays b hb)⟩

theorem KeepsTables.erase (t : StringTables) (array : Binding) :
    KeepsTables t { t with arrays := Table.erase t.arrays array } :=
  ⟨rfl, rfl, fun _ => Table.has_of_erase⟩

theorem KeepsTables.change (t : StringTables) (array : Binding) (turn : List String → List String) :
    KeepsTables t { t with arrays := t.arrays.change array turn } :=
  ⟨rfl, rfl, fun b hb => by rwa [Table.has_change] at hb⟩

theorem seekRotation_keeps (array : Binding) (e : Expr) (target : Float) : ∀ (n : Nat)
    (t : StringTables), KeepsTables t (t.seekRotation array e target n)
  | 0, t => .erase t array
  | n + 1, t => by
    rw [StringTables.seekRotation]
    split
    · split
      · exact .refl t
      · exact (KeepsTables.change t array rotateOnce).trans (seekRotation_keeps array e target n _)
    · exact .erase t array

theorem applyRotation_keeps (t : StringTables) (array : Binding) (r : Rotation) :
    KeepsTables t (t.applyRotation array r) := by
  cases r with
  | count n =>
    rw [StringTables.applyRotation]
    split
    · exact .erase t array
    · exact .change t array _
  | checksum e target =>
    rw [StringTables.applyRotation]
    split
    · exact seekRotation_keeps _ _ _ _ _
    · exact .refl t

theorem foldl_applyRotation_keeps : ∀ (rs : Table Binding Rotation) (t : StringTables),
    KeepsTables t (rs.foldl (fun t r => t.applyRotation r.1 r.2) t)
  | [], t => .refl t
  | r :: rs, t => (applyRotation_keeps t r.1 r.2).trans (foldl_applyRotation_keeps rs _)

/-- The tables of a program before the arrays are rotated. -/
def StringTables.gathered (p : Program) (o : Orders := {}) : StringTables :=
  let stmts := p.body.filter fun s => !s.isModuleDecl
  p.items.foldl StringTables.addIndirection (stmts.foldl
    (fun t s => (t.addDecoder s).addRotation s) (stmts.foldl StringTables.addArray { orders := o }))

variable {o : Orders}

theorem collect?_keeps (h : StringTables.collect? p o = some t) :
    KeepsTables (StringTables.gathered p o) t := by
  simp only [StringTables.collect?] at h
  split at h
  · cases h
  · split at h
    · cases h
    · cases h
      exact foldl_applyRotation_keeps _ _

theorem collect?_rotations (h : StringTables.collect? p o = some t) (hs : s ∈ p.body)
    (hcall : rotationCall? s = some (b, f, n)) (harray : t.arrays.has b = true)
    (hrot : rotates f = true) : t.rotations.has b = true := by
  let stmts := p.body.filter fun s => !s.isModuleDecl
  let t₀ : StringTables := stmts.foldl StringTables.addArray { orders := o }
  let t₁ := stmts.foldl (fun t s => (t.addDecoder s).addRotation s) t₀
  have hkeeps := collect?_keeps h
  obtain ⟨harrays, hrotations⟩ := addIndirections_keep p.items t₁
  have hmem : s ∈ stmts := by
    refine List.mem_filter.2 ⟨hs, ?_⟩
    cases s with
    | expr => rfl
    | _ => cases hcall
  have harray₀ : t₀.arrays.has b = true := by
    rw [← addRotations_arrays stmts t₀, ← harrays]
    exact hkeeps.arrays b harray
  rw [hkeeps.rotations]
  show (p.items.foldl StringTables.addIndirection t₁).rotations.has b = true
  rw [hrotations]
  exact (addRotations_has stmts t₀).2 s hmem f n hcall harray₀ hrot

end Noted

/-! ### The pass -/

/-- Table code: declarations of variables of the tables alone, and the rotation of an array that is
noted for it, if the program does not mention the array any more. -/
def IsTableCode (t : StringTables) (q : Program) (s : Stmt) : Prop :=
  s.declaresOnly t.bindings = true ∨ ∃ array f n, rotationCall? s = some (array, f, n) ∧
    rotates f = true ∧ t.arrays.has array = true ∧ t.rotations.has array = true ∧
    array ∉ q.references

/-- A call at once of a function that is taken for the rotation of a table, and is none: it is given
a decoder, or does not rotate the array. It goes if the program does not mention the table any
more. -/
def IsMistaken (t : StringTables) (q : Program) (s : Stmt) : Prop :=
  ∃ b f n, rotationCall? s = some (b, f, n) ∧ b ∉ q.references ∧
    (t.decoders.has b = true ∨ t.arrays.has b = true ∧ rotates f = false)

/-- The statements of the program after the whole pass. -/
theorem pruned_decodeStringsResolved {o : Orders} (h : StringTables.collect? p o = some t)
    (removeDecoders : Bool) :
    Pruned t (decodeStringsResolved removeDecoders p o).1 p.body
      (decodeStringsResolved removeDecoders p o).1.body := by
  let owned := t.arrays.map Prod.fst ++ t.decoders.map Prod.fst
  let p' : Program := { p with body := ((decodeOutside t owned p.body).run 0).1 }
  have hrun : (decodeStringsResolved removeDecoders p o).1 =
      if removeDecoders then (t.removeUnused p').1 else p' := by
    simp only [decodeStringsResolved, h]
    cases removeDecoders <;> rfl
  rw [hrun]
  split
  · refine (pruned_decodeOutside t _ owned p.body 0).trans ?_
    refine Pruned.trans (pruned_removeIdleAtFuel t _ (p'.references.length + 1) p' 0) ?_
    exact (pruned_removeArrays t _ (t.removeIdle p') fun a ha =>
      Table.has_iff.2 (List.mem_map_of_mem ((t.orders.arrays.perm _).mem_iff.1 ha))).1
  · exact pruned_decodeOutside t _ owned p.body 0

/-- Every statement that the pass deletes is table code, unless it is empty or a call that is mistaken
for the rotation of a table. -/
theorem decodeStrings_deletes_tables (removeDecoders : Bool) (p : Program) (o : Orders) :
    (decodeStringsResolved removeDecoders p o).1 = p ∨ ∃ t, StringTables.collect? p o = some t ∧
      let q := (decodeStringsResolved removeDecoders p o).1
      Thinned (Reworked t) (fun s => ¬IsMistaken t q s → IsTableCode t q s ∨ s = .empty)
        p.body q.body := by
  cases h : StringTables.collect? p o with
  | none => exact .inl (by simp only [decodeStringsResolved, h])
  | some t =>
    refine .inr ⟨t, rfl, (pruned_decodeStringsResolved h removeDecoders).mono
      fun s hs hdel hmistaken => ?_⟩
    cases hdel with
    | declares hdeclares => exact .inl (.inl hdeclares)
    | @call _ b f n hcall hb hrefs =>
      have hdecoder : ¬t.decoders.has b = true := fun hd => hmistaken ⟨b, f, n, hcall, hrefs, .inl hd⟩
      have harray := hb.resolve_right hdecoder
      have hrot : rotates f = true := by
        rw [← Bool.not_eq_false]
        exact fun hf => hmistaken ⟨b, f, n, hcall, hrefs, .inr ⟨harray, hf⟩⟩
      have hnoted := collect?_rotations h hs hcall harray hrot
      exact .inl (.inr ⟨b, f, n, hcall, hrot, harray, hnoted, hrefs⟩)
    | empty => exact .inr rfl

/-- `A` -/
def arrayName : Ident := { name := "A" }

/-- `var A = ['x'];` -/
def arrayOfOne : Stmt :=
  .decl (.var (.single .var arrayName (some (.array [.ofText "x"]))))

/-- `function f(i) { return A[i]; }` -/
def accessor : Stmt :=
  .decl (.func { name := "f" } (.mk false false [] [.name (.ofIdent { name := "i" })] none
    (.block [.return (some (.member (.ident arrayName) (.computed (.ofName "i"))))])))

/-- `var A = ['x']; (function (a, n) { a.push(a.shift()); })(A, 1);
function f(i) { return A[i]; } var h = f; ; g();` -/
def rotated : Program where
  grammar := .script
  body := [arrayOfOne,
    .expr (.call (.paren (.func none (.mk false false []
      [.name (.ofIdent { name := "a" }), .name (.ofIdent { name := "n" })] none
      (.block [.expr (.call (.member (.ofName "a") (.name "push"))
        [.call (.member (.ofName "a") (.name "shift")) []])]))))
      [.ident arrayName, .lit (.num { value := 1 })]),
    accessor,
    .decl (.var (.single .var { name := "h" } (some (.ofName "f")))),
    .empty,
    .expr (.call (.ofName "g") [])]

theorem decodeStrings_deletes_rotated :
    (StringTables.gathered rotated).rotations.has arrayName.binding = true ∧
    ((decodeStringsResolved true rotated).1 = rotated ∨
      ∃ t, StringTables.collect? rotated = some t ∧
        Thinned (Reworked t)
          (fun s => IsTableCode t (decodeStringsResolved true rotated).1 s ∨ s = .empty)
          rotated.body (decodeStringsResolved true rotated).1.body) := by
  refine ⟨rfl, ?_⟩
  obtain h | ⟨t, ht, h⟩ := decodeStrings_deletes_tables true rotated {}
  · exact .inl h
  · refine .inr ⟨t, ht, h.mono fun s hs hdel => hdel ?_⟩
    rintro ⟨b, f, n, hcall, -, hb⟩
    rw [(collect?_keeps ht).decoders] at hb
    simp only [rotated, List.mem_cons, List.not_mem_nil, or_false] at hs
    rcases hs with rfl | rfl | rfl | rfl | rfl | rfl
    · cases hcall
    · cases hcall
      rcases hb with hb | ⟨-, hb⟩ <;> cases hb
    all_goals cases hcall

theorem Reworked.eq_empty (h : Reworked t s s') (hs : s = .empty) : s' = .empty := by
  induction h with
  | refl => exact hs
  | decoded _ ih =>
    rw [ih]
    rfl
  | removed ids _ _ ih =>
    rw [ih]
    rfl

/-- `var A = ['x']; function f(i) { return A[i]; } var h = f; ; g();` -/
def stray : Program where
  grammar := .script
  body := [arrayOfOne, accessor,
    .decl (.var (.single .var { name := "h" } (some (.ofName "f")))),
    .empty,
    .expr (.call (.ofName "g") [])]

/-- An empty statement goes with the alias before it, though it is no table code. -/
theorem decodeStrings_deletes_stray : ∃ t, StringTables.collect? stray = some t ∧
    ¬Thinned (Reworked t) (IsTableCode t (decodeStringsResolved true stray).1) stray.body
      (decodeStringsResolved true stray).1.body := by
  refine ⟨StringTables.gathered stray, rfl, fun h => ?_⟩
  have hcode : ¬IsTableCode (StringTables.gathered stray) (decodeStringsResolved true stray).1
      .empty := by
    rintro (h | ⟨_, _, _, h, -⟩) <;> cases h
  obtain ⟨s', hs', hkept⟩ := h.exists_kept (s := .empty) (by simp [stray]) hcode
  have hbody : (decodeStringsResolved true stray).1.body = [.expr (.call (.ofName "g") [])] := rfl
  rw [hbody, List.mem_singleton, hkept.eq_empty rfl] at hs'
  cases hs'

/-- `function (a, n) { launch(a, n); }` -/
def launcher : Func := .mk false false []
  [.name (.ofIdent { name := "a" }), .name (.ofIdent { name := "n" })] none
  (.block [.expr (.call (.ofName "launch") [.ofName "a", .ofName "n"])])

/-- `var A = ['x']; (function (a, n) { launch(a, n); })(A, 1);` -/
def launching : Program where
  grammar := .script
  body := [arrayOfOne,
    .expr (.call (.paren (.func none launcher)) [.ident arrayName, .lit (.num { value := 1 })])]

/-- A call that takes an array and a number goes with the array, whatever it does. -/
theorem decodeStrings_deletes_launch :
    rotates launcher = false ∧ (decodeStringsResolved true launching).1.body = [] := ⟨rfl, rfl⟩

end Untangle.Pass
