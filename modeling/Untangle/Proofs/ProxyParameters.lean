import Untangle.Proofs.EditedOutlines
import Untangle.Proofs.LookupUses
import Untangle.Proofs.Mentions
import Untangle.Proofs.ProxyEvaluation

/-!
# Parameters of inlined proxies

The body of a proxy takes the place of a call with the arguments in the place of the parameters.
Where the body only reads its parameters, nothing of them is left, and the body assigns nothing but
what it assigns by itself.
-/

variable {a e : Expr} {i : Item} {m x : Binding}

namespace Untangle

open Outline (leaf)

/-! ### Names that are not read -/

mutual

/-- The names in an outline that stand elsewhere than as an expression. -/
def Outline.unread : Outline → List Binding
  | .node (.ident id) _ => [id.binding]
  | .node (.expr (.ident _)) _ => []
  | .node _ parts => unreadOf parts

def Outline.unreadOf : List Outline → List Binding
  | [] => []
  | o :: os => unread o ++ unreadOf os

end

/-- An expression without parentheses and type operators around it. -/
def Expr.stripped : Expr → Expr
  | .paren e => e.stripped
  | .typed _ e _ => e.stripped
  | .typeAssert _ e => e.stripped
  | .nonNull e => e.stripped
  | e => e

def Expr.isOneOf (bs : List Binding) (e : Expr) : Bool :=
  match e.stripped with
  | .ident id => bs.contains id.binding
  | _ => false

def Item.isModuleDecl : Item → Bool
  | .stmt s => s.isModuleDecl
  | _ => false

/-! ### What substitution leaves -/

/-- Whether an item is neither a name nor an expression that reads one. -/
def Item.isNameless : Item → Bool
  | .ident _ => false
  | .expr (.ident _) => false
  | _ => true

variable {σ : Table Binding Expr}

theorem Item.unread_node (h : i.isNameless = true) (parts : List Outline) :
    (Outline.node i parts).unread = Outline.unreadOf parts := by
  cases i with
  | ident => cases h
  | expr e =>
    cases e with
    | ident => cases h
    | _ => rfl
  | _ => rfl

variable {os : List Outline}

theorem Outline.mem_unreadOf : m ∈ unreadOf os ↔ ∃ o ∈ os, m ∈ o.unread := by
  induction os with
  | nil => simp [unreadOf]
  | cons o os ih => simp [unreadOf, ih]

theorem Outline.mem_unreadOf_perm {qs : List Outline} (h : os.Perm qs) :
    m ∈ unreadOf os ↔ m ∈ unreadOf qs := by
  simp only [mem_unreadOf, h.mem_iff]

mutual

theorem Outline.unread_subset : ∀ (o : Outline) {m : Binding}, m ∈ o.unread → m ∈ o.mentions
  | .node i parts, m, hm => by
    rw [Outline.mentions_node]
    cases hi : i.isNameless with
    | true =>
      rw [Item.unread_node hi] at hm
      exact List.mem_append_right _ (unreadOf_subset parts hm)
    | false =>
      cases i with
      | ident id => exact List.mem_append_left _ hm
      | expr e =>
        cases e with
        | ident id => cases hm
        | _ => cases hi
      | _ => cases hi

theorem Outline.unreadOf_subset : ∀ (os : List Outline) {m : Binding}, m ∈ unreadOf os →
    m ∈ mentionsOf os
  | o :: os, m, hm => by
    rw [mentionsOf_cons]
    rcases List.mem_append.1 hm with hm | hm
    · exact List.mem_append_left _ (unread_subset o hm)
    · exact List.mem_append_right _ (unreadOf_subset os hm)

end

mutual

theorem Outline.unread_of_binding : ∀ (o : Outline) {b : BindingName}, o.Made →
    .binding b ∈ o.items → b.id.binding ∈ o.unread
  | .node i parts, b, hmade, hb => by
    obtain ⟨hparts, hfits⟩ := hmade.node
    rcases List.mem_cons.1 hb with rfl | hinner
    · cases hfits
      exact List.mem_cons_self
    · cases hi : i.isNameless with
      | true =>
        rw [Item.unread_node hi]
        exact unreadOf_of_binding parts hparts hinner
      | false =>
        cases i with
        | ident id =>
          cases hfits
          exact absurd hinner List.not_mem_nil
        | expr e =>
          cases e with
          | ident id =>
            cases hfits
            simp [Outline.items, Outline.itemsOf, leaf] at hinner
          | _ => cases hi
        | _ => cases hi

theorem Outline.unreadOf_of_binding : ∀ (os : List Outline) {b : BindingName}, AllMade os →
    .binding b ∈ Outline.itemsOf os → b.id.binding ∈ unreadOf os
  | o :: os, b, hmade, hb => by
    obtain ⟨ho, hos⟩ := allMade_cons.1 hmade
    rcases List.mem_append.1 hb with hb | hb
    · exact List.mem_append_left _ (unread_of_binding o ho hb)
    · exact List.mem_append_right _ (unreadOf_of_binding os hos hb)

end

/-- An item and what substitution makes of it. -/
structure Item.Substituted (σ : Table Binding Expr) (i j : Item) : Prop where
  assigned : j.assigned = i.assigned.map (Expr.substitute σ)
  name : ∀ b, j = .binding b → ∃ b₀, i = .binding b₀ ∧ b₀.id = b.id

/-- What substitution leaves of the names and assignments in some code. -/
structure Substituted (σ : Table Binding Expr) (before after : List Outline) : Prop where
  /-- What is mentioned is mentioned by a value, stands where nothing is put, or has no value. -/
  mentions : ∀ m ∈ mentionsOf after, (∃ x a, σ.find? x = some a ∧ m ∈ a.mentions) ∨
    m ∈ Outline.unreadOf before ∨ m ∈ mentionsOf before ∧ σ.find? m = none
  /-- What stands there stands in a value, or is what was made of an item. -/
  items : ∀ j ∈ Outline.itemsOf after, (∃ x a, σ.find? x = some a ∧ j ∈ (outlineExpr a).items) ∨
    ∃ i ∈ Outline.itemsOf before, i.Substituted σ j

theorem Item.Substituted.refl (h : i.assigned = []) : i.Substituted σ i where
  assigned := by rw [h]; rfl
  name b hb := ⟨b, hb, rfl⟩

theorem Item.Edited.substituted {j : Item} (h : i.Edited (substituteEdits σ) j) :
    i.Substituted σ j := by
  cases h with
  | binding b => exact ⟨rfl, fun _ hb => ⟨b, rfl, by cases hb; rfl⟩⟩
  | pat p => cases p <;> exact ⟨rfl, nofun⟩
  | _ => exact ⟨rfl, nofun⟩

theorem Item.expr_substituted (e : Expr) :
    (Item.expr e).Substituted σ (.expr (result (editParts (substituteEdits σ) e))) := by
  refine ⟨?_, nofun⟩
  cases e with
  | assign op target value => cases target <;> rfl
  | _ => rfl

namespace Substituted

variable {os os' qs qs' : List Outline} {i i' : Item}

theorem append (h : Substituted σ os os') (h' : Substituted σ qs qs') :
    Substituted σ (os ++ qs) (os' ++ qs') where
  mentions m hm := by
    rw [mentionsOf_append] at hm ⊢
    simp only [Outline.mem_unreadOf, List.mem_append, or_and_right, exists_or] at hm ⊢
    rcases hm with hm | hm
    · exact (h.mentions m hm).imp_right (.imp (.inl ∘ Outline.mem_unreadOf.1) .inl)
    · exact (h'.mentions m hm).imp_right (.imp (.inr ∘ Outline.mem_unreadOf.1) .inr)
  items j hj := by
    rw [itemsOf_append] at hj ⊢
    rcases List.mem_append.1 hj with hj | hj
    · exact (h.items j hj).imp_right (.imp fun _ hi => ⟨List.mem_append_left _ hi.1, hi.2⟩)
    · exact (h'.items j hj).imp_right (.imp fun _ hi => ⟨List.mem_append_right _ hi.1, hi.2⟩)

theorem perm (h : Substituted σ os os') (ho : os.Perm qs) (ho' : os'.Perm qs') :
    Substituted σ qs qs' where
  mentions m hm := by
    rw [← (mentionsOf_perm ho).mem_iff, ← Outline.mem_unreadOf_perm ho]
    exact h.mentions m ((mentionsOf_perm ho').mem_iff.2 hm)
  items j hj := (h.items j ((mem_itemsOf_perm ho').2 hj)).imp_right
    (.imp fun _ hi => ⟨(mem_itemsOf_perm ho).1 hi.1, hi.2⟩)

theorem node (h : Substituted σ os os') (hi : i.isNameless = true) (hi' : i'.ident? = none)
    (hij : i.Substituted σ i') : Substituted σ [.node i os] [.node i' os'] where
  mentions m hm := by
    rw [mentionsOf_cons, Outline.mentions_node, hi'] at hm
    rw [Outline.unreadOf, Item.unread_node hi, mentionsOf_cons, Outline.mentions_node]
    refine (h.mentions m (by simpa using hm)).imp_right (.imp ?_ (.imp_left ?_)) <;> intro hm <;>
      simp [Outline.unreadOf, hm]
  items j hj := by
    rcases mem_itemsOf_node.1 hj with rfl | hj
    · exact .inr ⟨i, mem_itemsOf_node.2 (.inl rfl), hij⟩
    · exact (h.items j hj).imp_right (.imp fun _ hk => ⟨mem_itemsOf_node.2 (.inr hk.1), hk.2⟩)

theorem leaf (hi : i.assigned = []) (hident : ∀ id, i.ident? = some id → i = .ident id) :
    Substituted σ [.leaf i] [.leaf i] where
  mentions m hm := by
    cases h : i.ident? with
    | none => simp [Outline.leaf, h] at hm
    | some id =>
      cases hident id h
      exact .inr (.inl hm)
  items j hj := by
    obtain rfl : j = i := by
      simpa [Outline.leaf, Outline.itemsOf, Outline.items] using hj
    exact .inr ⟨j, hj, .refl hi⟩

theorem value (h : σ.find? x = some a) : Substituted σ os [outlineExpr a] where
  mentions m hm := .inl ⟨x, a, h, hm⟩
  items j hj := .inl ⟨x, a, h, by simpa [Outline.itemsOf] using hj⟩

theorem read {id : Ident} (h : Substituted σ os [.leaf (.ident id)]) :
    Substituted σ [.node (.expr (.ident id)) os] [outlineExpr ((Expr.ident id).substitute σ)] := by
  have hsubst : (Expr.ident id).substitute σ = (σ.find? id.binding).getD (.ident id) := rfl
  rw [hsubst]
  cases hid : σ.find? id.binding with
  | some a => exact .value hid
  | none =>
    refine ⟨fun m hm => ?_, fun j hj => ?_⟩
    · obtain rfl : m = id.binding := by simpa [outlineExpr, Item.ident?] using hm
      have hparts : id.binding ∈ mentionsOf os →
          id.binding ∈ mentionsOf [.node (.expr (.ident id)) os] := fun hm => by simp [hm]
      rcases h.mentions id.binding (by simp) with h | h | h
      · exact .inl h
      · exact .inr (.inr ⟨hparts (Outline.unreadOf_subset os h), hid⟩)
      · exact .inr (.inr ⟨hparts h.1, hid⟩)
    · rcases mem_itemsOf_node.1 hj with rfl | hj
      · exact .inr ⟨_, mem_itemsOf_node.2 (.inl rfl), .refl rfl⟩
      · exact (h.items j hj).imp_right (.imp fun _ hk => ⟨mem_itemsOf_node.2 (.inr hk.1), hk.2⟩)

end Substituted

/-- Substitution leaves this of code without imports and exports. -/
def SubstitutedIn (σ : Table Binding Expr) : OutlineRel Unit := fun _ before _ after =>
  (∀ i ∈ Outline.itemsOf before, i.isModuleDecl = false) → Substituted σ before after

/-- An expression whose parts are done: nothing is put for it yet if it is a name. -/
def SubstitutedOpen (σ : Table Binding Expr) : OutlineRel Unit := fun n before m after =>
  SubstitutedIn σ n before m after ∨ ∃ id os os', SubstitutedIn σ n os m os' ∧
    before = [.node (.expr (.ident id)) os] ∧ after = [.node (.expr (.ident id)) os']

theorem SubstitutedOpen.close {before : List Outline}
    (h : SubstitutedOpen σ () before () [outlineExpr e]) :
    SubstitutedIn σ () before () [outlineExpr (result ((substituteEdits σ).expr e))] := by
  obtain ⟨parts, hparts, -⟩ := outlineExpr_eq e
  rcases h with h | ⟨id, os, os', h, rfl, he⟩
  · have hput : result ((substituteEdits σ).expr e) = e ∨ ∃ x a, σ.find? x = some a ∧
        result ((substituteEdits σ).expr e) = a := by
      cases e with
      | ident id =>
        cases hid : σ.find? id.binding with
        | none => exact .inl (congrArg (Option.getD · _) hid)
        | some a => exact .inr ⟨_, a, hid, congrArg (Option.getD · _) hid⟩
      | _ => exact .inl rfl
    rcases hput with hput | ⟨x, a, hx, rfl⟩
    · rwa [hput]
    · exact fun _ => .value hx
  · rw [hparts] at he
    cases he
    cases hparts
    exact fun hdecls => .read (h fun i hi => hdecls i (mem_itemsOf_node.2 (.inr hi)))

theorem substituteEdits_relatesOutlines (σ : Table Binding Expr) :
    (substituteEdits σ).RelatesOutlines (SubstitutedOpen σ) (SubstitutedIn σ) (SubstitutedIn σ) where
  nil _ _ := ⟨nofun, nofun⟩
  append h h' hdecls := by
    rw [itemsOf_append] at hdecls
    exact (h fun i hi => hdecls i (List.mem_append_left _ hi)).append
      (h' fun i hi => hdecls i (List.mem_append_right _ hi))
  perm ho ho' h hdecls := (h fun i hi => hdecls i ((mem_itemsOf_perm ho).1 hi)).perm ho ho'
  ident _ _ _ := .leaf rfl fun _ h => by cases h; rfl
  label _ _ _ := .leaf rfl fun _ h => by cases h; rfl
  word _ _ _ := .leaf rfl fun _ h => by cases h; rfl
  str _ _ _ := .leaf rfl nofun
  num _ _ _ := .leaf rfl nofun
  node hi h hdecls := by
    refine (h fun i hi => hdecls i (mem_itemsOf_node.2 (.inr hi))).node ?_ ?_ hi.substituted <;>
      cases hi <;> rfl
  exprNode e h := by
    by_cases hid : ∃ id, e = .ident id
    · obtain ⟨id, rfl⟩ := hid
      exact .inr ⟨id, _, _, h, rfl, rfl⟩
    · refine .inl fun hdecls => (h fun i hi => hdecls i (mem_itemsOf_node.2 (.inr hi))).node ?_ rfl
        (Item.expr_substituted e)
      cases e with
      | ident id => exact absurd ⟨id, rfl⟩ hid
      | _ => rfl
  expr _ h := h.close
  base _ h := h.close
  stmt _ h hdecls := (h fun i hi => hdecls i (mem_itemsOf_node.2 (.inr hi))).node rfl rfl ⟨rfl, nofun⟩
  rawNil _ _ := ⟨nofun, nofun⟩
  rawCons {_ _ _ o _ os _} h h' hdecls := by
    rw [← List.singleton_append, itemsOf_append] at hdecls
    exact (h fun i hi => hdecls i (List.mem_append_left _ hi)).append
      (h' fun i hi => hdecls i (List.mem_append_right _ hi))

theorem substituted_expr (σ : Table Binding Expr) (e : Expr)
    (h : ∀ i ∈ (outlineExpr e).items, i.isModuleDecl = false) :
    Substituted σ [outlineExpr e] [outlineExpr (e.substitute σ)] :=
  (substituteEdits_relatesOutlines σ).expr _ ((substituteEdits_relatesOutlines σ).parts_rel e ())
    (by simpa [Outline.itemsOf] using h)

end Untangle

namespace Untangle.Pass

open Outline (leaf)

/-! ### Bodies of proxies -/

/-- Whether a body only reads the parameters: none is assigned, and none stands where no argument
would be put. -/
def Proxy.onlyReads (f : Proxy) : Bool :=
  (outlineExpr f.body).unread.all (fun m => !f.params.contains m) &&
    (outlineExpr f.body).items.all fun i =>
      !i.isModuleDecl && i.assigned.all fun t => !t.isOneOf f.params

variable {holders params bs : List Binding} {f : Proxy} {args : List Expr}

/-- A report stays valid only over names that are parameters or hold proxies. -/
theorem note_valid {r : BodyReport} (h : (r.note params holders i).valid = true) :
    r.valid = true ∧ ∀ id, i = .ident id → id.binding ∈ params ∨ id.binding ∈ holders := by
  unfold BodyReport.note at h
  split at h
  · -- a name
    split at h
    · rename_i k hk
      obtain ⟨hlt, hself, -⟩ := List.findIdx?_eq_some_iff_getElem.1 hk
      refine ⟨h, fun id hid => .inl ?_⟩
      cases hid
      exact eq_of_beq hself ▸ List.getElem_mem hlt
    · split at h
      · rename_i hholder
        refine ⟨h, fun id hid => .inr ?_⟩
        cases hid
        exact List.contains_iff_mem.1 hholder
      · cases h
  all_goals simp_all

theorem foldl_note_valid : ∀ {items : List Item} {r : BodyReport},
    (items.foldl (BodyReport.note params holders) r).valid = true →
    r.valid = true ∧ ∀ id, .ident id ∈ items → id.binding ∈ params ∨ id.binding ∈ holders
  | [], _, h => ⟨h, nofun⟩
  | i :: items, r, h => by
    rw [List.foldl_cons] at h
    obtain ⟨hnote, hitems⟩ := foldl_note_valid h
    obtain ⟨hr, hi⟩ := note_valid hnote
    refine ⟨hr, fun id hid => ?_⟩
    rcases List.mem_cons.1 hid with hid | hid
    · exact hi id hid.symm
    · exact hitems id hid

theorem proxy?_mentions {shape : List Binding × Expr} (h : proxy? holders shape = some f)
    (hm : m ∈ f.body.mentions) : m ∈ f.params ∨ m ∈ holders := by
  obtain ⟨params, body⟩ := shape
  simp only [proxy?] at h
  split at h
  · cases h
  · split at h
    · rename_i hvalid
      cases h
      obtain ⟨id, hid, rfl⟩ := List.mem_map.1 hm
      obtain ⟨i, hi, hident⟩ := List.mem_filterMap.1 hid
      rw [Outline.itemsOf, Outline.itemsOf, List.append_nil] at hi
      refine (foldl_note_valid hvalid).2 id ?_
      cases i with
      | ident id' =>
        cases hident
        exact hi
      | _ => cases hident
    · cases h

theorem mem_bindArgs {p : Binding × Expr} : ∀ {bs : List Binding} {args : List Expr},
    p ∈ bindArgs bs args → p.2 ∈ args ∨ p.2 = .undefined
  | [], _, h => by cases h
  | b :: bs, [], h => by
    rcases List.mem_cons.1 h with rfl | h
    · exact .inr rfl
    · exact mem_bindArgs h
  | b :: bs, arg :: args, h => by
    rcases List.mem_cons.1 h with rfl | h
    · exact .inl List.mem_cons_self
    · exact (mem_bindArgs h).imp_left (List.mem_cons_of_mem _)

theorem find?_bindArgs (h : (bindArgs bs args).find? x = some a) : a ∈ args ∨ a = .undefined := by
  obtain ⟨before, after, hsplit, -⟩ := List.lookup_eq_some_iff.1 h
  have hmem : (x, a) ∈ bindArgs bs args := by simp [hsplit]
  exact mem_bindArgs hmem

theorem not_mem_of_find?_bindArgs (h : (bindArgs bs args).find? x = none) : x ∉ bs := by
  intro hx
  rw [← keys_bindArgs bs args] at hx
  obtain ⟨p, hp, rfl⟩ := List.mem_map.1 hx
  simpa using List.lookup_eq_none_iff.1 h p hp

/-! ### Inlined bodies -/

/-- What an inlined body mentions and assigns: nothing of the parameters, and no argument. -/
structure HidesParams (holders : List Binding) (f : Proxy) (args : List Expr) (e : Expr) :
    Prop where
  /-- A variable is mentioned by an argument, or it holds a proxy and is no parameter. -/
  mentions : ∀ m ∈ e.mentions, (∃ a ∈ args, m ∈ a.mentions) ∨ m ∈ holders ∧ m ∉ f.params
  /-- A name is bound or assigned in an argument, or it is in the body and is no parameter. -/
  names : ∀ b, .binding b ∈ (outlineExpr e).items →
    (∃ a ∈ args, .binding b ∈ (outlineExpr a).items) ∨
    (∃ b₀, .binding b₀ ∈ (outlineExpr f.body).items ∧ b₀.id = b.id) ∧ b.id.binding ∉ f.params
  /-- An expression is assigned in an argument, or it was assigned in the body and was no parameter.
  -/
  targets : ∀ j ∈ (outlineExpr e).items, ∀ t ∈ j.assigned,
    (∃ a ∈ args, j ∈ (outlineExpr a).items) ∨
    ∃ i ∈ (outlineExpr f.body).items, ∃ t₀ ∈ i.assigned,
      t = t₀.substitute (bindArgs f.params args) ∧ t₀.isOneOf f.params = false

theorem undefined_items : (outlineExpr .undefined).items =
    [.expr .undefined, .expr (.lit (.num { value := 0 })), .num { value := 0 }] := rfl

theorem eq_of_inline? (h : f.inline? args = some e) :
    e = f.body.substitute (bindArgs f.params args) := by
  unfold Proxy.inline? at h
  split at h
  · cases h
    rfl
  · cases h

/-- Inlining a body that only reads its parameters hides them. -/
theorem inline?_hidesParams (holders : List Binding) (shape : List Binding × Expr) (f : Proxy)
    (args : List Expr) (e : Expr) (hproxy : proxy? holders shape = some f)
    (hinline : f.inline? args = some e) (hreads : f.onlyReads = true) :
    HidesParams holders f args e := by
  obtain ⟨hunread, hitems⟩ := Bool.and_eq_true_iff.1 hreads
  have hdecls : ∀ i ∈ (outlineExpr f.body).items, i.isModuleDecl = false := by
    intro i hi
    simpa using (Bool.and_eq_true_iff.1 (List.all_eq_true.1 hitems i hi)).1
  have hsubst : Substituted (bindArgs f.params args) [outlineExpr f.body] [outlineExpr e] := by
    rw [eq_of_inline? hinline]
    exact substituted_expr _ f.body hdecls
  -- a parameter that is not read is excluded, so what is mentioned by the body has no value
  have hmentions : ∀ m ∈ e.mentions, (∃ a ∈ args, m ∈ a.mentions) ∨ m ∈ holders ∧ m ∉ f.params := by
    intro m hm
    have hbody : m ∈ f.body.mentions → m ∉ f.params → m ∈ holders ∧ m ∉ f.params := fun hm hparam =>
      ⟨(proxy?_mentions hproxy hm).resolve_left hparam, hparam⟩
    rcases hsubst.mentions m hm with ⟨x, a, hx, hma⟩ | hm | ⟨hm, hnone⟩
    · rcases find?_bindArgs hx with ha | rfl
      · exact .inl ⟨a, ha, hma⟩
      · cases hma
    · rw [Outline.unreadOf, Outline.unreadOf, List.append_nil] at hm
      refine .inr (hbody (Outline.unread_subset _ hm) ?_)
      simpa using List.all_eq_true.1 hunread m hm
    · exact .inr (hbody hm (not_mem_of_find?_bindArgs hnone))
  refine ⟨hmentions, ?names, ?targets⟩
  case names =>
    intro b hb
    rcases hsubst.items _ (by simpa [Outline.itemsOf] using hb) with ⟨x, a, hx, hba⟩ | ⟨i, hi, hib⟩
    · rcases find?_bindArgs hx with ha | rfl
      · exact .inl ⟨a, ha, hba⟩
      · simp [undefined_items] at hba
    · obtain ⟨b₀, rfl, hid⟩ := hib.name b rfl
      rw [Outline.itemsOf, Outline.itemsOf, List.append_nil] at hi
      have hmem := Outline.unread_of_binding _ (.expr f.body) hi
      have hparam : b₀.id.binding ∉ f.params := by
        simpa using List.all_eq_true.1 hunread _ hmem
      exact .inr ⟨⟨b₀, hi, hid⟩, hid ▸ hparam⟩
  case targets =>
    intro j hj t ht
    rcases hsubst.items j (by simpa [Outline.itemsOf] using hj) with ⟨x, a, hx, hja⟩ | ⟨i, hi, hij⟩
    · rcases find?_bindArgs hx with ha | rfl
      · exact .inl ⟨a, ha, hja⟩
      · rw [undefined_items] at hja
        have hnone : j.assigned = [] := by
          simp only [List.mem_cons, List.not_mem_nil, or_false] at hja
          rcases hja with rfl | rfl | rfl <;> rfl
        rw [hnone] at ht
        cases ht
    · rw [hij.assigned] at ht
      rw [Outline.itemsOf, Outline.itemsOf, List.append_nil] at hi
      obtain ⟨t₀, ht₀, rfl⟩ := List.mem_map.1 ht
      have hall := (Bool.and_eq_true_iff.1 (List.all_eq_true.1 hitems i hi)).2
      exact .inr ⟨i, hi, t₀, ht₀, rfl, by simpa using List.all_eq_true.1 hall t₀ ht₀⟩

/-- `function (a, b) { return q(a, b.x = [a]) }` -/
def storing : Proxy where
  params := [⟨"a", .inner 0⟩, ⟨"b", .inner 0⟩]
  body := .call (.ident { name := "q", scope := .top }) [.ident { name := "a", scope := .inner 0 },
    .assign .plain (.member (.ident { name := "b", scope := .inner 0 }) (.name "x"))
      (.array [.ident { name := "a", scope := .inner 0 }])]
  uses := [0, 1, 0]
  isConditional := false

/-- An argument may be written to, but not written over: `q(x, y.x = [x])`. -/
theorem inline?_hidesParams_storing :
    storing.onlyReads = true ∧ ∃ e,
      proxy? [⟨"q", .top⟩] (storing.params, storing.body) = some storing ∧
      storing.inline? [.ofName "x", .ofName "y"] = some e ∧
      HidesParams [⟨"q", .top⟩] storing [.ofName "x", .ofName "y"] e := by
  have hreads : storing.onlyReads = true := by decide +kernel
  exact ⟨hreads, _, rfl, rfl, inline?_hidesParams _ (storing.params, storing.body) _ _ _ rfl rfl hreads⟩

/-- `function (a) { return a++ }` -/
def counting : Proxy where
  params := [⟨"a", .inner 0⟩]
  body := .update .increment false (.ident { name := "a", scope := .inner 0 })
  uses := [0]
  isConditional := false

/-- `function (a) { return a = true }` -/
def assigning : Proxy where
  params := [⟨"a", .inner 0⟩]
  body := .assign .plain (.name (.ofIdent { name := "a", scope := .inner 0 })) (.lit (.bool true))
  uses := [0]
  isConditional := false

/-- A body that updates its parameter updates the variable of the caller instead, and one that
assigns it is left with a name that means nothing at the call. -/
theorem inline?_exposes_params :
    proxy? [] (counting.params, counting.body) = some counting ∧
      counting.inline? [.ofName "x"] = some (.update .increment false (.ofName "x")) ∧
    proxy? [] (assigning.params, assigning.body) = some assigning ∧
      assigning.inline? [.ofName "x"] = some assigning.body := ⟨rfl, rfl, rfl, rfl⟩

end Untangle.Pass
