import Untangle.Pass.LookupObject
import Untangle.Proofs.OutlinePlaces

/-!
# Uses of lookup objects

A look-up may be replaced by the value in the object literal only if nothing writes to the object.
-/

variable {e obj w : Expr} {i : Item} {prop : MemberProp}

namespace Untangle

open Outline (leaf)

/-! ### Writes -/

/-- The expressions that an item assigns to, also in patterns and loop heads. -/
def Item.assigned : Item → List Expr
  | .expr (.assign _ (.member obj prop) _) => [.member obj prop]
  | .expr (.assign _ (.paren e) _) => [e]
  | .expr (.assign _ (.chain e) _) => [e]
  | .expr (.assign _ (.typed e) _) => [e]
  | .expr (.update _ _ arg) => [arg]
  | .pat (.expr e) => [e]
  | _ => []

def Item.written : Item → List Expr
  | .expr (.unary .delete arg) => [arg]
  | i => i.assigned

/-- Object and property of the access that an expression is, seen through parentheses, type
operators and optional chaining. -/
def Expr.accessed? : Expr → Option (Expr × MemberProp)
  | .member obj prop => some (obj, prop)
  | .chainMember _ obj prop => some (obj, prop)
  | .paren e => e.accessed?
  | .typed _ e _ => e.accessed?
  | .typeAssert _ e => e.accessed?
  | .nonNull e => e.accessed?
  | _ => none

def Expr.AccessesVar (b : Binding) (e : Expr) : Prop :=
  ∃ obj prop id, e.accessed? = some (obj, prop) ∧ obj.unparen = .ident id ∧ id.binding = b

def Expr.isMember : Expr → Bool
  | .member .. => true
  | _ => false

/-- The writes that the check of lookup objects does not recognise: to an assignment target in
parentheses, and to a member behind optional chaining or a type operator. -/
def Item.overlooked : Item → List Expr
  | .expr (.assign _ (.paren e) _) => [e]
  | .expr (.assign _ (.chain e) _) => [e]
  | .expr (.assign _ (.typed e) _) => [e]
  | i => i.written.filter fun w => !w.unparen.isMember

theorem Item.mem_written (h : w ∈ i.written) :
    (∃ op obj prop value, i = .expr (.assign op (.member obj prop) value) ∧ w = .member obj prop) ∨
    (∃ op value, i = .expr (.assign op (.paren w) value) ∨ i = .expr (.assign op (.chain w) value) ∨
      i = .expr (.assign op (.typed w) value)) ∨
    (∃ op before, i = .expr (.update op before w)) ∨
    i = .expr (.unary .delete w) ∨ i = .pat (.expr w) := by
  unfold Item.written at h
  split at h
  · simp_all
  · unfold Item.assigned at h
    split at h <;> simp_all

theorem Item.mem_overlooked (h : w ∈ i.written) (hmember : w.unparen.isMember = false) :
    w ∈ i.overlooked := by
  rcases Item.mem_written h with ⟨op, obj, prop, value, rfl, rfl⟩ | ⟨op, value, rfl | rfl | rfl⟩ |
    ⟨op, before, rfl⟩ | rfl | rfl
  · cases hmember
  all_goals simp [overlooked, written, assigned, hmember]

theorem Expr.accessed?_unparen (e : Expr) : e.unparen.accessed? = e.accessed? := by
  induction e using Expr.unparen_induct with
  | paren e ih => exact ih
  | bare e hbare => rw [hbare]

theorem Expr.unparen_of_accessed? (h : e.accessed? = some (obj, prop))
    (hmember : e.unparen.isMember = true) : e.unparen = .member obj prop := by
  rw [← accessed?_unparen] at h
  cases hu : e.unparen with
  | member obj' prop' =>
    rw [hu, accessed?] at h
    cases h
    rfl
  | _ =>
    rw [hu] at hmember
    cases hmember

end Untangle

namespace Untangle.Pass

open Outline (leaf)

variable {objs : Table Binding LookupObject} {b : Binding}

/-! ### What the check looks at -/

theorem not_mem_misusedOf {os : List Outline} :
    b ∉ misusedOf objs os ↔ ∀ o ∈ os, b ∉ misused objs o := by
  induction os with
  | nil => simp [misusedOf]
  | cons o os ih => simp [misusedOf, ih]

/-- The items whose first part the check passes over: it is a declared object or the object of an
access. -/
def SkipsFirst (objs : Table Binding LookupObject) : Item → Prop
  | .declarator (.mk target _ _) => ∃ b, target.binding? = some b ∧ objs.has b
  | .access obj _ => ∃ found, objectOf? objs obj = some found
  | _ => False

variable {parts : List Outline} {o : LookupObject} {id : Ident} {r first : Outline} {t : Trail}
  {p : Program}

/-- Every part of a node is looked at but the first one of such an item. -/
theorem misused_part {n : Nat} {o : Outline} (h : b ∉ misused objs (.node i parts))
    (ho : parts[n]? = some o) : b ∉ misused objs o ∨ n = 0 ∧ SkipsFirst objs i := by
  have hall : b ∉ misusedOf objs parts → b ∉ misused objs o := fun hparts =>
    not_mem_misusedOf.1 hparts o (List.mem_of_getElem? ho)
  have hrest : ∀ {first rest}, parts = first :: rest → b ∉ misusedOf objs rest →
      b ∉ misused objs o ∨ n = 0 := by
    rintro first rest rfl hparts
    cases n with
    | zero => exact .inr rfl
    | succ n => exact .inl (not_mem_misusedOf.1 hparts o (List.mem_of_getElem? ho))
  unfold misused at h
  split at h
  · -- a declarator: its target is passed over where it declares an object
    split at h
    · split at h
      · split at h
        · rename_i hb hhas _ _ _
          exact (hrest rfl h).imp_right fun hn => ⟨hn, _, hb, hhas⟩
        · cases ho
      · exact .inl (hall h)
    · exact .inl (hall h)
  · -- an access: its object is passed over where it is one of the table
    split at h
    · rename_i hobj
      have hparts := (not_or.1 (mt List.mem_append.2 h)).2
      cases parts with
      | nil => cases ho
      | cons first rest => exact (hrest rfl hparts).imp_right fun hn => ⟨hn, _, hobj⟩
    · exact .inl (hall h)
  all_goals
    try rw [List.mem_append, not_or] at h
    first
    | exact .inl (hall h.2)
    | exact .inl (hall h)

theorem knows_of_access (h : b ∉ misused objs (.node (.access obj prop) parts))
    (hobj : objectOf? objs obj = some (b, o)) : o.knows prop = true := by
  cases hknows : o.knows prop with
  | true => rfl
  | false => cases parts <;> simp [misused, hobj, hknows] at h

theorem ne_of_ident (h : b ∉ misused objs (.node (.ident id) parts)) (hb : objs.has b) :
    id.binding ≠ b := by
  rintro rfl
  simp [misused, hb] at h

theorem not_accessed_of_written (h : b ∉ misused objs (.node i parts)) (hw : w ∈ i.written)
    (hseen : w ∉ i.overlooked) : b ∉ accessedObject objs w := by
  have hown : ∀ {own rest : List Binding}, b ∉ own ++ rest → b ∉ own := fun hb hmem =>
    hb (List.mem_append_left _ hmem)
  rcases Item.mem_written hw with ⟨op, obj, prop, value, rfl, rfl⟩ | ⟨op, value, rfl | rfl | rfl⟩ |
    ⟨op, before, rfl⟩ | rfl | rfl
  · exact hown h
  · simp [Item.overlooked] at hseen
  · simp [Item.overlooked] at hseen
  · simp [Item.overlooked] at hseen
  · exact hown h
  · exact hown h
  · exact hown h

/-! ### Along a way down -/

/-- At the end of a way down stands something that was looked at, unless the way leads into the
first part of an item that skips it. -/
theorem misused_reached {o : Outline} (hr : o.Reaches t r) (ho : o.Made) (hb : b ∉ misused objs o) :
    b ∉ misused objs r ∨ ∃ before i parts first after, t = before ++ (i, 0) :: after ∧
      Outline.Made (.node i (first :: parts)) ∧ b ∉ misused objs (.node i (first :: parts)) ∧
      SkipsFirst objs i ∧ first.Reaches after r := by
  induction hr with
  | here => exact .inl hb
  | @down i parts n o r t hpart hr ih =>
    rcases misused_part hb hpart with hlooked | ⟨rfl, hskips⟩
    · have hmade : o.Made := ho.node.1 o (List.mem_of_getElem? hpart)
      rcases ih hmade hlooked with hlooked | ⟨before, j, parts', first, after, rfl, hrest⟩
      · exact .inl hlooked
      · exact .inr ⟨(i, n) :: before, j, parts', first, after, rfl, hrest⟩
    · cases parts with
      | nil => cases hpart
      | cons first rest =>
        cases hpart
        exact .inr ⟨[], i, rest, o, t, rfl, ho, hb, hskips, hr⟩

/-- What stands inside an expression that is a name but for parentheses. -/
theorem reaches_of_unparen : ∀ {e : Expr} {t : Trail} {r : Outline},
    e.unparen = .ident id → (outlineExpr e).Reaches t r →
    (∀ s ∈ t, ∃ e' : Expr, s = (.expr e', 0) ∧ e'.unparen = .ident id) ∧
    (r = leaf (.ident id) ∨ ∃ e' : Expr, r = outlineExpr e' ∧ e'.unparen = .ident id)
  | .paren e, t, r, he, hr => by
    cases hr with
    | here => exact ⟨by simp, .inr ⟨.paren e, rfl, he⟩⟩
    | @down _ _ n o _ t hpart hr =>
      obtain ⟨rfl, rfl⟩ : n = 0 ∧ o = outlineExpr e := by
        cases n <;> simp_all
      obtain ⟨ht, hend⟩ := reaches_of_unparen (e := e) he hr
      refine ⟨?_, hend⟩
      rintro s (_ | ⟨_, hs⟩)
      · exact ⟨.paren e, rfl, he⟩
      · exact ht s hs
  | .ident id', t, r, he, hr => by
    cases he
    cases hr with
    | here => exact ⟨by simp, .inr ⟨.ident id, rfl, rfl⟩⟩
    | @down _ _ n o _ t hpart hr =>
      obtain ⟨rfl, rfl⟩ : n = 0 ∧ o = leaf (.ident id) := by
        cases n <;> simp_all
      cases hr with
      | here => exact ⟨by simp [Expr.unparen], .inl rfl⟩
      | down hpart _ => cases hpart

/-- What stands inside a pattern that is a plain name: the name, or something of its type. -/
theorem reaches_of_name {bn : BindingName} (hr : (outlinePat (.name bn)).Reaches t r) :
    r = outlinePat (.name bn) ∨ r = outlineBinding bn ∨
    (t = [(.pat (.name bn), 0), (.binding bn, 0)] ∧ r = leaf (.ident bn.id)) ∨
    (∃ n, t = [(.pat (.name bn), 0), (.binding bn, n + 1)]) ∧ r.IsLeaf := by
  cases hr with
  | here => exact .inl rfl
  | @down _ _ n o _ t hpart hr =>
    obtain ⟨rfl, rfl⟩ : n = 0 ∧ o = outlineBinding bn := by
      cases n <;> simp_all
    cases hr with
    | here => exact .inr (.inl rfl)
    | @down _ _ n o _ t hpart hr =>
      cases n with
      | zero =>
        cases hpart
        cases hr with
        | here => exact .inr (.inr (.inl ⟨rfl, rfl⟩))
        | down hpart _ => cases hpart
      | succ n =>
        have hleaf : o.IsLeaf := ann_leaves bn.ann o (List.mem_of_getElem? hpart)
        -- a leaf has no parts, so the way ends here
        have hend : t = [] ∧ o = r := by
          cases hleaf <;> cases hr with
          | here => exact ⟨rfl, rfl⟩
          | down hpart _ => cases hpart
        obtain ⟨rfl, rfl⟩ := hend
        exact .inr (.inr (.inr ⟨⟨n, rfl⟩, hleaf⟩))

/-! ### Lookup objects are only read -/

/-- The places where the name of a lookup object may stand, by the way to them. -/
inductive LookupObject.UsedAt (o : LookupObject) (id : Ident) : Trail → Prop
  /-- The name that a declarator declares. -/
  | declared (before : Trail) {bn : BindingName} (init : Option Expr) (definite : Bool) :
    bn.id = id → UsedAt o id (before ++
      [(.declarator (.mk (.name bn) init definite), 0), (.pat (.name bn), 0), (.binding bn, 0)])
  /-- A name in the type of a declared variable. -/
  | typed (before : Trail) (bn : BindingName) (init : Option Expr) (definite : Bool) (n : Nat) :
    UsedAt o id (before ++
      [(.declarator (.mk (.name bn) init definite), 0), (.pat (.name bn), 0), (.binding bn, n + 1)])
  /-- The object of an access by a key of the object. -/
  | read (before : Trail) {obj : Expr} {prop : MemberProp} {after : Trail} :
    obj.unparen = .ident id → o.knows prop →
    (∀ s ∈ after, ∃ e : Expr, s = (.expr e, 0) ∧ e.unparen = .ident id) →
    UsedAt o id (before ++ (.access obj prop, 0) :: after)

/-- A variable with a single declarator, which starts as a lookup object and is otherwise only used
to read a key of the object; what is written to it is overlooked. -/
structure OnlyRead (p : Program) (b : Binding) (o : LookupObject) : Prop where
  declared : ∃ init, lookupObject? init = some o ∧
    (p.items.filterMap declaredVar?).filter (fun v => v.1 == b) = [(b, some init)]
  unexported : b ∉ p.items.flatMap exportedVars
  occurs : ∀ t id, p.Reaches t (leaf (.ident id)) → id.binding = b → o.UsedAt id t
  writes : ∀ i ∈ p.items, ∀ w ∈ i.written, w.AccessesVar b → w ∈ i.overlooked

theorem filter_eq_singleton {α : Type} {l : List (Binding × α)} {x : Binding × α} (hx : x ∈ l)
    (hcount : (l.map Prod.fst).count x.1 = 1) : l.filter (fun y => y.1 == x.1) = [x] := by
  have hlength : (l.filter fun y => y.1 == x.1).length = 1 := by
    rw [← List.countP_eq_length_filter, ← hcount, List.count, List.countP_map]
    rfl
  obtain ⟨y, hy⟩ := List.length_eq_one_iff.1 hlength
  have hmem : x ∈ l.filter fun y => y.1 == x.1 := List.mem_filter.2 ⟨hx, beq_self_eq_true _⟩
  rw [hy, List.mem_singleton] at hmem
  rw [hy, hmem]

theorem mem_declaredObjects (h : (b, o) ∈ declaredObjects p) :
    (∃ init, lookupObject? init = some o ∧
      (p.items.filterMap declaredVar?).filter (fun v => v.1 == b) = [(b, some init)]) ∧
    b ∉ p.items.flatMap exportedVars := by
  obtain ⟨⟨b', init?⟩, hmem, hsome⟩ := List.mem_filterMap.1 h
  simp only [Option.bind_eq_bind, Option.bind_eq_some_iff] at hsome
  obtain ⟨init, rfl, obj, hobj, hsome⟩ := hsome
  split at hsome
  · rename_i hcond
    cases hsome
    rw [Bool.and_eq_true, beq_iff_eq, Bool.not_eq_true', List.contains_eq_mem,
      decide_eq_false_iff_not] at hcond
    exact ⟨⟨init, hobj, filter_eq_singleton hmem hcond.1⟩, hcond.2⟩
  · cases hsome

/-- The look-up of an object finds the entry itself, for there is one declarator. -/
theorem declaredObjects_find? (h : (b, o) ∈ declaredObjects p) :
    (declaredObjects p).find? b = some o := by
  have hsome : ((declaredObjects p).lookup b).isSome :=
    List.lookup_isSome_iff.2 ⟨(b, o), h, beq_self_eq_true b⟩
  obtain ⟨o', ho'⟩ := Option.isSome_iff_exists.1 hsome
  obtain ⟨before, after, hsplit, -⟩ := List.lookup_eq_some_iff.1 ho'
  have hmem : (b, o') ∈ declaredObjects p := by simp [hsplit]
  obtain ⟨⟨init, hobj, hsingle⟩, -⟩ := mem_declaredObjects h
  obtain ⟨⟨init', hobj', hsingle'⟩, -⟩ := mem_declaredObjects hmem
  rw [hsingle] at hsingle'
  cases hsingle'
  rw [hobj] at hobj'
  cases hobj'
  exact ho'

theorem eq_of_objectOf? {found : Binding × LookupObject} (h : objectOf? objs e = some found) :
    ∃ id, e.unparen = .ident id ∧ found.1 = id.binding ∧ objs.find? id.binding = some found.2 := by
  unfold objectOf? at h
  split at h
  · rename_i id hid
    obtain ⟨o, ho, rfl⟩ := Option.map_eq_some_iff.1 h
    exact ⟨id, hid, rfl, ho⟩
  · cases h

theorem mem_accessedObject (hfind : objs.find? b = some o) (hw : w.AccessesVar b)
    (hmember : w.unparen.isMember = true) : b ∈ accessedObject objs w := by
  obtain ⟨obj, prop, id, haccess, hobj, rfl⟩ := hw
  simp [accessedObject, Expr.unparen_of_accessed? haccess hmember, objectOf?, hobj, hfind]

theorem written_eq_nil_of_skipped {j : Item} {parts' : List Outline}
    (hmade : Outline.Made (.node i (first :: parts))) (hskips : SkipsFirst objs i)
    (hr : first.Reaches t (.node j parts')) : j.written = [] := by
  cases i with
  | declarator d =>
    obtain ⟨target, init, definite⟩ := d
    obtain ⟨b, hb, -⟩ := hskips
    cases target with
    | name bn =>
      cases hmade.node.2
      rcases reaches_of_name hr with h | h | ⟨-, h⟩ | ⟨-, h⟩
      · cases h
        rfl
      · cases h
        rfl
      · cases h
        rfl
      · cases h <;> rfl
    | _ => cases hb
  | access obj prop =>
    obtain ⟨found, hfound⟩ := hskips
    obtain ⟨id, hid, -⟩ := eq_of_objectOf? hfound
    cases hmade.node.2
    rcases (reaches_of_unparen hid hr).2 with h | ⟨e, h, he⟩
    · cases h
      rfl
    · obtain ⟨parts'', hparts, -⟩ := outlineExpr_eq e
      cases h.trans hparts
      cases e with
      | ident | paren => rfl
      | _ => cases he
  | _ => cases hskips

/-- A name that is not looked at is declared, stands in a type, or is the object of an access. -/
theorem usedAt_of_skipped {before after : Trail} (hmade : Outline.Made (.node i (first :: parts)))
    (hskips : SkipsFirst objs i) (hr : first.Reaches after (leaf (.ident id)))
    (hb : id.binding ∉ misused objs (.node i (first :: parts)))
    (hfind : objs.find? id.binding = some o) : o.UsedAt id (before ++ (i, 0) :: after) := by
  cases i with
  | declarator d =>
    obtain ⟨target, init, definite⟩ := d
    obtain ⟨b, hb, -⟩ := hskips
    cases target with
    | name bn =>
      cases hmade.node.2
      rcases reaches_of_name hr with h | h | ⟨rfl, h⟩ | ⟨⟨n, rfl⟩, -⟩
      · cases h
      · cases h
      · cases h
        exact .declared before init definite rfl
      · exact .typed before bn init definite n
    | _ => cases hb
  | access obj prop =>
    obtain ⟨found, hfound⟩ := hskips
    obtain ⟨id', hid, hbinding, hfind'⟩ := eq_of_objectOf? hfound
    cases hmade.node.2
    obtain ⟨hafter, hend⟩ := reaches_of_unparen hid hr
    obtain rfl : id = id' := by
      rcases hend with h | ⟨e, h, -⟩
      · cases h
        rfl
      · obtain ⟨parts'', hparts, -⟩ := outlineExpr_eq e
        cases h.trans hparts
    rw [hfind] at hfind'
    have hobj : objectOf? objs obj = some (id.binding, o) := by
      rw [hfound, ← hbinding, Option.some.inj hfind']
    exact .read before hid (knows_of_access hb hobj) hafter
  | _ => cases hskips

/-- A lookup object has one declarator and is otherwise only read through keys that it has, but for
the writes that are overlooked. -/
theorem lookupObjects_onlyRead (p : Program) (b : Binding) (o : LookupObject)
    (h : (b, o) ∈ lookupObjects p) : OnlyRead p b o := by
  obtain ⟨hdeclared, hgood⟩ := List.mem_filter.1 h
  have hbad : b ∉ misusedOf (declaredObjects p) (outlineProgram p) := by
    simpa using hgood
  have hfind : (declaredObjects p).find? b = some o := declaredObjects_find? hdeclared
  obtain ⟨hinit, hexported⟩ := mem_declaredObjects hdeclared
  have hreached : ∀ {t r}, p.Reaches t r → _ := fun {t r} ⟨q, hq, hr⟩ =>
    misused_reached hr (stmts_made p.body q hq) (not_mem_misusedOf.1 hbad q hq)
  refine ⟨hinit, hexported, ?_, ?_⟩
  · -- every occurrence of the name
    rintro t id hr rfl
    rcases hreached hr with hlooked | ⟨before, i, parts, first, after, rfl, hmade, hb, hskips, hr⟩
    · have hhas : (declaredObjects p).has id.binding := by simp [Table.has, hfind]
      exact absurd rfl (ne_of_ident hlooked hhas)
    · exact usedAt_of_skipped hmade hskips hr hb hfind
  · -- every write
    intro i hi w hw haccess
    obtain ⟨t, parts, hr⟩ := Program.exists_reaches hi
    rcases hreached hr with hlooked | ⟨before, j, parts', first, after, rfl, hmade, hb, hskips, hr⟩
    · cases hmember : w.unparen.isMember with
      | false => exact Item.mem_overlooked hw hmember
      | true =>
        refine Classical.byContradiction fun hseen => ?_
        exact not_accessed_of_written hlooked hw hseen (mem_accessedObject hfind haccess hmember)
    · rw [written_eq_nil_of_skipped hmade hskips hr] at hw
      cases hw

/-- `var m = { a: true }; delete m?.a; f((m)["a"]);` -/
def deleting : Program where
  grammar := .script
  body := [
    .decl (.var (.single .var { name := "m" }
      (some (.object [.keyValue (.name "a") (.lit (.bool true))])))),
    .expr (.unary .delete (.chainMember true (.ofName "m") (.name "a"))),
    .expr (.call (.ofName "f")
      [.member (.paren (.ofName "m")) (.computed (.lit (.str (.ofText "a"))))])]

/-- A variable whose member is deleted is a lookup object all the same. -/
theorem lookupObjects_onlyRead_deleting :
    lookupObjects deleting.resolved =
      [(⟨"m", .top⟩, ⟨[("a", .lit (.bool true))], true⟩)] ∧
    OnlyRead deleting.resolved ⟨"m", .top⟩ ⟨[("a", .lit (.bool true))], true⟩ := by
  have hobjs : lookupObjects deleting.resolved =
      [(⟨"m", .top⟩, ⟨[("a", .lit (.bool true))], true⟩)] := rfl
  refine ⟨hobjs, lookupObjects_onlyRead _ _ _ ?_⟩
  rw [hobjs]
  exact List.mem_singleton_self _

/-- The value that was deleted is read as if it were still there. -/
theorem inlineLookups_deleting :
    (inlineLookups false deleting).1.body[2]? =
      some (.expr (.call (.ofName "f") [.lit (.bool true)])) := rfl

end Untangle.Pass
