import Untangle.Proofs.DoubleArithmetic
import Untangle.Proofs.OutlinePlaces
import Untangle.Proofs.ProxyEvaluation
import Untangle.Proofs.TableRemoval

/-!
# What the functions that read a string array return

The pass replaces the call of an accessor by a string without running it. The offset of the accessor
is what the first assignment in it subtracts from a name, so the string is right only where that
assignment is what moves the index, and nothing else does.

`decode?_misreads` is an accessor that takes its parameter away from a literal: no assignment says so,
and the pass reads the string at the parameter itself.
-/

namespace Untangle

variable {ω V α β : Type}

/-! ### Moved indices -/

/-- How an index is moved. -/
inductive Shift
  | stay
  | down (n : NumLit)
  | up (n : NumLit)

variable {n : NumLit} {op : BinaryOp} {e : Expr} {id : Ident} {s : String} {x i : Binding}
  {c : Shift} {bs : List Binding}

namespace Shift

def offset : Shift → Float
  | .stay => 0
  | .down n => n.value
  | .up n => -n.value

/-- The offset that is written down: none where nothing is. -/
def written? : Shift → Option Float
  | .stay => none
  | .down n => some n.value
  | .up n => some (-n.value)

theorem getD_written? (c : Shift) : c.written?.getD 0 = c.offset := by
  cases c <;> rfl

/-- The constants that can be moved so: a subtraction takes any, the others only numbers. -/
def Takes : Shift → Value → Prop
  | .down _, _ => True
  | _, v => ∃ x, v = .number x

def moved (c : Shift) (v : Value) : Value := .number (v.toNumber - c.offset)

theorem moved_stay {v : Value} (h : Shift.stay.Takes v) : Shift.stay.moved v = v := by
  obtain ⟨x, rfl⟩ := h
  show Value.number (x - 0) = .number x
  rw [Number.sub_zero]

theorem moved_up {v : Value} (h : (Shift.up n).Takes v) :
    ∃ x, v = .number x ∧ (Shift.up n).moved v = .number (x + n.value) := by
  obtain ⟨x, rfl⟩ := h
  refine ⟨x, rfl, ?_⟩
  show Value.number (x - -n.value) = .number (x + n.value)
  rw [Number.sub_neg]

end Shift

/-- An expression that moves an index and has its new value. -/
inductive Moves (i : Binding) : Expr → Shift → Prop
  | same {id : Ident} (hid : id.binding = i) : Moves i (.ident id) .stay
  | less {b : BindingName} {e : Expr} {n : NumLit} (hb : b.id.binding = i)
      (he : e.unparen = .lit (.num n)) : Moves i (.assign (.combined .sub) (.name b) e) (.down n)
  | more {b : BindingName} {e : Expr} {n : NumLit} (hb : b.id.binding = i)
      (he : e.unparen = .lit (.num n)) : Moves i (.assign (.combined .add) (.name b) e) (.up n)
  | setLess {b : BindingName} {id : Ident} {e l r : Expr} {n : NumLit} (hb : b.id.binding = i)
      (he : e.unparen = .binary .sub l r) (hl : l.unparen = .ident id) (hid : id.binding = i)
      (hr : r.unparen = .lit (.num n)) : Moves i (.assign .plain (.name b) e) (.down n)
  | setMore {b : BindingName} {id : Ident} {e l r : Expr} {n : NumLit} (hb : b.id.binding = i)
      (he : e.unparen = .binary .add l r) (hl : l.unparen = .ident id) (hid : id.binding = i)
      (hr : r.unparen = .lit (.num n)) : Moves i (.assign .plain (.name b) e) (.up n)
  | paren {e : Expr} {c : Shift} (h : Moves i e c) : Moves i (.paren e) c

/-- An expression that moves an index, in the brackets of an array or before them, and reads the
array there. -/
inductive ReadsAt (array i : Binding) : Expr → Shift → Prop
  | element {obj k : Expr} {id : Ident} {c : Shift} (hobj : obj.unparen = .ident id)
      (hid : id.binding = array) (hk : Moves i k c) :
      ReadsAt array i (.member obj (.computed k)) c
  | after {e e' : Expr} {c : Shift} (he : Moves i e c) (he' : ReadsAt array i e' .stay) :
      ReadsAt array i (.seq [e, e']) c
  | paren {e : Expr} {c : Shift} (h : ReadsAt array i e c) : ReadsAt array i (.paren e) c

/-! ### Computations that change local variables alone -/

/-- From some local variables, a computation gives one value and others, and does nothing else. -/
def Gives (ρ ρ' : Locals V) (v : α) (x : Comp (ω × Locals V) V α) : Prop := ∀ a r b,
  x (a, ρ) r b ↔ r = .value v ∧ b = (a, ρ')

namespace Gives

variable {ρ ρ' ρ'' : Locals V} {v : α} {w : β}

theorem pure (ρ : Locals V) (v : α) : Gives ρ ρ v (Pure.pure v : Comp (ω × Locals V) V α) :=
  fun _ _ _ => Iff.rfl

theorem bind {x : Comp (ω × Locals V) V α} {k : α → Comp (ω × Locals V) V β}
    (hx : Gives ρ ρ' v x) (hk : Gives ρ' ρ'' w (k v)) : Gives ρ ρ'' w (x >>= k) := by
  intro a r b
  constructor
  · rintro (⟨u, m, hm, hb⟩ | ⟨u, rfl, hb⟩ | ⟨rfl, hb⟩)
    · obtain ⟨hu, rfl⟩ := (hx _ _ _).1 hm
      cases hu
      exact (hk _ _ _).1 hb
    · cases ((hx _ _ _).1 hb).1
    · cases ((hx _ _ _).1 hb).1
  · intro hb
    exact .inl ⟨v, (a, ρ'), (hx _ _ _).2 ⟨rfl, rfl⟩, (hk _ _ _).2 hb⟩

theorem of_sim {x : Comp (ω × Locals V) V α} (h : Sim ρ Eq x (Pure.pure v : Comp ω V α)) :
    Gives ρ ρ v x := by
  intro a r b
  constructor
  · intro hb
    obtain ⟨hρ, r', hr, rfl, hstate⟩ := h.forth hb
    cases hr with
    | value hv =>
      cases hv
      exact ⟨rfl, Prod.ext hstate hρ⟩
  · rintro ⟨rfl, rfl⟩
    obtain ⟨r', hr, hx⟩ := h.back (a := a) ⟨rfl, rfl⟩
    cases hr with
    | value hv =>
      cases hv
      exact hx

theorem inFrame_eq {x : Comp (ω × Locals V) V α} (h : Gives ρ ρ' v x) :
    x.inFrame ρ = Pure.pure v := by
  funext a r b
  apply propext
  constructor
  · rintro ⟨ρ₁, hb⟩
    obtain ⟨hr, hstate⟩ := (h _ _ _).1 hb
    exact ⟨hr, congrArg Prod.fst hstate⟩
  · rintro ⟨rfl, rfl⟩
    exact ⟨ρ', (h _ _ _).2 ⟨rfl, rfl⟩⟩

end Gives

namespace Host

variable (H : Host ω V) {ρ : Locals V} {x : Binding} {u v : V}

theorem gives_write (h : ρ x = some u) : Gives ρ (ρ.set x v) () (H.framed.write x v) := by
  intro a r b
  show H.writeLocal x v (a, ρ) r b ↔ _
  simp only [writeLocal, h]

theorem gives_perform {op : Operation} {vs : List V} (hop : op.name? = none)
    (h : H.perform op vs = pure v) : Gives ρ ρ v (H.framed.perform op vs) :=
  .of_sim (h ▸ H.perform_unnamed vs hop)

theorem gives_get {o : V} {k : Key V} (h : H.get o k = pure v) : Gives ρ ρ v (H.framed.get o k) :=
  .of_sim (h ▸ Sim.lifted _)

/-! ### Values of the parts -/

theorem value_combine_name (hop : op.isLogical = false) (b : BindingName) (e : Expr) :
    H.value (.assign (.combined op) (.name b) e) = (do
      let old ← H.read b.id.binding
      let v ← H.value e
      let new ← H.perform (.binary op) [old, v]
      H.write b.id.binding new
      return new) := by
  have hsettles (v : V) : H.settles op v = false := by
    cases op <;> first | rfl | cases hop
  simp [value, refer, place, hop, hsettles, combine, assign, store, load]

end Host

/-! ### Hosts that hold an array -/

/-- A host in which constants are what they are, numbers are added and subtracted, and a variable
holds an array of strings. -/
structure Host.Holds (H : Host ω V) (val : Value → V) (array : Binding) (strings : List String) :
    Prop where
  number : ∀ n, H.constant (.lit (.num n)) = val (.number n.value)
  sub : ∀ v y, H.perform (.binary .sub) [val v, val (.number y)] =
    pure (val (.number (v.toNumber - y)))
  add : ∀ x y, H.perform (.binary .add) [val (.number x), val (.number y)] =
    pure (val (.number (x + y)))
  element : ∃ o, H.read array = pure o ∧ ∀ x s, 0 ≤ x → Number.isWhole x = true →
    strings[Number.wholeMagnitude x]? = some s →
    H.get o (.value (val (.number x))) = pure (H.constant (.ofText s))

section Evaluation

variable {H : Host ω V} {val : Value → V} {array i : Binding} {strings : List String}
  {ρ : Locals V}

theorem Locals.set_known (ρ : Locals V) {v : V} (h : ρ x = some v) : ρ.set x v = ρ := by
  funext y
  by_cases hy : y = x
  · rw [hy, Locals.set_same, h]
  · exact Locals.set_other ρ v hy

theorem gives_index {v : V} (he : e.unparen = .ident id) (hρ : ρ id.binding = some v) :
    Gives ρ ρ v (H.framed.value e) := by
  rw [← Host.value_unparen, he, value_ident]
  exact .of_sim (H.read_local hρ)

theorem Host.Holds.gives_num (hH : H.Holds val array strings) (he : e.unparen = .lit (.num n)) :
    Gives ρ ρ (val (.number n.value)) (H.framed.value e) := by
  rw [← Host.value_unparen, he, Host.value_silent _ _ rfl, ← hH.number]
  exact .pure ρ _

variable {b : BindingName} {u : V}

/-- The two ways to write a move that subtracts or adds come down to one operation. -/
theorem Host.Holds.gives_assign (hH : H.Holds val array strings) (hop : op.isLogical = false)
    {w : V} (hρ : ρ b.id.binding = some u) (he : e.unparen = .lit (.num n))
    (hperform : H.perform (.binary op) [u, val (.number n.value)] = pure w) :
    Gives ρ (ρ.set b.id.binding w) w (H.framed.value (.assign (.combined op) (.name b) e)) := by
  rw [Host.value_combine_name _ hop]
  refine (Gives.of_sim (H.read_local hρ)).bind ?_
  refine (hH.gives_num he).bind ?_
  refine (H.gives_perform rfl hperform).bind ?_
  exact (H.gives_write hρ).bind (.pure _ w)

theorem Host.Holds.gives_set (hH : H.Holds val array strings) (hop : op.isLogical = false)
    {l r : Expr} {w : V} (hb : ρ b.id.binding = some u) (hid : ρ id.binding = some u)
    (he : e.unparen = .binary op l r) (hl : l.unparen = .ident id) (hr : r.unparen = .lit (.num n))
    (hperform : H.perform (.binary op) [u, val (.number n.value)] = pure w) :
    Gives ρ (ρ.set b.id.binding w) w (H.framed.value (.assign .plain (.name b) e)) := by
  rw [Host.value_assign_name, ← Host.value_unparen _ e, he, Host.value_binary _ _ _ hop]
  have hvalue : Gives ρ ρ w (H.framed.value l >>= fun u => H.framed.value r >>= fun v =>
      H.framed.perform (.binary op) [u, v]) :=
    (gives_index hl hid).bind ((hH.gives_num hr).bind (H.gives_perform rfl hperform))
  exact hvalue.bind ((H.gives_write hb).bind (.pure _ w))

theorem Moves.gives (h : Moves i e c) (hH : H.Holds val array strings) {v : Value} (hv : c.Takes v)
    (hρ : ρ i = some (val v)) :
    Gives ρ (ρ.set i (val (c.moved v))) (val (c.moved v)) (H.framed.value e) := by
  induction h with
  | same hid =>
    subst hid
    rw [Shift.moved_stay hv, ρ.set_known hρ]
    exact gives_index rfl hρ
  | less hb he =>
    subst hb
    exact hH.gives_assign rfl hρ he (hH.sub v _)
  | more hb he =>
    subst hb
    obtain ⟨x, rfl, hx⟩ := Shift.moved_up hv
    rw [hx]
    exact hH.gives_assign rfl hρ he (hH.add x _)
  | setLess hb he hl hid hr =>
    subst hb
    exact hH.gives_set rfl hρ (hid ▸ hρ) he hl hr (hH.sub v _)
  | setMore hb he hl hid hr =>
    subst hb
    obtain ⟨x, rfl, hx⟩ := Shift.moved_up hv
    rw [hx]
    exact hH.gives_set rfl hρ (hid ▸ hρ) he hl hr (hH.add x _)
  | paren _ ih =>
    rw [Host.value_paren]
    exact ih hv

theorem ReadsAt.gives (h : ReadsAt array i e c) (hH : H.Holds val array strings) (hi : array ≠ i)
    {v : Value} (hv : c.Takes v) (hρ : ρ i = some (val v)) (harray : ρ array = none)
    (hzero : 0 ≤ v.toNumber - c.offset) (hwhole : Number.isWhole (v.toNumber - c.offset) = true)
    (hs : strings[Number.wholeMagnitude (v.toNumber - c.offset)]? = some s) :
    Gives ρ (ρ.set i (val (c.moved v))) (H.constant (.ofText s)) (H.framed.value e) := by
  induction h generalizing v ρ with
  | @element obj k id c hobj hid hk =>
    obtain ⟨o, hread, hget⟩ := hH.element
    have harrayValue : Gives ρ ρ o (H.framed.value obj) := by
      rw [← Host.value_unparen, hobj, value_ident, hid]
      exact .of_sim (hread ▸ H.read_outside harray)
    rw [Host.value_member]
    refine harrayValue.bind (Gives.bind ((hk.gives hH hv hρ).bind (.pure _ _)) ?_)
    exact H.gives_get (hget _ s hzero hwhole hs)
  | @after _ _ c he _ ih =>
    rw [Host.value_seq_cons, Host.value_seq_singleton]
    refine (he.gives hH hv hρ).bind ?_
    -- the moved index is a number, which reading the array leaves as it is
    have hstay : Shift.stay.Takes (c.moved v) := ⟨_, rfl⟩
    have hsame : (c.moved v).toNumber - Shift.stay.offset = v.toNumber - c.offset :=
      Number.sub_zero _
    have hread := ih hstay (ρ.set_same i _) ((ρ.set_other _ hi).trans harray)
      (hsame ▸ hzero) (hsame ▸ hwhole) (hsame ▸ hs)
    rwa [Shift.moved_stay hstay, Locals.set_known _ (ρ.set_same i _)] at hread
  | paren _ ih =>
    rw [Host.value_paren]
    exact ih hv hρ harray hzero hwhole hs

end Evaluation

/-! ### The offset that is found -/

namespace Pass

def writtenOffset? (os : List Outline) : Option Float := (Outline.itemsOf os).findSome? offsetOf?

@[simp] theorem writtenOffset?_nil : writtenOffset? [] = none := rfl

@[simp] theorem writtenOffset?_append (os qs : List Outline) :
    writtenOffset? (os ++ qs) = (writtenOffset? os).or (writtenOffset? qs) := by
  rw [writtenOffset?, itemsOf_append, List.findSome?_append]
  rfl

@[simp] theorem writtenOffset?_cons (i : Item) (parts os : List Outline) :
    writtenOffset? (.node i parts :: os) =
      (offsetOf? i).or ((writtenOffset? parts).or (writtenOffset? os)) := by
  have hitems : Outline.itemsOf (.node i parts :: os) =
      i :: (Outline.itemsOf parts ++ Outline.itemsOf os) := rfl
  rw [writtenOffset?, hitems, List.findSome?_cons, List.findSome?_append]
  cases offsetOf? i <;> rfl

theorem writtenOffset?_two (o q : Outline) :
    writtenOffset? [o, q] = (writtenOffset? [o]).or (writtenOffset? [q]) :=
  writtenOffset?_append [o] [q]

theorem writtenOffset?_leaves : ∀ {os : List Outline}, (∀ o ∈ os, o.IsLeaf) →
    writtenOffset? os = none
  | [], _ => rfl
  | o :: os, h => by
    obtain ⟨ho, hos⟩ := List.forall_mem_cons.1 h
    have hrest := writtenOffset?_leaves hos
    cases ho <;> (rw [Outline.leaf, writtenOffset?_cons, writtenOffset?_nil, hrest]; rfl)

theorem of_unparen {P : Expr → Prop} (hparen : ∀ e, P e → P (.paren e)) (h : P e.unparen) :
    P e := by
  induction e using Expr.unparen_induct with
  | paren e ih => exact hparen e (ih h)
  | bare e hbare => exact hbare ▸ h

theorem writtenOffset?_paren (e : Expr) :
    writtenOffset? [outlineExpr (.paren e)] = writtenOffset? [outlineExpr e] := by
  simp [outlineExpr, offsetOf?]

theorem writtenOffset?_ident (h : e.unparen = .ident id) :
    writtenOffset? [outlineExpr e] = none := by
  refine of_unparen (P := fun e => writtenOffset? [outlineExpr e] = none) ?_ (h ▸ ?_)
  · intro e he
    rw [writtenOffset?_paren, he]
  · simp [outlineExpr, offsetOf?, Outline.leaf]

theorem literalNumber?_of_unparen (h : e.unparen = .lit (.num n)) :
    literalNumber? e = some n.value := by
  rw [literalNumber?, h]

end Pass

open Pass

theorem Moves.written (h : Moves i e c) : writtenOffset? [outlineExpr e] = c.written? := by
  induction h with
  | same _ => exact writtenOffset?_ident rfl
  | less _ he => simp [outlineExpr, offsetOf?, literalNumber?_of_unparen he, Shift.written?]
  | more _ he => simp [outlineExpr, offsetOf?, literalNumber?_of_unparen he, Shift.written?]
  | setLess hb he hl hid hr =>
    have hname := congrArg Binding.name (hid.trans hb.symm)
    simp only [Ident.binding] at hname
    simp [outlineExpr, offsetOf?, he, hl, hname, literalNumber?_of_unparen hr, Shift.written?]
  | setMore hb he hl hid hr =>
    have hname := congrArg Binding.name (hid.trans hb.symm)
    simp only [Ident.binding] at hname
    simp [outlineExpr, offsetOf?, he, hl, hname, literalNumber?_of_unparen hr, Shift.written?]
  | paren _ ih => rw [writtenOffset?_paren, ih]

theorem ReadsAt.written {array : Binding} (h : ReadsAt array i e c) :
    writtenOffset? [outlineExpr e] = c.written? := by
  induction h with
  | @element obj k _ c hobj _ hk =>
    have hparts : writtenOffset? [outlineExpr obj, outlineExpr k] = c.written? := by
      rw [writtenOffset?_two, writtenOffset?_ident hobj, hk.written]
      rfl
    simp [outlineExpr, outlineAccess, offsetOf?, hparts]
  | @after e e' c he _ ih =>
    have hparts : writtenOffset? [outlineExpr e, outlineExpr e'] = c.written? := by
      rw [writtenOffset?_two, he.written, ih]
      exact Option.or_none
    simp [outlineExpr, outlineExprs, offsetOf?, hparts]
  | paren _ ih => rw [writtenOffset?_paren, ih]

/-! ### Functions that return what they read -/

/-- The parameters of a function and the expression that it returns, if all parameters are plain
names and nothing else is done. -/
def Func.returned? : Func → Option (List Binding × Expr)
  | .mk _ _ _ params _ (.block [.return (some e)]) => (params.mapM Pat.binding?).map fun bs => (bs, e)
  | _ => none

/-- The local variables of a call: the parameters by place, those left out undefined. A later one of
the same name hides an earlier one. -/
def callFrame (undefined : V) : List Binding → List V → Locals V
  | [], _ => fun _ => none
  | x :: xs, vs => fun y =>
    (callFrame undefined xs vs.tail y).or (if y = x then some (vs.headD undefined) else none)

theorem callFrame_of_not_mem (undefined : V) {y : Binding} : ∀ {xs : List Binding} {vs : List V},
    y ∉ xs → callFrame undefined xs vs y = none
  | [], _, _ => rfl
  | x :: xs, vs, h => by
    obtain ⟨hx, hxs⟩ := not_or.1 (mt List.mem_cons.2 h)
    show (callFrame undefined xs vs.tail y).or _ = none
    rw [callFrame_of_not_mem undefined hxs, if_neg hx]
    rfl

theorem callFrame_head (undefined : V) {xs : List Binding} (h : x ∉ xs) (v : V) (vs : List V) :
    callFrame undefined (x :: xs) (v :: vs) x = some v := by
  show (callFrame undefined xs vs x).or _ = some v
  rw [callFrame_of_not_mem undefined h, if_pos rfl]
  rfl

namespace Pass

theorem typeParams_leaves (ts : List TypeParam) : ∀ o ∈ outlineTypeParams ts, o.IsLeaf := by
  intro o ho
  obtain ⟨t, -, ht⟩ := List.mem_flatMap.1 ho
  rcases List.mem_cons.1 ht with rfl | ht
  · exact .ident t.name
  · rcases List.mem_append.1 ht with ht | ht
    · exact ann_leaves t.bound o ht
    · exact ann_leaves t.fallback o ht

theorem writtenOffset?_params : ∀ {ps : List Pat} {bs : List Binding},
    ps.mapM Pat.binding? = some bs → writtenOffset? (outlineParams ps) = none
  | [], _, _ => rfl
  | p :: ps, bs, h => by
    rw [List.mapM_cons] at h
    obtain ⟨b, hb, h⟩ := Option.bind_eq_some_iff.1 h
    obtain ⟨cs, hcs, -⟩ := Option.bind_eq_some_iff.1 h
    cases p with
    | name b =>
      have hann := writtenOffset?_leaves (ann_leaves b.ann)
      simp [outlineParams, outlinePat, outlineBinding, offsetOf?, Outline.leaf, hann,
        writtenOffset?_params hcs]
    | _ => cases hb

theorem decoderOf_offset {f : Func} (h : f.returned? = some (bs, e)) (array : Binding) :
    (decoderOf f array).offset = (writtenOffset? [outlineExpr e]).getD 0 := by
  unfold Func.returned? at h
  split at h
  case h_2 => cases h
  case h_1 isAsync isGenerator tps params ret e =>
    obtain ⟨cs, hcs, hce⟩ := Option.map_eq_some_iff.1 h
    cases hce
    have hparams := writtenOffset?_params hcs
    have htps := writtenOffset?_leaves (typeParams_leaves tps)
    have hret := writtenOffset?_leaves (ann_leaves ret)
    have hbody : writtenOffset? (outlineBody (.block [.return (some e)])) =
        writtenOffset? [outlineExpr e] := by
      simp [outlineBody, outlineStmts, outlineStmt, offsetOf?]
    have hwhole : writtenOffset? [outlineFunction (.mk isAsync isGenerator tps params ret
        (.block [.return (some e)]))] = writtenOffset? [outlineExpr e] := by
      rw [outlineFunction, writtenOffset?_cons, writtenOffset?_append, writtenOffset?_append,
        writtenOffset?_append, hparams, htps, hret, hbody]
      simp [offsetOf?]
    have hitems : (outlineFunction (.mk isAsync isGenerator tps params ret
        (.block [.return (some e)]))).items.findSome? offsetOf? =
          writtenOffset? [outlineExpr e] := by
      rw [← hwhole, writtenOffset?, Outline.itemsOf, Outline.itemsOf, List.append_nil]
    show (List.findSome? offsetOf? _).getD 0 = _
    rw [hitems]

end Pass

/-! ### Decoders that were noted -/

section Entries

variable {κ γ : Type} [BEq κ] [LawfulBEq κ]

theorem Table.find?_put_self (t : Table κ γ) (k : κ) (a : γ) : (t.put k a).find? k = some a := by
  have herased : (Table.erase t k).lookup k = none := by
    rw [List.lookup_eq_none_iff]
    intro p hp
    have hne := (List.mem_filter.1 hp).2
    rw [Bool.not_eq_true', beq_eq_false_iff_ne] at hne
    exact bne_iff_ne.2 fun h => hne h.symm
  rw [Table.find?, Table.put, List.lookup_append, herased, List.lookup_cons_self]
  rfl

variable {k l : κ}

theorem Table.find?_erase_ne (t : Table κ γ) (h : k ≠ l) :
    (Table.erase t l).find? k = t.find? k := by
  have hkl : (k == l) = false := beq_eq_false_iff_ne.2 h
  unfold Table.find?
  induction t with
  | nil => rfl
  | cons p t ih =>
    by_cases hp : p.1 = l
    · have hdrop : Table.erase (p :: t) l = Table.erase t l := by simp [Table.erase, hp]
      rw [hdrop, ih, List.lookup_cons, hp, hkl]
    · have hkeep : Table.erase (p :: t) l = p :: Table.erase t l := by simp [Table.erase, hp]
      rw [hkeep, List.lookup_cons, List.lookup_cons, ih]

theorem Table.find?_put_ne (t : Table κ γ) (h : k ≠ l) (a : γ) :
    (t.put l a).find? k = t.find? k := by
  have hkl : (k == l) = false := beq_eq_false_iff_ne.2 h
  rw [← Table.find?_erase_ne t h]
  unfold Table.find? Table.put
  rw [List.lookup_append, List.lookup_cons, hkl]
  exact Option.or_none

end Entries

namespace Pass

variable {f array : Binding} {func : Func}

theorem addRotation_decoders (t : StringTables) (s : Stmt) :
    (t.addRotation s).decoders = t.decoders := by
  unfold StringTables.addRotation
  split
  · split <;> rfl
  · rfl

theorem addIndirection_decoders (t : StringTables) (i : Item) :
    (t.addIndirection i).decoders = t.decoders := by
  unfold StringTables.addIndirection
  split
  · split
    · split
      · rfl
      · split <;> rfl
      · rfl
    · rfl
  · split
    · rfl
    · split <;> rfl
  · rfl

theorem addIndirections_decoders : ∀ (is : List Item) (t : StringTables),
    (is.foldl StringTables.addIndirection t).decoders = t.decoders
  | [], _ => rfl
  | i :: is, t => (addIndirections_decoders is _).trans (addIndirection_decoders t i)

/-- The array that a function mentions, if there is one, is found in whatever order. -/
theorem Arrangement.find?_only (o : Arrangement Binding) {bs : List Binding} {P : Binding → Bool}
    (hmem : array ∈ bs) (harray : P array = true) (honly : ∀ b ∈ bs, P b = true → b = array) :
    (o.arrange bs).find? P = some array := by
  cases hfind : (o.arrange bs).find? P with
  | none => exact absurd harray (List.find?_eq_none.1 hfind array ((o.perm bs).mem_iff.2 hmem))
  | some b =>
    rw [honly b ((o.perm bs).mem_iff.1 (List.mem_of_find?_eq_some hfind)) (List.find?_some hfind)]

/-- A statement notes a decoder that it declares, and leaves those of other names alone. -/
theorem addDecoder_find? (t : StringTables) (s : Stmt) (harray : t.arrays.has f = false)
    (hread : array ∈ func.mentions ∧ t.arrays.has array = true)
    (honly : ∀ b ∈ func.mentions, t.arrays.has b = true → b = array)
    (hsame : ∀ g, declaredFunc? s = some (f, g) → g = func) :
    (t.addDecoder s).decoders.find? f =
      if (declaredFunc? s).any (·.1 == f) then some (decoderOf func array)
      else t.decoders.find? f := by
  cases hs : declaredFunc? s with
  | none =>
    simp only [StringTables.addDecoder, hs]
    rfl
  | some d =>
    obtain ⟨b, g⟩ := d
    by_cases hb : b = f
    · subst hb
      cases hsame g hs
      simp [StringTables.addDecoder, hs, harray, Table.find?_put_self,
        t.orders.mentions.find?_only hread.1 hread.2 honly]
    · have hother : (t.addDecoder s).decoders.find? f = t.decoders.find? f := by
        simp only [StringTables.addDecoder, hs]
        split
        · rfl
        · split
          · exact Table.find?_put_ne _ (Ne.symm hb) _
          · rfl
      simp [hother, hb]

theorem addDecoders_find? : ∀ (ss : List Stmt) (t : StringTables), t.arrays.has f = false →
    array ∈ func.mentions ∧ t.arrays.has array = true →
    (∀ b ∈ func.mentions, t.arrays.has b = true → b = array) →
    (∀ s ∈ ss, ∀ g, declaredFunc? s = some (f, g) → g = func) →
    ((∃ s ∈ ss, declaredFunc? s = some (f, func)) ∨
      t.decoders.find? f = some (decoderOf func array)) →
    (ss.foldl (fun t s => (t.addDecoder s).addRotation s) t).decoders.find? f =
      some (decoderOf func array)
  | [], _, _, _, _, _, h => by
    rcases h with ⟨s, hs, -⟩ | h
    · cases hs
    · exact h
  | s :: ss, t, harray, hread, honly, hsame, h => by
    obtain ⟨hsame₁, hsame₂⟩ := List.forall_mem_cons.1 hsame
    have hstep := addDecoder_find? t s harray hread honly hsame₁
    have harrays : ((t.addDecoder s).addRotation s).arrays = t.arrays :=
      (addRotation_arrays _ s).trans (addDecoder_arrays t s)
    rw [List.foldl_cons]
    refine addDecoders_find? ss _ (harrays ▸ harray) (harrays ▸ hread) (harrays ▸ honly) hsame₂ ?_
    rw [addRotation_decoders, hstep]
    rcases h with ⟨s', hs', hdecl⟩ | h
    · rcases List.mem_cons.1 hs' with rfl | hs'
      · right
        simp [hdecl]
      · exact .inl ⟨s', hs', hdecl⟩
    · right
      split
      · rfl
      · exact h

variable {t : StringTables} {d : Decoder}

theorem collect?_decoder {p : Program} {o : Orders} (ht : StringTables.collect? p o = some t)
    (hdecl : ∃ s ∈ p.body, declaredFunc? s = some (f, func))
    (hsame : ∀ s ∈ p.body, ∀ g, declaredFunc? s = some (f, g) → g = func)
    (harray : (StringTables.gathered p o).arrays.has f = false)
    (hread : array ∈ func.mentions ∧ (StringTables.gathered p o).arrays.has array = true)
    (honly : ∀ b ∈ func.mentions, (StringTables.gathered p o).arrays.has b = true → b = array) :
    t.decoders.find? f = some (decoderOf func array) := by
  let stmts := p.body.filter fun s => !s.isModuleDecl
  let t₀ : StringTables := stmts.foldl StringTables.addArray { orders := o }
  let t₁ := stmts.foldl (fun t s => (t.addDecoder s).addRotation s) t₀
  have harrays : (StringTables.gathered p o).arrays = t₀.arrays :=
    (addIndirections_keep p.items t₁).1.trans (addRotations_arrays stmts t₀)
  have hdecoders : t.decoders = t₁.decoders :=
    (collect?_keeps ht).decoders.trans (addIndirections_decoders p.items t₁)
  rw [harrays] at harray hread honly
  rw [hdecoders]
  refine addDecoders_find? stmts t₀ harray hread honly
    (fun s hs => hsame s (List.mem_filter.1 hs).1) (.inl ?_)
  obtain ⟨s, hs, hf⟩ := hdecl
  refine ⟨s, List.mem_filter.2 ⟨hs, ?_⟩, hf⟩
  cases s with
  | decl d => rfl
  | _ => cases hf

theorem mem_mentions_ident (h : e.unparen = .ident id) : id.binding ∈ (outlineExpr e).mentions := by
  refine of_unparen (P := fun e => id.binding ∈ (outlineExpr e).mentions) ?_ (h ▸ ?_)
  · intro e he
    simp [outlineExpr, he]
  · simp [outlineExpr]

theorem mem_mentions_readsAt (h : ReadsAt array i e c) : array ∈ (outlineExpr e).mentions := by
  induction h with
  | element hobj hid _ =>
    have hmem := hid ▸ mem_mentions_ident hobj
    simp [outlineExpr, hmem]
  | after _ _ ih => simp [outlineExpr, outlineExprs, ih]
  | paren _ ih => simp [outlineExpr, ih]

theorem mem_mentions_returned {b : Binding} (h : func.returned? = some (bs, e))
    (hb : b ∈ (outlineExpr e).mentions) : b ∈ func.mentions := by
  unfold Func.returned? at h
  split at h
  case h_2 => cases h
  case h_1 isAsync isGenerator tps params ret e' =>
    obtain ⟨cs, -, hce⟩ := Option.map_eq_some_iff.1 h
    cases hce
    show b ∈ (outlineFunction _).mentions
    simp [outlineFunction, outlineBody, outlineStmts, outlineStmt, hb]

/-! ### Calls that are decoded -/

theorem read?_plain {strings : List String} {x : Float} {key : Option String}
    (hd : d.encoding = .plain) (h : d.read? strings x key = some s) :
    0 ≤ x - d.offset ∧ Number.isWhole (x - d.offset) = true ∧
      strings[Number.wholeMagnitude (x - d.offset)]? = some s := by
  simp only [Decoder.read?, hd] at h
  split at h
  case isFalse => cases h
  case isTrue hpos =>
    rw [Bool.and_eq_true, decide_eq_true_eq] at hpos
    obtain ⟨hidden, hget, hs⟩ := Option.bind_eq_some_iff.1 h
    cases hs
    exact ⟨hpos.1, hpos.2, hget⟩

theorem decode?_reads {callee : Expr} {args : List Expr} {v : Value} {vs : List Value}
    (hcallee : callee.unparen = .ident id) (hargs : args.mapM argValue? = some (v :: vs))
    (halias : t.aliases.find? id.binding = none) (hd : t.decoders.find? id.binding = some d)
    (h : t.decode? (.call callee args) = some s) :
    ∃ strings key, t.arrays.find? d.array = some strings ∧
      d.read? strings v.toNumber key = some s := by
  have hname : calledName? callee = some id := by rw [calledName?, hcallee]
  have haccessor : t.isAccessor id.binding = true := by
    simp [StringTables.isAccessor, Table.has, hd]
  have hinvoke : t.invoke? id.binding (v :: vs) = (t.arrays.find? d.array).bind fun strings =>
      d.read? strings v.toNumber (((v :: vs)[1]?.bind Value.toText?).bind Units.toString?) := by
    simp only [StringTables.invoke?, StringTables.invokeAtFuel, halias, hd]
    rfl
  have hdecode : t.decode? (.call callee args) = t.invoke? id.binding (v :: vs) := by
    simp [StringTables.decode?, StringTables.decodeCall?, hname, haccessor, hargs]
  rw [hdecode, hinvoke] at h
  obtain ⟨strings, harray, hread⟩ := Option.bind_eq_some_iff.1 h
  exact ⟨strings, _, harray, hread⟩

/-- A function that is declared at the top of a program under one name, once, and returns what it
reads from an array at its first parameter, moved. Nothing else in it looks like an array or like an
encoding. -/
structure Accesses (p : Program) (o : Orders) (f array i : Binding) (ps : List Binding) (e : Expr)
    (c : Shift) (func : Func) : Prop where
  declared : ∃ s ∈ p.body, declaredFunc? s = some (f, func)
  once : ∀ s ∈ p.body, ∀ g, declaredFunc? s = some (f, g) → g = func
  isFunction : (StringTables.gathered p o).arrays.has f = false
  returned : func.returned? = some (i :: ps, e)
  reads : ReadsAt array i e c
  first : i ∉ ps
  outside : array ∉ i :: ps
  onlyArray : ∀ b ∈ func.mentions, (StringTables.gathered p o).arrays.has b = true → b = array
  plain : (outlineFunction func).items.any isAlphabet = false

/-- **The string that is put in place of the call of an accessor is the one it returns**: over every
host in which the array holds its strings, the returned expression gives it, with the constants in
the parameters. -/
theorem decode?_returns {p : Program} {o : Orders} {t : StringTables}
    (ht : StringTables.collect? p o = some t)
    {f array i : Binding} {ps : List Binding} {e : Expr} {c : Shift} {func : Func}
    (hf : Accesses p o f array i ps e c func) (halias : t.aliases.find? f = none)
    {strings : List String} (hstrings : t.arrays.find? array = some strings)
    {callee : Expr} {id : Ident} (hcallee : callee.unparen = .ident id) (hid : id.binding = f)
    {args : List Expr} {v : Value} {vs : List Value}
    (hargs : args.mapM argValue? = some (v :: vs)) (hv : c.Takes v)
    {s : String} (hs : t.decode? (.call callee args) = some s)
    {ω V : Type} {H : Host ω V} {val : Value → V} (hH : H.Holds val array strings) :
    (H.framed.value e).inFrame (callFrame H.undefined (i :: ps) ((v :: vs).map val)) =
      H.value (.ofText s) := by
  subst hid
  have hhas : (StringTables.gathered p o).arrays.has array = true := by
    refine (collect?_keeps ht).arrays array ?_
    rw [Table.has, hstrings]
    rfl
  have hmem := mem_mentions_returned hf.returned (mem_mentions_readsAt hf.reads)
  have hdecoder := collect?_decoder ht hf.declared hf.once hf.isFunction ⟨hmem, hhas⟩ hf.onlyArray
  obtain ⟨strings', key, hstrings', hread⟩ := decode?_reads hcallee hargs halias hdecoder hs
  obtain rfl : strings = strings' := Option.some.inj (hstrings.symm.trans hstrings')
  have hplain : (decoderOf func array).encoding = .plain := by
    simp [decoderOf, hf.plain]
  have hoffset : (decoderOf func array).offset = c.offset := by
    rw [decoderOf_offset hf.returned, hf.reads.written, c.getD_written?]
  obtain ⟨hzero, hwhole, hget⟩ := read?_plain hplain hread
  rw [hoffset] at hzero hwhole hget
  have hi : array ≠ i := fun h => hf.outside (h ▸ List.mem_cons_self)
  have hgives := hf.reads.gives hH hi hv (callFrame_head H.undefined hf.first (val v) (vs.map val))
    (callFrame_of_not_mem H.undefined hf.outside) hzero hwhole hget
  rw [List.map_cons, hgives.inFrame_eq]
  exact (H.value_silent (.ofText s) rfl).symm

/-! ### A host that holds an array -/

/-- Constants, and an array that is no constant. -/
inductive Held
  | constant (v : Value)
  | array

def Held.ofExpr : Expr → Held
  | .lit (.num n) => .constant (.number n.value)
  | .lit (.str s) => .constant (.string s.units)
  | _ => .constant .undefined

/-- The host in which every variable holds one array of strings. It adds and subtracts; nothing else
that it is asked for comes to anything. -/
def holding (strings : List String) : Host Unit Held where
  constant := Held.ofExpr
  method _ := .constant .undefined
  array _ := .constant .undefined
  hole := .constant .undefined
  undefined := .constant .undefined
  ofBool b := .constant (.boolean b)
  truthy _ := true
  isNullish _ := false
  isNumber
    | .constant (.number _) => true
    | _ => false
  isNumber_literal _ := rfl
  signed _ v := v
  same _ _ := false
  read _ := pure .array
  write _ _ := pure ()
  get o k := pure <| match o, k with
    | .array, .value (.constant (.number x)) =>
      match strings[Number.wholeMagnitude x]? with
      | some s => Held.ofExpr (.ofText s)
      | none => .constant .undefined
    | _, _ => .constant .undefined
  set _ _ _ := pure ()
  delete _ _ := pure (.constant .undefined)
  call _ _ _ _ := pure (.constant .undefined)
  construct _ _ := pure (.constant .undefined)
  perform op vs := pure <| match op, vs with
    | .binary .sub, [.constant v, .constant w] => .constant (.number (v.toNumber - w.toNumber))
    | .binary .add, [.constant v, .constant w] => .constant (.number (v.toNumber + w.toNumber))
    | _, _ => .constant .undefined
  bind _ _ _ := pure ()
  next _ := pure none

theorem holding_holds (array : Binding) (strings : List String) :
    (holding strings).Holds .constant array strings where
  number _ := rfl
  sub _ _ := rfl
  add _ _ := rfl
  element := by
    refine ⟨.array, rfl, fun x s _ _ hs => ?_⟩
    show pure (match strings[Number.wholeMagnitude x]? with
      | some s => Held.ofExpr (.ofText s)
      | none => .constant .undefined) = _
    rw [hs]
    rfl

/-- `f` -/
def accessorName : Ident := { name := "f" }

/-- `i` -/
def indexName : Ident := { name := "i" }

/-- `function (i) { return` an expression `; }` -/
def returning (e : Expr) : Func :=
  .mk false false [] [.name (.ofIdent indexName)] none (.block [.return (some e)])

/-- `var A = ['x', 'y']; function f(i) { return` an expression `; }` -/
def accessing (e : Expr) : Program where
  grammar := .script
  body := [.decl (.func accessorName (returning e)),
    .decl (.var (.single .var arrayName (some (.array [.ofText "x", .ofText "y"]))))]

/-- `A[i = i - 1]` -/
def readingBelow : Expr :=
  .member (.ident arrayName) (.computed (.assign .plain (.name (.ofIdent indexName))
    (.binary .sub (.ident indexName) (.lit (.num { value := 1 })))))

theorem accesses_readingBelow : Accesses (accessing readingBelow) {} accessorName.binding
    arrayName.binding indexName.binding [] readingBelow (.down { value := 1 })
    (returning readingBelow) where
  declared := ⟨_, List.mem_cons_self, rfl⟩
  once s hs g hg := by
    simp only [accessing, List.mem_cons, List.not_mem_nil, or_false] at hs
    rcases hs with rfl | rfl
    · cases hg
      rfl
    · cases hg
  isFunction := rfl
  returned := rfl
  reads := .element rfl rfl (.setLess rfl rfl rfl rfl rfl)
  first := List.not_mem_nil
  outside := by decide
  onlyArray := by decide
  plain := by decide +kernel

theorem decode?_returns_below :
    (StringTables.gathered (accessing readingBelow)).decode?
      (.call (.ident accessorName) [.ofText "0x2"]) = some "y" ∧
    ((holding ["x", "y"]).framed.value readingBelow).inFrame
        (callFrame (holding ["x", "y"]).undefined [indexName.binding]
          [.constant (.string (.ofString "0x2"))]) =
      (holding ["x", "y"]).value (.ofText "y") := by
  have hs : (StringTables.gathered (accessing readingBelow)).decode?
      (.call (.ident accessorName) [.ofText "0x2"]) = some "y" := by decide +kernel
  exact ⟨hs, decode?_returns rfl accesses_readingBelow rfl rfl rfl rfl rfl trivial hs
    (holding_holds _ _)⟩

/-- `A[1 - i]` -/
def readingBack : Expr :=
  .member (.ident arrayName)
    (.computed (.binary .sub (.lit (.num { value := 1 })) (.ident indexName)))

/-- No assignment says that an index is counted from the other end, so the string is the wrong one:
`f(0)` returns the second. -/
theorem decode?_misreads :
    (StringTables.gathered (accessing readingBack)).decode?
      (.call (.ident accessorName) [.lit (.num { value := 0 })]) = some "x" ∧
    ((holding ["x", "y"]).framed.value readingBack).inFrame
        (callFrame (holding ["x", "y"]).undefined [indexName.binding] [.constant (.number 0)]) =
      (holding ["x", "y"]).value (.ofText "y") := by
  refine ⟨by decide +kernel, ?_⟩
  let H := holding ["x", "y"]
  let ρ : Locals Held := callFrame H.undefined [indexName.binding] [.constant (.number 0)]
  have hH := holding_holds arrayName.binding ["x", "y"]
  have harray : Gives ρ ρ .array (H.framed.value (.ident arrayName)) := by
    have hread : Sim ρ Eq (H.framed.read arrayName.binding) (H.read arrayName.binding) :=
      H.read_outside rfl
    rw [value_ident]
    exact .of_sim hread
  have hone : Gives ρ ρ (.constant (.number 1)) (H.framed.value (.lit (.num { value := 1 }))) :=
    hH.gives_num (n := { value := 1 }) rfl
  have hindex : Gives ρ ρ (.constant (.number 0)) (H.framed.value (.ident indexName)) :=
    gives_index rfl rfl
  have hback : Gives ρ ρ (.constant (.number (1 - 0)))
      (H.framed.value (.binary .sub (.lit (.num { value := 1 })) (.ident indexName))) := by
    rw [Host.value_binary _ _ _ rfl]
    exact hone.bind (hindex.bind (H.gives_perform rfl rfl))
  have hvalue : Gives ρ ρ (Held.ofExpr (.ofText "y")) (H.framed.value readingBack) := by
    rw [readingBack, Host.value_member]
    exact harray.bind (Gives.bind (hback.bind (.pure _ _)) (H.gives_get rfl))
  exact hvalue.inFrame_eq.trans (H.value_silent (.ofText "y") rfl).symm

end Pass

end Untangle
