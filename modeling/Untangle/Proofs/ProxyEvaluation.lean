import Untangle.Pass.Proxy
import Untangle.Proofs.Substitution

/-!
# Calls of proxies

A call of a function evaluates its arguments before its body; the body with the arguments put in
evaluates them where they stand. Both come to the same if the body first reads the parameters whose
arguments can do something, each once and in order, and does nothing else before.
-/

namespace Untangle

variable {ω V α β : Type}

namespace Host

variable (H : Host ω V)

/-- Evaluates arguments from left to right and gives their values to local variables. -/
def bindAll : Table Binding Expr → Locals V → Comp ω V (Locals V)
  | [], ρ => pure ρ
  | (x, arg) :: rest, ρ => do
    let v ← H.value arg
    bindAll rest (ρ.set x v)

/-- A call of a proxy with arguments none of which is spread: all arguments are evaluated, then the
body with the values of the parameters. -/
def callProxy (f : Pass.Proxy) (args : List Expr) : Comp ω V V := do
  let ρ ← H.bindAll (Pass.bindArgs f.params args) fun _ => none
  let _ ← H.values (args.drop f.params.length)
  (H.framed.value f.body).inFrame ρ

/-! ### Values of operators -/

theorem value_unary (op : UnaryOp) (arg : Expr) (h : op ≠ .typeOf) (h' : op ≠ .delete) :
    H.value (.unary op arg) = (do
      let v ← H.value arg
      H.applyUnary op v) := by
  cases op with
  | typeOf => exact absurd rfl h
  | delete => exact absurd rfl h'
  | minus | plus | not | bitNot | void => simp [value, refer, unary]

variable {op : BinaryOp}

theorem value_binary (left right : Expr) (h : op.isLogical = false) :
    H.value (.binary op left right) = (do
      let v ← H.value left
      let w ← H.value right
      H.perform (.binary op) [v, w]) := by
  simp [h, value, refer]

theorem value_logical (left right : Expr) (h : op.isLogical) :
    H.value (.binary op left right) = (do
      let v ← H.value left
      if H.settles op v then pure v else H.value right) := by
  simp only [h, value, refer, if_true, bind_assoc]
  refine congrArg _ (funext fun r => congrArg _ (funext fun v => ?_))
  split <;> simp

theorem value_cond (test yes no : Expr) :
    H.value (.cond test yes no) = (do
      let v ← H.value test
      if H.truthy v then H.value yes else H.value no) := by
  simp only [value, refer, bind_assoc]
  refine congrArg _ (funext fun r => congrArg _ (funext fun v => ?_))
  split <;> simp

theorem value_member (obj : Expr) (prop : MemberProp) :
    H.value (.member obj prop) = (do
      let o ← H.value obj
      let k ← H.access prop
      H.get o k) := by
  simp [value, refer, load]

theorem value_call_member (obj : Expr) (prop : MemberProp) (args : List Expr) :
    H.value (.call (.member obj prop) args) = (do
      let o ← H.value obj
      let k ← H.access prop
      let f ← H.get o k
      let vs ← H.values args
      H.call false o f vs) := by
  simp [value, refer, load, Ref.isEval, Ref.receiver]

theorem value_new (callee : Expr) (args : List Expr) :
    H.value (.new callee (some args)) = (do
      let f ← H.value callee
      let vs ← H.values args
      H.construct f vs) := by
  simp [value, refer]

theorem value_new_bare (callee : Expr) :
    H.value (.new callee none) = (do
      let f ← H.value callee
      H.construct f []) := by
  simp [value, refer]

theorem value_template (quasis : List Quasi) (exprs : List Expr) :
    H.value (.template quasis exprs) = (do
      let ts ← H.texts exprs
      H.perform (.template quasis) ts) := by
  simp [value, refer]

theorem value_object (props : List Property) :
    H.value (.object props) = (do
      let vs ← H.propertyValues props
      H.perform (.object (props.map Property.shape)) vs) := by
  simp [value, refer]

/-- A member of an object literal whose key is written out. -/
theorem propertyValues_cons {key : PropName} (hkey : H.keyValue key = pure []) (e : Expr)
    (ps : List Property) :
    H.propertyValues (.keyValue key e :: ps) = (do
      let v ← H.value e
      let vs ← H.propertyValues ps
      return v :: vs) := by
  simp [propertyValues, propertyValue, hkey, value]

theorem value_array (elems : List Expr) :
    H.value (.array elems) = (do
      let vs ← H.values elems
      return H.array vs) := by
  simp [value, refer]

end Host

/-- Whether an expression as a callee hands on no receiver and is not `eval`. -/
def Expr.isPlain : Expr → Bool
  | .ident id => id.name != "eval"
  | .paren e => e.isPlain
  | .call _ _ | .new _ _ | .cond _ _ _ | .func _ _ | .arrow _ => true
  | _ => false

namespace Host

variable (H : Host ω V)

theorem refer_plain (K : Bool → Bool → V → V → Comp ω V α) : ∀ e : Expr, e.isPlain →
    (do
      let r ← H.refer e
      let f ← H.load r
      K r.isShort r.isEval (r.receiver H) f) = H.value e >>= K false false H.undefined
  | .ident id, h => by
    have hname : (id.name == "eval") = false := by simpa [Expr.isPlain] using h
    simp [value, refer, Ref.isShort, Ref.isEval, Ident.binding, hname, Ref.receiver]
  | .paren e, h => by
    have hclosed : ∀ r : Ref V, (r.closed H).isShort = false ∧ (r.closed H).isEval = r.isEval ∧
        (r.closed H).receiver H = r.receiver H := by
      rintro (_ | _ | _ | _) <;> exact ⟨rfl, rfl, rfl⟩
    rw [value_paren, ← refer_plain (fun _ => K false) e h]
    simp [refer, H.load_closed, hclosed]
  | .cond test yes no, _ => by
    rw [value_cond, refer, bind_assoc, bind_assoc]
    simp only [value, bind_assoc]
    refine congrArg _ (funext fun r => congrArg _ (funext fun v => ?_))
    split <;> simp [Ref.isShort, Ref.isEval, Ref.receiver]
  | .call _ _, _ | .new _ none, _ | .new _ (some _), _ | .func _ _, _ | .arrow _, _ => by
    simp [value, refer, Ref.isShort, Ref.isEval, Ref.receiver]

theorem value_call_plain {callee : Expr} (h : callee.isPlain) (args : List Expr) :
    H.value (.call callee args) = (do
      let f ← H.value callee
      let vs ← H.values args
      H.call false H.undefined f vs) := by
  have hcall := H.refer_plain
    (fun _ isEval o f => H.values args >>= fun vs => H.call isEval o f vs) callee h
  rw [← hcall]
  simp [value, refer]

/-- An access or call that may be cut short, of an operand that is not. -/
theorem refer_chained {e : Expr} (h : e.isPlain) (optional : Bool)
    (K : Bool → V → V → Comp ω V (Ref V)) :
    (do
      let r ← H.refer e
      if r.isShort then pure .short
      else do
        let v ← H.load r
        if optional && H.isNullish v then pure .short else K r.isEval (r.receiver H) v) >>= H.load =
      H.value e >>= fun v => if optional && H.isNullish v then pure H.undefined
        else K false H.undefined v >>= H.load := by
  refine Eq.trans ?_ (H.refer_plain (fun isShort isEval o v => if isShort then pure H.undefined
    else if optional && H.isNullish v then pure H.undefined else K isEval o v >>= H.load) e h)
  rw [bind_assoc]
  refine congrArg _ (funext fun r => ?_)
  cases r with
  | short => simp [Ref.isShort, load]
  | value | name | prop =>
    simp only [Ref.isShort, Bool.false_eq_true, if_false, bind_assoc]
    refine congrArg _ (funext fun v => ?_)
    split <;> simp [load]

theorem value_chainMember {obj : Expr} (h : obj.isPlain) (optional : Bool) (prop : MemberProp) :
    H.value (.chainMember optional obj prop) = (do
      let o ← H.value obj
      if optional && H.isNullish o then pure H.undefined
      else do
        let k ← H.access prop
        H.get o k) := by
  rw [value, refer]
  refine (H.refer_chained h optional fun _ _ o => (Ref.prop o ·) <$> H.access prop).trans ?_
  simp [load]

theorem value_chainCall {callee : Expr} (h : callee.isPlain) (optional : Bool) (args : List Expr) :
    H.value (.chainCall optional callee args) = (do
      let f ← H.value callee
      if optional && H.isNullish f then pure H.undefined
      else do
        let vs ← H.values args
        H.call false H.undefined f vs) := by
  rw [value, refer]
  refine (H.refer_chained h optional fun isEval o f => H.values args >>= fun vs =>
    Ref.value <$> H.call isEval o f vs).trans ?_
  simp

end Host

/-! ### Parameters that are read first -/

section Leading

variable (σ : Table Binding Expr)

/-- Nothing is to be read first by an expression that only reads silent arguments. -/
def unlessSilent (e : Expr) (reads : Option (List Binding)) : Option (List Binding) :=
  if readsSilent σ e then some [] else reads

/-- The parameters that are first read by some operands. Those of the first one come first. After it
there may be more only if all it does is to read a parameter or to be a literal. -/
def thenReads (e : Expr) (first : Option (List Binding)) (restSilent : Bool)
    (rest : Option (List Binding)) : Option (List Binding) :=
  if restSilent then unlessSilent σ e first
  else match e with
    | .ident id =>
      match σ.find? id.binding with
      | some arg => if arg.isSilent then rest else rest.map (id.binding :: ·)
      | none => none
    | .lit l => if (Expr.lit l).isSilent then rest else none
    | _ => none

mutual

/-- The parameters that an expression first reads, if after that it only reads parameters with silent
arguments. -/
def leadingReads : Expr → Option (List Binding)
  | .ident id => if (σ.find? id.binding).isSome then some [id.binding] else none
  | .paren e => unlessSilent σ e (leadingReads e)
  | .unary op arg =>
    if op == .typeOf || op == .delete then none else unlessSilent σ arg (leadingReads arg)
  | .binary op left right =>
    if op.isLogical then
      if readsSilent σ right then unlessSilent σ left (leadingReads left) else none
    else thenReads σ left (leadingReads left) (readsSilent σ right) (leadingReads right)
  | .cond test yes no =>
    if readsSilent σ yes && readsSilent σ no then unlessSilent σ test (leadingReads test) else none
  | .seq exprs => leadingReadsAll exprs
  | .array elems => leadingReadsAll elems
  | .object props => leadingReadsMembers props
  | .template _ exprs => leadingReadsTexts exprs
  | .member obj (.computed e) =>
    thenReads σ obj (leadingReads obj) (readsSilent σ e) (leadingReads e)
  | .member obj _ => unlessSilent σ obj (leadingReads obj)
  | .call callee args =>
    if callee.isPlain && (callee.substitute σ).isPlain then
      thenReads σ callee (leadingReads callee) (allReadSilent σ args) (leadingReadsAll args)
    else if allReadSilent σ args then receiverReads callee
    else none
  | .new callee none => unlessSilent σ callee (leadingReads callee)
  | .new callee (some args) =>
    thenReads σ callee (leadingReads callee) (allReadSilent σ args) (leadingReadsAll args)
  | .chainMember _ obj prop =>
    if obj.isPlain && (obj.substitute σ).isPlain && accessReadsSilent σ prop then
      unlessSilent σ obj (leadingReads obj)
    else none
  | .chainCall _ callee args =>
    if callee.isPlain && (callee.substitute σ).isPlain && allReadSilent σ args then
      unlessSilent σ callee (leadingReads callee)
    else none
  | _ => none

/-- The parameters that are first read by a callee that is a member of something. -/
def receiverReads : Expr → Option (List Binding)
  | .member obj prop =>
    if accessReadsSilent σ prop then unlessSilent σ obj (leadingReads obj) else none
  | _ => none

/-- The same of operands in a row. -/
def leadingReadsAll : List Expr → Option (List Binding)
  | [] => some []
  | e :: es => thenReads σ e (leadingReads e) (allReadSilent σ es) (leadingReadsAll es)

/-- The same in a template, where the first is made a text before the others are evaluated. -/
def leadingReadsTexts : List Expr → Option (List Binding)
  | [] => some []
  | e :: es => if allReadSilent σ es then unlessSilent σ e (leadingReads e) else none

/-- The same in an object literal all of whose keys are written out. -/
def leadingReadsMembers : List Property → Option (List Binding)
  | [] => some []
  | .keyValue (.computed _) _ :: _ => none
  | .keyValue _ e :: ps =>
    thenReads σ e (leadingReads e) (propertiesReadSilent σ ps) (leadingReadsMembers ps)
  | _ => none

end

/-- Parameters with their arguments. -/
def withArgs (xs : List Binding) : Table Binding Expr :=
  xs.filterMap fun x => (σ.find? x).map fun arg => (x, arg)

/-- The parameters whose arguments are not silent. -/
def strictArgs : Table Binding Expr := σ.filter fun x => !x.2.isSilent

end Leading

/-- Whether a body first reads those parameters whose arguments are not silent, each once and in the
order of the arguments, and then only reads others. Arguments without a parameter must be silent,
and no parameter may be called `eval`. -/
def Pass.Proxy.readsFirst (f : Proxy) (args : List Expr) : Bool :=
  let σ := bindArgs f.params args
  areSilent (args.drop f.params.length) && f.params.all (fun x => x.name != "eval") &&
    decide (unlessSilent σ f.body (leadingReads σ f.body) =
      some ((strictArgs σ).map Prod.fst))

/-! ### Computations that first read parameters -/

/-- A computation with local variables, once some have been given the values of their arguments, does
what one without them does. -/
def Leads (H : Host ω V) (σ : Table Binding Expr) (xs : List Binding)
    (x' : Comp (ω × Locals V) V α) (x : Comp ω V α) : Prop :=
  ∃ X : Locals V → Comp ω V α, ∀ ρ, Standing σ H ρ →
    Sim ρ Eq x' (X ρ) ∧ H.bindAll (withArgs σ xs) ρ >>= X = x

variable {arg : Expr} {x : Binding}

section Leads

variable {H : Host ω V} {σ : Table Binding Expr} {ρ : Locals V} {xs : List Binding}

theorem Locals.set_same (ρ : Locals V) (x : Binding) (v : V) : ρ.set x v x = some v := if_pos rfl

theorem Locals.set_other (ρ : Locals V) {y : Binding} (v : V) (h : y ≠ x) :
    ρ.set x v y = ρ y := if_neg h

/-- Only a parameter with a silent argument must have a certain value. -/
theorem Standing.set (hρ : Standing σ H ρ) (hx : σ.find? x = some arg) (ha : arg.isSilent = false)
    (v : V) : Standing σ H (ρ.set x v) where
  outside y hy := by
    rw [ρ.set_other v, hρ.outside y hy]
    rintro rfl
    rw [hx] at hy
    cases hy
  silent y b hy hb := by
    rw [ρ.set_other v, hρ.silent y b hy hb]
    rintro rfl
    rw [hx] at hy
    cases hy
    rw [ha] at hb
    cases hb

theorem withArgs_cons (hx : σ.find? x = some arg) (xs : List Binding) :
    withArgs σ (x :: xs) = (x, arg) :: withArgs σ xs :=
  List.filterMap_cons_some (by rw [hx, Option.map_some])

/-- What follows arguments may count on the local variables that they do not set. -/
theorem bindAll_congr (H : Host ω V) {k k' : Locals V → Comp ω V α} (args : Table Binding Expr)
    (ρ : Locals V) (h : ∀ ρ', (∀ y, y ∉ args.map Prod.fst → ρ' y = ρ y) → k ρ' = k' ρ') :
    H.bindAll args ρ >>= k = H.bindAll args ρ >>= k' := by
  induction args generalizing ρ with
  | nil =>
    simp only [Host.bindAll, pure_bind]
    exact h ρ fun _ _ => rfl
  | cons arg args ih =>
    simp only [Host.bindAll, bind_assoc]
    refine congrArg _ (funext fun v => ih _ fun ρ' hρ' => h ρ' fun y hy => ?_)
    rw [List.map_cons, List.mem_cons, not_or] at hy
    rw [hρ' y hy.2, ρ.set_other v hy.1]

theorem mem_withArgs (h : x ∈ (withArgs σ xs).map Prod.fst) : x ∈ xs := by
  simp only [withArgs, List.mem_map, List.mem_filterMap, Option.map_eq_some_iff] at h
  obtain ⟨_, ⟨y, hy, arg, -, rfl⟩, rfl⟩ := h
  exact hy

variable {x' y' : Comp (ω × Locals V) V α} {k : V → α → Comp ω V β}
  {k' : V → α → Comp (ω × Locals V) V β} {y : Comp ω V α} {e : Expr}

/-- A computation that reads no parameters but those with silent arguments. -/
theorem Leads.of_sim {x : Comp ω V α} (h : ∀ ρ, Standing σ H ρ → Sim ρ Eq x' x) :
    Leads H σ [] x' x :=
  ⟨fun _ => x, fun ρ hρ => ⟨h ρ hρ, pure_bind ρ _⟩⟩

theorem Leads.of_eq {z' : Comp (ω × Locals V) V α} {z : Comp ω V α} (h' : y' = z') (h : y = z)
    (hz : Leads H σ xs z' z) : Leads H σ xs y' y := by
  rw [h', h]
  exact hz

/-- What follows the reads only reads parameters with silent arguments. -/
theorem Leads.next {x : Comp ω V α} {k' : α → Comp (ω × Locals V) V β} {k : α → Comp ω V β}
    (h : Leads H σ xs x' x) (hk : ∀ ρ, Standing σ H ρ → ∀ v, Sim ρ Eq (k' v) (k v)) :
    Leads H σ xs (x' >>= k') (x >>= k) := by
  obtain ⟨X, hX⟩ := h
  refine ⟨fun ρ => X ρ >>= k, fun ρ hρ => ?_⟩
  obtain ⟨hsim, heq⟩ := hX ρ hρ
  refine ⟨hsim.next (hk ρ hρ), ?_⟩
  rw [← heq, bind_assoc]

/-- The value of a local variable, or else of one outside. -/
def Host.lookup (H : Host ω V) (x : Binding) (ρ : Locals V) : Comp ω V V :=
  match ρ x with
  | some v => pure v
  | none => H.read x

theorem lookup_sim (x : Binding) : Sim ρ Eq (H.framed.read x) (H.lookup x ρ) := by
  cases hx : ρ x with
  | none => simpa only [Host.lookup, hx] using H.read_outside hx
  | some v => simpa only [Host.lookup, hx] using H.read_local hx

theorem Leads.read (hx : σ.find? x = some arg) (ha : arg.isSilent = false) (hxs : x ∉ xs)
    (h : Leads H σ xs y' y) (hk : ∀ ρ, Standing σ H ρ → ∀ v w, Sim ρ Eq (k' v w) (k v w)) :
    Leads H σ (x :: xs) (H.framed.read x >>= fun v => y' >>= k' v)
      (H.value arg >>= fun v => y >>= k v) := by
  obtain ⟨Y, hY⟩ := h
  refine ⟨fun ρ => H.lookup x ρ >>= fun v => Y ρ >>= k v, fun ρ hρ => ⟨?_, ?_⟩⟩
  · exact (lookup_sim x).next fun v => (hY ρ hρ).1.next (hk ρ hρ v)
  · rw [withArgs_cons hx, Host.bindAll, bind_assoc]
    refine congrArg _ (funext fun v => ?_)
    -- The arguments evaluated in between leave the parameter its value.
    have hlookup : H.bindAll (withArgs σ xs) (ρ.set x v) >>=
        (fun ρ' => H.lookup x ρ' >>= fun v => Y ρ' >>= k v) =
          H.bindAll (withArgs σ xs) (ρ.set x v) >>= fun ρ' => Y ρ' >>= k v := by
      refine bindAll_congr H _ _ fun ρ' hρ' => ?_
      have hv : ρ' x = some v := by
        rw [hρ' x fun hmem => hxs (mem_withArgs hmem), ρ.set_same]
      simp only [Host.lookup, hv, pure_bind]
    rw [hlookup, ← (hY _ (hρ.set hx ha v)).2, bind_assoc]

/-- Something that is the same constant on both sides comes first. -/
theorem Leads.constant {x' : Comp (ω × Locals V) V V} {c : V}
    (hx : ∀ ρ, Standing σ H ρ → Sim ρ Eq x' (pure c : Comp ω V V)) (h : Leads H σ xs y' y)
    (hk : ∀ ρ, Standing σ H ρ → ∀ v w, Sim ρ Eq (k' v w) (k v w)) :
    Leads H σ xs (x' >>= fun v => y' >>= k' v) (pure c >>= fun v => y >>= k v) := by
  obtain ⟨Y, hY⟩ := h
  refine ⟨fun ρ => pure c >>= fun v => Y ρ >>= k v, fun ρ hρ => ⟨?_, ?_⟩⟩
  · exact (hx ρ hρ).next fun v => (hY ρ hρ).1.next (hk ρ hρ v)
  · simp only [pure_bind, ← (hY ρ hρ).2, bind_assoc]

theorem Leads.read_only (hx : σ.find? x = some arg) (ha : arg.isSilent = false) :
    Leads H σ [x] (H.framed.read x) (H.value arg) := by
  have hnothing : Leads H σ [] (pure () : Comp (ω × Locals V) V Unit) (pure ()) :=
    .of_sim fun _ _ => .pure rfl
  have hread := Leads.read hx ha List.not_mem_nil hnothing (fun _ _ v _ => Sim.pure (Eq.refl v))
  simpa only [pure_bind, bind_pure] using hread

theorem value_sim (hσ : NoEval σ) (hρ : Standing σ H ρ) (h : readsSilent σ e) :
    Sim ρ Eq (H.framed.value e) (H.value (e.substitute σ)) :=
  value_sim_of H (refer_sim H hσ hρ e h)

theorem value_ident (H : Host ω V) (id : Ident) : H.value (.ident id) = H.read id.binding :=
  pure_bind _ _

/-- A parameter is replaced by its argument. -/
theorem substitute_ident {id : Ident} (hx : σ.find? id.binding = some arg) :
    (Expr.ident id).substitute σ = arg := by
  show (σ.find? id.binding).getD (.ident id) = arg
  rw [hx, Option.getD_some]

/-- That the leading reads of an expression are what its evaluation starts with. -/
def LeadsWith (H : Host ω V) (σ : Table Binding Expr) (e : Expr) : Prop :=
  ∀ xs, readsSilent σ e = false → leadingReads σ e = some xs → xs.Nodup →
    Leads H σ xs (H.framed.value e) (H.value (e.substitute σ))

theorem leads_unlessSilent (hσ : NoEval σ) (he : LeadsWith H σ e)
    (h : unlessSilent σ e (leadingReads σ e) = some xs) (hxs : xs.Nodup) :
    Leads H σ xs (H.framed.value e) (H.value (e.substitute σ)) := by
  unfold unlessSilent at h
  split at h
  case isTrue hsilent =>
    cases h
    exact .of_sim fun ρ hρ => value_sim hσ hρ hsilent
  case isFalse hsilent => exact he xs (by simpa using hsilent) h hxs

/-- The step for operands: a first one, then the others, then what is done with them. -/
theorem leads_thenReads (hσ : NoEval σ) (he : LeadsWith H σ e) {restSilent : Bool}
    {rest : Option (List Binding)} (hsilent : restSilent → ∀ ρ, Standing σ H ρ → Sim ρ Eq y' y)
    (hrest : restSilent = false → ∀ ys, rest = some ys → ys.Nodup → Leads H σ ys y' y)
    (hk : ∀ ρ, Standing σ H ρ → ∀ v w, Sim ρ Eq (k' v w) (k v w))
    (h : thenReads σ e (leadingReads σ e) restSilent rest = some xs) (hxs : xs.Nodup) :
    Leads H σ xs (H.framed.value e >>= fun v => y' >>= k' v)
      (H.value (e.substitute σ) >>= fun v => y >>= k v) := by
  unfold thenReads at h
  split at h
  case isTrue hr =>
    exact (leads_unlessSilent hσ he h hxs).next fun ρ hρ v =>
      (hsilent hr ρ hρ).next (hk ρ hρ v)
  case isFalse hr =>
    have hrest := hrest (by simpa using hr)
    split at h
    case h_1 id =>
      split at h
      case h_1 arg hx =>
        rw [value_ident, substitute_ident hx]
        split at h
        case isTrue ha =>
          have hread : ∀ ρ, Standing σ H ρ →
              Sim ρ Eq (H.framed.read id.binding) (pure (H.known arg) : Comp ω V V) :=
            fun ρ hρ => H.read_local (hρ.silent _ arg hx ha)
          rw [H.value_silent arg ha]
          exact .constant hread (hrest xs h hxs) hk
        case isFalse ha =>
          obtain ⟨ys, hys, rfl⟩ := Option.map_eq_some_iff.1 h
          rw [List.nodup_cons] at hxs
          exact .read hx (by simpa using ha) hxs.1 (hrest ys hys hxs.2) hk
      case h_2 => cases h
    case h_2 l =>
      split at h
      case isTrue hl =>
        have hsub : (Expr.lit l).substitute σ = .lit l := by cases l <;> rfl
        rw [hsub, H.framed.value_silent _ hl, H.value_silent _ hl]
        exact .constant (fun ρ _ => .pure rfl) (hrest xs h hxs) hk
      case isFalse => cases h
    case h_3 => cases h

theorem leads_first (hσ : NoEval σ) (he : LeadsWith H σ e) {k' : V → Comp (ω × Locals V) V β}
    {k : V → Comp ω V β} (hk : ∀ ρ, Standing σ H ρ → ∀ v, Sim ρ Eq (k' v) (k v))
    (h : unlessSilent σ e (leadingReads σ e) = some xs) (hxs : xs.Nodup) :
    Leads H σ xs (H.framed.value e >>= k') (H.value (e.substitute σ) >>= k) :=
  (leads_unlessSilent hσ he h hxs).next hk

mutual

theorem leads_value (H : Host ω V) (hσ : NoEval σ) : ∀ e, LeadsWith H σ e
  | .ident id, xs, hs, h, hxs => by
    unfold leadingReads at h
    cases hx : σ.find? id.binding with
    | none =>
      rw [hx] at h
      cases h
    | some arg =>
      rw [hx] at h
      cases h
      have ha : arg.isSilent = false := by simpa only [readsSilent, hx] using hs
      rw [value_ident, substitute_ident hx]
      exact .read_only hx ha
  | .paren e, xs, hs, h, hxs => .of_eq (H.framed.value_paren e) (H.value_paren _)
    (leads_unlessSilent hσ (leads_value H hσ e) h hxs)
  | .unary op arg, xs, hs, h, hxs => by
    unfold leadingReads at h
    split at h
    case isTrue => cases h
    case isFalse hop =>
      simp only [Bool.or_eq_true, beq_iff_eq, not_or] at hop
      refine .of_eq (H.framed.value_unary _ arg hop.1 hop.2) (H.value_unary _ _ hop.1 hop.2) ?_
      exact leads_first hσ (leads_value H hσ arg) (fun ρ _ => applyUnary_sim H op) h hxs
  | .binary op left right, xs, hs, h, hxs => by
    unfold leadingReads at h
    split at h
    case isTrue hop =>
      refine .of_eq (H.framed.value_logical left right hop) (H.value_logical _ _ hop) ?_
      split at h
      case isTrue hr =>
        exact leads_first hσ (leads_value H hσ left)
          (fun ρ hρ v => .ite (.pure rfl) (value_sim hσ hρ hr)) h hxs
      case isFalse => cases h
    case isFalse hop =>
      have hop : op.isLogical = false := by simpa using hop
      refine .of_eq (H.framed.value_binary left right hop) (H.value_binary _ _ hop) ?_
      exact leads_thenReads hσ (leads_value H hσ left) (fun hr ρ hρ => value_sim hσ hρ hr)
        (fun hr ys => leads_value H hσ right ys hr)
        (fun ρ _ v w => H.perform_unnamed _ rfl) h hxs
  | .cond test yes no, xs, hs, h, hxs => by
    unfold leadingReads at h
    split at h
    case isTrue hr =>
      obtain ⟨hy, hn⟩ := Bool.and_eq_true_iff.1 hr
      refine .of_eq (H.framed.value_cond test yes no) (H.value_cond _ _ _) ?_
      exact leads_first hσ (leads_value H hσ test)
        (fun ρ hρ v => .ite (value_sim hσ hρ hy) (value_sim hσ hρ hn)) h hxs
    case isFalse => cases h
  | .seq exprs, xs, hs, h, hxs => .of_eq (H.framed.value_seq exprs) (H.value_seq _)
    ((leads_values H hσ exprs xs h hxs).next fun ρ _ vs => .pure rfl)
  | .array elems, xs, hs, h, hxs => .of_eq (H.framed.value_array elems) (H.value_array _)
    ((leads_values H hσ elems xs h hxs).next fun ρ _ vs => .pure rfl)
  | .object props, xs, hs, h, hxs => by
    refine .of_eq (H.framed.value_object props)
      (H.value_object (result (editProperties (substituteEdits σ) props))) ?_
    rw [shapes_substitute props]
    exact (leads_members H hσ props xs h hxs).next fun ρ _ vs => H.perform_unnamed _ rfl
  | .template quasis exprs, xs, hs, h, hxs =>
    .of_eq (H.framed.value_template quasis exprs) (H.value_template _ _)
      ((leads_texts H hσ exprs xs h hxs).next fun ρ _ vs => H.perform_unnamed _ rfl)
  | .member obj (.computed e), xs, hs, h, hxs => by
    have hmember : ∀ {ω : Type} (H : Host ω V) (obj e : Expr),
        H.value (.member obj (.computed e)) =
          H.value obj >>= fun o => H.value e >>= fun k => H.get o (.value k) := by
      intro ω H obj e
      rw [H.value_member]
      simp [Host.access, Host.value]
    refine .of_eq (hmember H.framed obj e) (hmember H _ _) ?_
    exact leads_thenReads hσ (leads_value H hσ obj) (fun hr ρ hρ => value_sim hσ hρ hr)
      (fun hr ys => leads_value H hσ e ys hr) (fun ρ _ v w => .lifted _) h hxs
  | .member obj (.name _), xs, hs, h, hxs | .member obj (.privateName _), xs, hs, h, hxs =>
    .of_eq (H.framed.value_member obj _) (H.value_member _ _) (leads_first hσ
      (leads_value H hσ obj) (fun ρ _ v => Sim.next (.pure rfl) fun k => .lifted _) h hxs)
  | .call callee args, xs, hs, h, hxs => by
    unfold leadingReads at h
    split at h
    case isTrue hp =>
      obtain ⟨hp, hp'⟩ := Bool.and_eq_true_iff.1 hp
      refine .of_eq (H.framed.value_call_plain hp args) (H.value_call_plain hp' _) ?_
      exact leads_thenReads hσ (leads_value H hσ callee)
        (fun hr ρ hρ => values_sim H hσ hρ args hr)
        (fun _ => leads_values H hσ args) (fun ρ _ v w => .lifted _) h hxs
    case isFalse =>
      split at h
      case isTrue ha => exact leads_receiver H hσ callee xs h hxs args ha
      case isFalse => cases h
  | .new callee none, xs, hs, h, hxs =>
    .of_eq (H.framed.value_new_bare callee) (H.value_new_bare _)
      (leads_first hσ (leads_value H hσ callee) (fun ρ _ f => .lifted _) h hxs)
  | .new callee (some args), xs, hs, h, hxs =>
    .of_eq (H.framed.value_new callee args) (H.value_new _ _)
      (leads_thenReads hσ (leads_value H hσ callee) (fun hr ρ hρ => values_sim H hσ hρ args hr)
        (fun _ ys => leads_values H hσ args ys) (fun ρ _ v w => .lifted _) h hxs)
  | .chainMember optional obj prop, xs, hs, h, hxs => by
    unfold leadingReads at h
    split at h
    case isTrue hp =>
      simp only [Bool.and_eq_true] at hp
      refine .of_eq (H.framed.value_chainMember hp.1.1 _ prop) (H.value_chainMember hp.1.2 _ _) ?_
      exact leads_first hσ (leads_value H hσ obj) (fun ρ hρ o => .ite (.pure rfl)
        ((access_sim H hσ hρ prop hp.2).next fun k => .lifted _)) h hxs
    case isFalse => cases h
  | .chainCall optional callee args, xs, hs, h, hxs => by
    unfold leadingReads at h
    split at h
    case isTrue hp =>
      simp only [Bool.and_eq_true] at hp
      refine .of_eq (H.framed.value_chainCall hp.1.1 _ args) (H.value_chainCall hp.1.2 _ _) ?_
      exact leads_first hσ (leads_value H hσ callee) (fun ρ hρ f => .ite (.pure rfl)
        ((values_sim H hσ hρ args hp.2).next fun vs => .lifted _)) h hxs
    case isFalse => cases h

theorem leads_receiver (H : Host ω V) (hσ : NoEval σ) : ∀ callee ys,
    receiverReads σ callee = some ys → ys.Nodup → ∀ args, allReadSilent σ args →
      Leads H σ ys (H.framed.value (.call callee args))
        (H.value ((Expr.call callee args).substitute σ))
  | .member obj prop, ys, h, hys, args, ha => by
    unfold receiverReads at h
    split at h
    case isTrue hp =>
      refine .of_eq (H.framed.value_call_member obj prop args) (H.value_call_member _ _ _) ?_
      refine leads_first hσ (leads_value H hσ obj) (fun ρ hρ o => ?_) h hys
      refine (access_sim H hσ hρ prop hp).next fun k => (Sim.lifted _).next fun f => ?_
      exact (values_sim H hσ hρ args ha).next fun vs => .lifted _
    case isFalse => cases h

theorem leads_values (H : Host ω V) (hσ : NoEval σ) : ∀ es ys, leadingReadsAll σ es = some ys →
    ys.Nodup →
      Leads H σ ys (H.framed.values es) (H.values (result (editExprs (substituteEdits σ) es)))
  | [], ys, h, _ => by
    cases h
    exact .of_sim fun _ _ => .pure rfl
  | e :: es, ys, h, hys =>
    leads_thenReads hσ (leads_value H hσ e) (fun hr ρ hρ => values_sim H hσ hρ es hr)
      (fun _ zs => leads_values H hσ es zs) (fun ρ _ v w => .pure rfl) h hys

theorem leads_texts (H : Host ω V) (hσ : NoEval σ) : ∀ es ys, leadingReadsTexts σ es = some ys →
    ys.Nodup →
      Leads H σ ys (H.framed.texts es) (H.texts (result (editExprs (substituteEdits σ) es)))
  | [], ys, h, _ => by
    cases h
    exact .of_sim fun _ _ => .pure rfl
  | e :: es, ys, h, hys => by
    unfold leadingReadsTexts at h
    split at h
    case isTrue hr =>
      exact leads_first hσ (leads_value H hσ e) (fun ρ hρ v => (H.perform_unnamed _ rfl).next
        fun t => (texts_sim H hσ hρ es hr).next fun ts => .pure rfl) h hys
    case isFalse => cases h

theorem leads_members (H : Host ω V) (hσ : NoEval σ) : ∀ ps ys,
    leadingReadsMembers σ ps = some ys → ys.Nodup →
      Leads H σ ys (H.framed.propertyValues ps)
        (H.propertyValues (result (editProperties (substituteEdits σ) ps)))
  | [], ys, h, _ => by
    cases h
    exact .of_sim fun _ _ => .pure rfl
  | .keyValue key e :: ps, ys, h, hys => by
    cases key with
    | computed => cases h
    | name | str | num | bigint | privateName =>
      refine .of_eq (H.framed.propertyValues_cons rfl e ps) (H.propertyValues_cons rfl _ _) ?_
      exact leads_thenReads hσ (leads_value H hσ e)
        (fun hr ρ hρ => propertyValues_sim H hσ hρ ps hr) (fun _ => leads_members H hσ ps)
        (fun ρ _ v w => .pure rfl) h hys

end

end Leads

/-! ### Tables of arguments -/

section Args

variable {σ : Table Binding Expr}

theorem Table.find?_cons_self (σ : Table Binding Expr) (x : Binding) (arg : Expr) :
    Table.find? ((x, arg) :: σ) x = some arg := List.lookup_cons_self

theorem Table.find?_cons_ne (σ : Table Binding Expr) {y : Binding} (arg : Expr) (h : y ≠ x) :
    Table.find? ((x, arg) :: σ) y = σ.find? y := by
  have hyx : (y == x) = false := by simpa using h
  simp only [Table.find?, List.lookup_cons, hyx]

theorem Table.find?_eq_none (h : x ∉ σ.map Prod.fst) : σ.find? x = none := by
  refine List.lookup_eq_none_iff.2 fun p hp => bne_iff_ne.2 ?_
  rintro rfl
  exact h (List.mem_map_of_mem hp)

theorem Table.find?_of_mem (hσ : (σ.map Prod.fst).Nodup) (h : (x, arg) ∈ σ) :
    σ.find? x = some arg := by
  induction σ with
  | nil => cases h
  | cons p σ ih =>
    obtain ⟨y, b⟩ := p
    rw [List.map_cons, List.nodup_cons] at hσ
    cases h with
    | head => exact Table.find?_cons_self σ x arg
    | tail _ hmem =>
      have hxy : x ≠ y := by
        rintro rfl
        exact hσ.1 (List.mem_map.2 ⟨_, hmem, rfl⟩)
      rw [Table.find?_cons_ne σ b hxy, ih hσ.2 hmem]

theorem withArgs_keys {τ : Table Binding Expr} (h : ∀ p ∈ τ, σ.find? p.1 = some p.2) :
    withArgs σ (τ.map Prod.fst) = τ := by
  induction τ with
  | nil => rfl
  | cons p τ ih =>
    rw [List.forall_mem_cons] at h
    rw [List.map_cons, withArgs_cons h.1, ih h.2]

/-- Silent arguments as local variables. -/
def Host.withKnown (H : Host ω V) (σ : Table Binding Expr) (ρ : Locals V) : Locals V := fun y =>
  match σ.find? y with
  | some arg => if arg.isSilent then some (H.known arg) else ρ y
  | none => ρ y

theorem bindAll_withKnown (H : Host ω V) (hσ : (σ.map Prod.fst).Nodup) (ρ : Locals V) :
    H.bindAll σ ρ = H.bindAll (strictArgs σ) (H.withKnown σ ρ) := by
  induction σ generalizing ρ with
  | nil => rfl
  | cons p σ ih =>
    obtain ⟨x, arg⟩ := p
    rw [List.map_cons, List.nodup_cons] at hσ
    have hx := Table.find?_eq_none hσ.1
    have hother : ∀ v y, y ≠ x →
        H.withKnown σ (ρ.set x v) y = H.withKnown ((x, arg) :: σ) ρ y := by
      intro v y hy
      simp only [Host.withKnown, Table.find?_cons_ne σ arg hy, ρ.set_other v hy]
    have hsame : ∀ v, H.withKnown σ (ρ.set x v) x = some v := by
      intro v
      simp only [Host.withKnown, hx, ρ.set_same]
    cases ha : arg.isSilent with
    | true =>
      have hstrict : strictArgs ((x, arg) :: σ) = strictArgs σ := List.filter_cons_of_neg (by simp [ha])
      rw [hstrict, Host.bindAll, H.value_silent arg ha, pure_bind, ih hσ.2]
      congr 1
      funext y
      by_cases hy : y = x
      · subst hy
        rw [hsame]
        simp only [Host.withKnown, Table.find?_cons_self, ha, if_true]
      · exact hother _ y hy
    | false =>
      have hstrict : strictArgs ((x, arg) :: σ) = (x, arg) :: strictArgs σ :=
        List.filter_cons_of_pos (by simp [ha])
      rw [hstrict, Host.bindAll, Host.bindAll]
      refine congrArg _ (funext fun v => ?_)
      rw [ih hσ.2]
      congr 1
      funext y
      by_cases hy : y = x
      · subst hy
        rw [hsame, Locals.set_same]
      · rw [hother v y hy, Locals.set_other _ v hy]

/-- Silent arguments alone are enough for the local variables to stand for the parameters. -/
theorem standing_withKnown (H : Host ω V) (σ : Table Binding Expr) :
    Standing σ H (H.withKnown σ fun _ => none) where
  outside y hy := by simp only [Host.withKnown, hy]
  silent y arg hy ha := by simp only [Host.withKnown, hy, ha, if_true]

theorem Standing.of_strict {H : Host ω V} {ρ ρ' : Locals V} (hσ : (σ.map Prod.fst).Nodup)
    (hρ : Standing σ H ρ) (h : ∀ y, y ∉ (strictArgs σ).map Prod.fst → ρ' y = ρ y) :
    Standing σ H ρ' := by
  have hstrict : ∀ y, y ∈ (strictArgs σ).map Prod.fst →
      ∃ arg, σ.find? y = some arg ∧ arg.isSilent = false := by
    intro y hy
    obtain ⟨⟨y, arg⟩, hmem, rfl⟩ := List.mem_map.1 hy
    obtain ⟨hmem, ha⟩ := List.mem_filter.1 hmem
    exact ⟨arg, Table.find?_of_mem hσ hmem, by simpa using ha⟩
  constructor
  · intro y hy
    rw [h y, hρ.outside y hy]
    intro hmem
    obtain ⟨arg, hfind, -⟩ := hstrict y hmem
    rw [hy] at hfind
    cases hfind
  · intro y arg hy ha
    rw [h y, hρ.silent y arg hy ha]
    intro hmem
    obtain ⟨b, hfind, hb⟩ := hstrict y hmem
    rw [hy] at hfind
    cases hfind
    rw [ha] at hb
    cases hb

theorem bindAll_inFrame (H : Host ω V) (heval : NoEval σ) (hσ : (σ.map Prod.fst).Nodup)
    {body : Expr}
    (h : unlessSilent σ body (leadingReads σ body) = some ((strictArgs σ).map Prod.fst)) :
    (do
      let ρ ← H.bindAll σ fun _ => none
      (H.framed.value body).inFrame ρ) = H.value (body.substitute σ) := by
  have hstrict : ∀ p ∈ strictArgs σ, σ.find? p.1 = some p.2 := fun p hp =>
    Table.find?_of_mem hσ (List.mem_filter.1 hp).1
  have hnodup : ((strictArgs σ).map Prod.fst).Nodup := hσ.sublist (List.filter_sublist.map _)
  have hstart := standing_withKnown H σ
  obtain ⟨X, hX⟩ := leads_unlessSilent heval (leads_value H heval body) h hnodup
  rw [bindAll_withKnown H hσ, ← (hX _ hstart).2, withArgs_keys hstrict]
  refine bindAll_congr H _ _ fun ρ hρ => ?_
  exact (hX ρ (hstart.of_strict hσ hρ)).1.inFrame_eq

end Args

/-! ### Inlining -/

namespace Pass

theorem keys_bindArgs : ∀ (params : List Binding) (args : List Expr),
    (bindArgs params args).map Prod.fst = params
  | [], _ => rfl
  | x :: params, [] => congrArg (x :: ·) (keys_bindArgs params [])
  | x :: params, _ :: args => congrArg (x :: ·) (keys_bindArgs params args)

/-- Dropping repeated members drops none only if there are none. -/
theorem nodup_of_length_eraseDups : ∀ (n : Nat) (xs : List Binding), xs.length = n →
    xs.eraseDups.length ≤ n ∧ (xs.eraseDups.length = n → xs.Nodup)
  | _, [], h => by
    cases h
    exact ⟨Nat.le_refl _, fun _ => List.nodup_nil⟩
  | n + 1, x :: xs, h => by
    have hlen : xs.length = n := by simpa using h
    have hfilter : (xs.filter fun y => !y == x).length ≤ n := hlen ▸ List.length_filter_le _ _
    obtain ⟨hle, hnodup⟩ := nodup_of_length_eraseDups _ (xs.filter fun y => !y == x) rfl
    rw [List.eraseDups_cons, List.length_cons]
    refine ⟨by omega, fun heq => ?_⟩
    have hall : ∀ y ∈ xs, (!y == x) = true :=
      List.length_filter_eq_length_iff.1 (by omega)
    rw [List.filter_eq_self.2 hall] at hnodup hfilter heq
    refine List.nodup_cons.2 ⟨fun hx => ?_, hnodup (by omega)⟩
    simpa using hall x hx
termination_by n => n

theorem params_nodup {holders : List Binding} {shape : List Binding × Expr} {f : Proxy}
    (h : proxy? holders shape = some f) : f.params.Nodup := by
  obtain ⟨params, body⟩ := shape
  simp only [proxy?] at h
  split at h
  case isTrue => cases h
  case isFalse hlen =>
    have hparams : f.params = params := by
      split at h
      · cases h
        rfl
      · cases h
    rw [hparams]
    exact (nodup_of_length_eraseDups _ params rfl).2 (by simpa using hlen)

/-- A proxy whose body reads its parameters before it does anything else can be inlined: the body with
the arguments put in does the same in the same order, and gives the same value, as the call. -/
theorem inline?_preserves_evaluation {holders : List Binding} {shape : List Binding × Expr}
    {f : Proxy} (hf : proxy? holders shape = some f) {args : List Expr} {e : Expr}
    (he : f.inline? args = some e) (h : f.readsFirst args) (H : Host ω V) :
    H.value e = H.callProxy f args := by
  have hkeys : ((bindArgs f.params args).map Prod.fst).Nodup := by
    rw [keys_bindArgs]
    exact params_nodup hf
  obtain ⟨h, hreads⟩ := Bool.and_eq_true_iff.1 h
  obtain ⟨hextra, hnames⟩ := Bool.and_eq_true_iff.1 h
  have heval : NoEval (bindArgs f.params args) := by
    intro x arg hx
    have hmem : x ∈ f.params := by
      rw [← keys_bindArgs f.params args]
      refine Decidable.byContradiction fun hmem => ?_
      rw [Table.find?_eq_none hmem] at hx
      cases hx
    simpa using List.all_eq_true.1 hnames x hmem
  have hbody : e = f.body.substitute (bindArgs f.params args) := by
    unfold Proxy.inline? at he
    split at he
    · cases he
      rfl
    · cases he
  rw [hbody, ← bindAll_inFrame H heval hkeys (of_decide_eq_true hreads), Host.callProxy,
    H.values_silent _ hextra]
  simp only [pure_bind]

/-- `function (a, b, c) { return a(b, c)[0] }` -/
def passOn : List Binding × Expr :=
  ([⟨"a", .unset⟩, ⟨"b", .unset⟩, ⟨"c", .unset⟩],
    .member (.call (.ofName "a") [.ofName "b", .ofName "c"]) (.computed (.lit (.num { value := 0 }))))

/-- `f, g(), true` -/
def passedOn : List Expr := [.ofName "f", .call (.ofName "g") [], .lit (.bool true)]

theorem inline?_passes_on :
    ∃ f e, proxy? [] passOn = some f ∧ f.inline? passedOn = some e ∧ f.readsFirst passedOn ∧
      Values.made.host.watched.value e = Values.made.host.watched.callProxy f passedOn :=
  have hf : proxy? [] passOn = some ⟨passOn.1, passOn.2, [0, 1, 2], false⟩ := rfl
  have h : (⟨passOn.1, passOn.2, [0, 1, 2], false⟩ : Proxy).readsFirst passedOn := by decide
  ⟨_, _, hf, rfl, h, inline?_preserves_evaluation hf rfl h Values.made.host.watched⟩

/-- `function (a, b) { return a(), b }` -/
def callFirst : Proxy where
  params := [⟨"a", .unset⟩, ⟨"b", .unset⟩]
  body := .seq [.call (.ofName "a") [], .ofName "b"]
  uses := [0, 1]
  isConditional := false

/-- A memory in which every variable is true until a call makes them all false. -/
def changeable : Memory Datum :=
  ⟨fun _ => .bool true, [(.value .undefined, fun _ _ => .bool false)]⟩

/-- What is checked of the arguments is not enough. The call of `callFirst` with `f, x` reads `x`
first; the inlined `f(), x` reads it after `f` has been called. -/
theorem inline?_reorders :
    ∃ e, proxy? [] (callFirst.params, callFirst.body) = some callFirst ∧
      callFirst.inline? [.ofName "f", .ofName "x"] = some e ∧
      Values.made.host.value e ≠ Values.made.host.callProxy callFirst [.ofName "f", .ofName "x"] := by
  have hname : ∀ {ω : Type} (H : Host ω Datum) (s : String),
      H.value (.ofName s) = H.read ⟨s, .unset⟩ := fun H s => value_ident H _
  refine ⟨.seq [.call (.ofName "f") [], .ofName "x"], rfl, rfl, fun h => ?_⟩
  have hinlined : Values.made.host.value (.seq [.call (.ofName "f") [], .ofName "x"]) changeable
      (.value (.bool false)) ⟨fun _ => .bool false, []⟩ := by
    rw [Host.value_seq_cons, Host.value_seq_singleton, Host.value_call_plain _ rfl, hname, hname]
    refine Comp.bind_value_iff.2 ⟨.undefined, ⟨fun _ => .bool false, []⟩, ?_, rfl, rfl⟩
    refine Comp.bind_value_iff.2 ⟨.bool true, changeable, ⟨rfl, rfl⟩, ?_⟩
    exact Comp.bind_value_iff.2 ⟨[], changeable, ⟨rfl, rfl⟩, rfl, rfl⟩
  rw [h] at hinlined
  -- The call binds `b` to the value that `x` has before `f` is called.
  obtain ⟨ρ, m, hargs, hbody⟩ := Comp.bind_value_iff.1 hinlined
  obtain ⟨_, _, hf, hargs⟩ := Comp.bind_value_iff.1 hargs
  rw [hname] at hf
  obtain ⟨-, rfl⟩ := hf
  obtain ⟨_, _, hx, hρ, rfl⟩ := Comp.bind_value_iff.1 hargs
  rw [hname] at hx
  obtain ⟨hx, rfl⟩ := hx
  cases hx
  cases hρ
  obtain ⟨_, _, ⟨-, rfl⟩, ρ', hbody⟩ := Comp.bind_value_iff.1 hbody
  have hseq : Values.made.host.framed.value callFirst.body = (do
      let _ ← Values.made.host.framed.value (.call (.ofName "a") [])
      Values.made.host.framed.read ⟨"b", .unset⟩) := by
    show Values.made.host.framed.value (.seq [_, _]) = _
    rw [Host.value_seq_cons, Host.value_seq_singleton, hname]
  rw [hseq, Host.value_call_plain _ rfl, hname] at hbody
  obtain ⟨_, ⟨m, ρ₂⟩, hcall, hread⟩ := Comp.bind_value_iff.1 hbody
  obtain ⟨_, ⟨_, _⟩, ⟨-, ha⟩, hcall⟩ := Comp.bind_value_iff.1 hcall
  cases ha
  obtain ⟨_, _, ⟨-, rfl⟩, -, hlocal⟩ := Comp.bind_value_iff.1 hcall
  cases hlocal
  obtain ⟨hb, -⟩ := hread
  cases hb

end Pass

end Untangle
