import Untangle.Binding.References
import Untangle.Proofs.Editing
import Untangle.Proofs.LocalVariables

/-!
# Arguments in place of parameters

An argument that does nothing when it is evaluated can be put in for a parameter wherever the
parameter is read.

* `refer_sim` — for every expression that reads parameters only so.
-/

namespace Untangle

variable {ω V : Type}

/-! ### Silent expressions -/

def Expr.isNumeral (e : Expr) : Bool :=
  match e.unparen with
  | .lit (.num _) => true
  | _ => false

mutual

/-- Whether evaluating an expression does nothing at all but give a value. -/
def Expr.isSilent : Expr → Bool
  | .paren e => e.isSilent
  | .lit (.regex _ _) => false
  | .lit _ => true
  | .func _ _ => true
  | .arrow _ => true
  | .unary .void arg => arg.isSilent
  | .unary .not arg => arg.isSilent
  | .unary op arg => op.isSign && arg.isNumeral
  | .array elems => areSilent elems
  | .hole => true
  | _ => false

def areSilent : List Expr → Bool
  | [] => true
  | e :: es => e.isSilent && areSilent es

end

namespace Host

variable (H : Host ω V)

mutual

def known : Expr → V
  | .paren e => known e
  | .lit l => H.constant (.lit l)
  | .func name f => H.constant (.func name f)
  | .arrow f => H.constant (.arrow f)
  | .unary .not arg => H.ofBool (!H.truthy (known arg))
  | .unary .minus arg => H.signed .minus (known arg)
  | .unary .plus arg => H.signed .plus (known arg)
  | .array elems => H.array (knownAll elems)
  | .hole => H.hole
  | _ => H.undefined

def knownAll : List Expr → List V
  | [] => []
  | e :: es => known e :: knownAll es

end

theorem refer_numeral : ∀ e : Expr, e.isNumeral →
    H.refer e = pure (.value (H.known e)) ∧ H.isNumber (H.known e)
  | .paren e, h => by
    obtain ⟨hr, hn⟩ := refer_numeral e h
    refine ⟨?_, hn⟩
    rw [refer, hr, pure_bind]
    rfl
  | .lit (.num n), _ => ⟨rfl, H.isNumber_literal n⟩

mutual

theorem refer_silent : ∀ e : Expr, e.isSilent → H.refer e = pure (.value (H.known e))
  | .paren e, h => by
    rw [refer, refer_silent e h, pure_bind]
    rfl
  | .lit (.str _), _ | .lit (.num _), _ | .lit (.bool _), _ | .lit .null, _ | .lit (.bigint _), _
  | .func _ _, _ | .arrow _, _ | .hole, _ => rfl
  | .unary .void arg, h | .unary .not arg, h => by
    simp [refer, refer_silent arg h, unary, applyUnary, known]
  | .unary .minus arg, h | .unary .plus arg, h => by
    obtain ⟨hr, hn⟩ := H.refer_numeral arg h
    simp [refer, hr, unary, applyUnary, known, UnaryOp.isSign, hn]
  | .array elems, h => by
    rw [refer, values_silent elems h, pure_bind]
    rfl

theorem values_silent : ∀ es : List Expr, areSilent es → H.values es = pure (H.knownAll es)
  | [], _ => rfl
  | e :: es, h => by
    rw [areSilent, Bool.and_eq_true] at h
    rw [values_cons, value, refer_silent e h.1, values_silent es h.2]
    simp [load, knownAll]

end

theorem value_silent (e : Expr) (h : e.isSilent) : H.value e = pure (H.known e) := by
  rw [value, H.refer_silent e h, pure_bind]
  rfl

end Host

/-! ### Bodies that only read their parameters -/

section Substitution

variable (σ : Table Binding Expr)

def isParam : Expr → Bool
  | .ident id => (σ.find? id.binding).isSome
  | .paren e => isParam e
  | .typed _ e _ => isParam e
  | .typeAssert _ e => isParam e
  | .nonNull e => isParam e
  | _ => false

mutual

/-- Whether an expression only reads parameters, and only those with silent arguments. It makes no
functions, which could keep the parameters. -/
def readsSilent : Expr → Bool
  | .ident id =>
    match σ.find? id.binding with
    | some arg => arg.isSilent
    | none => true
  | .this | .lit _ | .hole | .newTarget | .importMeta | .privateName _ | .placeholder => true
  | .array elems => allReadSilent elems
  | .object props => propertiesReadSilent props
  | .unary op arg => (op != .delete || !isParam σ arg) && readsSilent arg
  | .update _ _ arg => !isParam σ arg && readsSilent arg
  | .binary _ left right => readsSilent left && readsSilent right
  | .assign _ target value => targetReadsSilent target && readsSilent value
  | .cond test yes no => readsSilent test && readsSilent yes && readsSilent no
  | .seq exprs => allReadSilent exprs
  | .member obj prop => readsSilent obj && accessReadsSilent prop
  | .superMember prop => accessReadsSilent prop
  | .call callee args => readsSilent callee && allReadSilent args
  | .superCall args => allReadSilent args
  | .importCall args => allReadSilent args
  | .new callee none => readsSilent callee
  | .new callee (some args) => readsSilent callee && allReadSilent args
  | .chainMember _ obj prop => readsSilent obj && accessReadsSilent prop
  | .chainCall _ callee args => readsSilent callee && allReadSilent args
  | .template _ exprs => allReadSilent exprs
  | .tagged tag _ exprs => readsSilent tag && allReadSilent exprs
  | .yield _ none => true
  | .yield _ (some arg) => readsSilent arg
  | .await arg => readsSilent arg
  | .paren e => readsSilent e
  | .spread e => readsSilent e
  | .typed _ e _ => readsSilent e
  | .typeAssert _ e => readsSilent e
  | .nonNull e => readsSilent e
  | .func _ _ | .arrow _ | .cls _ _ => false

def allReadSilent : List Expr → Bool
  | [] => true
  | e :: es => readsSilent e && allReadSilent es

def propertiesReadSilent : List Property → Bool
  | [] => true
  | .keyValue key value :: ps =>
    keyReadsSilent key && readsSilent value && propertiesReadSilent ps
  | .spread e :: ps => readsSilent e && propertiesReadSilent ps
  | _ => false

def keyReadsSilent : PropName → Bool
  | .computed e => readsSilent e
  | _ => true

def accessReadsSilent : MemberProp → Bool
  | .computed e => readsSilent e
  | _ => true

def targetReadsSilent : AssignTarget → Bool
  | .name b => (σ.find? b.id.binding).isNone
  | .member obj prop => readsSilent obj && accessReadsSilent prop
  | .superMember prop => accessReadsSilent prop
  | .paren e => !isParam σ e && readsSilent e
  | .chain e => !isParam σ e && readsSilent e
  | .typed e => !isParam σ e && readsSilent e
  | .pattern _ => false

end

/-- Local variables that stand for parameters: those with silent arguments have their values, and
nothing else is local. -/
structure Standing (H : Host ω V) (ρ : Locals V) : Prop where
  outside : ∀ x, σ.find? x = none → ρ x = none
  silent : ∀ x arg, σ.find? x = some arg → arg.isSilent → ρ x = some (H.known arg)

/-- No parameter is called `eval`, so no call of a parameter can see local names. -/
def NoEval : Prop := ∀ x arg, σ.find? x = some arg → x.name ≠ "eval"

def SameRef (ρ : Locals V) (r' r : Ref V) : Prop := r' = r ∧ ∀ x, r = .name x → ρ x = none

/-- A local variable and its value, or the same. -/
def AlikeRef (ρ : Locals V) (r' r : Ref V) : Prop :=
  SameRef ρ r' r ∨ ∃ x v, r' = .name x ∧ r = .value v ∧ ρ x = some v ∧ x.name ≠ "eval"

/-- How what an expression comes to differs once arguments are put in for parameters. -/
def refRel (ρ : Locals V) (e : Expr) : Ref V → Ref V → Prop :=
  match isParam σ e with
  | true => AlikeRef ρ
  | false => SameRef ρ

end Substitution

section Frames

variable {ρ : Locals V} (H : Host ω V)

theorem sameRef_value (v : V) : SameRef ρ (.value v) (.value v) := ⟨rfl, fun _ h => nomatch h⟩

theorem sameRef_prop (v : V) (k : Key V) : SameRef ρ (.prop v k) (.prop v k) :=
  ⟨rfl, fun _ h => nomatch h⟩

theorem sameRef_short : SameRef ρ .short (.short : Ref V) := ⟨rfl, fun _ h => nomatch h⟩

variable {e : Expr} {r r' : Ref V}

theorem refRel_alike {σ : Table Binding Expr} (h : refRel σ ρ e r' r) : AlikeRef ρ r' r := by
  cases hp : isParam σ e with
  | true =>
    simp only [refRel, hp] at h
    exact h
  | false =>
    simp only [refRel, hp] at h
    exact .inl h

theorem load_sim (h : AlikeRef ρ r' r) : Sim ρ Eq (H.framed.load r') (H.load r) := by
  obtain ⟨rfl, hname⟩ | ⟨x, v, rfl, rfl, hx, -⟩ := h
  · cases r' with
    | value v => exact .pure rfl
    | name x => exact H.read_outside (hname x rfl)
    | prop o k => exact .lifted _
    | short => exact .pure rfl
  · exact H.read_local hx

theorem typeOf_sim (h : AlikeRef ρ r' r) : Sim ρ Eq (H.framed.typeOf r') (H.typeOf r) := by
  have hvalue : ∀ v, Sim ρ Eq (H.framed.perform (.unary .typeOf) [v])
      (H.perform (.unary .typeOf) [v]) := fun v => H.perform_unnamed _ rfl
  obtain ⟨rfl, hname⟩ | ⟨x, v, rfl, rfl, hx, -⟩ := h
  · cases r' with
    | value v => exact (Sim.pure rfl).next hvalue
    | name x =>
      refine H.perform_outside [] fun y h => ?_
      cases h
      exact hname x rfl
    | prop o k => exact (Sim.lifted _).next hvalue
    | short => exact (Sim.pure rfl).next hvalue
  · show Sim ρ Eq _ (pure v >>= fun v => H.perform (.unary .typeOf) [v])
    rw [pure_bind]
    exact H.typeOfName_local hx []

theorem remove_sim (h : SameRef ρ r' r) : Sim ρ Eq (H.framed.remove r') (H.remove r) := by
  obtain ⟨rfl, hname⟩ := h
  cases r' with
  | value v => exact .pure rfl
  | name x =>
    refine H.perform_outside [] fun y h => ?_
    cases h
    exact hname x rfl
  | prop o k => exact .lifted _
  | short => exact .pure rfl

theorem store_sim (h : SameRef ρ r' r) (v : V) : Sim ρ Eq (H.framed.store v r') (H.store v r) := by
  have hinvalid : Sim ρ Eq (do let _ ← H.framed.perform .invalidTarget [])
      (do let _ ← H.perform .invalidTarget []) :=
    (H.perform_unnamed _ rfl).next fun _ => .pure rfl
  obtain ⟨rfl, hname⟩ := h
  cases r' with
  | value v => exact hinvalid
  | name x => exact H.write_outside (hname x rfl)
  | prop o k => exact .lifted _
  | short => exact hinvalid

theorem applyUnary_sim (op : UnaryOp) (v : V) :
    Sim ρ Eq (H.framed.applyUnary op v) (H.applyUnary op v) := by
  cases op with
  | void | not => exact .pure rfl
  | minus | plus | bitNot | typeOf | delete =>
    unfold Host.applyUnary
    exact .ite (.pure rfl) (H.perform_outside _ fun x hx => nomatch hx)

theorem unary_sim (h : AlikeRef ρ r' r) (op : UnaryOp) (hd : op = .delete → SameRef ρ r' r) :
    Sim ρ Eq (H.framed.unary op r') (H.unary op r) := by
  cases op with
  | typeOf => exact typeOf_sim H h
  | delete => exact remove_sim H (hd rfl)
  | minus | plus | not | bitNot | void => exact (load_sim H h).next (applyUnary_sim H _)

theorem AlikeRef.callee (h : AlikeRef ρ r' r) :
    r'.isEval = r.isEval ∧ r'.receiver H.framed = r.receiver H ∧ r'.isShort = r.isShort := by
  obtain ⟨rfl, -⟩ | ⟨x, v, rfl, rfl, -, hx⟩ := h
  · exact ⟨rfl, rfl, rfl⟩
  · refine ⟨?_, rfl, rfl⟩
    show (x.name == "eval") = false
    simpa using hx

theorem AlikeRef.closed (h : AlikeRef ρ r' r) : AlikeRef ρ (r'.closed H.framed) (r.closed H) := by
  obtain ⟨rfl, hname⟩ | ⟨x, v, rfl, rfl, hx⟩ := h
  · cases r' with
    | short => exact .inl (sameRef_value _)
    | value v => exact .inl (sameRef_value _)
    | name x => exact .inl ⟨rfl, hname⟩
    | prop o k => exact .inl (sameRef_prop o k)
  · exact .inr ⟨x, v, rfl, rfl, hx⟩

theorem SameRef.closed (h : SameRef ρ r' r) : SameRef ρ (r'.closed H.framed) (r.closed H) := by
  obtain ⟨rfl, hname⟩ := h
  cases r' with
  | short => exact sameRef_value _
  | value v => exact sameRef_value _
  | name x => exact ⟨rfl, hname⟩
  | prop o k => exact sameRef_prop o k

theorem refRel_same {σ : Table Binding Expr} (h : refRel σ ρ e r' r) (hp : isParam σ e = false) :
    SameRef ρ r' r := by
  simpa only [refRel, hp] using h

theorem refRel_closed {σ : Table Binding Expr} :
    refRel σ ρ e r' r → refRel σ ρ e (r'.closed H.framed) (r.closed H) := by
  unfold refRel
  cases isParam σ e with
  | true => exact AlikeRef.closed H
  | false => exact SameRef.closed H

variable {σ : Table Binding Expr}

theorem value_sim_of (h : Sim ρ (refRel σ ρ e) (H.framed.refer e) (H.refer (e.substitute σ))) :
    Sim ρ Eq (H.framed.value e) (H.value (e.substitute σ)) :=
  h.bind fun _ _ hr => load_sim H (refRel_alike hr)

theorem assign_sim (h : SameRef ρ r' r) (v : V) {target : AssignTarget}
    (ht : targetReadsSilent σ target) :
    Sim ρ Eq (H.framed.assign v r' target)
      (H.assign v r (result (editTarget (substituteEdits σ) target))) := by
  cases target with
  | pattern p => cases ht
  | name | member | superMember | paren | chain | typed => exact store_sim H h v

theorem shape_substitute : ∀ p, (result (editProperty (substituteEdits σ) p)).shape = p.shape
  | .shorthand id => by
    show (Property.ofName id.name id).shape = _
    rw [Property.ofName, if_pos rfl]
  | .keyValue key _ | .getter key _ | .setter key _ _ | .method key _ => by cases key <;> rfl
  | .initialized .. | .spread _ => rfl

theorem shapes_substitute (ps : List Property) :
    (result (editProperties (substituteEdits σ) ps)).map Property.shape = ps.map Property.shape := by
  induction ps with
  | nil => rfl
  | cons p ps ih =>
    rw [List.map_cons, ← shape_substitute p, ← ih]
    rfl

/-- The name of a variable: a parameter stands for the value of its argument. -/
theorem ident_sim (hσ : NoEval σ) (hρ : Standing σ H ρ) (id : Ident)
    (h : readsSilent σ (.ident id)) :
    Sim ρ (refRel σ ρ (.ident id)) (H.framed.refer (.ident id))
      (H.refer ((Expr.ident id).substitute σ)) := by
  have hsub : (Expr.ident id).substitute σ = (σ.find? id.binding).getD (.ident id) := rfl
  have hrel : refRel σ ρ (.ident id) =
      match (σ.find? id.binding).isSome with
      | true => AlikeRef ρ
      | false => SameRef ρ := rfl
  rw [hsub, hrel]
  cases hx : σ.find? id.binding with
  | none =>
    refine .pure ⟨rfl, fun x h => ?_⟩
    cases h
    exact hρ.outside _ hx
  | some arg =>
    simp only [readsSilent, hx] at h
    have hv := hρ.silent _ arg hx h
    rw [Option.getD_some, H.refer_silent arg h]
    exact .pure (.inr ⟨_, _, rfl, rfl, hv, hσ _ _ hx⟩)

variable (hσ : NoEval σ) (hρ : Standing σ H ρ)

include hσ hρ

set_option linter.unusedSectionVars false

mutual

/-- An expression that only reads parameters with silent arguments comes to the same, if the
arguments are put in, as with the parameters. -/
theorem refer_sim : ∀ e, readsSilent σ e →
    Sim ρ (refRel σ ρ e) (H.framed.refer e) (H.refer (e.substitute σ))
  | .ident id, h => ident_sim H hσ hρ id h
  | .this, _ | .newTarget, _ | .importMeta, _ | .placeholder, _ | .lit (.regex _ _), _
  | .yield _ none, _ => (H.perform_unnamed _ rfl).map sameRef_value
  | .lit (.str _), _ | .lit (.num _), _ | .lit (.bool _), _ | .lit .null, _ | .lit (.bigint _), _
  | .hole, _ | .privateName _, _ => .pure (sameRef_value _)
  | .array exprs, h | .seq exprs, h => (values_sim exprs h).next fun _ => .pure (sameRef_value _)
  | .object props, h => by
    show Sim ρ (SameRef ρ) _ (H.propertyValues (result (editProperties (substituteEdits σ) props))
      >>= fun vs => Ref.value <$> H.perform (.object ((result (editProperties (substituteEdits σ)
        props)).map Property.shape)) vs)
    rw [shapes_substitute props]
    exact (propertyValues_sim props h).next fun vs =>
      (H.perform_unnamed _ rfl).map sameRef_value
  | .unary op arg, h => by
    obtain ⟨hd, ha⟩ := Bool.and_eq_true_iff.1 h
    refine (refer_sim arg ha).bind fun r' r hr => ?_
    refine (unary_sim H (refRel_alike hr) op fun hop => refRel_same hr ?_).map sameRef_value
    subst hop
    simpa using hd
  | .update op before arg, h => by
    obtain ⟨hp, ha⟩ := Bool.and_eq_true_iff.1 h
    refine (refer_sim arg ha).bind fun r' r hr => ?_
    have hsame : SameRef ρ r' r := refRel_same hr (by simpa using hp)
    refine (load_sim H (.inl hsame)).next fun v => ?_
    refine (H.perform_unnamed _ rfl).next fun old => ?_
    refine (H.perform_unnamed _ rfl).next fun new => ?_
    exact (store_sim H hsame new).next fun _ => .pure (sameRef_value _)
  | .binary op left right, h => by
    obtain ⟨hl, hr⟩ := Bool.and_eq_true_iff.1 h
    refine (value_sim_of H (refer_sim left hl)).next fun v => ?_
    have hright := value_sim_of H (refer_sim right hr)
    refine .ite (.ite (.pure (sameRef_value _)) (hright.map sameRef_value)) ?_
    exact hright.next fun w => (H.perform_unnamed _ rfl).map sameRef_value
  | .assign op target value, h => by
    obtain ⟨ht, hv⟩ := Bool.and_eq_true_iff.1 h
    have hvalue := value_sim_of H (refer_sim value hv)
    refine (place_sim target ht).bind fun r' r hr => ?_
    cases op with
    | plain =>
      refine hvalue.next fun v => ?_
      exact (assign_sim H hr v ht).next fun _ => .pure (sameRef_value _)
    | combined op =>
      refine (load_sim H (.inl hr)).next fun old => ?_
      refine .ite (.pure (sameRef_value _)) ?_
      refine hvalue.next fun v => ?_
      refine Sim.next (.ite (.pure rfl) (H.perform_unnamed _ rfl)) fun new => ?_
      exact (assign_sim H hr new ht).next fun _ => .pure (sameRef_value _)
  | .cond test yes no, h => by
    obtain ⟨h, hn⟩ := Bool.and_eq_true_iff.1 h
    obtain ⟨ht, hy⟩ := Bool.and_eq_true_iff.1 h
    refine (value_sim_of H (refer_sim test ht)).next fun v => ?_
    exact .ite ((value_sim_of H (refer_sim yes hy)).map sameRef_value)
      ((value_sim_of H (refer_sim no hn)).map sameRef_value)
  | .member obj prop, h => by
    obtain ⟨ho, hp⟩ := Bool.and_eq_true_iff.1 h
    refine (value_sim_of H (refer_sim obj ho)).next fun v => ?_
    exact (access_sim prop hp).next fun k => .pure (sameRef_prop v k)
  | .superMember prop, h =>
    (H.perform_unnamed _ rfl).next fun v => (access_sim prop h).next fun k =>
      .pure (sameRef_prop v k)
  | .call callee args, h => by
    obtain ⟨hc, ha⟩ := Bool.and_eq_true_iff.1 h
    refine (refer_sim callee hc).bind fun r' r hr => ?_
    obtain ⟨heval, hreceiver, -⟩ := (refRel_alike hr).callee H
    rw [heval, hreceiver]
    refine (load_sim H (refRel_alike hr)).next fun f => ?_
    exact (values_sim args ha).next fun vs => (Sim.lifted _).map sameRef_value
  | .superCall args, h | .importCall args, h =>
    (values_sim args h).next fun vs => (H.perform_unnamed _ rfl).map sameRef_value
  | .new callee none, h =>
    (value_sim_of H (refer_sim callee h)).next fun f => (Sim.lifted _).map sameRef_value
  | .new callee (some args), h => by
    obtain ⟨hc, ha⟩ := Bool.and_eq_true_iff.1 h
    refine (value_sim_of H (refer_sim callee hc)).next fun f => ?_
    exact (values_sim args ha).next fun vs => (Sim.lifted _).map sameRef_value
  | .chainMember optional obj prop, h => by
    obtain ⟨ho, hp⟩ := Bool.and_eq_true_iff.1 h
    refine (refer_sim obj ho).bind fun r' r hr => ?_
    rw [((refRel_alike hr).callee H).2.2]
    refine .ite (.pure sameRef_short) ((load_sim H (refRel_alike hr)).next fun v => ?_)
    refine .ite (.pure sameRef_short) ?_
    exact (access_sim prop hp).next fun k => .pure (sameRef_prop v k)
  | .chainCall optional callee args, h => by
    obtain ⟨hc, ha⟩ := Bool.and_eq_true_iff.1 h
    refine (refer_sim callee hc).bind fun r' r hr => ?_
    obtain ⟨heval, hreceiver, hshort⟩ := (refRel_alike hr).callee H
    rw [heval, hreceiver, hshort]
    refine .ite (.pure sameRef_short) ((load_sim H (refRel_alike hr)).next fun f => ?_)
    refine .ite (.pure sameRef_short) ?_
    exact (values_sim args ha).next fun vs => (Sim.lifted _).map sameRef_value
  | .template quasis exprs, h =>
    (texts_sim exprs h).next fun vs => (H.perform_unnamed _ rfl).map sameRef_value
  | .tagged tag quasis exprs, h => by
    obtain ⟨ht, he⟩ := Bool.and_eq_true_iff.1 h
    refine (refer_sim tag ht).bind fun r' r hr => ?_
    rw [((refRel_alike hr).callee H).2.1]
    refine (load_sim H (refRel_alike hr)).next fun f => ?_
    exact (values_sim exprs he).next fun vs => (Sim.lifted _).map sameRef_value
  | .yield _ (some e), h | .await e, h | .spread e, h =>
    (value_sim_of H (refer_sim e h)).next fun v => (H.perform_unnamed _ rfl).map sameRef_value
  | .paren e, h => by
    exact (refer_sim e h).bind fun r' r hr => .pure (refRel_closed H hr)
  | .typed _ e _, h | .typeAssert _ e, h | .nonNull e, h => refer_sim e h

theorem values_sim : ∀ es, allReadSilent σ es →
    Sim ρ Eq (H.framed.values es) (H.values (result (editExprs (substituteEdits σ) es)))
  | [], _ => .pure rfl
  | e :: es, h => by
    obtain ⟨he, hes⟩ := Bool.and_eq_true_iff.1 h
    exact (value_sim_of H (refer_sim e he)).next fun v =>
      (values_sim es hes).next fun vs => .pure rfl

theorem texts_sim : ∀ es, allReadSilent σ es →
    Sim ρ Eq (H.framed.texts es) (H.texts (result (editExprs (substituteEdits σ) es)))
  | [], _ => .pure rfl
  | e :: es, h => by
    obtain ⟨he, hes⟩ := Bool.and_eq_true_iff.1 h
    exact (value_sim_of H (refer_sim e he)).next fun v =>
      (H.perform_unnamed _ rfl).next fun t => (texts_sim es hes).next fun vs => .pure rfl

theorem propertyValues_sim : ∀ ps, propertiesReadSilent σ ps →
    Sim ρ Eq (H.framed.propertyValues ps)
      (H.propertyValues (result (editProperties (substituteEdits σ) ps)))
  | [], _ => .pure rfl
  | .keyValue key value :: ps, h => by
    obtain ⟨h, hps⟩ := Bool.and_eq_true_iff.1 h
    obtain ⟨hk, hv⟩ := Bool.and_eq_true_iff.1 h
    refine Sim.next ?_ fun vs => (propertyValues_sim ps hps).next fun ws => .pure rfl
    exact (keyValue_sim key hk).next fun ks =>
      (value_sim_of H (refer_sim value hv)).next fun v => .pure rfl
  | .spread e :: ps, h => by
    obtain ⟨he, hps⟩ := Bool.and_eq_true_iff.1 h
    refine Sim.next ?_ fun vs => (propertyValues_sim ps hps).next fun ws => .pure rfl
    exact (value_sim_of H (refer_sim e he)).next fun v =>
      (H.perform_unnamed _ rfl).next fun s => .pure rfl

theorem keyValue_sim : ∀ key, keyReadsSilent σ key →
    Sim ρ Eq (H.framed.keyValue key) (H.keyValue (result (editKey (substituteEdits σ) key)))
  | .computed e, h =>
    (value_sim_of H (refer_sim e h)).next fun _ =>
      (H.perform_unnamed _ rfl).next fun _ => .pure rfl
  | .name _, _ | .str _, _ | .num _, _ | .bigint _, _ | .privateName _, _ => .pure rfl

theorem access_sim : ∀ prop, accessReadsSilent σ prop →
    Sim ρ Eq (H.framed.access prop) (H.access (result (editAccess (substituteEdits σ) prop)))
  | .name _, _ | .privateName _, _ => .pure rfl
  | .computed e, h => (value_sim_of H (refer_sim e h)).next fun _ => .pure rfl

theorem place_sim : ∀ target, targetReadsSilent σ target →
    Sim ρ (SameRef ρ) (H.framed.place target)
      (H.place (result (editTarget (substituteEdits σ) target)))
  | .name b, h => by
    refine .pure ⟨rfl, fun x hx => ?_⟩
    cases hx
    exact hρ.outside _ (Option.isNone_iff_eq_none.1 h)
  | .member obj prop, h => by
    obtain ⟨ho, hp⟩ := Bool.and_eq_true_iff.1 h
    exact (value_sim_of H (refer_sim obj ho)).next fun v =>
      (access_sim prop hp).next fun k => .pure (sameRef_prop v k)
  | .superMember prop, h =>
    (H.perform_unnamed _ rfl).next fun v => (access_sim prop h).next fun k =>
      .pure (sameRef_prop v k)
  | .paren e, h | .chain e, h | .typed e, h => by
    obtain ⟨hp, he⟩ := Bool.and_eq_true_iff.1 h
    exact (refer_sim e he).mono fun r' r hr => refRel_same hr (by simpa using hp)

end

end Frames

end Untangle
