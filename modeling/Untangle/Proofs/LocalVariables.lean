import Untangle.Proofs.Evaluation

/-!
# Local variables

A function that is called has variables of its own. They stand in front of those of the host while
its body is evaluated, and are gone afterwards.

`Sim.bind` is what proofs about bodies are made of: both sides go on alike from results that differ in
the given way.
-/

namespace Untangle

variable {ω V α β : Type}

abbrev Locals (V : Type) := Binding → Option V

def Locals.set (ρ : Locals V) (x : Binding) (v : V) : Locals V := fun y =>
  if y = x then some v else ρ y

def Comp.lifted (x : Comp ω V α) : Comp (ω × Locals V) V α := fun a r b => x a.1 r b.1 ∧ b.2 = a.2

/-- A computation that starts with the given local variables, which are gone at its end. -/
def Comp.inFrame (ρ : Locals V) (x : Comp (ω × Locals V) V α) : Comp ω V α := fun a r b =>
  ∃ ρ', x (a, ρ) r (b, ρ')

def Operation.name? : Operation → Option Binding
  | .typeOfName x => some x
  | .deleteName x => some x
  | _ => none

namespace Host

def readLocal (H : Host ω V) (x : Binding) : Comp (ω × Locals V) V V := fun a r b =>
  match a.2 x with
  | some v => r = .value v ∧ b = a
  | none => (H.read x).lifted a r b

/-- Assigns to a local variable, or else to one of the host. -/
def writeLocal (H : Host ω V) (x : Binding) (v : V) : Comp (ω × Locals V) V Unit := fun a r b =>
  match a.2 x with
  | some _ => r = .value () ∧ b = (a.1, a.2.set x v)
  | none => (H.write x v).lifted a r b

/-- Two operations are given a name: the type of a local variable is the type of its value, and none
can be deleted. -/
def performLocal (H : Host ω V) (op : Operation) (vs : List V) : Comp (ω × Locals V) V V :=
  fun a r b =>
    match op with
    | .typeOfName x =>
      match a.2 x with
      | some v => (H.perform (.unary .typeOf) [v]).lifted a r b
      | none => (H.perform (.typeOfName x) vs).lifted a r b
    | .deleteName x =>
      match a.2 x with
      | some _ => r = .value (H.ofBool false) ∧ b = a
      | none => (H.perform (.deleteName x) vs).lifted a r b
    | op => (H.perform op vs).lifted a r b

/-- A host with local variables in front of its own. -/
def framed (H : Host ω V) : Host (ω × Locals V) V :=
  { H.toValues with
    read := H.readLocal
    write := H.writeLocal
    get := fun o k => (H.get o k).lifted
    set := fun o k v => (H.set o k v).lifted
    delete := fun o k => (H.delete o k).lifted
    call := fun isEval o f vs => (H.call isEval o f vs).lifted
    construct := fun f vs => (H.construct f vs).lifted
    perform := H.performLocal
    bind := fun kind p v => (H.bind kind p v).lifted
    next := fun v => (H.next v).lifted }

end Host

/-! ### Computations that leave local variables alone -/

/-- Answers that are alike but for their values. -/
inductive AnswerRel (R : α → α → Prop) : Answer V α → Answer V α → Prop
  | value {v' v} : R v' v → AnswerRel R (.value v') (.value v)
  | throw {v} : AnswerRel R (.throw v) (.throw v)
  | stopped : AnswerRel R .stopped .stopped

theorem AnswerRel.refl (r : Answer V α) : AnswerRel Eq r r := by
  cases r with
  | value v => exact .value rfl
  | throw v => exact .throw
  | stopped => exact .stopped

theorem AnswerRel.mono {R S : α → α → Prop} {r' r : Answer V α} (h : AnswerRel R r' r)
    (hRS : ∀ v' v, R v' v → S v' v) : AnswerRel S r' r := by
  cases h with
  | value hv => exact .value (hRS _ _ hv)
  | throw => exact .throw
  | stopped => exact .stopped

/-- A computation with local variables does what one without them does, and leaves the local
variables as they are. -/
structure Sim (ρ : Locals V) (R : α → α → Prop) (x' : Comp (ω × Locals V) V α) (x : Comp ω V α) :
    Prop where
  forth : ∀ {a r' b'}, x' (a, ρ) r' b' → b'.2 = ρ ∧ ∃ r, AnswerRel R r' r ∧ x a r b'.1
  back : ∀ {a r b}, x a r b → ∃ r', AnswerRel R r' r ∧ x' (a, ρ) r' (b, ρ)

namespace Sim

variable {ρ : Locals V} {R : α → α → Prop} {S : β → β → Prop}

theorem pure {v' v : α} (h : R v' v) :
    Sim ρ R (pure v' : Comp (ω × Locals V) V α) (pure v : Comp ω V α) where
  forth := by
    rintro a r' b' ⟨rfl, rfl⟩
    exact ⟨rfl, _, .value h, rfl, rfl⟩
  back := by
    rintro a r b ⟨rfl, rfl⟩
    exact ⟨_, .value h, rfl, rfl⟩

variable {k : α → Comp ω V β} {k' : α → Comp (ω × Locals V) V β} {x' y' : Comp (ω × Locals V) V α}

theorem bind {x : Comp ω V α} (hx : Sim ρ R x' x) (hk : ∀ v' v, R v' v → Sim ρ S (k' v') (k v)) :
    Sim ρ S (x' >>= k') (x >>= k) where
  forth := by
    rintro a r' ⟨b, ρ'⟩ (⟨v', ⟨m, ρm⟩, hm, hb⟩ | ⟨u, rfl, hb⟩ | ⟨rfl, hb⟩)
    · obtain ⟨hρ, r, hr, hxm⟩ := hx.forth hm
      cases hρ
      cases hr with
      | value hv =>
        obtain ⟨hρ', s, hs, hkb⟩ := (hk _ _ hv).forth hb
        exact ⟨hρ', s, hs, .inl ⟨_, m, hxm, hkb⟩⟩
    · obtain ⟨hρ, r, hr, hxb⟩ := hx.forth hb
      cases hr
      exact ⟨hρ, _, .throw, .inr (.inl ⟨u, rfl, hxb⟩)⟩
    · obtain ⟨hρ, r, hr, hxb⟩ := hx.forth hb
      cases hr
      exact ⟨hρ, _, .stopped, .inr (.inr ⟨rfl, hxb⟩)⟩
  back := by
    rintro a r b (⟨v, m, hm, hb⟩ | ⟨u, rfl, hb⟩ | ⟨rfl, hb⟩)
    · obtain ⟨r', hr, hxm⟩ := hx.back hm
      cases hr with
      | value hv =>
        obtain ⟨s', hs, hkb⟩ := (hk _ _ hv).back hb
        exact ⟨s', hs, .inl ⟨_, _, hxm, hkb⟩⟩
    · obtain ⟨r', hr, hxb⟩ := hx.back hb
      cases hr
      exact ⟨_, .throw, .inr (.inl ⟨u, rfl, hxb⟩)⟩
    · obtain ⟨r', hr, hxb⟩ := hx.back hb
      cases hr
      exact ⟨_, .stopped, .inr (.inr ⟨rfl, hxb⟩)⟩

theorem next {x : Comp ω V α} (hx : Sim ρ Eq x' x) (hk : ∀ v, Sim ρ S (k' v) (k v)) :
    Sim ρ S (x' >>= k') (x >>= k) := by
  refine hx.bind ?_
  rintro v _ rfl
  exact hk v

theorem map {x : Comp ω V α} {f : α → β} (hx : Sim ρ Eq x' x) (hf : ∀ v, S (f v) (f v)) :
    Sim ρ S (f <$> x') (f <$> x) := by
  rw [map_eq_pure_bind, map_eq_pure_bind]
  exact hx.next fun v => .pure (hf v)

theorem ite {x y : Comp ω V α} {c : Prop} [Decidable c] (hx : Sim ρ R x' x) (hy : Sim ρ R y' y) :
    Sim ρ R (if c then x' else y') (if c then x else y) := by
  split
  · exact hx
  · exact hy

theorem lifted (x : Comp ω V α) : Sim ρ Eq x.lifted x where
  forth := by
    rintro a r' b' ⟨hb, hρ⟩
    exact ⟨hρ, r', .refl r', hb⟩
  back := by
    intro a r b hb
    exact ⟨r, .refl r, hb, rfl⟩

/-- Only what happens with the given local variables counts. -/
theorem congr {x : Comp ω V α} (h : Sim ρ R y' x) (hx : ∀ a, x' (a, ρ) = y' (a, ρ)) :
    Sim ρ R x' x where
  forth := by
    intro a r' b' hb
    rw [hx] at hb
    exact h.forth hb
  back := by
    intro a r b hb
    rw [hx]
    exact h.back hb

theorem mono {R' : α → α → Prop} {x : Comp ω V α} (h : Sim ρ R x' x) (hR : ∀ v' v, R v' v → R' v' v) :
    Sim ρ R' x' x where
  forth := by
    intro a r' b' hb
    obtain ⟨hρ, r, hr, hx⟩ := h.forth hb
    exact ⟨hρ, r, hr.mono hR, hx⟩
  back := by
    intro a r b hb
    obtain ⟨r', hr, hx⟩ := h.back hb
    exact ⟨r', hr.mono hR, hx⟩

/-- From outside, local variables that are left alone cannot be seen. -/
theorem inFrame_eq {x : Comp ω V α} (h : Sim ρ Eq x' x) : x'.inFrame ρ = x := by
  funext a r b
  apply propext
  constructor
  · rintro ⟨ρ', hb⟩
    obtain ⟨-, r', hr, hx⟩ := h.forth hb
    cases hr with
    | value hv =>
      cases hv
      exact hx
    | throw => exact hx
    | stopped => exact hx
  · intro hb
    obtain ⟨r', hr, hx⟩ := h.back hb
    refine ⟨ρ, ?_⟩
    cases hr with
    | value hv =>
      cases hv
      exact hx
    | throw => exact hx
    | stopped => exact hx

end Sim

/-! ### What a host with local variables does -/

namespace Host

variable (H : Host ω V) {ρ : Locals V} {x : Binding} {v : V}

theorem read_local (h : ρ x = some v) : Sim ρ Eq (H.framed.read x) (pure v : Comp ω V V) := by
  have hpure : Sim ρ Eq (pure v : Comp (ω × Locals V) V V) (pure v : Comp ω V V) := .pure rfl
  refine hpure.congr fun a => ?_
  funext r b
  show H.readLocal x (a, ρ) r b = _
  unfold readLocal
  simp only [h]
  rfl

theorem read_outside (h : ρ x = none) : Sim ρ Eq (H.framed.read x) (H.read x) := by
  refine (Sim.lifted _).congr fun a => ?_
  funext r b
  show H.readLocal x (a, ρ) r b = _
  unfold readLocal
  simp only [h]

theorem write_outside (h : ρ x = none) : Sim ρ Eq (H.framed.write x v) (H.write x v) := by
  refine (Sim.lifted _).congr fun a => ?_
  funext r b
  show H.writeLocal x v (a, ρ) r b = _
  unfold writeLocal
  simp only [h]

theorem typeOfName_local (h : ρ x = some v) (vs : List V) :
    Sim ρ Eq (H.framed.perform (.typeOfName x) vs) (H.perform (.unary .typeOf) [v]) := by
  refine (Sim.lifted _).congr fun a => ?_
  funext r b
  show H.performLocal (.typeOfName x) vs (a, ρ) r b = _
  unfold performLocal
  simp only [h]

variable {op : Operation}

/-- Only the operations on names look at local variables. -/
theorem perform_outside (vs : List V) (h : ∀ x, op.name? = some x → ρ x = none) :
    Sim ρ Eq (H.framed.perform op vs) (H.perform op vs) := by
  refine (Sim.lifted _).congr fun a => ?_
  funext r b
  show H.performLocal op vs (a, ρ) r b = _
  cases op with
  | typeOfName x => simp only [performLocal, h x rfl]
  | deleteName x => simp only [performLocal, h x rfl]
  | _ => rfl

theorem perform_unnamed (vs : List V) (h : op.name? = none) :
    Sim ρ Eq (H.framed.perform op vs) (H.perform op vs) := by
  apply H.perform_outside
  intro x hx
  rw [h] at hx
  cases hx

end Host

end Untangle
