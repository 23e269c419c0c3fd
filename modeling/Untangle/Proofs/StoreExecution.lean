import Mathlib.Data.List.Infix
import Untangle.Pass.Dispatcher
import Untangle.Proofs.Mentions

/-!
# Running with a store

A machine that keeps the values of variables, knows a few kinds of values from the inside, and leaves
the rest to the world.

A variable declared `const` keeps its value: counting it up throws.
-/

namespace Untangle

variable {U α : Type}

/-! ### Splitting -/

/-- The pieces of a text between the occurrences of a separator, each taken at the first place where
it occurs. -/
inductive Splits (sep : List Char) : List Char → List (List Char) → Prop
  | last {text} : ¬sep <:+: text → Splits sep text [text]
  | cut {piece rest pieces} : ¬sep <:+: piece ++ sep.dropLast → Splits sep rest pieces →
      Splits sep (piece ++ sep ++ rest) (piece :: pieces)

section Splitting

open Pass (splitAt)

variable {sep : List Char}

theorem splitAt_skip (n : Nat) (piece text : List Char) :
    splitAt sep n piece text = splitAt sep 0 piece (text.drop n) := by
  induction n generalizing text with
  | zero => rfl
  | succ n ih =>
    cases text with
    | nil => simp [splitAt]
    | cons c rest => simpa [splitAt] using ih rest

variable {text : List Char}

theorem splitAt_last (h : ¬sep <:+: text) (piece : List Char) :
    splitAt sep 0 piece text = [piece.reverse ++ text] := by
  induction text generalizing piece with
  | nil => simp [splitAt]
  | cons c rest ih =>
    rw [List.infix_cons_iff, not_or] at h
    simp [splitAt, h.1, ih h.2]

theorem splitAt_cut (hsep : sep ≠ []) {piece : List Char} (h : ¬sep <:+: piece ++ sep.dropLast)
    (done rest : List Char) :
    splitAt sep 0 done (piece ++ sep ++ rest) =
      (done.reverse ++ piece) :: splitAt sep 0 [] rest := by
  induction piece generalizing done with
  | nil =>
    obtain ⟨c, s, rfl⟩ := List.exists_cons_of_ne_nil hsep
    rw [List.nil_append, List.cons_append, splitAt, if_pos (by simp), splitAt_skip]
    simp
  | cons x xs ih =>
    have hlen : sep.length ≤ (x :: xs ++ sep.dropLast).length := by simp; omega
    have hprefix : x :: xs ++ sep.dropLast <+: x :: xs ++ sep ++ rest := by
      rw [List.append_assoc]
      exact (List.prefix_append_right_inj _).2 ((List.dropLast_prefix sep).trans (List.prefix_append _ _))
    rw [List.cons_append, List.infix_cons_iff, not_or] at h
    have hx : ¬sep <+: x :: (xs ++ sep ++ rest) := fun hp =>
      h.1 (List.prefix_of_prefix_length_le hp hprefix hlen)
    simp only [List.cons_append, splitAt, List.isPrefixOf_iff_prefix, hx, ↓reduceIte]
    rw [ih h.2]
    simp

theorem exists_cut (hsep : sep ≠ []) (h : sep <:+: text) :
    ∃ piece rest, text = piece ++ sep ++ rest ∧ ¬sep <:+: piece ++ sep.dropLast := by
  induction text with
  | nil => exact absurd (List.eq_nil_of_infix_nil h) hsep
  | cons c text ih =>
    by_cases hp : sep <+: c :: text
    · obtain ⟨rest, hrest⟩ := hp
      refine ⟨[], rest, by simpa using hrest.symm, fun hi => ?_⟩
      have hlen := hi.length_le
      have hpos := List.length_pos_of_ne_nil hsep
      simp at hlen
      omega
    · obtain ⟨piece, rest, rfl, hpiece⟩ := ih ((List.infix_cons_iff.1 h).resolve_left hp)
      refine ⟨c :: piece, rest, by simp, fun hi => ?_⟩
      rw [List.cons_append, List.infix_cons_iff] at hi
      refine hi.elim (fun hi => hp (hi.trans ?_)) hpiece
      rw [List.append_assoc, ← List.cons_append, ← List.cons_append]
      exact (List.prefix_append_right_inj _).2
        ((List.dropLast_prefix sep).trans (List.prefix_append _ _))

theorem splits_iff (hsep : sep ≠ []) {pieces : List (List Char)} :
    Splits sep text pieces ↔ pieces = splitAt sep 0 [] text := by
  constructor
  · intro h
    induction h with
    | last h => simp [splitAt_last h]
    | cut h _ ih =>
      rw [splitAt_cut hsep h, ← ih]
      rfl
  · rintro rfl
    induction hn : text.length using Nat.strong_induction_on generalizing text with
    | _ n ih =>
      by_cases h : sep <:+: text
      · obtain ⟨piece, rest, rfl, hpiece⟩ := exists_cut hsep h
        have hpos := List.length_pos_of_ne_nil hsep
        rw [splitAt_cut hsep hpiece]
        exact .cut hpiece (ih _ (by simp at hn; omega) rfl)
      · rw [splitAt_last h]
        exact .last h

end Splitting

/-! ### Values and stores -/

/-- What a value is, as far as it is known. -/
inductive Shape (U : Type)
  | undefined
  | text (s : String)
  | whole (n : Nat)
  | list (items : List String)
  | other (u : U)

/-- A value, and whether it counts as true. -/
structure Val (U : Type) where
  truth : Bool
  shape : Shape U

/-- A variable: its value, and whether it may not change. -/
structure Cell (U : Type) where
  value : Val U
  isConst : Bool

/-- What comes of an event: what it gives, and the variables as it leaves them. -/
structure Effect (U : Type) where
  answer : Answer (Val U) (Val U)
  cells : Binding → Cell U

/-- The variables, the effects that are still to come, and the events so far. -/
structure Store (U : Type) where
  cells : Binding → Cell U
  effects : List (Effect U)
  events : List Event

/-- What the world decides: the error for a change of a constant, the values of literals whose shape
is not known, and which values are the same where the shapes do not tell. -/
structure Setting (U : Type) where
  typeError : Val U
  constant : Expr → U
  same : Val U → Val U → Bool

/-- What an answer becomes when the value is used. -/
def Answer.map {V β : Type} (f : α → β) : Answer V α → Answer V β
  | .value a => .value (f a)
  | .throw v => .throw v
  | .stopped => .stopped

namespace Store

def set (a : Store U) (x : Binding) (c : Cell U) : Store U :=
  { a with cells := fun y => if y = x then c else a.cells y }

/-- An event happens, with the next effect. Without one the run is watched no further. -/
def happens (hidden : List Binding) (x : Event) (f : Val U → α) (a : Store U)
    (r : Answer (Val U) α) (b : Store U) : Prop :=
  match a.effects with
  | [] => r = .stopped ∧ b = { a with events := a.events ++ [x] }
  | e :: rest => r = e.answer.map f ∧
      b = { cells := fun y => if y ∈ hidden then a.cells y else e.cells y
            effects := rest
            events := a.events ++ [x] }

end Store

/-! ### Expressions -/

def Expr.texts? (e : Expr) : Option (List String) :=
  match e.unparen with
  | .array elems => elems.mapM Expr.text?
  | _ => none

/-- The value of a number literal that is a whole number and not negative. -/
def Expr.whole? (e : Expr) : Option Nat :=
  match e.number? with
  | some x => if x < 0 || !Number.isWhole x then none else some (Number.wholeMagnitude x)
  | none => none

def Expr.shape? (e : Expr) : Option (Shape U) :=
  match e.text?, e.whole?, e.texts? with
  | some s, _, _ => some (.text s)
  | none, some n, _ => some (.whole n)
  | none, none, some items => some (.list items)
  | none, none, none => none

/-- The text and the separator of a call that splits one literal at another, which is not empty. -/
def Expr.splitCall? (e : Expr) : Option (String × String) :=
  match e.unparen with
  | .call callee [sep] =>
    match callee.unparen with
    | .member obj prop =>
      if prop.key? = some "split" then
        match obj.text?, sep.text? with
        | some text, some sep => if sep.isEmpty then none else some (text, sep)
        | _, _ => none
      else none
    | _ => none
  | _ => none

/-- The value of an expression that is known without the store. -/
def Setting.value? (W : Setting U) (e : Expr) : Option (Val U) :=
  match e.shape? with
  | some shape => some { truth := (truthiness? e).getD true, shape }
  | none => (truthiness? e).map fun t => { truth := t, shape := .other (W.constant e) }

def elementAt (items : List String) (n : Nat) : Val U :=
  match items[n]? with
  | some s => { truth := !s.isEmpty, shape := .text s }
  | none => { truth := false, shape := .undefined }

/-- Reads a list at an index and counts the index up. -/
def Setting.reads (W : Setting U) (hidden : List Binding) (e : Expr) (list index : Binding)
    (a : Store U) (r : Answer (Val U) (Val U)) (b : Store U) : Prop :=
  if (a.cells index).isConst then r = .throw W.typeError ∧ b = a
  else match (a.cells list).value.shape, (a.cells index).value.shape with
    | .list items, .whole n => r = .value (elementAt items n) ∧
        b = a.set index { value := { truth := true, shape := .whole (n + 1) }, isConst := false }
    | _, _ => a.happens hidden (.expr e) id r b

/-- Whether two values are the same: texts are told apart by what they say, and a missing value is no
text. -/
def Setting.isSame (W : Setting U) (v w : Val U) : Bool :=
  match v.shape, w.shape with
  | .text s, .text t => s == t
  | .undefined, .text _ => false
  | _, _ => W.same v w

/-- The machine. Events do not reach the hidden variables. -/
def Setting.machine (W : Setting U) (hidden : List Binding) : Machine (Store U) (Val U) where
  eval e a r b :=
    match W.value? e, e.splitCall?, Pass.readNext? e with
    | some v, _, _ => r = .value v ∧ b = a
    | none, some (text, sep), _ => ∃ pieces, Splits sep.toList text.toList pieces ∧
        r = .value { truth := true, shape := .list (pieces.map String.ofList) } ∧ b = a
    | none, none, some (list, index) => W.reads hidden e list index a r b
    | none, none, none => a.happens hidden (.expr e) id r b
  bind kind p v a r b :=
    match p.binding? with
    | some x =>
      if kind = none ∧ (a.cells x).isConst = true then r = .throw W.typeError ∧ b = a
      else r = .value () ∧ b = a.set x { value := v, isConst := kind = some .const }
    | none => a.happens hidden (.bind p) (fun _ => ()) r b
  next _ a r b := a.happens hidden .next (fun v => if v.truth then some v else none) r b
  truthy := Val.truth
  same := W.isSame
  undefined := { truth := false, shape := .undefined }

theorem Setting.machine_knowsTruth (W : Setting U) (hidden : List Binding) :
    (W.machine hidden).KnowsTruth := by
  intro e t ht
  obtain ⟨v, hv, htruth⟩ : ∃ v, W.value? e = some v ∧ v.truth = t := by
    unfold Setting.value?
    cases e.shape? <;> simp [ht]
  exact ⟨v, htruth, fun a r b => by simp [Setting.machine, hv]⟩

/-! ### What is not mentioned is neither seen nor changed -/

/-- Two stores that differ at most in the hidden variables. -/
structure Store.SameBut (hidden : List Binding) (a b : Store U) : Prop where
  cells : ∀ x, x ∉ hidden → a.cells x = b.cells x
  effects : a.effects = b.effects
  events : a.events = b.events

def Store.Keeps (hidden : List Binding) (a b : Store U) : Prop :=
  ∀ x ∈ hidden, b.cells x = a.cells x

namespace Store

variable {hidden : List Binding} {a b c : Store U}

theorem SameBut.refl : a.SameBut hidden a := ⟨fun _ _ => rfl, rfl, rfl⟩

theorem SameBut.symm (h : a.SameBut hidden b) : b.SameBut hidden a :=
  ⟨fun x hx => (h.cells x hx).symm, h.effects.symm, h.events.symm⟩

theorem SameBut.trans (h : a.SameBut hidden b) (h' : b.SameBut hidden c) : a.SameBut hidden c :=
  ⟨fun x hx => (h.cells x hx).trans (h'.cells x hx), h.effects.trans h'.effects,
    h.events.trans h'.events⟩

variable {x : Binding}

theorem SameBut.set (hx : x ∈ hidden) (cell : Cell U) : (a.set x cell).SameBut hidden a := by
  refine ⟨fun y hy => ?_, rfl, rfl⟩
  have hne : y ≠ x := by
    rintro rfl
    exact hy hx
  simp [Store.set, hne]

/-- The same act in two stores that differ in the hidden variables. -/
def Framed (hidden : List Binding) (x : Store U → α → Store U → Prop) : Prop :=
  ∀ ⦃a a' r b⦄, a.SameBut hidden a' → x a r b →
    ∃ b', x a' r b' ∧ b.SameBut hidden b' ∧ a.Keeps hidden b ∧ a'.Keeps hidden b'

theorem framed_silent (v : α) : Framed hidden (fun (a : Store U) r b => r = v ∧ b = a) := by
  rintro a a' r b h ⟨rfl, rfl⟩
  exact ⟨a', ⟨rfl, rfl⟩, h, fun _ _ => rfl, fun _ _ => rfl⟩

theorem framed_happens (x : Event) (f : Val U → α) :
    Framed hidden (fun (a : Store U) => a.happens hidden x f) := by
  intro a a' r b h hb
  unfold happens at hb ⊢
  have heffects := h.effects
  cases heff : a.effects with
  | nil =>
    simp only [heff] at hb heffects
    obtain ⟨rfl, rfl⟩ := hb
    simp only [← heffects]
    exact ⟨_, ⟨trivial, rfl⟩, ⟨h.cells, rfl, by simp [h.events]⟩, fun _ _ => rfl, fun _ _ => rfl⟩
  | cons e rest =>
    simp only [heff] at hb heffects
    obtain ⟨rfl, rfl⟩ := hb
    simp only [← heffects]
    refine ⟨_, ⟨trivial, rfl⟩, ⟨fun y hy => by simp [hy], rfl, by simp [h.events]⟩, fun y hy => ?_,
      fun y hy => ?_⟩ <;> simp [hy]

theorem framed_set (hx : x ∉ hidden) (v : α) (cell : Cell U) :
    Framed hidden (fun (a : Store U) r b => r = v ∧ b = a.set x cell) := by
  rintro a a' r b h ⟨rfl, rfl⟩
  have hkeep : ∀ c : Store U, c.Keeps hidden (c.set x cell) := by
    intro c y hy
    have hne : y ≠ x := by
      rintro rfl
      exact hx hy
    simp [Store.set, hne]
  refine ⟨_, ⟨rfl, rfl⟩, ⟨fun y hy => ?_, h.effects, h.events⟩, hkeep a, hkeep a'⟩
  simp [Store.set, h.cells y hy]

end Store

section Acts

variable (W : Setting U) {hidden : List Binding}

theorem unparen_mentions (e : Expr) :
    (outlineExpr e.unparen).mentions = (outlineExpr e).mentions := by
  induction e using Expr.unparen_induct with
  | paren e ih => simpa [outlineExpr, Item.ident?, Expr.unparen] using ih
  | bare e hbare => rw [hbare]

variable {e : Expr} {index list : Binding}

theorem readNext_mentions (h : Pass.readNext? e = some (list, index)) :
    (outlineExpr e).mentions = [list, index] := by
  unfold Pass.readNext? at h
  split at h
  · rename_i obj key he
    split at h
    · rename_i order arg hobj hkey
      split at h
      · rename_i counter harg
        simp only [Option.some.injEq, Prod.mk.injEq] at h
        obtain ⟨rfl, rfl⟩ := h
        rw [← unparen_mentions e, he]
        simp only [outlineExpr, outlineAccess, Outline.mentions_node, mentionsOf_cons,
          mentionsOf_nil, ← unparen_mentions obj, ← unparen_mentions key, hobj, hkey,
          ← unparen_mentions arg, harg]
        rfl
      · cases h
    · cases h
  · cases h

theorem reads_framed (hlist : list ∉ hidden) (hindex : index ∉ hidden) :
    Store.Framed hidden (W.reads hidden e list index) := by
  intro a a' r b h hb
  unfold Setting.reads at hb ⊢
  rw [← h.cells list hlist, ← h.cells index hindex]
  by_cases hc : (a.cells index).isConst
  · simp only [hc, ↓reduceIte] at hb ⊢
    exact Store.framed_silent _ h hb
  · simp only [hc, Bool.false_eq_true, ↓reduceIte] at hb ⊢
    split at hb
    · exact Store.framed_set hindex _ _ h hb
    · exact Store.framed_happens _ _ h hb

theorem eval_framed (hm : ∀ x ∈ (outlineExpr e).mentions, x ∉ hidden) :
    Store.Framed hidden ((W.machine hidden).eval e) := by
  intro a a' r b h hb
  simp only [Setting.machine] at hb ⊢
  split at hb
  · exact Store.framed_silent _ h hb
  · obtain ⟨pieces, hp, hb⟩ := hb
    obtain ⟨b', hb', hrest⟩ := Store.framed_silent _ h hb
    exact ⟨b', ⟨pieces, hp, hb'⟩, hrest⟩
  · rename_i hread
    rw [readNext_mentions hread] at hm
    exact reads_framed W (hm _ (by simp)) (hm _ (by simp)) h hb
  · exact Store.framed_happens _ _ h hb

theorem bind_framed {p : Pat} (hm : ∀ x ∈ (outlinePat p).mentions, x ∉ hidden)
    (kind : Option VarKind) (v : Val U) : Store.Framed hidden ((W.machine hidden).bind kind p v) := by
  intro a a' r b h hb
  simp only [Setting.machine] at hb ⊢
  split at hb
  · rename_i x hx
    have hxm : x ∉ hidden := by
      refine hm x ?_
      unfold Pat.binding? at hx
      split at hx
      · cases hx
        simp [outlinePat, outlineBinding]
      · cases hx
    rw [← h.cells x hxm]
    by_cases hc : kind = none ∧ (a.cells x).isConst = true
    · simp only [hc, and_self, ↓reduceIte] at hb ⊢
      exact Store.framed_silent _ h hb
    · simp only [hc, ↓reduceIte] at hb ⊢
      exact Store.framed_set hxm _ _ h hb
  · exact Store.framed_happens _ _ h hb

/-- Two stores that differ at most in the hidden variables, which the first has as given. -/
def Store.Hiding (hidden : List Binding) (cells : Binding → Cell U) (a a' : Store U) : Prop :=
  a.SameBut hidden a' ∧ ∀ x ∈ hidden, a.cells x = cells x

variable {cells : Binding → Cell U}

theorem Store.Framed.matches {x : Store U → α → Store U → Prop} (h : Store.Framed hidden x) :
    Matches (Store.Hiding hidden cells) x x := by
  constructor
  · rintro a a' r b ⟨hsame, hcells⟩ hb
    obtain ⟨b', hb', hsame', hkeep, -⟩ := h hsame hb
    exact ⟨b', hb', hsame', fun x hx => (hkeep x hx).trans (hcells x hx)⟩
  · rintro a' a r b' ⟨hsame, hcells⟩ hb'
    obtain ⟨b, hb, hsame', -, hkeep⟩ := h hsame.symm hb'
    exact ⟨b, hb, hsame'.symm, fun x hx => (hkeep x hx).trans (hcells x hx)⟩

theorem machine_matching :
    (W.machine hidden).Matching (Store.Hiding hidden cells) (W.machine hidden) where
  next _ := (Store.framed_happens _ _).matches
  truthy := rfl
  same := rfl
  undefined := rfl

theorem act_matches {x : Act} (hm : ∀ y ∈ x.mentions, y ∉ hidden) :
    x.Matches (Store.Hiding hidden cells) (W.machine hidden) (W.machine hidden) := by
  cases x with
  | eval e => exact (eval_framed W hm).matches
  | bind p =>
    exact ⟨fun kind v => (bind_framed W hm kind v).matches.1,
      fun kind v => (bind_framed W hm kind v).matches.2⟩

/-- Statements that do not mention the hidden variables run alike whatever these hold, and leave them
as they are. -/
theorem runList_hiding {labels : List String} {ss : List Stmt}
    (hm : ∀ x ∈ mentionsOf (outlineStmts ss), x ∉ hidden) :
    Matches (Store.Hiding hidden cells) (runList (W.machine hidden) labels ss)
      (runList (W.machine hidden) labels ss) :=
  runList_matches (machine_matching W) fun x hx =>
    act_matches W fun y hy => hm y (stmts_mentionOnly ss x hx y hy)

end Acts

end Untangle
