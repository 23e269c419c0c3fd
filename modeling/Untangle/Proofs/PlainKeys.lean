import Untangle.Pass.MemberKeys
import Untangle.Proofs.Settling

/-!
# Keys written plainly are the keys that were there

Writing keys plainly changes how they are spelled and nothing else. Trees are compared with every key
written by what it stands for, and then no difference is left.
-/

namespace Untangle

variable {σ τ α β : Type}

/-! ### Walks that are restored -/

/-- An edit makes of all that a step gives what another step gives. -/
def Restores (x : StateM τ α) (y : StateM σ α) (f : α → StateM τ α) : Prop :=
  ∀ s, f (y.run s).1 = x

theorem restores_node₁ {N : Type} {x : StateM τ α} {y : StateM σ α} {g : α → StateM τ α}
    (f : N → StateM τ N) (K : α → N) (h : Restores x y g)
    (hf : ∀ a, f (K a) = do return K (← g a)) :
    Restores (do return K (← x)) (do return K (← y)) f := by
  intro s
  show f (K (y.run s).1) = _
  rw [hf, h]

theorem restores_both {x₁ : StateM τ α} {y₁ : StateM σ α} {f₁ : α → StateM τ α}
    {x₂ : StateM τ β} {y₂ : StateM σ β} {f₂ : β → StateM τ β} (h₁ : Restores x₁ y₁ f₁)
    (h₂ : Restores x₂ y₂ f₂) :
    Restores (do let a ← x₁; return (a, ← x₂)) (do let a ← y₁; return (a, ← y₂)) fun p => do
      let a ← f₁ p.1
      return (a, ← f₂ p.2) := by
  intro s
  show (do let a ← f₁ (y₁.run s).1; return (a, ← f₂ (y₂.run _).1)) = _
  rw [h₁, h₂]

theorem through_restored :
    ThroughNodes fun (x : StateM τ _) (y : StateM σ _) f => Restores x y f where
  pure hf _ := hf
  node₁ h hf := restores_node₁ _ _ h (congrFun hf)
  both := restores_both

/-- A string literal in parentheses is left alone by edits that leave strings alone. -/
theorem editExpr_text {w : Edits σ} (hstr : ∀ s, w.str s = pure s) (hexpr : ∀ e, w.expr e = pure e)
    {e : Expr} {s : String} : e.text? = some s → editExpr w e = pure e := by
  induction e using Expr.unparen_induct with
  | paren e ih =>
    intro h
    show (do w.expr (← (do return Expr.paren (← editExpr w e)))) = _
    rw [ih h]
    exact hexpr _
  | bare e hbare =>
    intro h
    rw [Expr.text?, hbare] at h
    split at h
    · next x =>
      show (do w.expr (← (do return Expr.lit (← (do return Lit.str (← w.str x)))))) = _
      rw [hstr]
      exact hexpr _
    · cases h

namespace Pass

/-! ### Keys by what they stand for -/

def staticAccess (a : MemberProp) : MemberProp := (a.key?.map .name).getD a

/-- The key of a member by the key that it stands for. A number stays, and so does a computed key
that differs from the plain one. -/
def staticKey : PropName → PropName
  | .str s => (s.text?.map .name).getD (.str s)
  | .computed e => ((e.text?.filter fun s => !isSpecialKey s).map .name).getD (.computed e)
  | k => k

/-- Writes accesses by the keys that they stand for, and the keys of members if asked to. -/
def staticKeyEdits (members : Bool) : Edits Unit where
  access := fun a => pure (staticAccess a)
  key := fun k => pure (if members then staticKey k else k)

theorem plainAccess?_eq {a a' : MemberProp} (h : plainAccess? a = some a') :
    ∃ e s, a = .computed e ∧ e.text? = some s ∧ a' = .name s := by
  cases a with
  | computed e =>
    obtain ⟨s, hs, rfl⟩ := Option.map_eq_some_iff.1 h
    exact ⟨e, s, rfl, (Option.filter_eq_some_iff.1 hs).1, rfl⟩
  | _ => cases h

theorem plainKey?_eq {k k' : PropName} (h : plainKey? k = some k') : ∃ s, k' = .name s ∧
    ((∃ x : StrLit, k = .str x ∧ x.text? = some s) ∨
      ∃ e, k = .computed e ∧ e.text? = some s ∧ isSpecialKey s = false) := by
  cases k with
  | str x =>
    obtain ⟨s, hs, rfl⟩ := Option.map_eq_some_iff.1 h
    exact ⟨s, rfl, .inl ⟨x, rfl, (Option.filter_eq_some_iff.1 hs).1⟩⟩
  | computed e =>
    obtain ⟨s, hs, rfl⟩ := Option.map_eq_some_iff.1 h
    obtain ⟨hs, hspecial⟩ := Option.filter_eq_some_iff.1 hs
    exact ⟨s, rfl, .inr ⟨e, rfl, (Option.filter_eq_some_iff.1 hs).1, by simpa using hspecial⟩⟩
  | _ => cases h

/-! ### The pass -/

variable {objectKeys members : Bool}

theorem access_run (a : MemberProp) (t : KeyTally) :
    (((memberKeyEdits objectKeys).access a).run t).1 = (plainAccess? a).getD a := by
  unfold memberKeyEdits
  dsimp only
  cases plainAccess? a <;> rfl

theorem key_run (k : PropName) (t : KeyTally) : (((memberKeyEdits objectKeys).key k).run t).1 =
    if objectKeys then (plainKey? k).getD k else k := by
  unfold memberKeyEdits
  dsimp only
  cases objectKeys with
  | false => rfl
  | true => cases plainKey? k <;> rfl

theorem editAccess_plain (a : MemberProp) :
    editAccess (staticKeyEdits members) ((plainAccess? a).getD a) =
      editAccess (staticKeyEdits members) a := by
  cases hplain : plainAccess? a with
  | none => rfl
  | some a' =>
    obtain ⟨e, s, rfl, hs, rfl⟩ := plainAccess?_eq hplain
    have hkey : staticAccess (.computed e) = .name s := by
      simp [staticAccess, MemberProp.key?, hs]
    show pure (MemberProp.name s) =
      (do return staticAccess (.computed (← editExpr (staticKeyEdits members) e)))
    rw [editExpr_text (fun _ => rfl) (fun _ => rfl) hs]
    exact congrArg pure hkey.symm

theorem editKey_plain (k : PropName) :
    editKey (staticKeyEdits true) ((plainKey? k).getD k) = editKey (staticKeyEdits true) k := by
  cases hplain : plainKey? k with
  | none => rfl
  | some k' =>
    obtain ⟨s, rfl, ⟨x, rfl, hs⟩ | ⟨e, rfl, hs, hspecial⟩⟩ := plainKey?_eq hplain
    · have hkey : staticKey (.str x) = .name s := by simp [staticKey, hs]
      exact congrArg pure hkey.symm
    · have hkey : staticKey (.computed e) = .name s := by
        simp [staticKey, hs, Option.filter, hspecial]
      show pure (PropName.name s) =
        (do return staticKey (.computed (← editExpr (staticKeyEdits true) e)))
      rw [editExpr_text (fun _ => rfl) (fun _ => rfl) hs]
      exact congrArg pure hkey.symm

/-- Writing keys by what they stand for undoes writing them plainly. -/
theorem memberKeyEdits_restores (h : objectKeys = true → members = true) :
    Edits.Compares (fun x y f => Restores x y f) (staticKeyEdits members)
      (memberKeyEdits objectKeys) (staticKeyEdits members) where
  toThroughNodes := through_restored
  ident _ _ := rfl
  label _ _ := rfl
  str _ _ := rfl
  num _ _ := rfl
  expr _ he := he
  base _ he := he
  arrow _ hf := hf
  key k hk s := by
    show (editKeyParts _ (((memberKeyEdits objectKeys).key
      ((editKeyParts (memberKeyEdits objectKeys) k).run s).1).run _).1 >>= _) = _
    rw [← hk s, key_run, ← editKey_eq, ← editKey_eq]
    split
    · next hobject =>
      rw [h hobject]
      exact editKey_plain _
    · rfl
  access a ha s := by
    show (editAccessParts _ (((memberKeyEdits objectKeys).access
      ((editAccessParts (memberKeyEdits objectKeys) a).run s).1).run _).1 >>= _) = _
    rw [← ha s, access_run, ← editAccess_eq, ← editAccess_eq]
    exact editAccess_plain _
  varDecl _ hd := hd
  single _ hs := hs
  labelled _ hs := hs
  list _ hss := hss
  shorthand := through_restored.shorthand (fun _ => rfl) (fun _ => rfl) fun _ => rfl
  assigned := through_restored.assigned (fun _ => rfl) (fun _ => rfl) fun _ => rfl

/-- Keys that have been written plainly stay, and so do those that could not be. -/
theorem memberKeyEdits_settles : (memberKeyEdits objectKeys).Settles (memberKeyEdits objectKeys) where
  ident _ := rfl
  ident_after _ := rfl
  label _ := .pure rfl
  str _ := .pure rfl
  num _ := .pure rfl
  expr _ h := .pure h
  base _ h := .pure h
  arrow _ h := .pure h
  key k h := by
    cases objectKeys with
    | false => exact .pure (by rw [h]; rfl)
    | true =>
      intro t
      rw [key_run, if_pos rfl]
      cases hplain : plainKey? k with
      | none =>
        show editKeyParts (memberKeyEdits true) k >>= _ = _
        rw [h]
        show (memberKeyEdits true).key k = _
        unfold memberKeyEdits
        dsimp only
        rw [if_pos rfl, hplain]
        rfl
      | some k' =>
        obtain ⟨s, rfl, -⟩ := plainKey?_eq hplain
        rfl
  access a h t := by
    rw [access_run]
    cases hplain : plainAccess? a with
    | none =>
      show editAccessParts (memberKeyEdits objectKeys) a >>= _ = _
      rw [h]
      show (memberKeyEdits objectKeys).access a = _
      unfold memberKeyEdits
      dsimp only
      rw [hplain]
      rfl
    | some a' =>
      obtain ⟨e, s, -, -, rfl⟩ := plainAccess?_eq hplain
      rfl
  varDecl _ h := .pure (by rw [h]; rfl)
  single _ h := .pure h
  labelled _ h := .pure h
  list _ h := .pure h

end Pass

/-- A program with its accesses written by the keys that they stand for, and the keys of members too
if asked to. -/
def Program.withStaticKeys (members : Bool) (p : Program) : Program :=
  result (editProgram (Pass.staticKeyEdits members) p)

namespace Pass

/-- **Writing keys plainly changes only how they are spelled.** Written by what they stand for, all
keys are the same before and after, computed keys that differ from the plain ones exactly as they
were. Where only accesses are to be written plainly, the trees are the same with only the accesses
written by what they stand for, so no key of a member changes, accesses inside computed ones apart. A
second run changes nothing and finds nothing. -/
theorem cleanMemberKeys_respells (p : Program) :
    (∀ objectKeys,
      (cleanMemberKeys objectKeys p).1.withStaticKeys true = p.withStaticKeys true ∧
      cleanMemberKeys objectKeys (cleanMemberKeys objectKeys p).1 =
        ((cleanMemberKeys objectKeys p).1, [])) ∧
    (cleanMemberKeys false p).1.withStaticKeys false = p.withStaticKeys false := by
  have hrestored : ∀ {objectKeys members : Bool}, (objectKeys = true → members = true) →
      (cleanMemberKeys objectKeys p).1.withStaticKeys members = p.withStaticKeys members :=
    fun h => congrArg result ((memberKeyEdits_restores h).onProgram p {})
  refine ⟨fun objectKeys => ⟨hrestored fun _ => rfl, ?_⟩, hrestored id⟩
  have hagain : editProgram (memberKeyEdits objectKeys) (cleanMemberKeys objectKeys p).1 =
      pure (cleanMemberKeys objectKeys p).1 := editProgram_editProgram memberKeyEdits_settles p {}
  rw [cleanMemberKeys, hagain]
  rfl

end Pass

end Untangle
