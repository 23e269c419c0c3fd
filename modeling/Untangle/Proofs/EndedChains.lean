import Untangle.Format
import Untangle.Proofs.MetExpressions
import Untangle.Proofs.PlainKeys

/-!
# Parentheses that end a chain

What comes after `(a?.b)` is reached even if `a` is missing, what comes after `a?.b` is not. So under
an access, a call, `new` or a tag, parentheses around an optional chain mean something, and nowhere
else.

* `Program.withEnds` — a program without parentheses, but for one pair where they end a chain.
* `chainEdits_restores` — unwrapping chains changes no program written so.
* `chainEdits_settles` — afterwards, no walk meets parentheses around a chain that end nothing.

The target of an assignment that stands in parentheses keeps them, whatever it is.
-/

namespace Untangle

namespace Expr

def isChainCall : Expr → Bool
  | .chainCall .. => true
  | _ => false

def isChainMember : Expr → Bool
  | .chainMember .. => true
  | _ => false

def isWrappedChain : Expr → Bool
  | .paren e => e.isChainCall || e.isChainMember
  | _ => false

/-- An expression without parentheses, but for one pair if they are around an optional chain. -/
def atEnd : Expr → Expr
  | .paren e => if (Expr.paren e.unparen).isWrappedChain then .paren e.unparen else e.unparen
  | e => e

theorem unparen_unparen (e : Expr) : e.unparen.unparen = e.unparen := by
  induction e using unparen_induct with
  | paren e ih => exact ih
  | bare e h => rw [h, h]

end Expr

/-- Drops parentheses, but for those that end a chain. -/
def endEdits : Edits Unit := .ofExprs (fun e => pure e.unparen) fun e => pure e.atEnd

/-- A program without parentheses, but for one pair around each chain that they end. -/
def Program.withEnds (p : Program) : Program := result (editProgram endEdits p)

/-! ### What is restored -/

theorem unwrapChain_eq (e : Expr) : (∃ c, e = .paren c ∧ unwrapChain e = c) ∨
    e.isWrappedChain = false ∧ unwrapChain e = e := by
  cases e with
  | paren e =>
    cases e with
    | chainCall | chainMember => exact .inl ⟨_, rfl, rfl⟩
    | _ => exact .inr ⟨rfl, rfl⟩
  | _ => exact .inr ⟨rfl, rfl⟩

theorem editExpr_paren (e : Expr) : editExpr endEdits (.paren e) = editExpr endEdits e := by
  funext s
  show (((editParts endEdits e).run s).1.unparen.unparen, _) = _
  rw [Expr.unparen_unparen]
  rfl

theorem chainEdits_restores :
    Edits.Compares (fun x y f => Restores x y f) endEdits chainEdits endEdits where
  toThroughNodes := through_restored
  ident _ _ := rfl
  label _ _ := rfl
  str _ _ := rfl
  num _ _ := rfl
  expr e he s := by
    have hparts : editExpr endEdits ((editParts chainEdits e).run s).1 = editExpr endEdits e :=
      congrArg (· >>= endEdits.expr) (he s)
    show editExpr endEdits (unwrapChain ((editParts chainEdits e).run s).1) = editExpr endEdits e
    rw [← hparts]
    rcases unwrapChain_eq ((editParts chainEdits e).run s).1 with ⟨c, he, hc⟩ | ⟨-, hsame⟩
    · rw [hc, he, editExpr_paren]
    · rw [hsame]
  base _ he s := congrArg (· >>= endEdits.base) (he s)
  arrow _ hf := hf
  key _ hk := hk
  access _ ha := ha
  varDecl _ hd := hd
  single _ hs := hs
  labelled _ hs := hs
  list _ hss := hss
  shorthand := through_restored.shorthand (fun _ => rfl) (fun _ => rfl) fun _ => rfl
  assigned := through_restored.assigned (fun _ => rfl) (fun _ => rfl) fun _ => rfl

/-! ### What is gone -/

theorem noting_of_not {asked : Expr → Bool} {e : Expr} (h : asked e = false) :
    noting asked e = pure e := by
  rw [noting, h]
  rfl

/-- A walk over a tree whose chains are unwrapped meets no parentheses around a chain. -/
theorem chainEdits_settles :
    chainEdits.Settles (.ofExprs (noting Expr.isWrappedChain) (noting fun _ => false)) where
  ident _ := rfl
  ident_after _ := rfl
  label _ := .pure rfl
  str _ := .pure rfl
  num _ := .pure rfl
  expr e h s := by
    show (editParts _ (unwrapChain e) >>= noting _) = pure (unwrapChain e)
    rcases unwrapChain_eq e with ⟨c, rfl, hc⟩ | ⟨hnot, hsame⟩
    · rw [hc]
      funext n
      have hparts := congrFun h n
      injection hparts with he hn
      injection he with he
      exact Prod.ext he hn
    · rw [hsame, h]
      exact noting_of_not hnot
  base e h s := by
    show (editParts _ e >>= noting _) = pure e
    rw [h]
    rfl
  arrow _ h := .pure h
  key _ h := .pure (by rw [h]; rfl)
  access _ h := .pure (by rw [h]; rfl)
  varDecl _ h := .pure (by rw [h]; rfl)
  single _ h := .pure h
  labelled _ h := .pure h
  list _ h := .pure h

/-! ### What is counted -/

theorem isChain_editParts (e : Expr) (t : ChainTally) :
    ((editParts chainEdits e).run t).1.isChainCall = e.isChainCall ∧
      ((editParts chainEdits e).run t).1.isChainMember = e.isChainMember := by
  cases e <;> exact ⟨rfl, rfl⟩

theorem note_eq (t : ChainTally) (e : Expr) : (t.note e).calls = t.calls + e.isChainCall.toNat ∧
    (t.note e).members = t.members + e.isChainMember.toNat := by
  cases e <;> exact ⟨rfl, rfl⟩

/-- **Unwrapping keeps what ends a chain.** Without the parentheses that end no chain, the program is
the same before and after. Elsewhere none are left around a chain. The chains are counted, apart by
how they end. -/
theorem unwrapChains_keeps_ends (p : Program) :
    (unwrapChains p).1.withEnds = p.withEnds ∧
    (unwrapChains p).1.met Expr.isWrappedChain (fun _ => false) = 0 ∧
    (unwrapChains p).2.calls = p.items.countP (Item.asks Expr.isChainCall) ∧
    (unwrapChains p).2.members = p.items.countP (Item.asks Expr.isChainMember) := by
  have hsettled := editProgram_editProgram chainEdits_settles p {}
  refine ⟨congrArg result (chainEdits_restores.onProgram p {}), ?_, ?_, ?_⟩
  · rw [Program.met]
    exact congrArg (fun x => (x.run 0).2) hsettled
  · have htally := editProgram_tally chainEdits.expr chainEdits.base ChainTally.calls
      (fun e t => (note_eq t e).1) (fun e t => (note_eq t e).1)
      (fun e t => (isChain_editParts e t).1) p {}
    exact htally.trans (Nat.zero_add _)
  · have htally := editProgram_tally chainEdits.expr chainEdits.base ChainTally.members
      (fun e t => (note_eq t e).2) (fun e t => (note_eq t e).2)
      (fun e t => (isChain_editParts e t).2) p {}
    exact htally.trans (Nat.zero_add _)

end Untangle
