import Untangle.Pass.Kind
import Untangle.Proofs.OutlinePlaces
import Untangle.Proofs.SequencePieces

/-!
# The expressions that a walk meets

A walk comes to every expression of a tree, however deep, and the outline of the tree shows each of
them. So a walk that counts expressions of some sort counts the items of that sort.
-/

namespace Untangle

variable {σ : Type}

/-- Edits of expressions, apart for those that an access, a call or a tag is applied to. -/
def Edits.ofExprs (f g : Expr → StateM σ Expr) : Edits σ where
  expr := f
  base := g

def noting (asked : Expr → Bool) (e : Expr) : StateM Nat Expr := do
  modify (· + (asked e).toNat)
  return e

/-- How many expressions a walk meets that are asked for, apart for those that an access, a call or
a tag is applied to. -/
def Program.met (asked ended : Expr → Bool) (p : Program) : Nat :=
  ((editProgram (.ofExprs (noting asked) (noting ended)) p).run 0).2

/-! ### Counting items -/

def Item.asks (asked : Expr → Bool) : Item → Bool
  | .expr e => asked e
  | _ => false

theorem weigh_toNat (P : Item → Bool) (os : List Outline) :
    weigh (fun i => (P i).toNat) os = (Outline.itemsOf os).countP P := by
  rw [weigh]
  induction Outline.itemsOf os with
  | nil => rfl
  | cons i is ih =>
    rw [List.map_cons, List.sum_cons, ih, List.countP_cons, Nat.add_comm]
    cases P i <;> rfl

variable {f g : Expr → StateM σ Expr} {count : σ → Nat} {asked : Expr → Bool}

/-- A count grows by the items that are asked for. -/
def Tallied (count : σ → Nat) (asked : Expr → Bool) : OutlineRel σ := fun n before m _ =>
  count m = count n + weigh (fun i => (i.asks asked).toNat) before

/-- The same below an expression that is not counted itself yet. -/
def TalliedBelow (count : σ → Nat) (asked : Expr → Bool) : OutlineRel σ := fun n before m after =>
  ∃ e e' os os', before = [.node (.expr e) os] ∧ after = [.node (.expr e') os'] ∧
    asked e' = asked e ∧ Tallied count asked n os m os'

theorem expr_of_outline {e e' : Expr} {os : List Outline}
    (h : [outlineExpr e] = [.node (.expr e') os]) : e' = e := by
  obtain ⟨parts, he, -⟩ := outlineExpr_eq e
  rw [he] at h
  cases h
  rfl

theorem TalliedBelow.counted {n m k : σ} {a a' : List Outline} {e : Expr}
    (h : TalliedBelow count asked n a m [outlineExpr e])
    (hk : count k = count m + (asked e).toNat) : Tallied count asked n a k a' := by
  obtain ⟨e₀, e', os, os', rfl, hafter, hasked, h⟩ := h
  cases expr_of_outline hafter
  rw [Tallied, weigh_node, hk, h, hasked, Nat.add_assoc, Nat.add_comm (weigh _ _)]
  rfl

theorem ofExprs_relatesOutlines (hf : ∀ e n, count ((f e).run n).2 = count n + (asked e).toNat)
    (hg : ∀ e n, count ((g e).run n).2 = count n + (asked e).toNat)
    (hkept : ∀ e n, asked ((editParts (.ofExprs f g) e).run n).1 = asked e) :
    (Edits.ofExprs f g).RelatesOutlines (TalliedBelow count asked) (Tallied count asked)
      (Tallied count asked) where
  nil _ := rfl
  append h h' := by
    simp only [Tallied, weigh_append] at h h' ⊢
    omega
  perm ha _ h := by rwa [Tallied, ← weigh_perm ha]
  ident _ _ := rfl
  label _ _ := rfl
  word _ _ := rfl
  str _ _ := rfl
  num _ _ := rfl
  node hi h := by
    cases hi <;> simpa [Tallied, weigh_node, Item.asks] using h
  exprNode e h := ⟨e, _, _, _, rfl, rfl, hkept e _, h⟩
  expr e h := h.counted (hf e _)
  base e h := h.counted (hg e _)
  stmt s h := by simpa [Tallied, weigh_node, Item.asks] using h
  rawNil _ := rfl
  rawCons {_ _ _ o _ os _} h h' := by
    simp only [Tallied, weigh_cons o os] at h h' ⊢
    omega

theorem editProgram_tally (f g : Expr → StateM σ Expr) (count : σ → Nat)
    (hf : ∀ e n, count ((f e).run n).2 = count n + (asked e).toNat)
    (hg : ∀ e n, count ((g e).run n).2 = count n + (asked e).toNat)
    (hkept : ∀ e n, asked ((editParts (.ofExprs f g) e).run n).1 = asked e) (p : Program) (n : σ) :
    count ((editProgram (.ofExprs f g) p).run n).2 =
      count n + p.items.countP (Item.asks asked) := by
  rw [Program.items, ← weigh_toNat]
  exact (ofExprs_relatesOutlines hf hg hkept).program p n

/-! ### Calls that see names -/

/-- A call of `eval` by its bare name. -/
def Expr.isEvalCall (e : Expr) : Bool := (Item.expr e).isEvalCall

theorem isEvalCall_noting (e : Expr) (n : Nat) : ((editParts (.ofExprs (noting Expr.isEvalCall)
    (noting Expr.isEvalCall)) e).run n).1.isEvalCall = e.isEvalCall := by
  cases e with
  | call callee _ => cases callee <;> rfl
  | _ => rfl

/-- A walk meets such a call exactly if the outline shows one. -/
theorem callsEval_iff_met (p : Program) :
    p.callsEval = true ↔ 0 < p.met Expr.isEvalCall Expr.isEvalCall := by
  have htally := editProgram_tally _ _ id (fun _ _ => rfl) (fun _ _ => rfl) isEvalCall_noting p 0
  have hasks : ∀ i : Item, i.asks Expr.isEvalCall = i.isEvalCall := fun i => by cases i <;> rfl
  rw [Program.met, show ((editProgram _ p).run 0).2 = _ from htally, id_eq, Nat.zero_add,
    List.countP_pos_iff, Program.callsEval, List.any_eq_true]
  simp only [hasks]

namespace PassKind

/-- Whatever is said about the source first, names are changed unless a call can see them. -/
theorem renameNames_run (onlyMangled : Bool) (c : Context) : ∃ messages,
    (renameNames onlyMangled).run.run c = (if c.program.callsEval then
      say .log "Rename: direct eval found, names left as they are"
    else applying (Pass.rename onlyMangled)).run.run { c with messages } := by
  obtain ⟨p, hash, findings, quiet, logger, messages⟩ := c
  cases hash <;> exact ⟨_, rfl⟩

/-- **Names that a call of `eval` can see are left as they are.** If anywhere in the program `eval` is
called by its bare name, then renaming only says so: program and findings stay. Where a walk meets
no such call, and the outline shows none, names are changed. -/
theorem rename_spares_evaluated (o : PassOptions) (c : Context) :
    (0 < c.program.met Expr.isEvalCall Expr.isEvalCall →
      ∃ messages, (rename.step o).run.run c = (.ok (), { c with messages })) ∧
    (c.program.met Expr.isEvalCall Expr.isEvalCall = 0 ∨ c.program.callsEval = false →
      ∃ messages, (rename.step o).run.run c =
        (applying (Pass.rename (flagOf o "only_mangled"))).run.run { c with messages }) := by
  obtain ⟨messages, hrun⟩ := renameNames_run (flagOf o "only_mangled") c
  have hmet := callsEval_iff_met c.program
  constructor
  · intro hsome
    rw [hmet.2 hsome] at hrun
    exact ⟨_, hrun⟩
  · intro hnone
    have hnone : c.program.callsEval = false := by
      rcases hnone with hnone | hnone
      · rw [← Bool.not_eq_true, hmet]
        omega
      · exact hnone
    rw [hnone] at hrun
    exact ⟨messages, hrun⟩

/-- `function f(a) { return g(eval("a")); }` -/
def nestedEval : Program where
  grammar := .script
  body := [.decl (.func { name := "f" } (.mk false false [] [.name (.ofIdent { name := "a" })] none
    (.block [.return (some (.call (.ofName "g") [.call (.ofName "eval") [.ofText "a"]]))])))]

theorem rename_spares_nestedEval : 0 < nestedEval.met Expr.isEvalCall Expr.isEvalCall ∧
    ∃ messages, (rename.step default).run.run { program := nestedEval } =
      (.ok (), { program := nestedEval, messages }) :=
  have h : 0 < nestedEval.met Expr.isEvalCall Expr.isEvalCall := by decide
  ⟨h, (rename_spares_evaluated default { program := nestedEval }).1 h⟩

end PassKind

end Untangle
