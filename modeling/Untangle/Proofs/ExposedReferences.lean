import Untangle.Proofs.SimplifiedTwice

/-!
# References that simplifying exposes

A call takes its receiver from the access that its callee is, a call of the name `eval` is another
thing than a call of its value, and `delete` and `typeof` ask about a reference and not about what it
holds. So it matters to these operations whether their operand is a reference. A fold that takes the
known way through a logical or conditional expression looks at the expression alone, and where it
stands as such an operand, the reference it comes down to is an operand it was not before.

* `simplify_exposes_references` — what becomes of each operation, and where each one comes from.
* `simplify_binds_receiver` — a call without a receiver is given one.
-/

namespace Untangle

def Expr.isReference : Expr → Bool
  | .ident _ => true
  | .member .. => true
  | .superMember _ => true
  | .chainMember .. => true
  | _ => false

def Expr.reference? (e : Expr) : Option Expr :=
  if e.unparen.isReference then some e.unparen else none

/-- What an operation acts on that tells a reference from its value: a callee, a tag, or the operand
of `delete` or `typeof`. -/
def Expr.operand? : Expr → Option Expr
  | .call callee _ => some callee
  | .chainCall _ callee _ => some callee
  | .tagged tag _ _ => some tag
  | .unary .delete arg => some arg
  | .unary .typeOf arg => some arg
  | _ => none

/-- The view of operations that tell a reference from its value. -/
def Item.operations : Item → List Expr
  | .expr e => if e.operand?.isSome then [e] else []
  | _ => []

variable {e : Expr}

theorem mem_operations {i : Item} : e ∈ i.operations ↔ i = .expr e ∧ e.operand?.isSome = true := by
  cases i with
  | expr e' =>
    rw [Item.operations]
    split
    · rename_i h
      constructor
      · intro he
        cases List.mem_singleton.1 he
        exact ⟨rfl, h⟩
      · rintro ⟨he, -⟩
        cases he
        exact List.mem_singleton_self _
    · rename_i h
      constructor
      · intro he
        cases he
      · rintro ⟨he, hsome⟩
        cases he
        exact absurd hsome h
  | _ => exact ⟨nofun, fun h => nomatch h.1⟩

/-- Whether a logical operator gives its right operand after a left one with this value. -/
def BinaryOp.takesRight : BinaryOp → Value → Bool
  | .and, v => v.toBoolean
  | .or, v => !v.toBoolean
  | .nullish, v => v.isNullish
  | _, _ => false

namespace Pass

def simplified (limit : Nat) (e : Expr) : Expr := result (editExpr (simplifying limit) e)

/-- The reference that an expression comes down to: what it is, parentheses apart, or what the
operand is that a logical or conditional expression is known to give. -/
def exposed? (limit : Nat) : Expr → Option Expr
  | .paren e => exposed? limit e
  | .binary op left right =>
    if (evaluate? (simplified limit left)).any op.takesRight then exposed? limit right else none
  | .cond test yes no =>
    match truthiness? (simplified limit test) with
    | some true => exposed? limit yes
    | some false => exposed? limit no
    | none => none
  | e => e.reference?

def isChoice : Expr → Bool
  | .binary .and .. => true
  | .binary .or .. => true
  | .binary .nullish .. => true
  | .cond .. => true
  | _ => false

/-! ### Simplified references -/

theorem reference?_eq_none (h : e.unparen.isReference = false) : e.reference? = none := by
  rw [Expr.reference?, h]
  rfl

theorem reference?_congr {e' : Expr} (h : e.unparen = e'.unparen) :
    e.reference? = e'.reference? := by
  rw [Expr.reference?, Expr.reference?, h]

variable {v : Value} {limit : Nat} {l r : Expr} {op : BinaryOp}

theorem reference?_of_evaluateAt? {d : Nat} (h : evaluateAt? d e = some v) :
    e.reference? = none := by
  apply reference?_eq_none
  rw [← evaluateAt?_unparen] at h
  generalize e.unparen = e at h ⊢
  cases e <;> first | rfl | cases h

theorem reference?_of_isCanonical (h : isCanonical e = true) : e.reference? = none := by
  cases e <;> first | rfl | cases h

theorem reference?_of_isFoldable (h : isFoldable e = true) : e.reference? = none := by
  cases e <;> first | rfl | cases h

theorem reference?_folded_known (he : isFoldable e = true) (hv : evaluate? e = some v) :
    (folded limit e).reference? = none := by
  rw [folded, dropParens_of_isFoldable he]
  cases hy : foldOnce? limit e with
  | none => exact reference?_of_isFoldable he
  | some y => exact reference?_of_isCanonical (isCanonical_toExpr? (foldOnce?_of_evaluate? hv hy).2)

/-- What folds without a known value is the operand that decides, if one does. -/
theorem reference?_folded_unknown (he : isFoldable e = true) (hc : isCanonical e = false)
    (hv : evaluate? e = none) :
    (folded limit e).reference? = (foldPartly? e).bind Expr.reference? := by
  have hfold : foldOnce? limit e = foldPartly? e := by
    rw [foldOnce?, if_neg (by simp [he, hc]), hv]
  rw [folded, dropParens_of_isFoldable he, hfold]
  cases foldPartly? e with
  | none => exact reference?_of_isFoldable he
  | some y => rfl

theorem simplified_still (limit : Nat) (e : Expr) :
    dropParens (simplified limit e) = simplified limit e ∧
      foldOnce? limit (simplified limit e) = none := by
  have hsettled : Untangle.Settled (editExpr (simplifyEdits limit) e)
      (editExpr (simplifyEdits limit)) :=
    (editParts_settled simplifyEdits_settles e).andThen fun _ => settled_expr
  have hresult : ((editExpr (simplifyEdits limit) e).run {}).1 = simplified limit e :=
    (editExpr_agree (simplifyEdits_agrees limit) e).result_eq {}
  have hstill := hsettled {}
  rw [hresult] at hstill
  exact still_of_editExpr hstill

/-- Parentheses go or stay, but nothing in them changes further. -/
theorem unparen_simplified_paren (limit : Nat) (e : Expr) :
    (simplified limit (.paren e)).unparen = (simplified limit e).unparen := by
  obtain ⟨hdrop, hfold⟩ := simplified_still limit e
  show (folded limit (.paren (simplified limit e))).unparen = _
  rw [folded]
  by_cases hchain : isChain (simplified limit e).unparen = true
  · have hkept : dropParens (.paren (simplified limit e)) = .paren (simplified limit e) :=
      if_pos hchain
    rw [hkept]
    rfl
  · have hdropped : dropParens (.paren (simplified limit e)) = simplified limit e :=
      (if_neg hchain).trans (unparen_of_still hdrop hchain)
    rw [hdropped, hfold]
    rfl

/-- A binary operator has a known value only if its left operand has, and the right one, if that is
what it gives. -/
theorem evaluate?_binary_known (h : evaluate? (.binary op l r) = some v) :
    ∃ a, evaluate? l = some a ∧
      (op.takesRight a = true → evaluateAt? 1 r = some v) := by
  rw [evaluate?, evaluateAt?_binary, if_neg (by decide)] at h
  obtain ⟨a, ha, h⟩ := Option.bind_eq_some_iff.1 h
  refine ⟨a, keeps_of_le (Nat.zero_le 1) l a ha, fun hright => ?_⟩
  cases op with
  | and | or | nullish => simp_all [binaryValue?, BinaryOp.takesRight]
  | _ => cases hright

theorem foldPartly?_binary :
    (foldPartly? (.binary op l r)).bind Expr.reference? =
      if (evaluate? l).any op.takesRight then r.reference? else none := by
  have hother : ∀ a, evaluate? l = some a → l.reference? = none :=
    fun a ha => reference?_of_evaluateAt? ha
  cases hl : evaluate? l with
  | none => cases op <;> simp [foldPartly?, hl]
  | some a =>
    rw [Option.any_some]
    cases op with
    | and | or | nullish =>
      simp only [foldPartly?, hl, Option.map_some, Option.bind_some, BinaryOp.takesRight]
      split <;> simp_all
    | _ => rfl

theorem reference?_folded_binary (limit : Nat) (op : BinaryOp) (l r : Expr) :
    (folded limit (.binary op l r)).reference? =
      if (evaluate? l).any op.takesRight then r.reference? else none := by
  cases hv : evaluate? (.binary op l r) with
  | none => rw [reference?_folded_unknown rfl rfl hv, foldPartly?_binary]
  | some v =>
    obtain ⟨a, ha, hright⟩ := evaluate?_binary_known hv
    rw [reference?_folded_known rfl hv, ha, Option.any_some]
    split
    · exact (reference?_of_evaluateAt? (hright ‹_›)).symm
    · rfl

theorem truthiness?_of_evaluate? (h : evaluate? e = some v) : truthiness? e = some v.toBoolean := by
  rw [evaluate?, ← evaluateAt?_unparen] at h
  unfold truthiness?
  split
  · rename_i he
    rw [he] at h
    cases h
  · rename_i he
    rw [he] at h
    cases h
  · rw [evaluate?, h]
    rfl

theorem evaluate?_cond_known {test yes no : Expr} (h : evaluate? (.cond test yes no) = some v) :
    ∃ t, truthiness? test = some t ∧
      evaluateAt? 1 (if t then yes else no) = some v := by
  rw [evaluate?, evaluateAt?_cond, if_neg (by decide)] at h
  obtain ⟨a, ha, h⟩ := Option.bind_eq_some_iff.1 h
  refine ⟨a.toBoolean, truthiness?_of_evaluate? (keeps_of_le (Nat.zero_le 1) test a ha), ?_⟩
  rw [← h]
  split <;> rfl

theorem reference?_folded_cond (limit : Nat) (test yes no : Expr) :
    (folded limit (.cond test yes no)).reference? =
      (truthiness? test).bind fun t => (if t then yes else no).reference? := by
  cases hv : evaluate? (.cond test yes no) with
  | none =>
    rw [reference?_folded_unknown rfl rfl hv, foldPartly?]
    cases truthiness? test <;> rfl
  | some v =>
    obtain ⟨t, ht, hbranch⟩ := evaluate?_cond_known hv
    rw [reference?_folded_known rfl hv, ht]
    exact (reference?_of_evaluateAt? hbranch).symm

/-- An expression of another kind that folds is no reference, whatever becomes of it. -/
theorem reference?_folded_other (he : isFoldable e = true) (hpart : foldPartly? e = none) :
    (folded limit e).reference? = none := by
  cases hc : isCanonical e with
  | true =>
    rw [folded_of_isCanonical hc]
    exact reference?_of_isCanonical hc
  | false =>
    cases hv : evaluate? e with
    | none =>
      rw [reference?_folded_unknown he hc hv, hpart]
      rfl
    | some v => exact reference?_folded_known he hv

/-- **A simplified expression is a reference exactly if the expression exposes one**, and it is then
what became of that. The induction is on the expression and follows the operands that can come out of
a fold. -/
theorem reference?_simplified (limit : Nat) (e : Expr) : (simplified limit e).reference? =
    (exposed? limit e).map fun r => result (editParts (simplifying limit) r) := by
  cases e with
  | paren e =>
    rw [reference?_congr (unparen_simplified_paren limit e), reference?_simplified limit e]
    rfl
  | binary op left right =>
    have hfold := reference?_folded_binary limit op (simplified limit left) (simplified limit right)
    rw [reference?_simplified limit right] at hfold
    refine hfold.trans ?_
    rw [exposed?]
    split <;> rfl
  | cond test yes no =>
    have hfold := reference?_folded_cond limit (simplified limit test) (simplified limit yes)
      (simplified limit no)
    refine hfold.trans ?_
    rw [exposed?]
    cases truthiness? (simplified limit test) with
    | none => rfl
    | some t =>
      cases t with
      | true => exact reference?_simplified limit yes
      | false => exact reference?_simplified limit no
  | unary | template => exact reference?_folded_other rfl rfl
  | _ => rfl

/-! ### Operations -/

theorem operand?_simplified (limit : Nat) (e : Expr) :
    (result (editParts (simplifying limit) e)).operand? = e.operand?.map (simplified limit) := by
  cases e with
  | unary op arg => cases op <;> rfl
  | _ => rfl

theorem operations_minor (i : Item) (h : i.isConstruct = false) : i.operations = [] := by
  cases i with
  | expr e => cases e <;> first | rfl | cases h
  | _ => rfl

theorem operations_folded (limit : Nat) (e : Expr) :
    viewed Item.operations [outlineExpr (result ((simplifying limit).expr e))] ⊆
      viewed Item.operations [outlineExpr e] := by
  refine viewed_folded operations_minor (fun e he => ?_) limit e
  cases e with
  | lit => rfl
  | unary op arg => cases op <;> first | rfl | cases he
  | _ => cases he

theorem simplifying_tracesOperations (limit : Nat) : (simplifying limit).TracesItems Item.operations
    fun e e' => e' = result (editParts (simplifying limit) e) where
  minor := operations_minor
  expression e := by
    intro e' he'
    obtain ⟨he, hsome⟩ := mem_operations.1 he'
    cases he
    rw [operand?_simplified, Option.isSome_map] at hsome
    exact ⟨e, mem_operations.2 ⟨rfl, hsome⟩, rfl⟩
  property _ := nofun
  func _ := nofun
  cls _ := nofun
  expr := operations_folded limit
  base := operations_folded limit

theorem takesRight_of_isChoice (h : isChoice (.binary op l r) = false) (v : Value) :
    op.takesRight v = false := by
  cases op <;> first | rfl | cases h

theorem exposed?_of_isChoice (e : Expr) (h : isChoice e.unparen = false) :
    exposed? limit e = e.reference? := by
  cases e with
  | paren e => exact exposed?_of_isChoice e h
  | binary op left right =>
    rw [exposed?]
    cases evaluate? (simplified limit left) with
    | none => rfl
    | some v =>
      rw [Option.any_some, takesRight_of_isChoice h v]
      rfl
  | cond => cases h
  | _ => rfl

/-- What an operand is after simplifying: a reference exactly if the operand before came down to one,
and then that reference, simplified. An operand that gave none of its own operands is one after
exactly if it was one before. -/
structure ExposedAs (limit : Nat) (c c' : Expr) : Prop where
  reference : c'.reference? = (exposed? limit c).map fun r => result (editParts (simplifying limit) r)
  alike : isChoice c.unparen = false → (c'.reference?.isSome = true ↔ c.reference?.isSome = true)

theorem exposedAs_simplified (limit : Nat) (c : Expr) : ExposedAs limit c (simplified limit c) where
  reference := reference?_simplified limit c
  alike hchoice := by
    rw [reference?_simplified, exposed?_of_isChoice c hchoice, Option.isSome_map]

/-- An operation is not folded unless its value is known. -/
theorem simplified_operation {c : Expr} (hc : e.operand? = some c) :
    simplified limit e = result (editParts (simplifying limit) e) ∨
      (evaluate? (result (editParts (simplifying limit) e))).isSome = true := by
  cases e with
  | unary op arg =>
    show folded limit (.unary op (simplified limit arg)) = .unary op (simplified limit arg) ∨
      (evaluate? (.unary op (simplified limit arg))).isSome = true
    cases hv : evaluate? (.unary op (simplified limit arg)) with
    | none =>
      left
      rw [folded, dropParens_of_isFoldable rfl, foldOnce?, hv]
      split <;> rfl
    | some v => exact .inr rfl
  | call | chainCall | tagged => exact .inl rfl
  | _ => cases hc

/-- **Simplifying makes an operand a reference exactly where the operand exposes one.** Every call,
tagged template, `delete` and `typeof`, unless it is folded to its value, stands after simplifying
with its operand simplified. Every one of a simplified program is one of the program with its parts
simplified. -/
theorem simplify_exposes_references (limit : Nat) (p : Program) :
    (∀ e c, e.operand? = some c →
      (result (editParts (simplifying limit) e)).operand? = some (simplified limit c) ∧
      ExposedAs limit c (simplified limit c) ∧
      (simplified limit e = result (editParts (simplifying limit) e) ∨
        (evaluate? (result (editParts (simplifying limit) e))).isSome = true)) ∧
    ∀ e' c', .expr e' ∈ (simplify limit p).1.items → e'.operand? = some c' →
      ∃ e c, .expr e ∈ p.items ∧ e.operand? = some c ∧
        e' = result (editParts (simplifying limit) e) ∧ ExposedAs limit c c' := by
  constructor
  · intro e c hc
    refine ⟨?_, exposedAs_simplified limit c, simplified_operation hc⟩
    rw [operand?_simplified, hc]
    rfl
  · intro e' c' he' hc'
    have hview : e' ∈ viewed Item.operations (outlineProgram (simplify limit p).1) :=
      List.mem_flatMap.2 ⟨.expr e', he', mem_operations.2 ⟨rfl, by rw [hc']; rfl⟩⟩
    rw [simplify_eq] at hview
    obtain ⟨e, he, rfl⟩ := (simplifying_tracesOperations limit).program p e' hview
    obtain ⟨i, hi, he⟩ := List.mem_flatMap.1 he
    obtain ⟨rfl, hsome⟩ := mem_operations.1 he
    obtain ⟨c, hc⟩ := Option.isSome_iff_exists.1 hsome
    rw [operand?_simplified, hc] at hc'
    cases hc'
    exact ⟨e, c, hi, hc, rfl, exposedAs_simplified limit c⟩

/-- `(true && o.m)();` -/
def guardedCall : Program where
  grammar := .script
  body := [.expr (.call (.paren (.binary .and (.lit (.bool true))
    (.member (.ofName "o") (.name "m")))) [])]

/-- `o.m()` -/
def methodCall : Expr := .call (.member (.ofName "o") (.name "m")) []

theorem simplify_exposes_references_guarded :
    .expr methodCall ∈ (simplify 0 guardedCall).1.items ∧
      methodCall.operand? = some (.member (.ofName "o") (.name "m")) ∧
      ∃ e c, .expr e ∈ guardedCall.items ∧ e.operand? = some c ∧
        methodCall = result (editParts (simplifying 0) e) ∧
        ExposedAs 0 c (.member (.ofName "o") (.name "m")) := by
  have hmem : Item.expr methodCall ∈ (simplify 0 guardedCall).1.items := .tail _ (.head _)
  exact ⟨hmem, rfl, (simplify_exposes_references 0 guardedCall).2 methodCall _ hmem rfl⟩

/-- **Simplifying can give a call a receiver.** The callee of `(true && o.m)()` is no reference, and
`m` is called without a receiver; what is left is `o.m()`, which calls it on `o`. -/
theorem simplify_binds_receiver :
    (Expr.paren (.binary .and (.lit (.bool true))
      (.member (.ofName "o") (.name "m")))).reference? = none ∧
    (simplify 0 guardedCall).1.body = [.expr methodCall] ∧
    (Expr.member (.ofName "o") (.name "m")).reference?.isSome = true := ⟨rfl, rfl, rfl⟩

end Pass

end Untangle
