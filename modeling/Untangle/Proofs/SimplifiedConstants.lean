import Untangle.Proofs.KnownValues
import Untangle.Proofs.Prologues

/-!
# Simplifying keeps known values

An expression whose value is known has the same value once it is simplified, bit for bit and unit
for unit, and if the value has a literal, the literal is all that is left.

* `keeps_unary`, `keeps_binary`, `keeps_cond` — an operator has its value if its operands keep
  theirs. Operands that are not evaluated may be anything.
* `keeps_folded` — one fold keeps the value, for the literal that is put reaches no deeper.
* `keeps_parts`, `keeps_simplified` — and so does the walk, by induction over the expression.
-/

variable {d : Nat} {e : Expr} {v : Value}

namespace Untangle

/-! ### Operators -/

variable {x y : Option Value}

theorem Keeps.room (h : Keeps x y) :
    Keeps (if maxFoldDepth < d then .none else x) (if maxFoldDepth < d then .none else y) := by
  split
  · exact .none
  · exact h

theorem keeps_unary (op : UnaryOp) {e' : Expr}
    (h : Keeps (evaluateAt? (d + 1) e) (evaluateAt? (d + 1) e')) :
    Keeps (evaluateAt? d (.unary op e)) (evaluateAt? d (.unary op e')) := by
  rw [evaluateAt?_unary, evaluateAt?_unary]
  refine .room ?_
  split
  · exact .none
  · exact h.bind fun _ => .rfl

theorem keeps_binary (op : BinaryOp) {l l' r r' : Expr}
    (hl : Keeps (evaluateAt? (d + 1) l) (evaluateAt? (d + 1) l'))
    (hr : Keeps (evaluateAt? (d + 1) r) (evaluateAt? (d + 1) r')) :
    Keeps (evaluateAt? d (.binary op l r)) (evaluateAt? d (.binary op l' r')) := by
  rw [evaluateAt?_binary, evaluateAt?_binary]
  exact .room (hl.bind fun a => keeps_binaryValue? op a hr)

theorem keeps_cond {test test' yes yes' no no' : Expr}
    (ht : Keeps (evaluateAt? (d + 1) test) (evaluateAt? (d + 1) test'))
    (hy : Keeps (evaluateAt? (d + 1) yes) (evaluateAt? (d + 1) yes'))
    (hn : Keeps (evaluateAt? (d + 1) no) (evaluateAt? (d + 1) no')) :
    Keeps (evaluateAt? d (.cond test yes no)) (evaluateAt? d (.cond test' yes' no')) := by
  rw [evaluateAt?_cond, evaluateAt?_cond]
  refine .room (ht.bind fun t => ?_)
  split
  · exact hy
  · exact hn

end Untangle

namespace Untangle.Pass

theorem isCanonical_toExpr? {y : Expr} (hy : v.toExpr? = some y) : isCanonical y = true := by
  cases v with
  | number x =>
    rw [Value.toExpr?] at hy
    split at hy
    · cases hy
      unfold Expr.ofNumber
      split <;> rfl
    · cases hy
  | string us =>
    obtain ⟨t, -, rfl⟩ := Option.map_eq_some_iff.1 hy
    rfl
  | boolean b => cases hy; rfl
  | null => cases hy; rfl
  | undefined => cases hy; rfl
  | emptyArray => cases hy

/-! ### One fold -/

/-- The literal of what is folded reaches no deeper: that of a template, whose value is a string, has
no operator. -/
theorem reach_toExpr?_le {y : Expr} (he : isFoldable e = true) (hv : e.value? = some v)
    (hy : v.toExpr? = some y) : y.reach ≤ e.reach := by
  cases e with
  | unary | binary | cond => exact Nat.le_trans (value?_toExpr? hy).2 (Nat.le_add_left 1 _)
  | template quasis exprs =>
    unfold Expr.value? templateValue? at hv
    split at hv
    · obtain ⟨us, -, hus⟩ := Option.bind_eq_some_iff.1 hv
      obtain ⟨t, ht, rfl⟩ := Option.map_eq_some_iff.1 hus
      obtain ⟨t, -, rfl⟩ := Option.map_eq_some_iff.1 hy
      exact Nat.zero_le _
    · cases hv
  | _ => cases he

/-- An expression with folded parts, with parentheses dropped and folded itself. -/
def folded (limit : Nat) (e : Expr) : Expr := (foldOnce? limit (dropParens e)).getD (dropParens e)

theorem evaluateAt?_dropParens (d : Nat) (e : Expr) :
    evaluateAt? d (dropParens e) = evaluateAt? d e := by
  rw [← evaluateAt?_unparen, unparen_dropParens, evaluateAt?_unparen]

variable {limit : Nat}

/-- Folding what has a known value gives its literal, or nothing. -/
theorem foldOnce?_of_evaluate? {y : Expr} (hv : evaluate? e = some v)
    (hy : foldOnce? limit e = some y) : isFoldable e = true ∧ v.toExpr? = some y := by
  unfold foldOnce? at hy
  split at hy
  · cases hy
  · rename_i he
    rw [hv] at hy
    dsimp only at hy
    split at hy
    · cases hy
    · exact ⟨by simp_all, hy⟩

theorem keeps_folded (limit d : Nat) (e : Expr) :
    Keeps (evaluateAt? d e) (evaluateAt? d (folded limit e)) := by
  intro v hv
  rw [← evaluateAt?_dropParens] at hv
  unfold folded
  generalize dropParens e = e at hv ⊢
  cases hy : foldOnce? limit e with
  | none => exact hv
  | some y =>
    obtain ⟨he, hy⟩ := foldOnce?_of_evaluate? (keeps_of_le (Nat.zero_le d) e v hv) hy
    have hreach := reach_of_evaluateAt? hv
    have hle := reach_toExpr?_le he (keeps_value? d e v hv) hy
    rw [Option.getD_some, evaluateAt?_eq, if_pos (by omega), (value?_toExpr? hy).1]

/-! ### The walk -/

theorem value_plainNumber (n : NumLit) : ((plainNumber? n).getD n).value = n.value := by
  unfold plainNumber?
  split
  · split <;> rfl
  · rfl

theorem keeps_lit (limit d : Nat) (l : Lit) :
    Keeps (evaluateAt? d (.lit l)) (evaluateAt? d (.lit (result (editLit (simplifying limit) l)))) := by
  rw [evaluateAt?_lit, evaluateAt?_lit]
  refine .room ?_
  cases l with
  | str s =>
    show Keeps (s.units.toString?.map fun _ => .string s.units)
      (((plainString? s).getD s).units.toString?.map fun _ => .string ((plainString? s).getD s).units)
    rw [units_plainString]
    exact .rfl
  | num n =>
    show Keeps (some (.number n.value)) (some (.number ((plainNumber? n).getD n).value))
    rw [value_plainNumber]
    exact .rfl
  | _ => exact .rfl

theorem keeps_array (d : Nat) (w : Edits Unit) (elems : List Expr) :
    Keeps (evaluateAt? d (.array elems)) (evaluateAt? d (.array (result (editExprs w elems)))) := by
  cases elems with
  | nil => exact .rfl
  | cons e es =>
    rw [evaluateAt?_array, evaluateAt?_array]
    exact .room .none

theorem keeps_template (d : Nat) (w : Edits Unit) (quasis : List Quasi) (exprs : List Expr) :
    Keeps (evaluateAt? d (.template quasis exprs))
      (evaluateAt? d (.template quasis (result (editExprs w exprs)))) := by
  cases exprs with
  | nil => exact .rfl
  | cons e es =>
    rw [evaluateAt?_template, evaluateAt?_template]
    refine .room ?_
    have hnone : templateValue? quasis (e :: es) = none := by cases quasis <;> rfl
    rw [hnone]
    exact .none

/-- Simplifying the parts of an expression keeps its value. The induction is on the expression, and
goes down where evaluation does; what has no value keeps it trivially. -/
theorem keeps_parts (limit d : Nat) (e : Expr) :
    Keeps (evaluateAt? d e) (evaluateAt? d (result (editParts (simplifying limit) e))) := by
  cases e with
  | paren e => exact (keeps_parts limit d e).trans (keeps_folded limit d _)
  | unary op e =>
    exact keeps_unary op ((keeps_parts limit (d + 1) e).trans (keeps_folded limit _ _))
  | binary op l r =>
    exact keeps_binary op
      ((keeps_parts limit (d + 1) l).trans (keeps_folded limit _ _))
      ((keeps_parts limit (d + 1) r).trans (keeps_folded limit _ _))
  | cond test yes no =>
    exact keeps_cond
      ((keeps_parts limit (d + 1) test).trans (keeps_folded limit _ _))
      ((keeps_parts limit (d + 1) yes).trans (keeps_folded limit _ _))
      ((keeps_parts limit (d + 1) no).trans (keeps_folded limit _ _))
  | lit l => exact keeps_lit limit d l
  | array elems => exact keeps_array d _ elems
  | template quasis exprs => exact keeps_template d _ quasis exprs
  | _ => exact .none

theorem keeps_simplified (limit d : Nat) (e : Expr) :
    Keeps (evaluateAt? d e) (evaluateAt? d (result (editExpr (simplifying limit) e))) :=
  (keeps_parts limit d e).trans (keeps_folded limit d _)

/-! ### What is left -/

theorem dropParens_of_isFoldable (h : isFoldable e = true) : dropParens e = e := by
  cases e <;> first | rfl | cases h

theorem dropParens_of_isCanonical (h : isCanonical e = true) : dropParens e = e := by
  cases e <;> first | rfl | cases h

theorem foldOnce?_of_isCanonical (h : isCanonical e = true) : foldOnce? limit e = none := by
  rw [foldOnce?, h]
  rfl

theorem folded_of_isCanonical (h : isCanonical e = true) : folded limit e = e := by
  rw [folded, dropParens_of_isCanonical h, foldOnce?_of_isCanonical h]
  rfl

theorem folded_paren_of_isCanonical (h : isCanonical e = true) : folded limit (.paren e) = e := by
  have hdrop : dropParens (.paren e) = e := by
    cases e <;> first | rfl | cases h
  rw [folded, hdrop, foldOnce?_of_isCanonical h]
  rfl

/-- An operator with a value that has a literal within the limit folds to the literal, unless it is
as simple as it can be. -/
theorem isCanonical_folded {y : Expr} (he : isFoldable e = true) (hv : evaluate? e = some v)
    (hy : v.toExpr? = some y) (hlimit : exceeds limit v = false) :
    isCanonical (folded limit e) = true := by
  by_cases hc : isCanonical e = true
  · rw [folded_of_isCanonical hc]
    exact hc
  · have hfold : foldOnce? limit e = some y := by
      rw [foldOnce?, if_neg (by simp [hc, he]), hv]
      simp [hlimit, hy]
    rw [folded, dropParens_of_isFoldable he, hfold]
    exact isCanonical_toExpr? hy

theorem isCanonical_simplified {y : Expr} (hy : v.toExpr? = some y)
    (hlimit : exceeds limit v = false) (e : Expr) (hv : evaluate? e = some v)
    (he : (∃ l, e.unparen = .lit l) ∨ isFoldable e.unparen = true) :
    isCanonical (result (editExpr (simplifying limit) e)) = true := by
  have hparts := keeps_parts limit 0 e v hv
  cases e with
  | paren e =>
    have hc := isCanonical_simplified hy hlimit e hv he
    show isCanonical (folded limit (.paren (result (editExpr (simplifying limit) e)))) = true
    rw [folded_paren_of_isCanonical hc]
    exact hc
  | lit l => rfl
  | unary | binary | cond | template => exact isCanonical_folded rfl hparts hy hlimit
  | _ =>
    obtain ⟨l, hl⟩ | he := he
    · cases hl
    · cases he

/-- Simplifying an expression with a known value keeps the value, whatever was simplified before.
What is left of a literal or an operator is a literal, perhaps after a minus sign or a `void`, if
the value has a literal and is no string past the limit. -/
theorem simplify_preserves_value (limit : Nat) (t : SimplifyTally) (e : Expr) (v : Value)
    (hv : evaluate? e = some v) :
    evaluate? ((editExpr (simplifyEdits limit) e).run t).1 = some v ∧
      (v.toExpr?.isSome = true → (∀ us, v = .string us → us.length ≤ limit) →
        ((∃ l, e.unparen = .lit l) ∨ isFoldable e.unparen = true) →
        isCanonical ((editExpr (simplifyEdits limit) e).run t).1 = true) := by
  rw [(editExpr_agree (simplifyEdits_agrees limit) e).result_eq t]
  refine ⟨keeps_simplified limit 0 e v hv, fun hsome hlimit he => ?_⟩
  obtain ⟨y, hy⟩ := Option.isSome_iff_exists.1 hsome
  have hexceeds : exceeds limit v = false := by
    cases v with
    | string us => simpa [exceeds] using hlimit us rfl
    | _ => rfl
  exact isCanonical_simplified hy hexceeds e hv he

/-- `(!false ? -(2 + 3) : f())`, where the call is never looked at. -/
def deepConstant : Expr :=
  .paren (.cond (.unary .not (.lit (.bool false)))
    (.unary .minus (.paren (.binary .add (.lit (.num { value := 2 })) (.lit (.num { value := 3 })))))
    (.call (.ofName "f") []))

theorem simplify_preserves_value_deepConstant :
    evaluate? deepConstant = some (.number (-5)) ∧
      evaluate? ((editExpr (simplifyEdits 0) deepConstant).run {}).1 = some (.number (-5)) ∧
      isCanonical ((editExpr (simplifyEdits 0) deepConstant).run {}).1 = true := by
  have hv : evaluate? deepConstant = some (.number (-5)) := by decide +kernel
  obtain ⟨hkept, hleft⟩ := simplify_preserves_value 0 {} deepConstant (.number (-5)) hv
  exact ⟨hv, hkept, hleft (by decide +kernel) nofun (.inr rfl)⟩

end Untangle.Pass
