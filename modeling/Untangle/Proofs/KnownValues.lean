import Untangle.Constant.Evaluate
import Untangle.Proofs.DoubleArithmetic
import Untangle.Proofs.KeystreamRoundTrip

/-!
# Known values and the depth limit

Evaluation gives up below a fixed depth of operators. `Expr.value?` is the same evaluation without
the limit, and `Expr.reach` is how deep it goes: an operand that is not looked at does not count.

* `evaluateAt?_eq` — the limit drops the values that lie too deep, and does nothing else.
* `keeps_of_le`, `keeps_value?` — so a value that is found at some depth is found at every smaller
  one, and is the value.
* `value?_toExpr?` — a value is the value of its literal.
-/

namespace Untangle

variable {d : Nat} {e : Expr} {v : Value}

/-! ### Operators -/

def Keeps (before after : Option Value) : Prop := ∀ v, before = some v → after = some v

variable {x y : Option Value}

theorem Keeps.rfl : Keeps x x := fun _ h => h

theorem Keeps.trans {z : Option Value} (h : Keeps x y) (h' : Keeps y z) : Keeps x z :=
  fun v hv => h' v (h v hv)

theorem Keeps.none : Keeps .none y := nofun

/-- Two computations that start from a known value and go on alike. -/
theorem Keeps.bind {f g : Value → Option Value} (h : Keeps x y) (hfg : ∀ a, Keeps (f a) (g a)) :
    Keeps (x.bind f) (y.bind g) := by
  intro v hv
  obtain ⟨a, ha, hfa⟩ := Option.bind_eq_some_iff.1 hv
  rw [h a ha]
  exact hfg a v hfa

/-- The value of a binary operator, from the values of its operands. The right one is looked at only
where the left one does not decide. -/
def binaryValue? (op : BinaryOp) (a : Value) (right : Option Value) : Option Value :=
  match op with
  | .and => if a.toBoolean then right else some a
  | .or => if a.toBoolean then some a else right
  | .nullish => if a.isNullish then right else some a
  | op => right.bind (foldBinary? op a)

theorem keeps_binaryValue? (op : BinaryOp) (a : Value) (h : Keeps x y) :
    Keeps (binaryValue? op a x) (binaryValue? op a y) := by
  unfold binaryValue?
  split
  · split
    · exact h
    · exact .rfl
  · split
    · exact .rfl
    · exact h
  · split
    · exact h
    · exact .rfl
  · exact h.bind fun _ => .rfl

def litValue? : Lit → Option Value
  | .num n => some (.number n.value)
  | .bool b => some (.boolean b)
  | .null => some .null
  | .str s => s.text?.map fun _ => .string s.units
  | _ => none

def templateValue? : List Quasi → List Expr → Option Value
  | q :: _, [] => q.cooked.bind fun us => us.toString?.map fun _ => .string us
  | _, _ => none

/-- The value of an expression, however deep its operators nest. -/
def Expr.value? : Expr → Option Value
  | .paren e => e.value?
  | .lit l => litValue? l
  | .array elems => if elems.isEmpty then some .emptyArray else none
  | .template quasis exprs => templateValue? quasis exprs
  | .unary op e => if op == .delete then none else e.value?.bind (foldUnary? op)
  | .binary op l r => l.value?.bind fun a => binaryValue? op a r.value?
  | .cond test yes no => test.value?.bind fun t => if t.toBoolean then yes.value? else no.value?
  | _ => none

/-- How deep the operators nest whose operands are looked at for the value. -/
def Expr.reach : Expr → Nat
  | .paren e => e.reach
  | .unary _ e => e.reach + 1
  | .binary op l r =>
    -- the left operand decides if there is a value with none on the right
    max l.reach (if (l.value?.bind (binaryValue? op · none)).isSome then 0 else r.reach) + 1
  | .cond test yes no =>
    max test.reach (if test.value?.any Value.toBoolean then yes.reach else no.reach) + 1
  | _ => 0

theorem evaluateAt?_lit (d : Nat) (l : Lit) :
    evaluateAt? d (.lit l) = if maxFoldDepth < d then none else litValue? l := rfl

theorem evaluateAt?_array (d : Nat) (elems : List Expr) :
    evaluateAt? d (.array elems) = if maxFoldDepth < d then none
      else if elems.isEmpty then some .emptyArray else none := rfl

theorem evaluateAt?_template (d : Nat) (quasis : List Quasi) (exprs : List Expr) :
    evaluateAt? d (.template quasis exprs) = if maxFoldDepth < d then none
      else templateValue? quasis exprs := rfl

theorem evaluateAt?_unary (d : Nat) (op : UnaryOp) (e : Expr) :
    evaluateAt? d (.unary op e) = if maxFoldDepth < d then none
      else if op == .delete then none
      else (evaluateAt? (d + 1) e).bind (foldUnary? op) := rfl

theorem evaluateAt?_binary (d : Nat) (op : BinaryOp) (l r : Expr) :
    evaluateAt? d (.binary op l r) = if maxFoldDepth < d then none
      else (evaluateAt? (d + 1) l).bind fun a => binaryValue? op a (evaluateAt? (d + 1) r) := by
  rw [evaluateAt?.eq_def]
  dsimp only
  cases evaluateAt? (d + 1) l <;> rfl

theorem evaluateAt?_cond (d : Nat) (test yes no : Expr) :
    evaluateAt? d (.cond test yes no) = if maxFoldDepth < d then none
      else (evaluateAt? (d + 1) test).bind fun t =>
        if t.toBoolean then evaluateAt? (d + 1) yes else evaluateAt? (d + 1) no := by
  rw [evaluateAt?.eq_def]
  dsimp only
  cases evaluateAt? (d + 1) test <;> rfl

/-! ### What the limit drops -/

/-- Operands stand one level below. The second one counts if the first has a value. -/
theorem limited_bind {m n : Nat} {x : Option Value} {f g : Value → Option Value}
    (h : ∀ a, x = some a → d + 1 + m ≤ maxFoldDepth →
      g a = if d + 1 + n ≤ maxFoldDepth then f a else none) :
    (if maxFoldDepth < d then none else (if d + 1 + m ≤ maxFoldDepth then x else none).bind g) =
      if d + (max m n + 1) ≤ maxFoldDepth then x.bind f else none := by
  by_cases hm : d + 1 + m ≤ maxFoldDepth
  · rw [if_pos hm, if_neg (by omega)]
    cases x with
    | none => exact (ite_self none).symm
    | some a =>
      rw [Option.bind_some, Option.bind_some, h a rfl hm]
      exact if_congr (by omega) rfl rfl
  · have hnone : ¬d + (max m n + 1) ≤ maxFoldDepth := by omega
    rw [if_neg hm, if_neg hnone, Option.bind_none, ite_self]

theorem limited_leaf (d : Nat) (x : Option Value) :
    (if maxFoldDepth < d then none else x) = if d + 0 ≤ maxFoldDepth then x else none := by
  rw [← ite_not]
  exact if_congr Nat.not_lt rfl rfl

/-- Evaluation at a depth gives the value if its reach is within the limit, and nothing otherwise.
The induction is on the expression and goes down where evaluation does. -/
theorem evaluateAt?_eq (d : Nat) (e : Expr) :
    evaluateAt? d e = if d + e.reach ≤ maxFoldDepth then e.value? else none := by
  cases e with
  | paren e => exact evaluateAt?_eq d e
  | unary op e =>
    rw [evaluateAt?_unary, evaluateAt?_eq (d + 1) e]
    show _ = if d + (e.reach + 1) ≤ maxFoldDepth then
      (if op == .delete then none else e.value?.bind (foldUnary? op)) else none
    rw [Nat.add_right_comm d 1, Nat.add_assoc d]
    by_cases h : d + (e.reach + 1) ≤ maxFoldDepth
    · rw [if_pos h, if_pos h, if_neg (by omega)]
    · rw [if_neg h, if_neg h, Option.bind_none, ite_self, ite_self]
  | binary op l r =>
    rw [evaluateAt?_binary, evaluateAt?_eq (d + 1) l, evaluateAt?_eq (d + 1) r]
    refine limited_bind fun a ha hl => ?_
    rw [ha, Option.bind_some]
    cases hleft : binaryValue? op a none with
    | some c =>
      have hvalue : ∀ x, binaryValue? op a x = some c := fun x =>
        keeps_binaryValue? op a .none c hleft
      rw [hvalue, hvalue, Option.isSome_some, if_pos rfl, if_pos (by omega)]
    | none =>
      rw [Option.isSome_none, if_neg Bool.false_ne_true]
      split
      · rfl
      · exact hleft
  | cond test yes no =>
    rw [evaluateAt?_cond, evaluateAt?_eq (d + 1) test, evaluateAt?_eq (d + 1) yes,
      evaluateAt?_eq (d + 1) no]
    refine limited_bind fun t ht htest => ?_
    rw [ht, Option.any_some]
    split <;> rfl
  | lit l => exact limited_leaf d _
  | array elems => exact limited_leaf d _
  | template quasis exprs => exact limited_leaf d _
  | _ => exact (ite_self none).symm

/-- A value is known only where there is room for its expression. -/
theorem reach_of_evaluateAt? (h : evaluateAt? d e = some v) : d + e.reach ≤ maxFoldDepth := by
  rw [evaluateAt?_eq] at h
  split at h
  · assumption
  · cases h

theorem keeps_of_le {c d : Nat} (hcd : c ≤ d) (e : Expr) :
    Keeps (evaluateAt? d e) (evaluateAt? c e) := by
  intro v hv
  have hreach := reach_of_evaluateAt? hv
  rw [evaluateAt?_eq, if_pos hreach] at hv
  rw [evaluateAt?_eq, if_pos (by omega)]
  exact hv

theorem keeps_value? (d : Nat) (e : Expr) : Keeps (evaluateAt? d e) e.value? := by
  intro v hv
  have hreach := reach_of_evaluateAt? hv
  rwa [evaluateAt?_eq, if_pos hreach] at hv

/-! ### Literals of values -/

theorem Number.neg_neg (x : Float) : - -x = x := by
  have hneg : ∀ u : Float.Model.UnpackedFloat, u.neg.neg = u := by
    intro u
    cases u with
    | zero s | infinity s | finite s => cases s <;> rfl
    | notANumber => rfl
  show Float.ofModel (.pack (-x).toModel.unpack.neg) = x
  rw [unpack_neg, hneg, pack_unpack]

theorem evaluateAt?_unparen (d : Nat) (e : Expr) : evaluateAt? d e.unparen = evaluateAt? d e := by
  induction e using Expr.unparen_induct with
  | paren e ih => exact ih
  | bare e hbare => rw [hbare]

/-- A value is the value of its literal, which has one operator at most. -/
theorem value?_toExpr? {y : Expr} (hy : v.toExpr? = some y) : y.value? = some v ∧ y.reach ≤ 1 := by
  cases v with
  | number x =>
    rw [Value.toExpr?] at hy
    split at hy
    · cases hy
      unfold Expr.ofNumber
      split
      · refine ⟨?_, Nat.le_refl 1⟩
        show some (Value.number (- -x)) = some (.number x)
        rw [Number.neg_neg]
      · exact ⟨rfl, Nat.zero_le 1⟩
    · cases hy
  | string us =>
    obtain ⟨t, ht, rfl⟩ := Option.map_eq_some_iff.1 hy
    refine ⟨?_, Nat.zero_le 1⟩
    show ((Units.ofString t).toString?).map (fun _ => Value.string (Units.ofString t)) = _
    rw [Units.toString?_ofString, Units.ofString_of_toString? ht]
    rfl
  | undefined => cases hy; exact ⟨rfl, Nat.le_refl 1⟩
  | boolean b => cases hy; exact ⟨rfl, Nat.zero_le 1⟩
  | null => cases hy; exact ⟨rfl, Nat.zero_le 1⟩
  | emptyArray => cases hy

/-- **The depth limit only drops values.** A value that is found at some depth is found at every
smaller one, and it is the value that evaluation gives without a limit; that value is not found only
where it lies too deep. A value that has a literal is the value of the literal. -/
theorem evaluateAt?_only_drops :
    (∀ (e : Expr) (c d : Nat) (v : Value), c ≤ d → evaluateAt? d e = some v →
      evaluateAt? c e = some v ∧ e.value? = some v) ∧
    (∀ (e : Expr) (d : Nat),
      evaluateAt? d e = if d + e.reach ≤ maxFoldDepth then e.value? else none) ∧
    ∀ (v : Value) (x : Expr), v.toExpr? = some x → evaluate? x = some v := by
  refine ⟨fun e c d v hcd hv => ⟨keeps_of_le hcd e v hv, keeps_value? d e v hv⟩,
    fun e d => evaluateAt?_eq d e, fun v x hx => ?_⟩
  obtain ⟨hvalue, hreach⟩ := value?_toExpr? hx
  have hroom : 0 + x.reach ≤ maxFoldDepth := by
    rw [Nat.zero_add]
    exact Nat.le_trans hreach (by decide)
  rw [evaluate?, evaluateAt?_eq, if_pos hroom, hvalue]

/-- `true ? null || -5 : f()`, where the call is never looked at. -/
def nestedChoice : Expr :=
  .cond (.lit (.bool true))
    (.binary .or (.lit .null) (.unary .minus (.lit (.num { value := 5 }))))
    (.call (.ofName "f") [])

theorem evaluateAt?_only_drops_nestedChoice :
    evaluateAt? 61 nestedChoice = some (.number (-5)) ∧ evaluateAt? 62 nestedChoice = none ∧
      evaluateAt? 7 nestedChoice = some (.number (-5)) ∧
      nestedChoice.value? = some (.number (-5)) ∧
      evaluate? (.ofNumber (-5)) = some (.number (-5)) := by
  have hdeep : evaluateAt? 61 nestedChoice = some (.number (-5)) := rfl
  have hminus : (Value.number (-5)).toExpr? = some (.ofNumber (-5)) := rfl
  obtain ⟨hdrops, -, hliteral⟩ := evaluateAt?_only_drops
  obtain ⟨hless, hvalue⟩ := hdrops nestedChoice 7 61 _ (by decide) hdeep
  exact ⟨hdeep, rfl, hless, hvalue, hliteral _ _ hminus⟩

end Untangle
