import Mathlib.Data.List.Rotate
import Untangle.Proofs.ProxyEvaluation
import Untangle.Proofs.WholeDoubles

/-!
# Running loops that turn an array

A host that has one array and calls functions by running their bodies, and what two loops over it do
that count a number down.

* `CountedCall.endsAt` — such a call turns the array as often as it counts.
-/

namespace Untangle

variable {ω V α β ρ : Type}

/-! ### Runs with one outcome -/

/-- From a state, a relation has one outcome and one state after it. -/
def EndsAt (x : ω → ρ → ω → Prop) (a : ω) (r : ρ) (b : ω) : Prop :=
  ∀ r' b', x a r' b' ↔ r' = r ∧ b' = b

variable {e : Expr} {x array : Binding} {id : Ident} {n : Nat}

namespace EndsAt

open Behaviour

variable {a m b : ω}

variable {v : α} {c : Completion V} {d : Behaviour ω V} {labels : List String} {turn : Turn ω V}

theorem succeed {fail : Completion V → ρ} {x : Comp ω V α} {k : α → ω → ρ → ω → Prop} {r : ρ}
    (hx : EndsAt x a (.value v) m) (hk : EndsAt (k v) m r b) :
    EndsAt (Untangle.succeed fail x k) a r b := by
  intro r' b'
  constructor
  · rintro (⟨u, n, hn, hb⟩ | ⟨u, -, hb⟩ | ⟨-, hb⟩)
    · obtain ⟨hu, rfl⟩ := (hx _ _).1 hn
      cases hu
      exact (hk _ _).1 hb
    · cases ((hx _ _).1 hb).1
    · cases ((hx _ _).1 hb).1
  · intro hb
    exact .inl ⟨v, m, (hx _ _).2 ⟨rfl, rfl⟩, (hk _ _).2 hb⟩

theorem pure (v : α) : EndsAt (Pure.pure v : Comp ω V α) a (.value v) a := fun _ _ => Iff.rfl

theorem bind {x : Comp ω V α} {k : α → Comp ω V β} {r : Answer V β} (hx : EndsAt x a (.value v) m)
    (hk : EndsAt (k v) m r b) : EndsAt (x >>= k) a r b :=
  hx.succeed hk

theorem ends (c : Completion V) : EndsAt (Behaviour.ends c : Behaviour ω V) a c a :=
  fun _ _ => Iff.rfl

theorem andThen {e : Behaviour ω V} (hd : EndsAt d a .normal m) (he : EndsAt e m c b) :
    EndsAt (Behaviour.andThen d e) a c b := by
  intro c' b'
  constructor
  · rintro (⟨n, hn, hb⟩ | ⟨hc, hb⟩)
    · obtain ⟨-, rfl⟩ := (hd _ _).1 hn
      exact (he _ _).1 hb
    · exact absurd ((hd _ _).1 hb).1 hc
  · intro hb
    exact .inl ⟨m, (hd _ _).2 ⟨rfl, rfl⟩, (he _ _).2 hb⟩

theorem expr {M : Machine ω V} {v : V} (h : EndsAt (M.eval e) a (.value v) b) :
    EndsAt (run M labels (.expr e)) a .normal b :=
  h.succeed (.ends .normal)

theorem body {k : Turn ω V} {r : Option (Completion V)} (hd : EndsAt d a .normal m)
    (hk : EndsAt k m r b) : EndsAt (Turn.body labels d k) a r b := by
  intro r' b'
  constructor
  · rintro ⟨c, n, hn, ⟨-, hb⟩ | ⟨hc, -⟩⟩
    · obtain ⟨-, rfl⟩ := (hd _ _).1 hn
      exact (hk _ _).1 hb
    · obtain ⟨rfl, -⟩ := (hd _ _).1 hn
      exact absurd trivial hc
  · intro hb
    exact ⟨.normal, m, (hd _ _).2 ⟨rfl, rfl⟩, .inl ⟨trivial, (hk _ _).2 hb⟩⟩

theorem looping_leave (h : EndsAt turn a (some c) b) : EndsAt (Looping turn) a c b := by
  intro c' b'
  constructor
  · rintro (hb | ⟨hm, -⟩)
    · obtain ⟨hc, rfl⟩ := (h _ _).1 hb
      exact ⟨Option.some.inj hc, rfl⟩
    · cases ((h _ _).1 hm).1
  · rintro ⟨rfl, rfl⟩
    exact .leave ((h _ _).2 ⟨rfl, rfl⟩)

theorem looping_again (h : EndsAt turn a none m) (hrest : EndsAt (Looping turn) m c b) :
    EndsAt (Looping turn) a c b := by
  intro c' b'
  constructor
  · rintro (hb | ⟨hm, hb⟩)
    · cases ((h _ _).1 hb).1
    · obtain ⟨-, rfl⟩ := (h _ _).1 hm
      exact (hrest _ _).1 hb
  · intro hb
    exact .again ((h _ _).2 ⟨rfl, rfl⟩) ((hrest _ _).2 hb)

end EndsAt

/-- How a call ends that runs a body. -/
def Completion.answer (undefined : V) : Completion V → Answer V V
  | .normal | .return none => .value undefined
  | .return (some v) => .value v
  | .throw v => .throw v
  | _ => .stopped

/-- A computation that is watched no further. -/
def Comp.unwatched : Comp ω V α := fun a r b => r = .stopped ∧ b = a

/-! ### A host with one array -/

/-- Constants, the array, its methods, and functions. -/
inductive Thing
  | constant (v : Value)
  | array
  | method (name : String)
  | function (f : Func)

namespace Thing

def number (n : Nat) : Thing := .constant (.number (Float.ofNat n))

def text (s : String) : Thing := .constant (.string (.ofString s))

/-- The value of a literal or a function; what is neither is left undefined. -/
def ofExpr : Expr → Thing
  | .lit (.num n) => .constant (.number n.value)
  | .lit (.str s) => .constant (.string s.units)
  | .lit (.bool b) => .constant (.boolean b)
  | .lit .null => .constant .null
  | .func _ f => .function f
  | _ => .constant .undefined

end Thing

/-- The variables, the elements of the array, and how many times elements were put at its end. -/
structure Heap where
  vars : Binding → Thing
  elements : List Thing
  pushes : Nat

namespace Heap

def set (a : Heap) (x : Binding) (v : Thing) : Heap :=
  { a with vars := fun y => if y = x then v else a.vars y }

theorem set_same (a : Heap) (x : Binding) (v : Thing) : (a.set x v).vars x = v := if_pos rfl

theorem set_other (a : Heap) {y : Binding} (v : Thing) (h : y ≠ x) :
    (a.set x v).vars y = a.vars y := if_neg h

theorem set_set (a : Heap) (x : Binding) (v w : Thing) : (a.set x v).set x w = a.set x w := by
  unfold set
  congr 1
  funext y
  simp only
  split <;> rfl

/-- Gives parameters their values by place, those left out being undefined. -/
def setAll (a : Heap) : List Binding → List Thing → Heap
  | [], _ => a
  | x :: xs, vs => (a.set x (vs.headD (.constant .undefined))).setAll xs vs.tail

/-- Puts elements at the end of the array. -/
def push (vs : List Thing) : Comp Heap Thing Thing := fun a r b =>
  r = .value (.number (a.elements ++ vs).length) ∧
    b = { a with elements := a.elements ++ vs, pushes := a.pushes + 1 }

/-- Takes the first element from the array, if there is one. -/
def shift : Comp Heap Thing Thing := fun a r b =>
  r = .value (a.elements.headD (.constant .undefined)) ∧ b = { a with elements := a.elements.tail }

def values : Values Thing where
  constant := Thing.ofExpr
  method _ := .constant .undefined
  array _ := .constant .undefined
  hole := .constant .undefined
  undefined := .constant .undefined
  ofBool b := .constant (.boolean b)
  truthy
    | .constant v => v.toBoolean
    | _ => true
  isNullish
    | .constant .null | .constant .undefined => true
    | _ => false
  isNumber
    | .constant (.number _) => true
    | _ => false
  isNumber_literal _ := rfl
  signed
    | .minus, .constant v => .constant (.number (-v.toNumber))
    | _, v => v
  same
    | .constant v, .constant w => v == w
    | _, _ => false

def hostCalling (enter : Func → List Thing → Comp Heap Thing Thing) : Host Heap Thing :=
  { values with
    read := fun x a r b => r = .value (a.vars x) ∧ b = a
    write := fun x v a r b => r = .value () ∧ b = a.set x v
    get := fun o k => match o, k with
      | .array, .name s => pure (.method s)
      | _, _ => .unwatched
    set := fun _ _ _ => .unwatched
    delete := fun _ _ => .unwatched
    call := fun _ o f vs => match f, o with
      | .method "push", .array => push vs
      | .method "shift", .array => shift
      | .function f, _ => enter f vs
      | _, _ => .unwatched
    construct := fun _ _ => .unwatched
    perform := fun op vs => match op, vs with
      | .toNumeric, [.constant v] => pure (.constant (.number v.toNumber))
      | .update .increment, [.constant (.number x)] => pure (.constant (.number (x + 1)))
      | .update .decrement, [.constant (.number x)] => pure (.constant (.number (x - 1)))
      | _, _ => .unwatched
    bind := fun _ p v => match p.binding? with
      | some x => fun a r b => r = .value () ∧ b = a.set x v
      | none => .unwatched
    next := fun _ => .unwatched }

/-- The call of a function whose parameters are plain names: they get their values, and the body is
run. -/
def enter (M : Machine Heap Thing) : Func → List Thing → Comp Heap Thing Thing
  | .mk false false _ params _ body, vs => match params.mapM Pat.binding? with
    | some xs => fun a r b =>
      ∃ c, runBody M body (a.setAll xs vs) c b ∧ r = c.answer (.constant .undefined)
    | none => .unwatched
  | _, _ => .unwatched

/-- The host in which functions may be called inside each other so many levels deep. -/
def host : Nat → Host Heap Thing
  | 0 => hostCalling fun _ _ => .unwatched
  | depth + 1 => hostCalling (enter (host depth).machine)

theorem host_eq (depth : Nat) : ∃ call, host depth = hostCalling call := by
  cases depth with
  | zero => exact ⟨_, rfl⟩
  | succ depth => exact ⟨_, rfl⟩

def turned (a : Heap) (n : Nat) : Heap :=
  { a with elements := a.elements.rotate n, pushes := a.pushes + n }

theorem turned_zero (a : Heap) : a.turned 0 = a := by
  simp [turned]

theorem turned_turned (a : Heap) (n m : Nat) : (a.turned n).turned m = a.turned (n + m) := by
  simp [turned, List.rotate_rotate, Nat.add_assoc]

end Heap

/-! ### Acts of the host -/

theorem Host.value_update_name (H : Host ω V) (op : UpdateOp) (before : Bool) (id : Ident) :
    H.value (.update op before (.ident id)) = (do
      let v ← H.read id.binding
      let old ← H.perform .toNumeric [v]
      let new ← H.perform (.update op) [old]
      H.write id.binding new
      return if before then new else old) := by
  simp [value, refer, load, store]

theorem Host.value_call_name (H : Host ω V) (id : Ident) (args : List Expr) :
    H.value (.call (.ident id) args) = (do
      let f ← H.read id.binding
      let vs ← H.values args
      H.call (id.name == "eval") H.undefined f vs) := by
  simp [value, refer, load, Ref.isEval, Ref.receiver, Ident.binding]

namespace Heap

variable {call : Func → List Thing → Comp Heap Thing Thing} {a b : Heap}

theorem endsAt_read (x : Binding) :
    EndsAt ((hostCalling call).read x) a (.value (a.vars x)) a := fun _ _ => Iff.rfl

theorem endsAt_name (h : id.binding = x) :
    EndsAt ((hostCalling call).value (.ident id)) a (.value (a.vars x)) a := by
  rw [value_ident, h]
  exact endsAt_read x

theorem endsAt_update {op : UpdateOp} (hid : id.binding = x) {m : Nat} (hx : a.vars x = .number m)
    (hop : (hostCalling call).perform (.update op) [.number m] = pure (.number n)) :
    EndsAt ((hostCalling call).value (.update op true (.ident id))) a (.value (.number n))
      (a.set x (.number n)) := by
  rw [Host.value_update_name, hid]
  refine (endsAt_read x).bind ?_
  rw [hx]
  refine EndsAt.bind (v := .number m) (fun _ _ => Iff.rfl) ?_
  rw [hop]
  refine (EndsAt.pure _).bind ?_
  refine EndsAt.bind (v := ()) (fun _ _ => Iff.rfl) (EndsAt.pure _)

theorem endsAt_decrement (hid : id.binding = x) (hn : n + 1 ≤ 2 ^ 53)
    (hx : a.vars x = .number (n + 1)) :
    EndsAt ((hostCalling call).value (.update .decrement true (.ident id))) a (.value (.number n))
      (a.set x (.number n)) := by
  refine endsAt_update hid hx ?_
  show pure (Thing.constant (.number (Float.ofNat (n + 1) - 1))) = _
  rw [Number.ofNat_sub_one hn]
  rfl

theorem endsAt_increment (hid : id.binding = x) (hn : n + 1 ≤ 2 ^ 53) (hx : a.vars x = .number n) :
    EndsAt ((hostCalling call).value (.update .increment true (.ident id))) a
      (.value (.number (n + 1))) (a.set x (.number (n + 1))) := by
  refine endsAt_update hid hx ?_
  show pure (Thing.constant (.number (Float.ofNat n + 1))) = _
  rw [Number.ofNat_add_one hn]
  rfl

theorem truthy_number (hn : n ≤ 2 ^ 53) :
    (hostCalling call).machine.truthy (.number n) = decide (n ≠ 0) :=
  Number.toBoolean_ofNat hn

theorem endsAt_turn {i j : Ident} {array : Binding} (hi : i.binding = array)
    (hj : j.binding = array) (harray : a.vars array = .array) (hne : a.elements ≠ []) :
    ∃ v, EndsAt ((hostCalling call).value (.call (.member (.ident i) (.name "push"))
      [.call (.member (.ident j) (.name "shift")) []])) a (.value v) (a.turned 1) := by
  obtain ⟨first, rest, helements⟩ := List.exists_cons_of_ne_nil hne
  have hshift : EndsAt ((hostCalling call).value (.call (.member (.ident j) (.name "shift")) [])) a
      (.value first) { a with elements := rest } := by
    rw [Host.value_call_member]
    refine (endsAt_name hj).bind ?_
    rw [harray]
    refine (EndsAt.pure (Key.name "shift")).bind ((EndsAt.pure (Thing.method "shift")).bind ?_)
    refine (EndsAt.pure []).bind ?_
    intro r b
    show Heap.shift a r b ↔ _
    simp only [Heap.shift, helements, List.headD_cons, List.tail_cons]
  refine ⟨.number (rest ++ [first]).length, ?_⟩
  rw [Host.value_call_member]
  refine (endsAt_name hi).bind ?_
  rw [harray]
  refine (EndsAt.pure (Key.name "push")).bind ((EndsAt.pure (Thing.method "push")).bind ?_)
  refine EndsAt.bind (v := [first]) (m := { a with elements := rest }) ?_ ?_
  · rw [Host.values_cons]
    exact hshift.bind ((EndsAt.pure []).bind (.pure _))
  · intro r b
    show Heap.push [first] { a with elements := rest } r b ↔ _
    simp only [Heap.push, turned, helements, List.rotate_cons_succ, List.rotate_zero]

theorem endsAt_enter {M : Machine Heap Thing} {typeParams : List TypeParam} {params : List Pat}
    {ret : Option TypeExpr} {body : Body} {xs : List Binding} {vs : List Thing}
    (hparams : params.mapM Pat.binding? = some xs)
    (h : EndsAt (runBody M body) (a.setAll xs vs) .normal b) :
    EndsAt (enter M (.mk false false typeParams params ret body) vs) a
      (.value (.constant .undefined)) b := by
  intro r b'
  simp only [enter, hparams]
  constructor
  · rintro ⟨c, hc, rfl⟩
    obtain ⟨rfl, rfl⟩ := (h _ _).1 hc
    exact ⟨rfl, rfl⟩
  · rintro ⟨rfl, rfl⟩
    exact ⟨.normal, (h _ _).2 ⟨rfl, rfl⟩, rfl⟩

end Heap

/-! ### Loops that count down -/

/-- The loop `while (--k) { arr.push(arr.shift()); }`. -/
inductive CountsDown (arr k : Binding) : Stmt → Prop
  | intro {c i j : Ident} (hc : c.binding = k) (hi : i.binding = arr) (hj : j.binding = arr) :
      CountsDown arr k (.while (.update .decrement true (.ident c))
        (.block [.expr (.call (.member (.ident i) (.name "push"))
          [.call (.member (.ident j) (.name "shift")) []])]))

open Heap in
/-- From the number `n + 1` the loop makes `n` turns. -/
theorem CountsDown.endsAt {call : Func → List Thing → Comp Heap Thing Thing} {arr k : Binding}
    {loop : Stmt} (h : CountsDown arr k loop) (hne : arr ≠ k) (hn : n + 1 ≤ 2 ^ 53) {a : Heap}
    (harr : a.vars arr = .array) (hk : a.vars k = .number (n + 1)) (helements : a.elements ≠ []) :
    EndsAt (run (hostCalling call).machine [] loop) a .normal ((a.set k (.number 0)).turned n) := by
  obtain ⟨hc, hi, hj⟩ := h
  induction n generalizing a with
  | zero =>
    rw [turned_zero]
    refine .looping_leave ((endsAt_decrement hc hn hk).succeed ?_)
    rw [truthy_number (by omega)]
    exact fun _ _ => Iff.rfl
  | succ n ih =>
    let m := (a.set k (.number (n + 1))).turned 1
    obtain ⟨v, hturn⟩ := @endsAt_turn call _ _ _ _ hi hj ((a.set_other _ hne).trans harr) helements
    have hrest := ih (a := m) (by omega) ((a.set_other _ hne).trans harr) (a.set_same k _)
      (by simpa [m, turned, Heap.set] using helements)
    have hend : ((m.set k (.number 0)).turned n) = (a.set k (.number 0)).turned (n + 1) := by
      show (((a.set k (.number (n + 1))).set k (.number 0)).turned 1).turned n = _
      rw [set_set, turned_turned, Nat.add_comm]
    rw [← hend]
    refine .looping_again ((endsAt_decrement hc hn hk).succeed ?_) hrest
    rw [truthy_number (by omega)]
    exact ((EndsAt.expr hturn).andThen (.ends .normal)).body fun _ _ => Iff.rfl

/-! ### Functions that are called at once -/

/-- Where the number is counted down: in the function that is called with it, or in one that this
function calls with one more. -/
inductive Counting
  | direct
  | nested
  deriving DecidableEq

/-- How many turns are made for a number. -/
def Counting.turns : Counting → Nat → Nat
  | .direct, n => n - 1
  | .nested, n => n

/-- `function (k) {` a loop `}` -/
def looping (k : Ident) (loop : Stmt) : Func :=
  .mk false false [] [.name (.ofIdent k)] none (.block [loop])

/-- `function (arr, m) { var f = function (k) {` a loop `}; f(++m); }` -/
def starting (arr m f k g c : Ident) (inner : Option Ident) (loop : Stmt) : Func :=
  .mk false false [] [.name (.ofIdent arr), .name (.ofIdent m)] none (.block [
    .decl (.var (.single .var f (some (.func inner (looping k loop))))),
    .expr (.call (.ident g) [.update .increment true (.ident c)])])

/-- A function that is called at once with an array and a number. -/
inductive CountedCall (array : Binding) (n : NumLit) : Counting → Stmt → Prop
  /-- `(function (arr, k) { while (--k) { arr.push(arr.shift()); } })(array, n);` -/
  | direct {e callee x y : Expr} {id arr k : Ident} {name : Option Ident} {loop : Stmt}
      (hcall : e.unparen = .call callee [x, y])
      (hcallee : callee.unparen = .func name (.mk false false []
        [.name (.ofIdent arr), .name (.ofIdent k)] none (.block [loop])))
      (hx : x.unparen = .ident id) (hid : id.binding = array) (hy : y.unparen = .lit (.num n))
      (hloop : CountsDown arr.binding k.binding loop) (hk : arr.binding ≠ k.binding) :
      CountedCall array n .direct (.expr e)
  /-- `(function (arr, m) { var f = function (k) { while (--k) { arr.push(arr.shift()); } };
  f(++m); })(array, n);` -/
  | nested {e callee x y : Expr} {id arr m f k g c : Ident} {name inner : Option Ident}
      {loop : Stmt} (hcall : e.unparen = .call callee [x, y])
      (hcallee : callee.unparen = .func name (starting arr m f k g c inner loop))
      (hx : x.unparen = .ident id) (hid : id.binding = array) (hy : y.unparen = .lit (.num n))
      (hg : g.binding = f.binding) (hc : c.binding = m.binding)
      (hloop : CountsDown arr.binding k.binding loop) (hm : arr.binding ≠ m.binding)
      (hf : f.binding ≠ arr.binding) (hfm : f.binding ≠ m.binding)
      (hk : arr.binding ≠ k.binding) : CountedCall array n .nested (.expr e)

namespace Heap

variable {a b : Heap}

theorem endsAt_immediate {callee x y : Expr} {name : Option Ident} {arr k : Ident} {ss : List Stmt}
    {n : NumLit} {depth : Nat} (hcall : e.unparen = .call callee [x, y])
    (hcallee : callee.unparen = .func name (.mk false false []
      [.name (.ofIdent arr), .name (.ofIdent k)] none (.block ss))) (hx : x.unparen = .ident id)
    (hid : id.binding = array) (hy : y.unparen = .lit (.num n))
    (hbody : EndsAt (runList (host depth).machine [] ss)
      ((a.set arr.binding (a.vars array)).set k.binding (.constant (.number n.value))) .normal b) :
    EndsAt (run (host (depth + 1)).machine [] (.expr e)) a .normal b := by
  have hplain : ∀ e : Expr, e.unparen.isPlain = true → e.isPlain = true := by
    intro e
    induction e using Expr.unparen_induct with
    | paren e ih => exact ih
    | bare e hbare =>
      rw [hbare]
      exact fun h => h
  let func : Func := .mk false false [] [.name (.ofIdent arr), .name (.ofIdent k)] none (.block ss)
  have hfunc : (host (depth + 1)).value callee = pure (.function func) := by
    rw [← Host.value_unparen, hcallee, Host.value_silent _ _ rfl]
    rfl
  refine EndsAt.expr (v := .constant .undefined) ?_
  show EndsAt ((host (depth + 1)).value e) a _ b
  rw [← Host.value_unparen, hcall, Host.value_call_plain _ (hplain callee (by rw [hcallee]; rfl)),
    hfunc]
  refine (EndsAt.pure _).bind ?_
  refine EndsAt.bind (v := [a.vars array, .constant (.number n.value)]) (m := a) ?_ ?_
  · have hlast : EndsAt ((host (depth + 1)).values [y]) a
        (.value [.constant (.number n.value)]) a := by
      rw [Host.values_cons, ← Host.value_unparen, hy, Host.value_silent _ _ rfl]
      exact (EndsAt.pure _).bind ((EndsAt.pure []).bind (.pure _))
    rw [Host.values_cons, ← Host.value_unparen, hx]
    exact (endsAt_name hid).bind (hlast.bind (.pure _))
  · show EndsAt (enter (host depth).machine func [a.vars array, .constant (.number n.value)]) a _ b
    have hparams : [Pat.name (.ofIdent arr), .name (.ofIdent k)].mapM Pat.binding? =
      some [arr.binding, k.binding] := rfl
    exact endsAt_enter hparams hbody

end Heap

open Heap in
/-- **The turns that a counted call makes**: one less than the number if it counts down the number
itself, and as many as the number if it counts down one more. -/
theorem CountedCall.endsAt {n : NumLit} {how : Counting} {s : Stmt} (h : CountedCall array n how s)
    {N : Nat} (hvalue : n.value = Float.ofNat N) (hpos : 1 ≤ N) (hN : N < 2 ^ 53) (depth : Nat)
    {a : Heap} (harray : a.vars array = .array) (helements : a.elements ≠ []) :
    ∃ b, EndsAt (run (host (depth + 2)).machine [] s) a .normal b ∧
      b.elements = a.elements.rotate (how.turns N) ∧ b.pushes = a.pushes + how.turns N := by
  cases h with
  | @direct e callee x y id arr k name loop hcall hcallee hx hid hy hloop hk =>
    obtain ⟨N, rfl⟩ := Nat.exists_eq_succ_of_ne_zero (by omega : N ≠ 0)
    let a₁ := (a.set arr.binding (a.vars array)).set k.binding (.constant (.number n.value))
    have harr : a₁.vars arr.binding = .array :=
      (Heap.set_other _ _ hk).trans ((a.set_same _ _).trans harray)
    have hnumber : a₁.vars k.binding = .number (N + 1) := by
      rw [Heap.set_same, hvalue]
      rfl
    have hrun : EndsAt (run (host (depth + 1)).machine [] loop) a₁ .normal
        ((a₁.set k.binding (.number 0)).turned N) :=
      hloop.endsAt hk (by omega) harr hnumber helements
    exact ⟨_, endsAt_immediate hcall hcallee hx hid hy (hrun.andThen (.ends .normal)), rfl, rfl⟩
  | @nested e callee x y id arr m f k g c name inner loop hcall hcallee hx hid hy hg hc hloop hm hf
      hfm hk =>
    let func := looping k loop
    let a₁ := (a.set arr.binding (a.vars array)).set m.binding (.constant (.number n.value))
    let a₂ := a₁.set f.binding (.function func)
    let a₃ := a₂.set m.binding (.number (N + 1))
    let a₄ := a₃.set k.binding (.number (N + 1))
    have hdecl : EndsAt (run (host (depth + 1)).machine []
        (.decl (.var (.single .var f (some (.func inner func)))))) a₁ .normal a₂ := by
      refine EndsAt.succeed (v := .function func) (m := a₁) ?_ ?_
      · show EndsAt ((host (depth + 1)).value (.func inner func)) a₁ _ _
        rw [Host.value_silent _ _ rfl]
        exact .pure _
      · exact EndsAt.succeed (v := ()) (m := a₂) (fun _ _ => Iff.rfl) (.ends .normal)
    have hcount : EndsAt ((host (depth + 1)).value (.update .increment true (.ident c))) a₂
        (.value (.number (N + 1))) a₃ := by
      refine endsAt_increment hc (by omega) ?_
      rw [Heap.set_other _ _ hfm.symm, Heap.set_same, hvalue]
      rfl
    have hloop₄ : EndsAt (run (host depth).machine [] loop) a₄ .normal
        ((a₄.set k.binding (.number 0)).turned N) := by
      have harr : a₄.vars arr.binding = .array := by
        rw [Heap.set_other _ _ hk, Heap.set_other _ _ hm, Heap.set_other _ _ hf.symm,
          Heap.set_other _ _ hm, Heap.set_same, harray]
      obtain ⟨call, hhost⟩ := host_eq depth
      rw [hhost]
      exact hloop.endsAt hk (by omega) harr (Heap.set_same _ _ _) helements
    have henter : EndsAt (run (host (depth + 1)).machine []
        (.expr (.call (.ident g) [.update .increment true (.ident c)]))) a₂ .normal
        ((a₄.set k.binding (.number 0)).turned N) := by
      refine EndsAt.expr (v := .constant .undefined) ?_
      show EndsAt ((host (depth + 1)).value _) a₂ _ _
      rw [Host.value_call_name]
      refine (endsAt_read _).bind ?_
      rw [hg, Heap.set_same]
      refine EndsAt.bind (v := [.number (N + 1)]) (m := a₃) ?_ ?_
      · rw [Host.values_cons]
        exact hcount.bind ((EndsAt.pure []).bind (.pure _))
      · show EndsAt (enter (host depth).machine func _) a₃ _ _
        have hparams : [Pat.name (.ofIdent k)].mapM Pat.binding? = some [k.binding] := rfl
        exact endsAt_enter hparams (hloop₄.andThen (.ends .normal))
    exact ⟨_, endsAt_immediate hcall hcallee hx hid hy
      (hdecl.andThen (henter.andThen (.ends .normal))), rfl, rfl⟩

end Untangle
