import Untangle.Proofs.DispatcherSteps
import Untangle.Proofs.Jumps
import Untangle.Proofs.StoreExecution

/-!
# Running a dispatcher

A dispatcher reads one key of its order in each turn and runs the case of the key. So its loop runs
the bodies of the cases in the order of the keys, as long as each case asks for the next turn.

The order and the counter are hidden: the cases mention neither, so nothing else sees how far the
counter is.

* `loop_matchAt` — the loop runs alike to the bodies in a row.
-/

namespace Untangle.Pass

open Behaviour

variable {ω V U α : Type}

/-! ### One turn of a dispatcher -/

/-- The turns of a dispatcher: a switch, and then out of the loop. -/
def dispatchTurn (M : Machine ω V) (disc : Expr) (cases : List Case) : Turn ω V :=
  Turn.body [] (run M [] (.block [.switch disc cases, .break none])) Turn.again

/-- What a turn makes of the clauses that the switch has chosen. -/
def closing (d : Behaviour ω V) : Turn ω V :=
  Turn.body [] (andThen (absorbing (· = .break none) d) (ends (.break none))) Turn.again

variable {M : Machine ω V} {cases : List Case} {disc : Expr} {c : Completion V}
  {r : Option (Completion V)} {t : Turn ω V} {key : String} {n : Nat}
  {table : Table String (List Stmt × Bool)}

theorem run_dispatch :
    dispatchTurn M disc cases = Turn.body [] (andThen (after (M.eval disc) fun v =>
      absorbing (· = .break none) (runChosen M [] v (runDefault M [] cases) cases))
      (ends (.break none))) Turn.again := by
  simp [dispatchTurn, run]

theorem absorbing_break_iff {d : Behaviour ω V} {a b : ω} :
    andThen (absorbing (· = .break none) d) (ends (.break none)) a c b ↔
      (c = .break none ∧ (d a .normal b ∨ d a (.break none) b)) ∨
      (c ≠ .normal ∧ c ≠ .break none ∧ d a c b) := by
  constructor
  · rintro (⟨m, ⟨-, c', rfl, hb⟩ | ⟨-, hb⟩, rfl, rfl⟩ | ⟨hc, ⟨rfl, -⟩ | ⟨hc', hb⟩⟩)
    · exact .inl ⟨rfl, .inr hb⟩
    · exact .inl ⟨rfl, .inl hb⟩
    · exact absurd rfl hc
    · exact .inr ⟨hc, hc', hb⟩
  · rintro (⟨rfl, hb | hb⟩ | ⟨hc, hc', hb⟩)
    · exact .inl ⟨b, .inr ⟨by simp, hb⟩, rfl, rfl⟩
    · exact .inl ⟨b, .inl ⟨rfl, _, rfl, hb⟩, rfl, rfl⟩
    · exact .inr ⟨hc, .inr ⟨hc', hb⟩⟩

theorem goesOn_nil_iff : c.GoesOn [] ↔ c = .normal ∨ c = .continue none := by
  match c with
  | .continue none | .normal | .break _ | .continue (some _) | .return _ | .throw _ | .stopped =>
    simp [Completion.GoesOn]

/-- The loop ends where the clauses or the switch do, and goes on where they ask for the next turn. -/
theorem closing_cases {d : Behaviour ω V} {a b : ω} :
    closing d a r b ↔ (r = some .normal ∧ (d a .normal b ∨ d a (.break none) b)) ∨
      (r = none ∧ d a (.continue none) b) ∨
      ∃ c, c ≠ .normal ∧ c ≠ .break none ∧ c ≠ .continue none ∧ d a c b ∧ r = some c := by
  unfold closing Turn.body
  simp only [absorbing_break_iff, goesOn_nil_iff]
  constructor
  · rintro ⟨c, m, ⟨rfl, hm⟩ | ⟨hn, hb, hm⟩, ⟨h, rfl, rfl⟩ | ⟨hc, rfl, rfl⟩⟩
    · rcases h with h | h <;> cases h
    · exact .inl ⟨rfl, hm⟩
    · obtain rfl := h.resolve_left hn
      exact .inr (.inl ⟨rfl, hm⟩)
    · rw [not_or] at hc
      refine .inr (.inr ⟨c, hn, hb, hc.2, hm, ?_⟩)
      match c with
      | .break none => exact absurd rfl hb
      | .break (some _) | .normal | .continue _ | .return _ | .throw _ | .stopped => rfl
  · rintro (⟨rfl, hm⟩ | ⟨rfl, hm⟩ | ⟨c, hn, hb, hc, hm, rfl⟩)
    · exact ⟨.break none, b, .inl ⟨rfl, hm⟩, .inr ⟨by simp, rfl, rfl⟩⟩
    · exact ⟨.continue none, b, .inr ⟨by simp, by simp, hm⟩, .inl ⟨.inr rfl, rfl, rfl⟩⟩
    · refine ⟨c, b, .inr ⟨hn, hb, hm⟩, .inr ⟨by simp [hn, hc], ?_, rfl⟩⟩
      match c with
      | .break none => exact absurd rfl hb
      | .break (some _) | .normal | .continue _ | .return _ | .throw _ | .stopped => rfl

/-- If the clauses have no jump that leaves them, the loop ends as they do. -/
theorem closing_iff {d : Behaviour ω V} (hd : Confined (Completion.Stays false false) d) {a b : ω} :
    closing d a r b ↔ ∃ c, d a c b ∧ r = some c := by
  rw [closing_cases]
  constructor
  · rintro (⟨rfl, h | h⟩ | ⟨rfl, h⟩ | ⟨c, -, -, -, h, rfl⟩)
    · exact ⟨_, h, rfl⟩
    · exact absurd h hd.ne_break
    · exact absurd h hd.ne_continue
    · exact ⟨c, h, rfl⟩
  · rintro ⟨c, h, rfl⟩
    by_cases hn : c = .normal
    · subst hn
      exact .inl ⟨rfl, .inl h⟩
    · refine .inr (.inr ⟨c, hn, ?_, ?_, h, rfl⟩)
      · rintro rfl
        exact hd.ne_break h
      · rintro rfl
        exact hd.ne_continue h

/-- If they ask for the next turn at their end, the loop goes on exactly if they get there. -/
theorem closing_continue_iff {d : Behaviour ω V} (hd : Confined (Completion.Stays false false) d)
    {a b : ω} :
    closing (andThen d (ends (.continue none))) a r b ↔
      (r = none ∧ d a .normal b) ∨ ∃ c, c ≠ .normal ∧ d a c b ∧ r = some c := by
  have hiff : ∀ c, andThen d (ends (.continue none)) a c b ↔
      (c = .continue none ∧ d a .normal b) ∨ (c ≠ .normal ∧ d a c b) := by
    intro c
    constructor
    · rintro (⟨m, hm, rfl, rfl⟩ | ⟨hc, hb⟩)
      · exact .inl ⟨rfl, hm⟩
      · exact .inr ⟨hc, hb⟩
    · rintro (⟨rfl, hm⟩ | ⟨hc, hb⟩)
      · exact .inl ⟨b, hm, rfl, rfl⟩
      · exact .inr ⟨hc, hb⟩
  rw [closing_cases]
  constructor
  · rintro (⟨rfl, h | h⟩ | ⟨rfl, h⟩ | ⟨c, hn, hb, hc, h, rfl⟩)
    · rcases (hiff _).1 h with ⟨h, -⟩ | ⟨h, -⟩
      · cases h
      · exact absurd rfl h
    · rcases (hiff _).1 h with ⟨h, -⟩ | ⟨-, h⟩
      · cases h
      · exact absurd h hd.ne_break
    · rcases (hiff _).1 h with ⟨-, h⟩ | ⟨-, h⟩
      · exact .inl ⟨rfl, h⟩
      · exact absurd h hd.ne_continue
    · rcases (hiff _).1 h with ⟨h, -⟩ | ⟨-, h⟩
      · exact absurd h hc
      · exact .inr ⟨c, hn, h, rfl⟩
  · rintro (⟨rfl, h⟩ | ⟨c, hn, h, rfl⟩)
    · exact .inr (.inl ⟨rfl, (hiff _).2 (.inl ⟨rfl, h⟩)⟩)
    · refine .inr (.inr ⟨c, hn, ?_, ?_, (hiff _).2 (.inr ⟨hn, h⟩), rfl⟩)
      · rintro rfl
        exact hd.ne_break h
      · rintro rfl
        exact hd.ne_continue h

theorem looping_iff {a b : ω} :
    Looping t a c b ↔ t a (some c) b ∨ ∃ m, t a none m ∧ Looping t m c b := by
  constructor
  · rintro (h | ⟨hm, hb⟩)
    · exact .inl h
    · exact .inr ⟨_, hm, hb⟩
  · rintro (h | ⟨m, hm, hb⟩)
    · exact .leave h
    · exact .again hm hb

/-! ### Choosing a case -/

section Choosing

variable (W : Setting U) {hidden : List Binding} {a b : Store U}

/-- An order at some place: the list of keys, and a counter that may still change. -/
structure Ready (order counter : Binding) (keys : List String) (n : Nat) (a : Store U) : Prop where
  list : (a.cells order).value.shape = .list keys
  index : (a.cells counter).value.shape = .whole n
  isVariable : (a.cells counter).isConst = false

/-- The counter after the key at some place was read. -/
def counted (n : Nat) : Cell U :=
  { value := { truth := true, shape := .whole (n + 1) }, isConst := false }

variable {counter order : Binding} {keys : List String} {s : String} {v : Val U}

/-- What reads the next key is known neither by itself nor as a text to split. -/
theorem readNext_unknown {e : Expr} (h : readNext? e = some (order, counter)) :
    W.value? e = none ∧ e.splitCall? = none := by
  unfold readNext? at h
  split at h
  · rename_i obj key he
    simp [Setting.value?, Expr.shape?, Expr.text?, Expr.whole?, Expr.number?, Expr.texts?,
      truthiness?, evaluate?, evaluateAt?, Expr.splitCall?, he]
  · cases h

theorem eval_readNext {e : Expr} (h : readNext? e = some (order, counter)) :
    (W.machine hidden).eval e = W.reads hidden e order counter := by
  obtain ⟨hv, hs⟩ := readNext_unknown W h
  funext a r b
  simp [Setting.machine, hv, hs, h]

theorem eval_ready (hread : readNext? disc = some (order, counter))
    (ha : Ready order counter keys n a) {r : Answer (Val U) (Val U)} :
    (W.machine hidden).eval disc a r b ↔
      r = .value (elementAt keys n) ∧ b = a.set counter (counted n) := by
  rw [eval_readNext W hread]
  simp [Setting.reads, ha.list, ha.index, ha.isVariable, counted]

theorem dispatchTurn_ready (hread : readNext? disc = some (order, counter))
    (ha : Ready order counter keys n a) {r : Option (Completion (Val U))} :
    dispatchTurn (W.machine hidden) disc cases a r b ↔
      closing (runChosen (W.machine hidden) [] (elementAt keys n)
        (runDefault (W.machine hidden) [] cases) cases) (a.set counter (counted n)) r b := by
  have hafter : ∀ (k : Val U → Behaviour (Store U) (Val U)) c m,
      after ((W.machine hidden).eval disc) k a c m ↔
        k (elementAt keys n) (a.set counter (counted n)) c m := by
    intro k c m
    simp [after, succeed, eval_ready W hread ha, and_assoc]
  simp only [run_dispatch, closing, Turn.body, andThen, hafter]

theorem eval_text (hidden : List Binding) {e : Expr} (h : e.text? = some s) :
    ∃ t, ∀ a r b, (W.machine hidden).eval e a r b ↔ r = .value ⟨t, .text s⟩ ∧ b = a := by
  refine ⟨(truthiness? e).getD true, fun a r b => ?_⟩
  have hv : W.value? e = some ⟨(truthiness? e).getD true, .text s⟩ := by
    simp [Setting.value?, Expr.shape?, h]
  simp [Setting.machine, hv]

theorem caseKey_text {e : Expr} (h : e.text? = some s) (hkey : caseKey? e = some key) :
    s = key := by
  unfold Expr.text? at h
  split at h
  · rename_i he
    simp only [caseKey?, he] at hkey
    exact Option.some_inj.1 (h.symm.trans hkey)
  · cases h

/-- All tests of the clauses are string literals. -/
def TextTests (cases : List Case) : Prop :=
  ∀ test body, .mk test body ∈ cases → ∃ e s, test = some e ∧ e.text? = some s

theorem runChosen_undefined (hcases : TextTests cases) (hv : v.shape = .undefined)
    (d : Behaviour (Store U) (Val U)) : runChosen (W.machine hidden) [] v d cases = d := by
  induction cases with
  | nil => rfl
  | cons c cases ih =>
    obtain ⟨test, body⟩ := c
    obtain ⟨e, s, rfl, hs⟩ := hcases test body (by simp)
    obtain ⟨t, ht⟩ := eval_text W hidden hs
    have hsame : (W.machine hidden).same v ⟨t, .text s⟩ = false := by
      simp [Setting.machine, Setting.isSame, hv]
    rw [runChosen, after_silent ht, hsame]
    exact ih fun test body h => hcases test body (by simp [h])

theorem runChosen_text (hidden : List Binding) (htable : caseTable? cases = some table)
    (hcases : TextTests cases) (hv : v.shape = .text key) (d : Behaviour (Store U) (Val U)) :
    match table.find? key with
    | none => runChosen (W.machine hidden) [] v d cases = d
    | some (body, isLast) => ∃ rest, (isLast = true → rest = []) ∧
        runChosen (W.machine hidden) [] v d cases =
          andThen (runList (W.machine hidden) [] body) (runClauses (W.machine hidden) [] rest) := by
  induction cases generalizing table with
  | nil =>
    cases htable
    rfl
  | cons c cases ih =>
    obtain ⟨test, body⟩ := c
    obtain ⟨e, s, rfl, hs⟩ := hcases test body (by simp)
    obtain ⟨k, rest, hk, hrest, -, rfl⟩ := caseTable?_cons htable
    obtain rfl := caseKey_text hs hk
    obtain ⟨t, ht⟩ := eval_text W hidden hs
    have hsame : (W.machine hidden).same v ⟨t, .text s⟩ = (key == s) := by
      simp [Setting.machine, Setting.isSame, hv]
    have hrec := ih hrest fun test body h => hcases test body (by simp [h])
    simp only [runChosen, after_silent ht, hsame, Table.find?, List.lookup_cons]
    cases hks : key == s with
    | true => exact ⟨cases, fun h => by simpa using h, rfl⟩
    | false => exact hrec

theorem runDefault_none {labels : List String} (hcases : TextTests cases) :
    runDefault M labels cases = ends .normal := by
  induction cases with
  | nil => rfl
  | cons c cases ih =>
    obtain ⟨test, body⟩ := c
    obtain ⟨e, s, rfl, hs⟩ := hcases test body (by simp)
    exact ih fun test body h => hcases test body (by simp [h])

end Choosing

/-! ### The whole loop -/

/-- From these two states the two run alike, up to the hidden variables. -/
def MatchAt (hidden : List Binding) (d : Behaviour (Store U) V) (a : Store U)
    (d' : Behaviour (Store U) V) (a' : Store U) : Prop :=
  (∀ c b, d a c b → ∃ b', d' a' c b' ∧ b.SameBut hidden b') ∧
  ∀ c b', d' a' c b' → ∃ b, d a c b ∧ b.SameBut hidden b'

namespace MatchAt

variable {hidden : List Binding} {cells : Binding → Cell U} {a a' : Store U}
  {d e d' e' : Behaviour (Store U) V}

theorem of_matches (h : Matches (Store.Hiding hidden cells) d d')
    (ha : Store.Hiding hidden cells a a') : MatchAt hidden d a d' a' := by
  constructor
  · intro c b hb
    obtain ⟨b', hb', h'⟩ := h.1 ha hb
    exact ⟨b', hb', h'.1⟩
  · intro c b' hb'
    obtain ⟨b, hb, h'⟩ := h.2 ha hb'
    exact ⟨b, hb, h'.1⟩

theorem congr {m : Store U} (hd : ∀ c b, d a c b ↔ e m c b) (h : MatchAt hidden e m d' a') :
    MatchAt hidden d a d' a' :=
  ⟨fun c b hb => h.1 c b ((hd c b).1 hb), fun c b' hb' =>
    let ⟨b, hb, hsame⟩ := h.2 c b' hb'
    ⟨b, (hd c b).2 hb, hsame⟩⟩

/-- What runs alike and leaves the hidden variables alone may be followed by what runs alike given
these. -/
theorem andThen (hd : Matches (Store.Hiding hidden cells) d d')
    (ha : Store.Hiding hidden cells a a')
    (he : ∀ m m', Store.Hiding hidden cells m m' → MatchAt hidden e m e' m') :
    MatchAt hidden (andThen d e) a (andThen d' e') a' := by
  constructor
  · rintro c b (⟨m, hm, hb⟩ | ⟨hc, hb⟩)
    · obtain ⟨m', hm', hmm'⟩ := hd.1 ha hm
      obtain ⟨b', hb', hsame⟩ := (he m m' hmm').1 c b hb
      exact ⟨b', .inl ⟨m', hm', hb'⟩, hsame⟩
    · obtain ⟨b', hb', h'⟩ := hd.1 ha hb
      exact ⟨b', .inr ⟨hc, hb'⟩, h'.1⟩
  · rintro c b' (⟨m', hm', hb'⟩ | ⟨hc, hb'⟩)
    · obtain ⟨m, hm, hmm'⟩ := hd.2 ha hm'
      obtain ⟨b, hb, hsame⟩ := (he m m' hmm').2 c b' hb'
      exact ⟨b, .inl ⟨m, hm, hb⟩, hsame⟩
    · obtain ⟨b, hb, h'⟩ := hd.2 ha hb'
      exact ⟨b, .inr ⟨hc, hb⟩, h'.1⟩

end MatchAt

section Loop

variable {M : Machine ω V}

variable {m : ω} {body : List Stmt} {exit : Exit} {isLast : Bool} {x : Binding} {a a' : Store U}

theorem looping_settled {d : Behaviour ω V} {a : ω}
    (ht : ∀ r b, t a r b ↔ ∃ c, d m c b ∧ r = some c) (c : Completion V) (b : ω) :
    Looping t a c b ↔ d m c b := by
  rw [looping_iff]
  simp [ht]

/-- A loop whose turn goes on if it ends normally runs the turn and then the loop. -/
theorem looping_next {d : Behaviour ω V} {a : ω}
    (ht : ∀ r b, t a r b ↔ (r = none ∧ d m .normal b) ∨ ∃ c, c ≠ .normal ∧ d m c b ∧ r = some c)
    (c : Completion V) (b : ω) : Looping t a c b ↔ andThen d (Looping t) m c b := by
  rw [looping_iff]
  simp only [ht, andThen]
  constructor
  · rintro ((⟨h, -⟩ | ⟨c', hc, hb, h⟩) | ⟨n, ⟨-, hn⟩ | ⟨c', -, -, h⟩, hb⟩)
    · cases h
    · cases h
      exact .inr ⟨hc, hb⟩
    · exact .inl ⟨n, hn, hb⟩
    · cases h
  · rintro (⟨n, hn, hb⟩ | ⟨hc, hb⟩)
    · exact .inr ⟨n, .inl ⟨trivial, hn⟩, hb⟩
    · exact .inl (.inr ⟨c, hc, hb, rfl⟩)

theorem exit_cases (h : exit? body isLast = some exit) :
    (exit = .next ∧ body = bodyOf body exit ++ [.continue none]) ∨
    (exit ≠ .next ∧ bodyOf body exit = body ∧ (body.any isJump = true ∨ isLast = true)) := by
  unfold exit? at h
  split at h
  · rename_i hlast
    cases h
    refine .inl ⟨rfl, ?_⟩
    rw [List.getLast?_eq_some_iff] at hlast
    obtain ⟨pre, rfl⟩ := hlast
    simp [bodyOf]
  · rename_i hlast
    cases h
    exact .inr ⟨by simp, rfl, .inl (List.any_eq_true.2 ⟨_, List.mem_of_getLast? hlast, rfl⟩)⟩
  · rename_i hlast
    cases h
    exact .inr ⟨by simp, rfl, .inl (List.any_eq_true.2 ⟨_, List.mem_of_getLast? hlast, rfl⟩)⟩
  · split at h
    · rename_i hl
      cases h
      exact .inr ⟨by simp, rfl, .inr hl⟩
    · cases h

theorem runClause_eq {rest : List Case} (h : exit? body isLast = some exit)
    (hrest : isLast = true → rest = []) :
    andThen (runList M [] body) (runClauses M [] rest) =
      if exit = .next then andThen (runList M [] (bodyOf body exit)) (ends (.continue none))
      else runList M [] (bodyOf body exit) := by
  rcases exit_cases h with ⟨rfl, hbody⟩ | ⟨hne, hbody, hjump | hlast⟩
  · rw [if_pos rfl, hbody, andThen_of_abrupt (runList_jump_abrupt (by simp [isJump])),
      runList_append]
    simp [← hbody, run]
  · rw [if_neg hne, hbody, andThen_of_abrupt (runList_jump_abrupt hjump)]
  · rw [if_neg hne, hbody, hrest hlast]
    simp [runClauses]

theorem dropLast_mentions (ss : List Stmt) (hx : x ∈ mentionsOf (outlineStmts ss.dropLast)) :
    x ∈ mentionsOf (outlineStmts ss) := by
  rcases List.eq_nil_or_concat ss with rfl | ⟨ss, s, rfl⟩
  · exact hx
  · simp_all

theorem bodyOf_mentions (hx : x ∈ mentionsOf (outlineStmts (bodyOf body exit))) :
    x ∈ mentionsOf (outlineStmts body) := by
  cases exit with
  | next => exact dropLast_mentions body hx
  | leave => exact hx
  | finish => exact hx

theorem table_mentions (htable : caseTable? cases = some table)
    (hfind : table.find? key = some (body, isLast)) (hx : x ∈ mentionsOf (outlineStmts body)) :
    x ∈ mentionsOf (outlineCases cases) := by
  obtain ⟨c, hc, -, rfl⟩ := caseTable?_find htable hfind
  clear htable hfind
  induction cases with
  | nil => cases hc
  | cons c' cases ih =>
    rcases List.mem_cons.1 hc with rfl | hc
    · obtain ⟨_ | test, body⟩ := c <;> simp_all [outlineCases, outlineCase, Case.body]
    · simp [outlineCases, ih hc]

variable (W : Setting U) {hidden : List Binding} {order counter : Binding} {disc : Expr}
  {cases : List Case} {table : Table String (List Stmt × Bool)} {keys : List String}

theorem counted_hiding (hcounter : counter ∈ hidden) (h : a.SameBut hidden a') :
    Store.Hiding hidden (a.set counter (counted n)).cells (a.set counter (counted n)) a' :=
  ⟨(Store.SameBut.set hcounter _).trans h, fun _ _ => rfl⟩

section Turns

variable (hread : readNext? disc = some (order, counter)) (hcounter : counter ∈ hidden)
  (ha : Ready order counter keys n a) (haa' : a.SameBut hidden a')
  (hstray : hasStrayJump body = false) (hm : ∀ x ∈ mentionsOf (outlineStmts body), x ∉ hidden)

include hread hcounter ha haa' hstray hm

theorem loop_leaves (hchosen : runChosen (W.machine hidden) [] (elementAt keys n)
    (runDefault (W.machine hidden) [] cases) cases = runList (W.machine hidden) [] body) :
    MatchAt hidden (Looping (dispatchTurn (W.machine hidden) disc cases)) a
      (runList (W.machine hidden) [] body) a' := by
  have hturn : ∀ r b, dispatchTurn (W.machine hidden) disc cases a r b ↔
      ∃ c, runList (W.machine hidden) [] body (a.set counter (counted n)) c b ∧ r = some c := by
    intro r b
    rw [dispatchTurn_ready W hread ha, hchosen]
    exact closing_iff (runList_stays body hstray)
  exact .congr (looping_settled hturn)
    (.of_matches (runList_hiding W hm) (counted_hiding hcounter haa'))

theorem loop_goes_on (horder : order ∈ hidden) (hne : order ≠ counter) {rest : List Stmt}
    (hchosen : runChosen (W.machine hidden) [] (elementAt keys n)
      (runDefault (W.machine hidden) [] cases) cases =
        andThen (runList (W.machine hidden) [] body) (ends (.continue none)))
    (hrest : ∀ m m', Ready order counter keys (n + 1) m → m.SameBut hidden m' →
      MatchAt hidden (Looping (dispatchTurn (W.machine hidden) disc cases)) m
        (runList (W.machine hidden) [] rest) m') :
    MatchAt hidden (Looping (dispatchTurn (W.machine hidden) disc cases)) a
      (runList (W.machine hidden) [] (body ++ rest)) a' := by
  have hturn : ∀ r b, dispatchTurn (W.machine hidden) disc cases a r b ↔
      (r = none ∧ runList (W.machine hidden) [] body (a.set counter (counted n)) .normal b) ∨
      ∃ c, c ≠ .normal ∧ runList (W.machine hidden) [] body (a.set counter (counted n)) c b ∧
        r = some c := by
    intro r b
    rw [dispatchTurn_ready W hread ha, hchosen]
    exact closing_continue_iff (runList_stays body hstray)
  rw [runList_append]
  refine .congr (looping_next hturn)
    (.andThen (runList_hiding W hm) (counted_hiding hcounter haa') fun m m' hmm' => ?_)
  refine hrest m m' ⟨?_, ?_, ?_⟩ hmm'.1
  · simp [hmm'.2 order horder, Store.set, hne, ha.list]
  · simp [hmm'.2 counter hcounter, Store.set, counted]
  · simp [hmm'.2 counter hcounter, Store.set, counted]

end Turns

theorem drop_eq_cons {ks rest : List α} {k : α} (h : ks.drop n = k :: rest) :
    ks[n]? = some k ∧ ks.drop (n + 1) = rest := by
  constructor
  · have hget : (ks.drop n)[0]? = ks[n + 0]? := List.getElem?_drop
    simpa [h] using hget.symm
  · rw [← List.tail_drop, h]
    rfl

/-- The loop from some place in the order on runs alike to the bodies of the cases in a row. The
induction is on the keys still to come; each turn reads one. -/
theorem loop_matchAt (hread : readNext? disc = some (order, counter))
    (htable : caseTable? cases = some table) (htests : TextTests cases) (horder : order ∈ hidden)
    (hcounter : counter ∈ hidden) (hne : order ≠ counter)
    (hm : ∀ x ∈ mentionsOf (outlineCases cases), x ∉ hidden) :
    ∀ (ks seen : List String) (steps : List Step) (n : Nat) (a a' : Store U),
      steps? table ks seen = some steps → keys.drop n = ks → Ready order counter keys n a →
      a.SameBut hidden a' →
      MatchAt hidden (Looping (dispatchTurn (W.machine hidden) disc cases)) a
        (runList (W.machine hidden) [] (steps.flatMap fun s => bodyOf s.body s.exit)) a' := by
  intro ks
  have hdefault : runDefault (W.machine hidden) [] cases = runList (W.machine hidden) [] [] :=
    runDefault_none htests
  induction ks with
  | nil =>
    intro seen steps n a a' hsteps hks ha haa'
    cases hsteps
    have hkey : keys[n]? = none := by simpa using hks
    refine loop_leaves W hread hcounter ha haa' rfl (by simp [outlineStmts]) ?_
    rw [runChosen_undefined W htests (by simp [elementAt, hkey]), hdefault]
    rfl
  | cons key ks ih =>
    intro seen steps n a a' hsteps hks ha haa'
    obtain ⟨hkey, hdrop⟩ := drop_eq_cons hks
    have hchosen := runChosen_text W hidden htable htests
      (show (elementAt keys n : Val U).shape = .text key by simp [elementAt, hkey])
      (runDefault (W.machine hidden) [] cases)
    unfold steps? at hsteps
    split at hsteps
    · cases hsteps
    · split at hsteps
      · rename_i hfind
        cases hsteps
        rw [hfind] at hchosen
        exact loop_leaves W hread hcounter ha haa' rfl (by simp [outlineStmts])
          (hchosen.trans hdefault)
      · rename_i body isLast hfind
        rw [hfind] at hchosen
        obtain ⟨rest, hlast, hchosen⟩ := hchosen
        simp only [Option.bind_eq_bind, Option.bind_eq_some_iff] at hsteps
        obtain ⟨exit, hexit, hsteps⟩ := hsteps
        rw [runClause_eq hexit hlast] at hchosen
        have hbody : ∀ x ∈ mentionsOf (outlineStmts (bodyOf body exit)), x ∉ hidden := fun x hx =>
          hm x (table_mentions htable hfind (bodyOf_mentions hx))
        split at hsteps
        · cases hsteps
        · rename_i hstray
          split at hsteps
          · rename_i hnext
            obtain ⟨more, hmore, hsteps⟩ := Option.bind_eq_some_iff.1 hsteps
            cases hsteps
            rw [if_pos (by simpa using hnext)] at hchosen
            exact loop_goes_on W hread hcounter ha haa' (by simpa using hstray) hbody horder hne
              hchosen fun m m' hready hsame => ih _ _ _ _ _ hmore hdrop hready hsame
          · rename_i hnext
            cases hsteps
            rw [if_neg (by simpa using hnext)] at hchosen
            simpa using loop_leaves W hread hcounter ha haa' (by simpa using hstray) hbody hchosen

end Loop

end Untangle.Pass
