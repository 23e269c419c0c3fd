import Untangle.Pass.Dispatcher

/-!
# The steps of a plan

A plan goes through the keys of an order one by one and takes the case that the table of cases has for
each. It ends with the keys, at a key without a case, or at a case that leaves the loop.

* `steps?_walks` — the steps of a plan are such a walk (`Walks`).
-/

namespace Untangle

def Case.key? : Case → Option String
  | .mk test _ => test.bind Pass.caseKey?

def Case.body : Case → List Stmt
  | .mk _ body => body

namespace Pass

variable {cases : List Case} {table : Table String (List Stmt × Bool)}

/-! ### The table of cases -/

variable {c : Case} {key : String} {keys : List String} {steps : List Step}

theorem caseTable?_cons (h : caseTable? (c :: cases) = some table) :
    ∃ key rest, c.key? = some key ∧ caseTable? cases = some rest ∧ rest.has key = false ∧
      table = (key, c.body, cases.isEmpty) :: rest := by
  obtain ⟨test, body⟩ := c
  simp only [caseTable?, Option.bind_eq_bind, Option.bind_eq_some_iff] at h
  obtain ⟨e, rfl, key, hkey, rest, hrest, h⟩ := h
  split at h
  · cases h
  · rename_i hnew
    cases h
    exact ⟨key, rest, hkey, hrest, by simpa using hnew, rfl⟩

theorem caseTable?_find (h : caseTable? cases = some table) {body : List Stmt} {isLast : Bool}
    (hfind : table.find? key = some (body, isLast)) :
    ∃ c ∈ cases, c.key? = some key ∧ c.body = body := by
  induction cases generalizing table with
  | nil =>
    cases h
    cases hfind
  | cons c cases ih =>
    obtain ⟨k, rest, hk, hrest, -, rfl⟩ := caseTable?_cons h
    rw [Table.find?, List.lookup_cons] at hfind
    split at hfind
    · rename_i heq
      cases hfind
      obtain rfl := beq_iff_eq.1 heq
      exact ⟨c, List.mem_cons_self, hk, rfl⟩
    · obtain ⟨c', hc', hkey, hbody⟩ := ih hrest hfind
      exact ⟨c', List.mem_cons_of_mem c hc', hkey, hbody⟩

theorem caseTable?_mem (h : caseTable? cases = some table) (hc : c ∈ cases) :
    ∃ key isLast, c.key? = some key ∧ table.find? key = some (c.body, isLast) := by
  induction cases generalizing table with
  | nil => cases hc
  | cons c' cases ih =>
    obtain ⟨k, rest, hk, hrest, hnew, rfl⟩ := caseTable?_cons h
    rcases List.mem_cons.1 hc with rfl | hc
    · exact ⟨k, cases.isEmpty, hk, by simp [Table.find?]⟩
    · obtain ⟨key, isLast, hkey, hfind⟩ := ih hrest hc
      refine ⟨key, isLast, hkey, ?_⟩
      -- the keys differ, as the table has no key twice
      have hne : (key == k) = false := by
        apply beq_eq_false_iff_ne.2
        rintro rfl
        simp [Table.has, hfind] at hnew
      rw [Table.find?, List.lookup_cons, hne]
      exact hfind

/-! ### Going through the keys -/

/-- The ways to go through some keys. -/
inductive Walks (table : Table String (List Stmt × Bool)) : List String → List Step → Prop
  /-- There are no more keys. -/
  | done : Walks table [] []
  /-- There is no case for the next key. -/
  | unknown {key : String} {keys : List String} : table.find? key = none →
    Walks table (key :: keys) []
  /-- The case for the next key leaves the loop. -/
  | last {key : String} {keys : List String} {body : List Stmt} {isLast : Bool} {exit : Exit} :
    table.find? key = some (body, isLast) → exit? body isLast = some exit → exit ≠ .next →
    Walks table (key :: keys) [{ body, exit }]
  /-- The case for the next key asks for the key after it. -/
  | next {key : String} {keys : List String} {body : List Stmt} {isLast : Bool}
    {steps : List Step} : table.find? key = some (body, isLast) →
    exit? body isLast = some .next → Walks table keys steps →
    Walks table (key :: keys) ({ body, exit := .next } :: steps)

theorem steps?_walks {seen : List String} (h : steps? table keys seen = some steps) :
    Walks table keys steps := by
  induction keys generalizing seen steps with
  | nil =>
    cases h
    exact .done
  | cons key keys ih =>
    unfold steps? at h
    split at h
    · cases h
    · split at h
      · rename_i hfind
        cases h
        exact .unknown hfind
      · rename_i body isLast hfind
        simp only [Option.bind_eq_bind, Option.bind_eq_some_iff] at h
        obtain ⟨exit, hexit, h⟩ := h
        split at h
        · cases h
        · split at h
          · rename_i hnext
            obtain ⟨rest, hrest, h⟩ := Option.bind_eq_some_iff.1 h
            cases h
            obtain rfl := beq_iff_eq.1 hnext
            exact .next hfind hexit (ih hrest)
          · rename_i hnext
            cases h
            exact .last hfind hexit (by simpa using hnext)

theorem Walks.step (h : Walks table keys steps) {k : Nat} {s : Step} (hs : steps[k]? = some s) :
    ∃ key isLast, keys[k]? = some key ∧
      table.find? key = some (s.body, isLast) ∧ exit? s.body isLast = some s.exit := by
  induction h generalizing k with
  | done | unknown => simp at hs
  | @last key keys body isLast exit hfind hexit hne =>
    cases k with
    | zero =>
      cases hs
      exact ⟨key, isLast, rfl, hfind, hexit⟩
    | succ k => simp at hs
  | @next key keys body isLast steps hfind hexit _ ih =>
    cases k with
    | zero =>
      cases hs
      exact ⟨key, isLast, rfl, hfind, hexit⟩
    | succ k => exact ih hs

theorem Walks.ends (h : Walks table keys steps)
    (hlast : ∀ s, steps.getLast? = some s → s.exit = .next) (hkey : keys[steps.length]? = some key) :
    table.find? key = none := by
  induction h with
  | done => cases hkey
  | unknown hfind =>
    cases hkey
    exact hfind
  | last hfind hexit hne => exact absurd (hlast _ rfl) hne
  | @next key' keys body isLast steps hfind hexit hwalks ih =>
    apply ih _ hkey
    intro s hs
    apply hlast
    rw [List.getLast?_cons, hs]
    rfl

theorem Walks.visited (h : Walks table keys steps) (hkey : key ∈ keys.take steps.length) :
    ∃ s ∈ steps, ∃ isLast,
      table.find? key = some (s.body, isLast) ∧ exit? s.body isLast = some s.exit := by
  obtain ⟨k, hk⟩ := List.mem_iff_getElem?.1 hkey
  rw [List.getElem?_take] at hk
  split at hk
  · rename_i hlt
    obtain ⟨key', isLast, hkey', hfind, hexit⟩ := h.step (List.getElem?_eq_getElem hlt)
    cases hk.symm.trans hkey'
    exact ⟨steps[k], List.getElem_mem hlt, isLast, hfind, hexit⟩
  · cases hk

end Pass

end Untangle
