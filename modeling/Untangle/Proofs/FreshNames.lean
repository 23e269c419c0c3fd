import Mathlib.Data.List.Nodup
import Mathlib.Data.List.Perm.Subperm
import Untangle.Pass.Rename

/-!
# New names are new

* `Namer.fresh_first` — a namer hands out the first name that is neither taken nor reserved. It tries
  one number more than there are names to avoid, and no two numbers make the same name.
* `newNames_names` — the new names of variables are such names.
-/

namespace Untangle.Pass

/-- A number can be read off its digits, so the names of different numbers differ. -/
theorem numberedName_injective (hint : String) : Function.Injective (numberedName hint) := by
  intro i k h
  have hdigits : Nat.toDigits 10 i = Nat.toDigits 10 k := by
    simpa [numberedName, Nat.toString_eq_ofList_toDigits] using congrArg String.toList h
  rw [← Nat.ofDigitChars_ten_toDigits (n := i), hdigits, Nat.ofDigitChars_ten_toDigits]

/-- Refused names are taken or reserved. -/
theorem Namer.mem_of_refuses {n : Namer} {name : String} (h : n.refuses name = true) :
    name ∈ n.taken ++ reservedNames := by
  simpa [Namer.refuses, isReservedName] using h

/-- The numbers before the one that is found were refused, and it was not, unless it is the last that
is tried. -/
theorem Namer.seek_first (n : Namer) (hint : String) (fuel k : Nat) :
    ∃ i ≤ fuel, n.seek hint fuel k = k + 1 + i ∧
      (∀ j < i, n.refuses (numberedName hint (k + 1 + j)) = true) ∧
      (i < fuel → n.refuses (numberedName hint (k + 1 + i)) = false) := by
  induction fuel generalizing k with
  | zero => exact ⟨0, Nat.le_refl 0, rfl, nofun, nofun⟩
  | succ fuel ih =>
    unfold Namer.seek
    by_cases hfirst : n.refuses (numberedName hint (k + 1)) = true
    · obtain ⟨i, hi, hfound, hbefore, hfree⟩ := ih (k + 1)
      have hmove (j : Nat) : k + 1 + 1 + j = k + 1 + (j + 1) := by omega
      rw [if_pos hfirst]
      simp only [hmove] at hfound hbefore hfree
      refine ⟨i + 1, Nat.succ_le_succ hi, hfound, fun j hj => ?_, fun h => hfree (by omega)⟩
      rcases j with _ | j
      · exact hfirst
      · exact hbefore j (Nat.lt_of_succ_lt_succ hj)
    · rw [if_neg hfirst]
      exact ⟨0, Nat.zero_le _, rfl, nofun, fun _ => Bool.eq_false_iff.2 hfirst⟩

/-- Not all numbers can be refused: that would be one name more than there are to avoid. -/
theorem Namer.exists_free (n : Namer) (hint : String) (k : Nat) :
    ∃ i ≤ n.taken.length + reservedNames.length,
      n.refuses (numberedName hint (k + 1 + i)) = false := by
  by_contra hnone
  have hall : ∀ i ≤ n.taken.length + reservedNames.length,
      n.refuses (numberedName hint (k + 1 + i)) = true := by
    intro i hi
    by_contra h
    exact hnone ⟨i, hi, by simpa using h⟩
  let tried := (List.range (n.taken.length + reservedNames.length + 1)).map fun i =>
    numberedName hint (k + 1 + i)
  have hnodup : tried.Nodup := by
    refine List.Nodup.map (fun i i' h => ?_) List.nodup_range
    exact Nat.add_left_cancel (numberedName_injective hint h)
  have hsub : tried ⊆ n.taken ++ reservedNames := by
    intro name hname
    obtain ⟨i, hi, rfl⟩ := List.mem_map.1 hname
    exact mem_of_refuses (hall i (Nat.le_of_lt_succ (List.mem_range.1 hi)))
  have hlength := (hnodup.subperm hsub).length_le
  simp only [tried, List.length_map, List.length_range, List.length_append] at hlength
  omega

/-- The names tried for a hint in turn: the hint, then the hint with each number after the last one
used. -/
def Namer.candidate (n : Namer) (hint : String) : Nat → String
  | 0 => hint
  | i + 1 => numberedName hint ((n.numbers.find? hint).getD 0 + 1 + i)

/-- The first name tried that is not refused is handed out. There is one, so the search ends. -/
theorem Namer.fresh_first (n : Namer) (hint : String) :
    ∃ i, (n.fresh hint).1 = n.candidate hint i ∧ n.refuses (n.candidate hint i) = false ∧
      ∀ j < i, n.refuses (n.candidate hint j) = true := by
  unfold Namer.fresh
  by_cases hhint : n.refuses hint = true
  · obtain ⟨i, hi, hfound, hbefore, hfree⟩ := n.seek_first hint
      (n.taken.length + reservedNames.length) ((n.numbers.find? hint).getD 0)
    obtain ⟨l, hl, hlfree⟩ := n.exists_free hint ((n.numbers.find? hint).getD 0)
    simp only [if_pos hhint, hfound]
    refine ⟨i + 1, rfl, ?_, fun j hj => ?_⟩
    · -- the free number is not before the one found, which is it or was seen to be free
      rcases Nat.lt_or_ge i (n.taken.length + reservedNames.length) with hlt | hge
      · exact hfree hlt
      · have hli : ¬ l < i := fun h => by simp [hbefore l h] at hlfree
        obtain rfl : l = i := by omega
        exact hlfree
    · rcases j with _ | j
      · exact hhint
      · exact hbefore j (Nat.lt_of_succ_lt_succ hj)
  · simp only [if_neg hhint]
    exact ⟨0, rfl, Bool.eq_false_iff.2 hhint, nofun⟩

/-- The name handed out is free. -/
theorem Namer.fresh_free (n : Namer) (hint : String) :
    (n.fresh hint).1 ∉ n.taken ∧ isReservedName (n.fresh hint).1 = false := by
  obtain ⟨i, hname, hfree, -⟩ := n.fresh_first hint
  rw [← hname, Namer.refuses, Bool.or_eq_false_iff] at hfree
  exact ⟨by simpa using hfree.1, hfree.2⟩

/-- The name handed out is taken from then on. -/
theorem Namer.fresh_taken (n : Namer) (hint : String) :
    (n.fresh hint).2.taken = (n.fresh hint).1 :: n.taken := by
  unfold Namer.fresh
  split <;> rfl

/-! ### Names for hints in turn -/

/-- The names handed out for hints in turn. -/
def Namer.freshAll (n : Namer) : List String → List String
  | [] => []
  | hint :: hints => (n.fresh hint).1 :: (n.fresh hint).2.freshAll hints

/-- All names handed out are free. -/
theorem Namer.freshAll_free {n : Namer} {hints : List String} {name : String}
    (h : name ∈ n.freshAll hints) : name ∉ n.taken ∧ isReservedName name = false := by
  induction hints generalizing n with
  | nil => cases h
  | cons hint hints ih =>
    rcases List.mem_cons.1 h with rfl | hrest
    · exact n.fresh_free hint
    · obtain ⟨hafter, hreserved⟩ := ih hrest
      rw [n.fresh_taken] at hafter
      exact ⟨fun hbefore => hafter (List.mem_cons_of_mem _ hbefore), hreserved⟩

/-- No name is handed out twice. -/
theorem Namer.freshAll_nodup (n : Namer) (hints : List String) : (n.freshAll hints).Nodup := by
  induction hints generalizing n with
  | nil => exact List.nodup_nil
  | cons hint hints ih =>
    refine List.nodup_cons.2 ⟨fun hagain => (freshAll_free hagain).1 ?_, ih _⟩
    rw [n.fresh_taken]
    exact List.mem_cons_self

/-- Each name is its hint, with a number or without. -/
theorem Namer.freshAll_spelled (n : Namer) (hints : List String) :
    List.Forall₂ (fun hint name => name = hint ∨ ∃ k, 0 < k ∧ name = numberedName hint k) hints
      (n.freshAll hints) := by
  induction hints generalizing n with
  | nil => exact .nil
  | cons hint hints ih =>
    refine .cons ?_ (ih _)
    obtain ⟨i, hname, -⟩ := n.fresh_first hint
    rw [hname]
    rcases i with _ | i
    · exact .inl rfl
    · exact .inr ⟨_, by omega, rfl⟩

/-- Whatever names are taken and whatever the hints, each search ends at a name that is refused no
more, and the names differ from each other, from those taken and from the reserved ones. -/
theorem Namer.freshAll_distinct (taken hints : List String) :
    (∀ (n : Namer) (hint : String), ∃ i, (n.fresh hint).1 = n.candidate hint i ∧
      n.refuses (n.candidate hint i) = false ∧ ∀ j < i, n.refuses (n.candidate hint j) = true) ∧
    (Namer.freshAll { taken } hints).Nodup ∧
    (∀ name ∈ Namer.freshAll { taken } hints, name ∉ taken ∧ isReservedName name = false) ∧
    List.Forall₂ (fun hint name => name = hint ∨ ∃ k, 0 < k ∧ name = numberedName hint k) hints
      (Namer.freshAll { taken } hints) :=
  ⟨fresh_first, freshAll_nodup _ hints, fun _ h => freshAll_free h, freshAll_spelled _ hints⟩

/-! ### New names of variables -/

/-- The first variable is named first. -/
theorem newNames_cons (n : Namer) (b : Binding) (d : Declared) (ts : List (Binding × Declared)) :
    newNames n ((b, d) :: ts) = (b, (n.fresh d.hint).1) :: newNames (n.fresh d.hint).2 ts := rfl

/-- Every variable gets a name. -/
theorem newNames_variables (n : Namer) (ts : List (Binding × Declared)) :
    (newNames n ts).map Prod.fst = ts.map Prod.fst := by
  induction ts generalizing n with
  | nil => rfl
  | cons t ts ih => rw [newNames_cons, List.map_cons, List.map_cons, ih]

/-- New names come from one namer in turn. -/
theorem newNames_names (n : Namer) (ts : List (Binding × Declared)) :
    (newNames n ts).map Prod.snd = n.freshAll (ts.map fun t => t.2.hint) := by
  induction ts generalizing n with
  | nil => rfl
  | cons t ts ih => exact congrArg ((n.fresh t.2.hint).1 :: ·) (ih _)

/-- No new name was taken. -/
theorem newNames_fresh {n : Namer} {ts : List (Binding × Declared)} {name : String}
    (h : name ∈ (newNames n ts).map Prod.snd) : name ∉ n.taken := by
  rw [newNames_names] at h
  exact (Namer.freshAll_free h).1

/-- New names differ. -/
theorem newNames_nodup (n : Namer) (ts : List (Binding × Declared)) :
    ((newNames n ts).map Prod.snd).Nodup := by
  rw [newNames_names]
  exact n.freshAll_nodup _

end Untangle.Pass
