import Mathlib.Data.List.Rotate
import Untangle.Proofs.TableRemoval

/-!
# Rotating an array until its checksum fits

A rotation that waits for a checksum turns its array to the left by one place at a time and computes
the checksum before each turn, through the very functions that read the array. The search ends at the
first turn whose checksum fits, and gives the array up at a checksum without a value or after as many
turns as the array is long.
-/

namespace Untangle.Pass

/-- Tables with one array and one rotation, which waits for a checksum. What leads to the array is
that of the tables given. -/
def StringTables.seeking (t : StringTables) (array : Binding) (e : Expr) (target : Float)
    (ss : List String) : StringTables :=
  { t with arrays := [(array, ss)], rotations := [(array, .checksum e target)] }

/-- The checksum after the array has been rotated to the left so many times. -/
def StringTables.checksumAfter (t : StringTables) (array : Binding) (e : Expr) (target : Float)
    (ss : List String) (k : Nat) : Option Float :=
  (t.seeking array e target (ss.rotate k)).checksum? e

/-- Whether a checksum has a value, and it is the one that is waited for. -/
def Fits (target : Float) (c : Option Float) : Prop := ∃ v, c = some v ∧ (v == target) = true

variable {target : Float} {ss : List String} {s : Stmt}

theorem Fits.isSome {c : Option Float} (h : Fits target c) : c.isSome = true := by
  obtain ⟨v, hv, -⟩ := h
  simp [hv]

/-- The first checksum that fits; those before it have other values. -/
structure FirstFit (target : Float) (c : Nat → Option Float) (k : Nat) : Prop where
  fits : Fits target (c k)
  defined : ∀ j < k, (c j).isSome = true
  least : ∀ j < k, ¬Fits target (c j)

theorem firstFit_succ {c : Nat → Option Float} {k : Nat} (hdefined : (c 0).isSome = true)
    (hfits : ¬Fits target (c 0)) :
    FirstFit target c (k + 1) ↔ FirstFit target (fun j => c (j + 1)) k := by
  constructor
  · intro h
    refine ⟨h.fits, fun j hj => h.defined (j + 1) ?_, fun j hj => h.least (j + 1) ?_⟩
    · omega
    · omega
  · intro h
    refine ⟨h.fits, fun j hj => ?_, fun j hj => ?_⟩
    · cases j with
      | zero => exact hdefined
      | succ j => exact h.defined j (by omega)
    · cases j with
      | zero => exact hfits
      | succ j => exact h.least j (by omega)

/-! ### The search -/

section Search

variable (t : StringTables) (array : Binding) (e : Expr) (target : Float) (ss : List String)

theorem rotateOnce_eq (ss : List String) : rotateOnce ss = ss.rotate 1 := by
  cases ss with
  | nil => rfl
  | cons s ss => simp [rotateOnce]

theorem erase_seeking :
    { t.seeking array e target ss with
      arrays := Table.erase (t.seeking array e target ss).arrays array } =
    { t.seeking array e target ss with arrays := [] } := by
  simp [StringTables.seeking, Table.erase]

theorem change_seeking :
    { t.seeking array e target ss with
      arrays := (t.seeking array e target ss).arrays.change array rotateOnce } =
    t.seeking array e target (ss.rotate 1) := by
  simp [StringTables.seeking, Table.change, rotateOnce_eq]

theorem checksumAfter_zero :
    t.checksumAfter array e target ss 0 = (t.seeking array e target ss).checksum? e := by
  rw [StringTables.checksumAfter, List.rotate_zero]

theorem checksumAfter_rotate (j k : Nat) :
    t.checksumAfter array e target (ss.rotate j) k = t.checksumAfter array e target ss (j + k) := by
  rw [StringTables.checksumAfter, StringTables.checksumAfter, List.rotate_rotate]

theorem checksumAfter_mod (k : Nat) :
    t.checksumAfter array e target ss (k % ss.length) = t.checksumAfter array e target ss k := by
  rw [StringTables.checksumAfter, StringTables.checksumAfter, List.rotate_mod]

theorem seekRotation_seeking (n : Nat) :
    (t.seeking array e target ss).seekRotation array e target (n + 1) =
      match t.checksumAfter array e target ss 0 with
      | some v =>
        if v == target then t.seeking array e target ss
        else (t.seeking array e target (ss.rotate 1)).seekRotation array e target n
      | none => { t.seeking array e target ss with arrays := [] } := by
  rw [StringTables.seekRotation, checksumAfter_zero]
  cases (t.seeking array e target ss).checksum? e with
  | none => exact erase_seeking t array e target ss
  | some v =>
    rw [change_seeking]

/-- The search stops at the first fit. If there is none within the turns that are left, the array is
given up. -/
theorem seekRotation_run (n : Nat) (ss : List String) :
    (∃ k < n, FirstFit target (t.checksumAfter array e target ss) k ∧
      (t.seeking array e target ss).seekRotation array e target n =
        t.seeking array e target (ss.rotate k)) ∨
    ((∀ k < n, ¬FirstFit target (t.checksumAfter array e target ss) k) ∧
      (t.seeking array e target ss).seekRotation array e target n =
        { t.seeking array e target ss with arrays := [] }) := by
  induction n generalizing ss with
  | zero =>
    right
    refine ⟨by simp, ?_⟩
    rw [StringTables.seekRotation]
    exact erase_seeking t array e target ss
  | succ n ih =>
    rw [seekRotation_seeking]
    cases hc : t.checksumAfter array e target ss 0 with
    | none =>
      -- a checksum without a value ends the search before any fit
      have hfits : ¬Fits target (t.checksumAfter array e target ss 0) := by
        intro h
        have := h.isSome
        simp [hc] at this
      right
      refine ⟨fun k _ hfit => ?_, rfl⟩
      cases k with
      | zero => exact hfits hfit.fits
      | succ k =>
        have := hfit.defined 0 (by omega)
        simp [hc] at this
    | some v =>
      by_cases hv : (v == target) = true
      · left
        refine ⟨0, by omega, ⟨⟨v, hc, hv⟩, by simp, by simp⟩, ?_⟩
        simp only [hv, if_true, List.rotate_zero]
      · have hfits : ¬Fits target (t.checksumAfter array e target ss 0) := by
          rintro ⟨w, hw, hwt⟩
          rw [hc] at hw
          cases hw
          exact hv hwt
        have hnext : ∀ k, FirstFit target (t.checksumAfter array e target ss) (k + 1) ↔
            FirstFit target (t.checksumAfter array e target (ss.rotate 1)) k := by
          intro k
          rw [firstFit_succ (by simp [hc]) hfits]
          have hshift : (fun j => t.checksumAfter array e target ss (j + 1)) =
              t.checksumAfter array e target (ss.rotate 1) := by
            funext j
            rw [checksumAfter_rotate, Nat.add_comm]
          rw [hshift]
        simp only [hv, Bool.false_eq_true, if_false]
        rcases ih (ss.rotate 1) with ⟨k, hk, hfit, hrun⟩ | ⟨hnone, hrun⟩
        · left
          refine ⟨k + 1, by omega, (hnext k).2 hfit, ?_⟩
          rw [hrun, List.rotate_rotate, Nat.add_comm]
        · right
          refine ⟨fun k hk hfit => ?_, ?_⟩
          · cases k with
            | zero => exact hfits hfit.fits
            | succ k => exact hnone k (by omega) ((hnext k).1 hfit)
          · rw [hrun]
            rfl

theorem applyRotations_seeking :
    (t.seeking array e target ss).applyRotations =
      (t.seeking array e target ss).seekRotation array e target ss.length := by
  have hone : t.orders.rotations.arrange [(array, .checksum e target)] =
      [(array, .checksum e target)] := List.perm_singleton.1 (t.orders.rotations.perm _)
  simp [StringTables.applyRotations, StringTables.applyRotation, StringTables.seeking, Table.find?,
    hone]

end Search

/-! ### Turns that fit -/

/-- A checksum that fits within so many turns, all checksums before it having values. -/
structure FitsAt (target : Float) (c : Nat → Option Float) (n k : Nat) : Prop where
  inRange : k < n
  fits : Fits target (c k)
  defined : ∀ j < k, (c j).isSome = true

section Fitting

variable {target : Float} {c : Nat → Option Float} {n k : Nat}

theorem FirstFit.fitsAt (h : FirstFit target c k) (hk : k < n) : FitsAt target c n k :=
  ⟨hk, h.fits, h.defined⟩

theorem FitsAt.firstFit (h : FitsAt target c n k) (hleast : ∀ j < k, ¬FitsAt target c n j) :
    FirstFit target c k := by
  refine ⟨h.fits, h.defined, fun j hj hfits => hleast j hj ?_⟩
  have hlt := h.inRange
  exact ⟨by omega, hfits, fun i hi => h.defined i (by omega)⟩

theorem FirstFit.eq {j : Nat} (h : FirstFit target c k) (h' : FirstFit target c j) : k = j := by
  rcases Nat.lt_trichotomy k j with hlt | heq | hgt
  · exact absurd h.fits (h'.least k hlt)
  · exact heq
  · exact absurd h'.fits (h.least j hgt)

theorem FitsAt.exists_firstFit (h : FitsAt target c n k) : ∃ j < n, FirstFit target c j := by
  induction k using Nat.strongRecOn with
  | ind k ih =>
    by_cases hleast : ∀ j < k, ¬FitsAt target c n j
    · exact ⟨k, h.inRange, h.firstFit hleast⟩
    · push Not at hleast
      obtain ⟨j, hj, hfits⟩ := hleast
      exact ih j hj hfits

end Fitting

/-! ### The arrays of a program -/

theorem stringArray?_ne_nil {e : Expr} (h : stringArray? e = some ss) : ss ≠ [] := by
  unfold stringArray? at h
  split at h
  · rename_i elems _
    cases elems with
    | nil => cases h
    | cons x xs =>
      simp only [List.isEmpty_cons, Bool.false_eq_true, if_false, List.mapM_cons,
        Option.bind_eq_bind, Option.bind_eq_some_iff] at h
      obtain ⟨s, -, ss', -, h⟩ := h
      cases h
      exact List.cons_ne_nil s ss'
  · cases h

theorem declaredArray?_ne_nil (h : declaredArray? s = some ss) : ss ≠ [] := by
  unfold declaredArray? at h
  split at h
  · split at h
    · exact stringArray?_ne_nil h
    · cases h
  · cases h

theorem arrayDecl?_ne_nil {b : Binding} (h : arrayDecl? s = some (b, ss)) : ss ≠ [] := by
  unfold arrayDecl? at h
  split at h
  · split at h
    · simp only [Option.bind_eq_bind, Option.bind_eq_some_iff] at h
      obtain ⟨_, -, strings, hstrings, h⟩ := h
      cases h
      exact stringArray?_ne_nil hstrings
    · simp only [Option.bind_eq_bind, Option.bind_eq_some_iff] at h
      obtain ⟨strings, hstrings, h⟩ := h
      split at h
      · cases h
        unfold arrayInside? at hstrings
        split at hstrings
        · split at hstrings
          · cases hstrings
          · obtain ⟨_, _, hdecl⟩ := List.exists_of_findSome?_eq_some hstrings
            exact declaredArray?_ne_nil hdecl
        · cases hstrings
      · cases h
    · cases h
  · cases h

theorem addArray_ne_nil {t : StringTables} (ht : ∀ a ∈ t.arrays, a.2 ≠ []) (s : Stmt) :
    ∀ a ∈ (t.addArray s).arrays, a.2 ≠ [] := by
  intro a ha
  unfold StringTables.addArray at ha
  split at ha
  · rename_i b ss hdecl
    rcases List.mem_append.1 ha with ha | ha
    · exact ht a (List.mem_filter.1 ha).1
    · cases List.mem_singleton.1 ha
      exact arrayDecl?_ne_nil hdecl
  · exact ht a ha

/-- A program has no empty string array, so the search through one never ends for want of strings. -/
theorem gathered_ne_nil (p : Program) (o : Orders) :
    ∀ a ∈ (StringTables.gathered p o).arrays, a.2 ≠ [] := by
  have hadd : ∀ (stmts : List Stmt) (t : StringTables), (∀ a ∈ t.arrays, a.2 ≠ []) →
      ∀ a ∈ (stmts.foldl StringTables.addArray t).arrays, a.2 ≠ [] := by
    intro stmts
    induction stmts with
    | nil => exact fun t ht => ht
    | cons s stmts ih => exact fun t ht => ih (t.addArray s) (addArray_ne_nil ht s)
  unfold StringTables.gathered
  simp only [(addIndirections_keep _ _).1, addRotations_arrays]
  exact hadd _ { orders := o } (by simp)

/-! ### The outcome -/

/-- **The search keeps the array at the first rotation that fits, or gives it up.** The array is kept
exactly if some rotation within its length fits and all checksums before it have values, and it is
then rotated by the least such number of places. If not, it goes; where all checksums within the
length have values, no number of rotations of an array with strings in it would have made one fit,
and every array of a program has strings in it. -/
theorem applyRotations_seeks (t : StringTables) (array : Binding) (e : Expr) (target : Float)
    (ss : List String) :
    ((t.seeking array e target ss).applyRotations.arrays.has array = true ↔
      ∃ k, FitsAt target (t.checksumAfter array e target ss) ss.length k) ∧
    (∀ k, FitsAt target (t.checksumAfter array e target ss) ss.length k →
      (∀ j < k, ¬FitsAt target (t.checksumAfter array e target ss) ss.length j) →
      (t.seeking array e target ss).applyRotations = t.seeking array e target (ss.rotate k)) ∧
    ((∀ k, ¬FitsAt target (t.checksumAfter array e target ss) ss.length k) →
      (t.seeking array e target ss).applyRotations =
        { t.seeking array e target ss with arrays := [] } ∧
      ((∀ k < ss.length, (t.checksumAfter array e target ss k).isSome = true) →
        ∀ k, Fits target (t.checksumAfter array e target ss k) → ss = [])) ∧
    ∀ p o, (array, ss) ∈ (StringTables.gathered p o).arrays → ss ≠ [] := by
  have hprogram : ∀ p o, (array, ss) ∈ (StringTables.gathered p o).arrays → ss ≠ [] :=
    fun p o h => gathered_ne_nil p o _ h
  rw [applyRotations_seeking]
  rcases seekRotation_run t array e target ss.length ss with ⟨m, hm, hfit, hrun⟩ | ⟨hnone, hrun⟩
  · rw [hrun]
    refine ⟨⟨fun _ => ⟨m, hfit.fitsAt hm⟩, fun _ => ?_⟩, fun k hk hleast => ?_, fun h => ?_,
      hprogram⟩
    · simp [StringTables.seeking, Table.has, Table.find?]
    · rw [hfit.eq (hk.firstFit hleast)]
    · exact absurd (hfit.fitsAt hm) (h m)
  · rw [hrun]
    have hnot : ∀ k, ¬FitsAt target (t.checksumAfter array e target ss) ss.length k := by
      intro k hk
      obtain ⟨j, hj, hfit⟩ := hk.exists_firstFit
      exact hnone j hj hfit
    refine ⟨⟨fun h => ?_, fun h => ?_⟩, fun k hk _ => absurd hk (hnot k),
      fun _ => ⟨rfl, fun hdefined k hfits => ?_⟩, hprogram⟩
    · simp [Table.has, Table.find?] at h
    · obtain ⟨k, hk⟩ := h
      exact absurd hk (hnot k)
    · -- the same rotation comes up within the length of the array
      by_contra hss
      have hlt : k % ss.length < ss.length := Nat.mod_lt k (List.length_pos_iff.2 hss)
      rw [← checksumAfter_mod] at hfits
      exact hnot _ ⟨hlt, hfits, fun j hj => hdefined j (by omega)⟩

end Untangle.Pass
