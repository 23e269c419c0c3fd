import Mathlib
import Untangle.Pass.Kind

/-!
# Options laid over the defaults

* `Json.lookup_insertMembers`, `Json.sorted_insertMembers` — members put in their places one after
  another: the later wins, and the keys are in order.
* `Json.eq_of_lookup` — members in the order of their keys are told by their values.
-/

namespace Untangle

namespace Json

variable {key : String} {value : Json} {m : String × Json} {ms ms' acc : List (String × Json)}

def Sorted (ms : List (String × Json)) : Prop := ms.Pairwise fun a b => a.1 < b.1

theorem lookup_insertMember (key' : String) : (insertMember key value ms).lookup key' =
    if key' == key then some value else ms.lookup key' := by
  induction ms with
  | nil => grind [insertMember, List.lookup]
  | cons m ms ih => grind [insertMember, List.lookup]

theorem mem_insertMember (h : m ∈ insertMember key value ms) : m = (key, value) ∨ m ∈ ms := by
  induction ms with
  | nil => grind [insertMember]
  | cons m ms ih => grind [insertMember]

theorem sorted_insertMember (h : Sorted ms) : Sorted (insertMember key value ms) := by
  induction ms with
  | nil => exact List.pairwise_singleton _ _
  | cons m ms ih =>
    obtain ⟨hfirst, hrest⟩ := List.pairwise_cons.1 h
    unfold insertMember
    split
    · rename_i hlt
      refine List.pairwise_cons.2 ⟨fun a ha => ?_, h⟩
      rcases List.mem_cons.1 ha with rfl | ha
      · exact hlt
      · exact hlt.trans (hfirst a ha)
    · rename_i hlt
      split
      · rename_i heq
        exact List.pairwise_cons.2 ⟨fun a ha => eq_of_beq heq ▸ hfirst a ha, hrest⟩
      · rename_i hne
        refine List.pairwise_cons.2 ⟨fun a ha => ?_, ih hrest⟩
        rcases mem_insertMember ha with rfl | ha
        · exact lt_of_le_of_ne (not_lt.1 hlt) fun h => hne (beq_iff_eq.2 h.symm)
        · exact hfirst a ha

/-- The value that members give a key; of two members with one key the later counts. -/
def given? (ms : List (String × Json)) (key : String) : Option Json := ms.reverse.lookup key

theorem lookup_insertMembers (key : String) :
    (ms.foldl (fun acc m => insertMember m.1 m.2 acc) acc).lookup key =
      (given? ms key).or (acc.lookup key) := by
  induction ms generalizing acc with
  | nil => rfl
  | cons m ms ih =>
    rw [List.foldl_cons, ih, lookup_insertMember, given?, given?, List.reverse_cons,
      List.lookup_append, Option.or_assoc]
    grind [List.lookup]

theorem sorted_insertMembers (h : Sorted acc) :
    Sorted (ms.foldl (fun acc m => insertMember m.1 m.2 acc) acc) := by
  induction ms generalizing acc with
  | nil => exact h
  | cons m ms ih => exact ih (sorted_insertMember h)

theorem lookup_eq_some (h : ms.Pairwise fun a b => a.1 ≠ b.1) :
    ms.lookup key = some value ↔ (key, value) ∈ ms := by
  rw [List.lookup_eq_some_iff]
  constructor
  · rintro ⟨before, after, rfl, -⟩
    exact List.mem_append_right _ List.mem_cons_self
  · intro hm
    obtain ⟨before, after, rfl⟩ := List.append_of_mem hm
    refine ⟨before, after, rfl, fun m hbefore => ?_⟩
    have hne := (List.pairwise_append.1 h).2.2 m hbefore _ List.mem_cons_self
    exact bne_iff_ne.2 hne.symm

theorem Sorted.ne (h : Sorted ms) : ms.Pairwise fun a b => a.1 ≠ b.1 := h.imp ne_of_lt

theorem Sorted.given? (h : Sorted ms) (key : String) : given? ms key = ms.lookup key := by
  have hback : ms.reverse.Pairwise fun a b => a.1 ≠ b.1 :=
    List.pairwise_reverse.2 (h.ne.imp Ne.symm)
  ext value
  rw [Json.given?, lookup_eq_some hback, lookup_eq_some h.ne, List.mem_reverse]

theorem eq_of_lookup (h : Sorted ms) (h' : Sorted ms')
    (heq : ∀ key, ms.lookup key = ms'.lookup key) : ms = ms' := by
  refine List.Perm.eq_of_pairwise (fun a b _ _ hab hba => absurd (hab.trans hba) (lt_irrefl _))
    h h' ?_
  refine (List.perm_ext_iff_of_nodup (h.imp fun hlt => ?_) (h'.imp fun hlt => ?_)).2 fun m => ?_
  · rintro rfl
    exact lt_irrefl _ hlt
  · rintro rfl
    exact lt_irrefl _ hlt
  · rw [← lookup_eq_some h.ne, heq, lookup_eq_some h'.ne]

end Json

/-! ### Options that can be read -/

/-- Whether a value is of the kind of an option: a truth value, or a whole number of 64 bits. -/
def OptionValue.Admits : OptionValue → Json → Prop
  | .flag _, .bool _ => True
  | .count _, .int n => 0 ≤ n ∧ n < 2 ^ 64
  | _, _ => False

/-- The members that options are given by: none for nothing, and those of an object. -/
def Json.optionMembers? : Json → Option (List (String × Json))
  | .null => some []
  | .obj members => some members
  | _ => none

theorem OptionValue.decodeLike_ok {d : OptionValue} {j : Json} :
    (∃ v, d.decodeLike j = .ok v) ↔ d.Admits j := by
  cases d with
  | flag b => cases j <;> simp [decodeLike, Admits, decodeBool, Except.map]
  | count n =>
    cases j with
    | int n =>
      by_cases hn : 0 ≤ n ∧ n < 2 ^ 64
      · exact ⟨fun _ => hn, fun _ => ⟨.count n.toNat, congrArg (Except.map count) (if_pos hn)⟩⟩
      · have herror : decodeCount (.int n) = .error (.outOfRange n "usize") := if_neg hn
        exact ⟨fun ⟨v, hv⟩ => by simp [decodeLike, herror, Except.map] at hv, fun h => absurd h hn⟩
    | _ => simp [decodeLike, Admits, decodeCount, Except.map]

theorem exists_mapM_ok {α β ε : Type} {f : α → Except ε β} {xs : List α} :
    (∃ ys, xs.mapM f = .ok ys) ↔ ∀ x ∈ xs, ∃ y, f x = .ok y := by
  induction xs with
  | nil => exact ⟨fun _ => nofun, fun _ => ⟨[], rfl⟩⟩
  | cons x xs ih =>
    rw [List.forall_mem_cons, ← ih, List.mapM_cons]
    rcases f x with e | y <;> rcases xs.mapM f with e' | ys <;>
      simp [bind, Except.bind, pure, Except.pure]

namespace PassKind

variable {k : PassKind} {o : Json} {key : String} {members : List (String × Json)}

/-- Whether each option that members give is one of the pass and of its kind. -/
def Accepts (k : PassKind) (members : List (String × Json)) : Prop :=
  ∀ key j, Json.given? members key = some j →
    ∃ d, k.defaults.lookup key = some d ∧ d.Admits j

theorem decodeOption_ok {m : String × Json} : (∃ v, k.decodeOption m = .ok v) ↔
    ∃ d, k.defaults.lookup m.1 = some d ∧ d.Admits m.2 := by
  unfold decodeOption
  cases k.defaults.lookup m.1 with
  | none => simp
  | some d =>
    simp only [Option.some.injEq, exists_eq_left', ← OptionValue.decodeLike_ok]
    cases d.decodeLike m.2 <;> simp [Except.map]

theorem defaults_admitted {d : OptionValue} (h : k.defaults.lookup key = some d) :
    d.Admits d.toJson := by
  obtain ⟨before, after, hsplit, -⟩ := List.lookup_eq_some_iff.1 h
  have hmem : (key, d) ∈ k.defaults := hsplit ▸ List.mem_append_right _ List.mem_cons_self
  cases k <;> simp only [defaults, List.mem_cons, List.not_mem_nil, or_false, Prod.mk.injEq] at hmem
  all_goals grind [OptionValue.Admits, OptionValue.toJson]

theorem given?_defaults (k : PassKind) (key : String) :
    Json.given? (k.defaults.map fun o => (o.1, o.2.toJson)) key =
      (k.defaults.lookup key).map OptionValue.toJson := by
  cases k <;> simp [defaults, Json.given?, List.lookup] <;> grind

theorem sorted_overDefaults (k : PassKind) (members : List (String × Json)) :
    Json.Sorted (mergeOptions.overDefaults k members) :=
  Json.sorted_insertMembers List.Pairwise.nil

theorem lookup_overDefaults (k : PassKind) (members : List (String × Json)) (key : String) :
    (mergeOptions.overDefaults k members).lookup key =
      (Json.given? members key).or ((k.defaults.lookup key).map OptionValue.toJson) := by
  rw [mergeOptions.overDefaults, Json.lookup_insertMembers, ← given?_defaults, Json.given?,
    List.reverse_append, List.lookup_append]
  exact Option.or_none

theorem overDefaults_overDefaults (k : PassKind) (members : List (String × Json)) :
    mergeOptions.overDefaults k (mergeOptions.overDefaults k members) =
      mergeOptions.overDefaults k members := by
  have hsorted := sorted_overDefaults k members
  refine Json.eq_of_lookup (sorted_overDefaults k _) hsorted fun key => ?_
  rw [lookup_overDefaults, hsorted.given?, lookup_overDefaults, Option.or_assoc, Option.or_self]

theorem mapM_decodeOption_ok :
    (∃ ds, (mergeOptions.overDefaults k members).mapM k.decodeOption = .ok ds) ↔
      k.Accepts members := by
  simp only [exists_mapM_ok, decodeOption_ok, Prod.forall,
    ← Json.lookup_eq_some (sorted_overDefaults k members).ne, lookup_overDefaults]
  constructor
  · intro h key j hj
    exact h key j (by rw [hj]; rfl)
  · intro h key j hj
    rcases Option.or_eq_some_iff.1 hj with hgiven | ⟨-, hdefault⟩
    · exact h key j hgiven
    · obtain ⟨d, hd, rfl⟩ := Option.map_eq_some_iff.1 hdefault
      exact ⟨d, hd, defaults_admitted hd⟩

theorem lookup_effective (h : k.Accepts members) (key : String) :
    (mergeOptions.overDefaults k members).lookup key = (k.defaults.lookup key).map fun d =>
      (Json.given? members key).getD d.toJson := by
  rw [lookup_overDefaults]
  cases hgiven : Json.given? members key with
  | none => rfl
  | some j =>
    obtain ⟨d, hd, -⟩ := h key j hgiven
    rw [hd]
    rfl

theorem build_of_members (h : o.optionMembers? = some members) : k.build o =
    match (mergeOptions.overDefaults k members).mapM k.decodeOption with
    | .error e => .error (.invalidOptions k.name e.message)
    | .ok ds => .ok { name := k.name, options := .obj (mergeOptions.overDefaults k members),
                      apply := k.step ds } := by
  have hmerged : k.mergeOptions o = .ok (mergeOptions.overDefaults k members) := by
    cases o <;> cases h <;> rfl
  rw [build, hmerged]
  show Except.bind (Except.mapError _ (List.mapM _ _)) _ = _
  cases (mergeOptions.overDefaults k members).mapM k.decodeOption <;> rfl

/-- Building either fails with the pass named, or keeps the options that were read. -/
theorem build_cases (k : PassKind) (o : Json) :
    ((∃ detail, k.build o = .error (.invalidOptions k.name detail)) ∧
      ∀ members, o.optionMembers? = some members → ¬ k.Accepts members) ∨
    ∃ members pass, o.optionMembers? = some members ∧ k.Accepts members ∧ k.build o = .ok pass ∧
      pass.options = .obj (mergeOptions.overDefaults k members) := by
  cases hmembers : o.optionMembers? with
  | none =>
    refine .inl ⟨?_, nofun⟩
    cases o with
    | null | obj members => cases hmembers
    | _ => exact ⟨_, rfl⟩
  | some members =>
    simp only [build_of_members hmembers, Option.some.injEq, forall_eq', ← mapM_decodeOption_ok]
    cases hds : (mergeOptions.overDefaults k members).mapM k.decodeOption with
    | error e => exact .inl ⟨⟨_, rfl⟩, by simp⟩
    | ok ds => exact .inr ⟨members, _, rfl, ⟨ds, hds⟩, rfl, rfl⟩

/-- A pass is built from nothing or an object that gives only options of the pass, each of its kind,
and from nothing else. Its options are then these over the defaults, from which it is built again. -/
theorem build_merges (k : PassKind) (o : Json) :
    ((∃ pass, k.build o = .ok pass) ↔
      ∃ members, o.optionMembers? = some members ∧ k.Accepts members) ∧
    (∀ pass, k.build o = .ok pass → ∃ members effective, o.optionMembers? = some members ∧
      pass.options = .obj effective ∧ Json.Sorted effective ∧
      (∀ key, effective.lookup key = (k.defaults.lookup key).map fun d =>
        (Json.given? members key).getD d.toJson) ∧
      k.build pass.options = .ok pass) ∧
    ∀ e, k.build o = .error e → ∃ detail, e = .invalidOptions k.name detail := by
  rcases build_cases k o with
    ⟨⟨detail, herror⟩, hrefused⟩ | ⟨members, pass, hmembers, haccepts, hok, hoptions⟩
  · rw [herror]
    refine ⟨⟨nofun, fun ⟨members, hm, h⟩ => absurd h (hrefused members hm)⟩, nofun, ?_⟩
    rintro e ⟨⟩
    exact ⟨detail, rfl⟩
  · refine ⟨⟨fun _ => ⟨members, hmembers, haccepts⟩, fun _ => ⟨pass, hok⟩⟩, ?_, ?_⟩
    · intro pass' hpass'
      obtain rfl := Except.ok.inj (hok.symm.trans hpass')
      refine ⟨members, _, hmembers, hoptions, sorted_overDefaults k members,
        lookup_effective haccepts, ?_⟩
      rw [← hok, hoptions, build_of_members rfl, build_of_members hmembers,
        overDefaults_overDefaults]
    · rw [hok]
      exact nofun

end PassKind

end Untangle
