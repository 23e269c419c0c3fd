import Untangle.Proofs.AccessorEvaluation
import Untangle.Proofs.ArrayExecution
import Untangle.Proofs.RotationSearch

/-!
# Rotations by a number

Code that rotates a string array so many times calls a function with the array and a number. The
pass takes the number for the number of turns, and does not look at how the function counts.
-/

namespace Untangle

section Entries

variable {κ γ : Type} [BEq κ] [LawfulBEq κ]

theorem Table.find?_change_self (t : Table κ γ) (k : κ) (f : γ → γ) :
    (t.change k f).find? k = (t.find? k).map f := by
  unfold Table.find? Table.change
  induction t with
  | nil => rfl
  | cons p t ih =>
    obtain ⟨l, a⟩ := p
    by_cases hl : l = k
    · subst hl
      simp
    · have hlk : (l == k) = false := beq_eq_false_iff_ne.2 hl
      have hkl : (k == l) = false := beq_eq_false_iff_ne.2 (Ne.symm hl)
      simp [List.lookup_cons, hlk, hkl, ih]

theorem Table.find?_change_ne (t : Table κ γ) {k l : κ} (h : k ≠ l) (f : γ → γ) :
    (t.change l f).find? k = t.find? k := by
  unfold Table.find? Table.change
  induction t with
  | nil => rfl
  | cons p t ih =>
    obtain ⟨m, a⟩ := p
    by_cases hm : m = l
    · subst hm
      have hkm : (k == m) = false := beq_eq_false_iff_ne.2 h
      simp [List.lookup_cons, hkm, ih]
    · have hml : (m == l) = false := beq_eq_false_iff_ne.2 hm
      simp [List.lookup_cons, hml, ih]

theorem Table.nodup_put {t : Table κ γ} (h : (t.map Prod.fst).Nodup) (k : κ) (a : γ) :
    ((t.put k a).map Prod.fst).Nodup := by
  have herased : ((Table.erase t k).map Prod.fst).Nodup :=
    h.sublist (List.filter_sublist.map Prod.fst)
  have hnot : k ∉ (Table.erase t k).map Prod.fst := by
    intro hk
    obtain ⟨p, hp, rfl⟩ := List.mem_map.1 hk
    have hne := (List.mem_filter.1 hp).2
    simp at hne
  rw [Table.put, List.map_append]
  exact herased.append (List.nodup_singleton k) (by simpa using hnot)

end Entries

namespace Pass

variable {array : Binding}

/-! ### Rotations are noted -/

variable {r : Rotation} {b : Binding} {s : Stmt} {e : Expr} {n : NumLit}

theorem addRotation_find? (t : StringTables) (s : Stmt) (harray : t.arrays.has array = true)
    (hsame : ∀ f x, rotationCall? s = some (array, f, x) → rotates f = true → rotationOf f x = r) :
    (t.addRotation s).rotations.find? array = t.rotations.find? array ∨
      (t.addRotation s).rotations.find? array = some r := by
  unfold StringTables.addRotation
  split
  · rename_i b f x hcall
    split
    · rename_i hnoted
      by_cases hb : b = array
      · subst hb
        right
        rw [Table.find?_put_self, hsame f x hcall (Bool.and_eq_true_iff.1 hnoted).2]
      · exact .inl (Table.find?_put_ne _ (Ne.symm hb) _)
    · exact .inl rfl
  · exact .inl rfl

/-- If all calls that rotate an array ask for one rotation, and there is one, it is noted. -/
theorem addRotations_find? : ∀ (ss : List Stmt) (t : StringTables),
    t.arrays.has array = true →
    (∀ s ∈ ss, ∀ f x, rotationCall? s = some (array, f, x) → rotates f = true →
      rotationOf f x = r) →
    ((∃ s ∈ ss, ∃ f x, rotationCall? s = some (array, f, x) ∧ rotates f = true) ∨
      t.rotations.find? array = some r) →
    (ss.foldl (fun t s => (t.addDecoder s).addRotation s) t).rotations.find? array = some r
  | [], _, _, _, h => by
    rcases h with ⟨s, hs, -⟩ | h
    · cases hs
    · exact h
  | s :: ss, t, harray, hsame, h => by
    obtain ⟨hsame₁, hsame₂⟩ := List.forall_mem_cons.1 hsame
    have harrays : ((t.addDecoder s).addRotation s).arrays = t.arrays :=
      (addRotation_arrays _ s).trans (addDecoder_arrays t s)
    have harray₁ : (t.addDecoder s).arrays.has array = true := by
      rw [addDecoder_arrays]
      exact harray
    have hstep := addRotation_find? (t.addDecoder s) s harray₁ hsame₁
    rw [addDecoder_rotations] at hstep
    rw [List.foldl_cons]
    refine addRotations_find? ss _ (harrays ▸ harray) hsame₂ ?_
    rcases h with ⟨s', hs', f, x, hcall, hrot⟩ | h
    · rcases List.mem_cons.1 hs' with rfl | hs'
      · right
        simp only [StringTables.addRotation, hcall, harray₁, hrot, Bool.and_self, if_true]
        rw [Table.find?_put_self, hsame₁ f x hcall hrot]
      · exact .inl ⟨s', hs', f, x, hcall, hrot⟩
    · right
      rcases hstep with hstep | hstep
      · rw [hstep, h]
      · exact hstep

theorem addRotations_nodup : ∀ (ss : List Stmt) (t : StringTables),
    (t.rotations.map Prod.fst).Nodup →
    ((ss.foldl (fun t s => (t.addDecoder s).addRotation s) t).rotations.map Prod.fst).Nodup
  | [], _, h => h
  | s :: ss, t, h => by
    refine addRotations_nodup ss _ ?_
    have hdecoder : ((t.addDecoder s).rotations.map Prod.fst).Nodup := by
      rw [addDecoder_rotations]
      exact h
    show (((t.addDecoder s).addRotation s).rotations.map Prod.fst).Nodup
    unfold StringTables.addRotation
    split
    · split
      · exact Table.nodup_put hdecoder _ _
      · exact hdecoder
    · exact hdecoder

/-! ### Rotations are carried out -/

theorem seekRotation_find?_ne (hb : array ≠ b) (e : Expr) (target : Float) :
    ∀ (n : Nat) (t : StringTables),
    (t.seekRotation b e target n).arrays.find? array = t.arrays.find? array
  | 0, t => Table.find?_erase_ne _ hb
  | n + 1, t => by
    rw [StringTables.seekRotation]
    split
    · split
      · rfl
      · exact (seekRotation_find?_ne hb e target n _).trans (Table.find?_change_ne _ hb _)
    · exact Table.find?_erase_ne _ hb

theorem applyRotation_find?_ne (t : StringTables) (hb : array ≠ b) (r : Rotation) :
    (t.applyRotation b r).arrays.find? array = t.arrays.find? array := by
  cases r with
  | count n =>
    rw [StringTables.applyRotation]
    split
    · exact Table.find?_erase_ne _ hb
    · dsimp only
      exact Table.find?_change_ne _ hb _
  | checksum e target =>
    rw [StringTables.applyRotation]
    split
    · exact seekRotation_find?_ne hb e target _ _
    · rfl

theorem applyRotations_find?_ne : ∀ (rs : Table Binding Rotation) (t : StringTables),
    array ∉ rs.map Prod.fst →
    (rs.foldl (fun t r => t.applyRotation r.1 r.2) t).arrays.find? array = t.arrays.find? array
  | [], _, _ => rfl
  | r :: rs, t, h => by
    obtain ⟨hr, hrs⟩ := not_or.1 (mt List.mem_cons.2 h)
    rw [List.foldl_cons, applyRotations_find?_ne rs _ hrs, applyRotation_find?_ne _ hr]

theorem rotateLeft_mod (n : Nat) (ss : List String) : rotateLeft (n % ss.length) ss = ss.rotate n :=
  List.rotate_eq_drop_append_take_mod.symm

theorem applyRotations_count {n : Float} (hzero : ¬n < 0) (hwhole : Number.isWhole n = true) :
    ∀ (rs : Table Binding Rotation) (t : StringTables), (rs.map Prod.fst).Nodup →
    (array, .count n) ∈ rs →
    (rs.foldl (fun t r => t.applyRotation r.1 r.2) t).arrays.find? array =
      (t.arrays.find? array).map (·.rotate (Number.wholeMagnitude n))
  | [], _, _, h => by cases h
  | (b, r) :: rs, t, hnodup, h => by
    obtain ⟨hb, hrs⟩ := List.nodup_cons.1 hnodup
    rw [List.foldl_cons]
    by_cases heq : array = b
    · subst heq
      have hother : (array, Rotation.count n) ∉ rs := fun h => hb (List.mem_map.2 ⟨_, h, rfl⟩)
      obtain rfl : Rotation.count n = r := by simpa [hother] using h
      have hkept : (decide (n < 0) || !Number.isWhole n) = false := by simp [hzero, hwhole]
      rw [applyRotations_find?_ne rs _ hb, StringTables.applyRotation, hkept]
      simp only [Bool.false_eq_true, if_false, rotateLeft_mod]
      exact Table.find?_change_self _ _ _
    · have hmem : (array, Rotation.count n) ∈ rs := by simpa [heq] using h
      rw [applyRotations_count hzero hwhole rs _ hrs hmem, applyRotation_find?_ne _ heq]

/-- A program whose array is rotated by a number uses it turned so many times. -/
theorem collect?_count {p : Program} {o : Orders} {ss : List String} {f : Func} {n : Float}
    (hss : (StringTables.gathered p o).arrays.find? array = some ss) (hs : s ∈ p.body)
    (hcall : rotationCall? s = some (array, f, n)) (hrot : rotates f = true)
    (hcount : rotationOf f n = .count n) (hzero : ¬n < 0) (hwhole : Number.isWhole n = true)
    (honly : ∀ s' ∈ p.body, ∀ f x, rotationCall? s' = some (array, f, x) → rotates f = true →
      s' = s) :
    ∃ t, StringTables.collect? p o = some t ∧
      t.arrays.find? array = some (ss.rotate (Number.wholeMagnitude n)) := by
  let stmts := p.body.filter fun s => !s.isModuleDecl
  let t₀ : StringTables := stmts.foldl StringTables.addArray { orders := o }
  let t₁ := stmts.foldl (fun t s => (t.addDecoder s).addRotation s) t₀
  obtain ⟨harrays, hrotations⟩ := addIndirections_keep p.items t₁
  have harrays₀ : (StringTables.gathered p o).arrays = t₀.arrays :=
    harrays.trans (addRotations_arrays stmts t₀)
  have hfind₀ : t₀.arrays.find? array = some ss := harrays₀ ▸ hss
  have hmem : s ∈ stmts := by
    refine List.mem_filter.2 ⟨hs, ?_⟩
    cases s with
    | expr => rfl
    | _ => cases hcall
  have hnoted : (StringTables.gathered p o).rotations.find? array = some (.count n) := by
    show (p.items.foldl StringTables.addIndirection t₁).rotations.find? array = _
    rw [hrotations]
    refine addRotations_find? stmts t₀ (by rw [Table.has, hfind₀]; rfl) ?_
      (.inl ⟨s, hmem, f, n, hcall, hrot⟩)
    intro s' hs' f' x hcall' hrot'
    obtain rfl := honly s' (List.mem_filter.1 hs').1 f' x hcall' hrot'
    obtain ⟨-, rfl, rfl⟩ : array = array ∧ f = f' ∧ n = x := by
      simpa using hcall.symm.trans hcall'
    exact hcount
  have hnodup : ((StringTables.gathered p o).rotations.map Prod.fst).Nodup := by
    show ((p.items.foldl StringTables.addIndirection t₁).rotations.map Prod.fst).Nodup
    rw [hrotations]
    have hadd : ∀ (ss : List Stmt) (t : StringTables), t.rotations = [] →
        (ss.foldl StringTables.addArray t).rotations = [] := by
      intro ss
      induction ss with
      | nil => exact fun t ht => ht
      | cons s ss ih =>
        refine fun t ht => ih _ ?_
        unfold StringTables.addArray
        split <;> exact ht
    exact addRotations_nodup stmts t₀ (by rw [hadd stmts { orders := o } rfl]; exact List.nodup_nil)
  have hperm := (StringTables.gathered p o).orders.rotations.perm (StringTables.gathered p o).rotations
  let t := (StringTables.gathered p o).applyRotations
  have hturned : t.arrays.find? array = some (ss.rotate (Number.wholeMagnitude n)) :=
    (applyRotations_count hzero hwhole _ _ ((hperm.map Prod.fst).nodup_iff.2 hnodup)
      (hperm.mem_iff.2 (Table.mem_of_find? hnoted))).trans (congrArg _ hss)
  have hsome : ∀ {arrays : Table Binding (List String)} {us : List String},
      arrays.find? array = some us → arrays.isEmpty = false := by
    intro arrays us h
    cases arrays with
    | nil => cases h
    | cons => rfl
  refine ⟨t, ?_, hturned⟩
  show (if t₀.arrays.isEmpty then none else if t.arrays.isEmpty then none else some t) = some t
  rw [hsome hfind₀, hsome hturned]
  rfl

/-! ### Counted calls -/

theorem unspread_of_unparen {e' : Expr} (h : e.unparen = e') (he' : ∀ e₁, e' ≠ .spread e₁) :
    unspread e = e := by
  cases e with
  | spread e => exact absurd h.symm (he' e)
  | _ => rfl

theorem rotationCall?_of_call {callee x y : Expr} {name : Option Ident} {f : Func} {id : Ident}
    (hcall : e.unparen = .call callee [x, y]) (hcallee : callee.unparen = .func name f)
    (hx : x.unparen = .ident id) (hid : id.binding = array) (hy : y.unparen = .lit (.num n)) :
    rotationCall? (.expr e) = some (array, f, n.value) := by
  have hx' := unspread_of_unparen hx (by simp)
  have hy' := unspread_of_unparen hy (by simp)
  simp only [rotationCall?, hcall, hcallee, hx', hy', hx, hy, hid]

/-! What a test finds in functions that hold a loop is what it finds in the loop. -/

section Nested

variable {arr m f k g c : Ident} {inner : Option Ident} {loop : Stmt}

theorem items_looping : (outlineFunction (looping k loop)).items = .func (looping k loop) ::
    .param (.name (.ofIdent k)) :: .pat (.name (.ofIdent k)) :: .binding (.ofIdent k) ::
      .ident k :: (outlineStmt loop).items := by
  simp [looping, outlineFunction, outlineParams, outlinePat, outlineBinding, BindingName.ofIdent,
    outlineBody, outlineStmts, Outline.items, Outline.itemsOf, outlineTypeParams, outlineAnn,
    Outline.leaf]

theorem readsInteger_looping (h : (outlineStmt loop).items.any isParseInt = false) :
    readsInteger (.func inner (looping k loop)) = false := by
  cases inner <;>
    simp [readsInteger, outlineExpr, outlineIdent?, Outline.items, Outline.itemsOf, items_looping,
      isParseInt, h, Outline.leaf]

theorem rotates_starting : rotates (starting arr m f k g c inner loop) =
    (((outlineStmt loop).items.filterMap keyRead?).contains "push" &&
      ((outlineStmt loop).items.filterMap keyRead?).contains "shift") := by
  cases inner <;>
    simp [rotates, starting, outlineFunction, outlineParams, outlinePat, outlineBinding,
      BindingName.ofIdent, outlineBody, outlineStmts, outlineStmt, Outline.items, Outline.itemsOf,
      VarDecl.single, outlineDecl, outlineVarDecl, outlineDeclarators, outlineDeclarator,
      outlineExpr, outlineExprs, List.filterMap_cons, keyRead?, outlineIdent?, outlineTypeParams,
      outlineAnn, items_looping, Outline.leaf]

theorem rotationOf_starting (n : Float) (hparse : (outlineStmt loop).items.any isParseInt = false)
    (hsum : (outlineStmt loop).items.findSome? checksumAt? = none) :
    rotationOf (starting arr m f k g c inner loop) n = .count n := by
  have hread : readsInteger (.func inner (looping k loop)) = false := readsInteger_looping hparse
  cases inner <;>
    simp [rotationOf, starting, outlineFunction, outlineParams, outlinePat, outlineBinding,
      BindingName.ofIdent, outlineBody, outlineStmts, outlineStmt, Outline.items, Outline.itemsOf,
      VarDecl.single, outlineDecl, outlineVarDecl, outlineDeclarators, outlineDeclarator,
      outlineExpr, outlineExprs, List.findSome?_cons, checksumAt?, outlineIdent?,
      outlineTypeParams, outlineAnn, items_looping, Outline.leaf, hread, hsum]

end Nested

theorem rotationOf_countedCall {how : Counting} (h : CountedCall array n how s) :
    ∃ f, rotationCall? s = some (array, f, n.value) ∧
      rotates f = true ∧ rotationOf f n.value = .count n.value := by
  cases h with
  | direct hcall hcallee hx hid hy hloop =>
    obtain ⟨-, -, -⟩ := hloop
    exact ⟨_, rotationCall?_of_call hcall hcallee hx hid hy, rfl, rfl⟩
  | nested hcall hcallee hx hid hy _ _ hloop =>
    obtain ⟨-, -, -⟩ := hloop
    exact ⟨_, rotationCall?_of_call hcall hcallee hx hid hy, rotates_starting,
      rotationOf_starting _ rfl rfl⟩

/-- The two arrays are the same if the code makes as many turns as the number says, or if turning
makes no difference. -/
theorem rotate_turns_eq_iff (ss : List String) (how : Counting) {N : Nat} (hpos : 1 ≤ N) :
    ss.rotate (how.turns N) = ss.rotate N ↔ how = .nested ∨ ∃ x, ss = List.replicate ss.length x := by
  cases how with
  | nested => simp [Counting.turns]
  | direct =>
    obtain ⟨n, rfl⟩ := Nat.exists_eq_add_of_le' hpos
    have hone : ss.rotate (n + 1) = (ss.rotate 1).rotate n := by
      rw [List.rotate_rotate, Nat.add_comm]
    rw [Counting.turns, Nat.add_sub_cancel, hone, List.rotate_eq_rotate, eq_comm,
      List.rotate_one_eq_self_iff_eq_replicate]
    simp

/-- **The array that is used is turned by the number in the call**, whatever the function does with
it. The code itself makes so many turns only if it counts down one more than the number. If it counts
down the number itself, it makes one turn less, and then the array that is used is the one that the
code leaves only if all strings are the same. -/
theorem collect?_turns_by_number {p : Program} {o : Orders} {array : Binding} {ss : List String}
    (hss : (StringTables.gathered p o).arrays.find? array = some ss) {n : NumLit} {how : Counting}
    {s : Stmt} (hs : s ∈ p.body) (hcall : CountedCall array n how s)
    (honly : ∀ s' ∈ p.body, ∀ f x, rotationCall? s' = some (array, f, x) → rotates f = true →
      s' = s)
    {N : Nat} (hvalue : n.value = Float.ofNat N) (hpos : 1 ≤ N) (hN : N < 2 ^ 53) :
    (∃ t, StringTables.collect? p o = some t ∧ t.arrays.find? array = some (ss.rotate N)) ∧
    (∀ (depth : Nat) (a : Heap), a.vars array = .array → a.elements = ss.map Thing.text →
      ∃ b, EndsAt (run (Heap.host (depth + 2)).machine [] s) a .normal b ∧
        b.elements = (ss.rotate (how.turns N)).map Thing.text ∧
        b.pushes = a.pushes + how.turns N) ∧
    (ss.rotate (how.turns N) = ss.rotate N ↔
      how = .nested ∨ ∃ x, ss = List.replicate ss.length x) := by
  refine ⟨?_, fun depth a harray helements => ?_, rotate_turns_eq_iff ss how hpos⟩
  · obtain ⟨f, hf, hrot, hcount⟩ := rotationOf_countedCall hcall
    have hturns := collect?_count hss hs hf hrot hcount
      (hvalue ▸ Number.ofNat_not_lt_zero hN.le) (hvalue ▸ Number.isWhole_ofNat hN) honly
    rwa [hvalue, Number.wholeMagnitude_ofNat hN] at hturns
  · have hne : ss ≠ [] := gathered_ne_nil p o (array, ss) (Table.mem_of_find? hss)
    obtain ⟨b, hrun, hb, hpushes⟩ := hcall.endsAt hvalue hpos hN depth harray
      (by simpa [helements] using hne)
    exact ⟨b, hrun, by rw [hb, helements, List.map_rotate], hpushes⟩

/-- `(function (arr, n) { while (--n) { arr.push(arr.shift()); } })(A, 2);` -/
def turningTwice : Stmt :=
  .expr (.call (.paren (.func none (.mk false false []
    [.name (.ofIdent { name := "arr" }), .name (.ofIdent { name := "n" })] none
    (.block [.while (.update .decrement true (.ofName "n"))
      (.block [.expr (.call (.member (.ofName "arr") (.name "push"))
        [.call (.member (.ofName "arr") (.name "shift")) []])])]))))
    [.ident arrayName, .lit (.num { value := 2 })])

/-- `var A = ['a', 'b', 'c'];` and the rotation. -/
def turnedTwice : Program where
  grammar := .script
  body := [.decl (.var (.single .var arrayName
    (some (.array [.ofText "a", .ofText "b", .ofText "c"])))), turningTwice]

/-- The code makes one turn, and the array that is used has made two. -/
theorem collect?_turns_by_two :
    (∃ t, StringTables.collect? turnedTwice = some t ∧
      t.arrays.find? arrayName.binding = some ["c", "a", "b"]) ∧
    (∃ b, EndsAt (run (Heap.host 2).machine [] turningTwice)
      { vars := fun _ => .array, elements := ["a", "b", "c"].map Thing.text, pushes := 0 }
        .normal b ∧ b.elements = ["b", "c", "a"].map Thing.text ∧ b.pushes = 1) ∧
    ["b", "c", "a"] ≠ ["c", "a", "b"] := by
  have hcall : CountedCall arrayName.binding { value := 2 } .direct turningTwice :=
    @CountedCall.direct _ _ _ _ _ _ arrayName { name := "arr" } { name := "n" } _ _ rfl rfl rfl rfl
      rfl (.intro rfl rfl rfl) (by decide)
  have honly : ∀ s ∈ turnedTwice.body, ∀ f x, rotationCall? s = some (arrayName.binding, f, x) →
      rotates f = true → s = turningTwice := by
    intro s hs f x hcall _
    simp only [turnedTwice, List.mem_cons, List.not_mem_nil, or_false] at hs
    rcases hs with rfl | rfl
    · cases hcall
    · rfl
  obtain ⟨htable, hrun, -⟩ := @collect?_turns_by_number turnedTwice {} _ ["a", "b", "c"] rfl _ _ _
    (by simp [turnedTwice]) hcall honly 2 rfl (by decide) (by decide)
  exact ⟨htable, hrun 0 _ rfl rfl, by decide⟩

end Pass

end Untangle
