import Mathlib.Data.List.Forall2
import Untangle.Codec.Keystream
import Untangle.Proofs.Base64Encoding

/-!
# Keyed strings read back

A masked text is again a text, and masking it once more gives the text back.

A mask is below 256, so it leaves the upper half of a unit alone. The halves of surrogate pairs are
told by their upper half: this is why masking cannot break a pair.
-/

namespace Untangle

/-! ### Texts and their units -/

variable {n : Nat} {u v : UInt16}

namespace Units

theorem isHigh_iff (u : UInt16) : isHigh u = true ↔ 0xD800 ≤ u.toNat ∧ u.toNat ≤ 0xDBFF := by
  simp [isHigh, UInt16.le_iff_toNat_le]

theorem isLow_iff (u : UInt16) : isLow u = true ↔ 0xDC00 ≤ u.toNat ∧ u.toNat ≤ 0xDFFF := by
  simp [isLow, UInt16.le_iff_toNat_le]

theorem pieces_pair (hu : isHigh u = true) (hv : isLow v = true) (rest : Units) :
    pieces (u :: v :: rest) = .scalar (combine u v) :: pieces rest := by
  rw [pieces, if_pos hu]
  simp only [hv, ↓reduceIte]

theorem pieces_single (hu : isHigh u = false) (hl : isLow u = false) (rest : Units) :
    pieces (u :: rest) = .scalar (Char.ofNat u.toNat) :: pieces rest := by
  rw [pieces.eq_def]
  simp only [hu, hl, Bool.false_eq_true, ↓reduceIte]

theorem toNat_toUInt16 (hn : n < 0x10000) : n.toUInt16.toNat = n :=
  UInt16.toNat_ofNat_of_lt' hn

/-- The code units of a scalar are read as that scalar, whatever follows. -/
theorem pieces_ofChar (c : Char) (rest : Units) :
    pieces (ofChar c ++ rest) = .scalar c :: pieces rest := by
  have hvalid : c.toNat < 0xD800 ∨ (0xDFFF < c.toNat ∧ c.toNat < 0x110000) := c.valid
  unfold ofChar
  by_cases hn : c.toNat < 0x10000
  · have htoNat := toNat_toUInt16 hn
    have hhigh : isHigh c.toNat.toUInt16 = false := by
      rw [Bool.eq_false_iff, Ne, isHigh_iff, htoNat]
      omega
    have hlow : isLow c.toNat.toUInt16 = false := by
      rw [Bool.eq_false_iff, Ne, isLow_iff, htoNat]
      omega
    simp only [hn, ↓reduceIte, List.singleton_append]
    rw [pieces_single hhigh hlow, htoNat, Char.ofNat_toNat]
  · simp only [hn, ↓reduceIte, List.cons_append, List.nil_append]
    generalize hhi : 0xD800 + (c.toNat - 0x10000) / 0x400 = hi
    generalize hlo : 0xDC00 + (c.toNat - 0x10000) % 0x400 = lo
    have hhiNat : hi.toUInt16.toNat = hi := toNat_toUInt16 (by omega)
    have hloNat : lo.toUInt16.toNat = lo := toNat_toUInt16 (by omega)
    have hhigh : isHigh hi.toUInt16 = true := by
      rw [isHigh_iff, hhiNat]
      omega
    have hlow : isLow lo.toUInt16 = true := by
      rw [isLow_iff, hloNat]
      omega
    have hsum : 0x10000 + (hi - 0xD800) * 0x400 + (lo - 0xDC00) = c.toNat := by omega
    rw [pieces_pair hhigh hlow, combine, hhiNat, hloNat, hsum, Char.ofNat_toNat]

theorem pieces_ofChars (cs : List Char) : pieces (cs.flatMap ofChar) = cs.map .scalar := by
  induction cs with
  | nil => rfl
  | cons c cs ih => rw [List.flatMap_cons, pieces_ofChar, ih, List.map_cons]

theorem mapM_scalar (cs : List Char) : (cs.map Piece.scalar).mapM Piece.char? = some cs := by
  induction cs with
  | nil => rfl
  | cons c cs ih => simp [Piece.char?, ih]

theorem toString?_ofString (s : String) : (ofString s).toString? = some s := by
  unfold toString? ofString
  rw [pieces_ofChars, mapM_scalar, Option.map_some, String.ofList_toList]

theorem toNat_charOfNat (hn : n < 0xD800 ∨ (0xDFFF < n ∧ n < 0x110000)) :
    (Char.ofNat n).toNat = n := by
  rw [Char.ofNat, dif_pos hn]
  rfl

theorem ofChar_combine (hu : isHigh u = true) (hv : isLow v = true) :
    ofChar (combine u v) = [u, v] := by
  rw [isHigh_iff] at hu
  rw [isLow_iff] at hv
  have hcombine : (combine u v).toNat =
      0x10000 + (u.toNat - 0xD800) * 0x400 + (v.toNat - 0xDC00) := toNat_charOfNat (by omega)
  have hhi : 0xD800 + ((combine u v).toNat - 0x10000) / 0x400 = u.toNat := by omega
  have hlo : 0xDC00 + ((combine u v).toNat - 0x10000) % 0x400 = v.toNat := by omega
  unfold ofChar
  rw [if_neg (by omega), hhi, hlo]
  simp

theorem ofChar_ofNat (hu : isHigh u = false) (hl : isLow u = false) :
    ofChar (Char.ofNat u.toNat) = [u] := by
  rw [Bool.eq_false_iff, Ne, isHigh_iff] at hu
  rw [Bool.eq_false_iff, Ne, isLow_iff] at hl
  have hlt := u.toNat_lt
  have htoNat : (Char.ofNat u.toNat).toNat = u.toNat := toNat_charOfNat (by omega)
  unfold ofChar
  rw [htoNat, if_pos (by omega)]
  simp

variable {us vs : Units}

theorem flatMap_ofChar_of_mapM {cs : List Char} (h : (pieces us).mapM Piece.char? = some cs) :
    cs.flatMap ofChar = us := by
  fun_induction pieces us generalizing cs with
  | case1 =>
    cases h
    rfl
  | case2 u hu v rest hv ih =>
    simp only [List.mapM_cons, Piece.char?, Option.pure_def, Option.bind_eq_bind,
      Option.bind_some, Option.bind_eq_some_iff] at h
    obtain ⟨cs', hcs', h⟩ := h
    cases h
    rw [List.flatMap_cons, ih hcs', ofChar_combine hu hv]
    rfl
  | case3 u hu v rest hv ih => simp [Piece.char?] at h
  | case4 u hu => simp [Piece.char?] at h
  | case5 u rest hu hl ih => simp [Piece.char?] at h
  | case6 u rest hu hl ih =>
    simp only [List.mapM_cons, Piece.char?, Option.pure_def, Option.bind_eq_bind,
      Option.bind_some, Option.bind_eq_some_iff] at h
    obtain ⟨cs', hcs', h⟩ := h
    cases h
    rw [List.flatMap_cons, ih hcs', ofChar_ofNat (by simpa using hu) (by simpa using hl)]
    rfl

theorem ofString_of_toString? {s : String} (h : us.toString? = some s) : ofString s = us := by
  unfold toString? at h
  obtain ⟨cs, hcs, rfl⟩ := Option.map_eq_some_iff.1 h
  unfold ofString
  rw [String.toList_ofList]
  exact flatMap_ofChar_of_mapM hcs

/-! ### Which units are well-formed -/

/-- Two units that are both first halves of pairs, both second halves, or neither. -/
def Alike (u v : UInt16) : Prop := isHigh u = isHigh v ∧ isLow u = isLow v

theorem toString?_isSome_iff (us : Units) :
    us.toString?.isSome ↔ ∀ p ∈ pieces us, p.char?.isSome := by
  unfold toString?
  rw [Option.isSome_map]
  induction pieces us with
  | nil => simp
  | cons p ps ih =>
    rw [List.forall_mem_cons, ← ih]
    cases p <;> cases hps : ps.mapM Piece.char? <;> simp [Piece.char?, hps]

theorem scalars_of_alike (h : List.Forall₂ Alike us vs) (hus : ∀ p ∈ pieces us, p.char?.isSome) :
    ∀ p ∈ pieces vs, p.char?.isSome := by
  fun_induction pieces us generalizing vs with
  | case1 =>
    cases h
    simp [pieces]
  | case2 u hu v rest hv ih =>
    obtain ⟨u', vs, hu', hrest, rfl⟩ := List.forall₂_cons_left_iff.1 h
    obtain ⟨v', vs, hv', hrest', rfl⟩ := List.forall₂_cons_left_iff.1 hrest
    rw [List.forall_mem_cons] at hus
    rw [pieces_pair (hu'.1 ▸ hu) (hv'.2 ▸ hv), List.forall_mem_cons]
    exact ⟨rfl, ih hrest' hus.2⟩
  | case3 u hu v rest hv ih => simp [Piece.char?] at hus
  | case4 u hu => simp [Piece.char?] at hus
  | case5 u rest hu hl ih => simp [Piece.char?] at hus
  | case6 u rest hu hl ih =>
    obtain ⟨u', vs, hu', hrest, rfl⟩ := List.forall₂_cons_left_iff.1 h
    rw [List.forall_mem_cons] at hus
    rw [pieces_single (by simpa [← hu'.1] using hu) (by simpa [← hu'.2] using hl),
      List.forall_mem_cons]
    exact ⟨rfl, ih hrest hus.2⟩

theorem toString?_isSome_of_alike (h : List.Forall₂ Alike us vs) (hus : us.toString?.isSome) :
    vs.toString?.isSome :=
  (toString?_isSome_iff vs).2 (scalars_of_alike h ((toString?_isSome_iff us).1 hus))

end Units

namespace Keystream

/-! ### The state stays a permutation -/

/-- The state is a permutation of the numbers below 256, and the positions lie in it. -/
structure Shuffle.Sound (s : Shuffle) : Prop where
  perm : s.state.toList.Perm (List.range 256)
  i_lt : s.i < 256
  j_lt : s.j < 256

namespace Shuffle

variable {s : Shuffle}

theorem Sound.size (h : s.Sound) : s.state.size = 256 := by
  simpa using h.perm.length_eq

theorem Sound.at_lt (h : s.Sound) (k : Nat) : s.at k < 256 := by
  unfold Shuffle.at
  by_cases hk : k < s.state.size
  · have hmem : s.state[k] ∈ List.range 256 := h.perm.subset (by simp)
    rw [Array.getD_eq_getD_getElem?, Array.getElem?_eq_getElem hk, Option.getD_some]
    simpa using hmem
  · rw [Array.getD_eq_getD_getElem?, Array.getElem?_eq_none (by omega)]
    simp

theorem sound_start : Shuffle.start.Sound where
  perm := by simp [Shuffle.start]
  i_lt := by simp [Shuffle.start]
  j_lt := by simp [Shuffle.start]

variable {i j : Nat} {key : Units}

theorem Sound.swap (h : s.Sound) (hi : i < 256) (hj : j < 256) :
    (s.state.swapIfInBounds i j).toList.Perm (List.range 256) := by
  have hsize := h.size
  rw [Array.swapIfInBounds_def, dif_pos (by omega), dif_pos (by omega)]
  exact (Array.perm_iff_toList_perm.1 (Array.swap_perm _ _)).trans h.perm

theorem Sound.mix (h : s.Sound) (key : Units) (hi : i < 256) : (s.mix key i).Sound where
  perm := h.swap hi (Nat.mod_lt _ (by decide))
  i_lt := h.i_lt
  j_lt := Nat.mod_lt _ (by decide)

theorem Sound.next (h : s.Sound) : s.next.2.Sound where
  perm := h.swap (Nat.mod_lt _ (by decide)) (Nat.mod_lt _ (by decide))
  i_lt := Nat.mod_lt _ (by decide)
  j_lt := Nat.mod_lt _ (by decide)

theorem Sound.next_lt (h : s.Sound) : s.next.1 < 256 := h.next.at_lt _

/-- Setting up with the first `n` places done. -/
def schedule (key : Units) (n : Nat) : Shuffle := (List.range n).foldl (Shuffle.mix key) .start

theorem schedule_succ (key : Units) (n : Nat) :
    schedule key (n + 1) = (schedule key n).mix key n := by
  unfold schedule
  rw [List.range_succ, List.foldl_append]
  rfl

theorem sound_schedule (key : Units) (hn : n ≤ 256) : (schedule key n).Sound := by
  induction n with
  | zero => exact sound_start
  | succ n ih =>
    rw [schedule_succ]
    exact (ih (by omega)).mix key hn

theorem ofKey_eq (key : Units) : Shuffle.ofKey key = { schedule key 256 with i := 0, j := 0 } := by
  unfold Shuffle.ofKey schedule
  rfl

theorem sound_ofKey (key : Units) : (Shuffle.ofKey key).Sound := by
  rw [ofKey_eq]
  exact ⟨(sound_schedule key (Nat.le_refl 256)).perm, Nat.zero_lt_succ _, Nat.zero_lt_succ _⟩

/-- A shuffle after so many masks were drawn from it. -/
def drawn (s : Shuffle) : Nat → Shuffle
  | 0 => s
  | n + 1 => (s.drawn n).next.2

theorem Sound.drawn (h : s.Sound) (n : Nat) : (s.drawn n).Sound := by
  induction n with
  | zero => exact h
  | succ n ih => exact ih.next

/-! ### No index is out of range -/

/-- Two places of an array swapped, if both exist. -/
def swapWithin (state : Array Nat) (i j : Nat) : Option (Array Nat) :=
  if h : i < state.size ∧ j < state.size then some (state.swap i j h.1 h.2) else none

/-- A step of setting up that refuses any index out of range. -/
def mixWithin (key : Units) (s : Shuffle) (i : Nat) : Option Shuffle := do
  let x ← s.state[i]?
  let unit ← key[i % key.length]?
  let j := (s.j + x + unit.toNat) % 256
  let state ← swapWithin s.state i j
  return { s with state, j }

/-- The next mask, refusing any index out of range. -/
def nextWithin (s : Shuffle) : Option (Nat × Shuffle) := do
  let i := (s.i + 1) % 256
  let x ← s.state[i]?
  let j := (s.j + x) % 256
  let state ← swapWithin s.state i j
  let y ← state[i]?
  let z ← state[j]?
  let m ← state[(y + z) % 256]?
  return (m, { state, i, j })

theorem Sound.getElem? (h : s.Sound) {k : Nat} (hk : k < 256) : s.state[k]? = some (s.at k) := by
  have hsize := h.size
  unfold Shuffle.at
  rw [Array.getD_eq_getD_getElem?, Array.getElem?_eq_getElem (by omega), Option.getD_some]

theorem Sound.swapWithin (h : s.Sound) (hi : i < 256) (hj : j < 256) :
    swapWithin s.state i j = some (s.state.swapIfInBounds i j) := by
  have hsize := h.size
  unfold Shuffle.swapWithin
  rw [dif_pos ⟨by omega, by omega⟩, Array.swapIfInBounds_def, dif_pos (by omega),
    dif_pos (by omega)]

theorem Sound.mixWithin (h : s.Sound) (hkey : key ≠ []) (hi : i < 256) :
    mixWithin key s i = some (s.mix key i) := by
  have hlen : i % key.length < key.length := Nat.mod_lt _ (List.length_pos_of_ne_nil hkey)
  have hunit : key[i % key.length]? = some (key.getD (i % key.length) 0) := by
    rw [List.getD_eq_getElem?_getD, List.getElem?_eq_getElem hlen, Option.getD_some]
  unfold Shuffle.mixWithin
  simp only [h.getElem? hi, hunit, Option.bind_eq_bind, Option.bind_some]
  rw [h.swapWithin hi (Nat.mod_lt _ (by decide))]
  rfl

theorem Sound.nextWithin (h : s.Sound) : nextWithin s = some s.next := by
  have hi : (s.i + 1) % 256 < 256 := Nat.mod_lt _ (by decide)
  have hj : (s.j + s.at ((s.i + 1) % 256)) % 256 < 256 := Nat.mod_lt _ (by decide)
  unfold Shuffle.nextWithin
  simp only [h.getElem? hi, Option.bind_eq_bind, Option.bind_some]
  rw [h.swapWithin hi hj, Option.bind_some]
  have hnext : s.next.2.Sound := h.next
  have hy := hnext.getElem? hi
  have hz := hnext.getElem? hj
  have hm := hnext.getElem? (k := (s.next.2.at ((s.i + 1) % 256) +
    s.next.2.at ((s.j + s.at ((s.i + 1) % 256)) % 256)) % 256) (Nat.mod_lt _ (by decide))
  simp only [Shuffle.next] at hy hz hm ⊢
  rw [hy, Option.bind_some, hz, Option.bind_some, hm]
  rfl

theorem foldlM_mixWithin (hkey : key ≠ []) (hn : n ≤ 256) :
    (List.range n).foldlM (Shuffle.mixWithin key) .start = some (schedule key n) := by
  induction n with
  | zero => rfl
  | succ n ih =>
    rw [List.range_succ, List.foldlM_append, ih (by omega), schedule_succ]
    simp [(sound_schedule key (by omega : n ≤ 256)).mixWithin hkey (by omega : n < 256)]

end Shuffle

/-- Units masked one by one, refusing any index out of range. -/
def maskWithin : Shuffle → Units → Option Units
  | _, [] => some []
  | s, u :: us => do
    let (m, s') ← s.nextWithin
    let rest ← maskWithin s' us
    return (u ^^^ m.toUInt16) :: rest

variable {s : Shuffle}

theorem maskWithin_eq (h : s.Sound) (us : Units) : maskWithin s us = some (mask s us) := by
  induction us generalizing s with
  | nil => rfl
  | cons u us ih =>
    unfold maskWithin mask
    rw [h.nextWithin]
    simp [ih h.next]

/-! ### Masking -/

/-- A mask below 256 leaves the upper half of a unit alone. -/
theorem xor_div {m : Nat} (hm : m < 256) : (u ^^^ m.toUInt16).toNat / 256 = u.toNat / 256 := by
  have hmNat : m.toUInt16.toNat = m := Units.toNat_toUInt16 (by omega)
  have hshift : m >>> 8 = 0 := by
    rw [Nat.shiftRight_eq_div_pow]
    exact Nat.div_eq_of_lt hm
  have hxor : (u.toNat ^^^ m) >>> 8 = u.toNat >>> 8 := by
    rw [Nat.shiftRight_xor_distrib, hshift, Nat.xor_zero]
  rw [Nat.shiftRight_eq_div_pow, Nat.shiftRight_eq_div_pow] at hxor
  rw [UInt16.toNat_xor, hmNat]
  exact hxor

theorem alike_of_div_eq (h : u.toNat / 256 = v.toNat / 256) : Units.Alike u v := by
  constructor
  · rw [Bool.eq_iff_iff, Units.isHigh_iff, Units.isHigh_iff]
    omega
  · rw [Bool.eq_iff_iff, Units.isLow_iff, Units.isLow_iff]
    omega

theorem alike_mask (h : s.Sound) (us : Units) : List.Forall₂ Units.Alike us (mask s us) := by
  induction us generalizing s with
  | nil => exact .nil
  | cons u us ih => exact .cons (alike_of_div_eq (xor_div h.next_lt).symm) (ih h.next)

theorem mask_mask (s : Shuffle) (us : Units) : mask s (mask s us) = us := by
  induction us generalizing s with
  | nil => rfl
  | cons u us ih =>
    simp only [mask, ih, UInt16.xor_assoc, UInt16.xor_self, UInt16.xor_zero]

theorem exists_masked (key t : String) : ∃ c : String,
    Units.ofString c = mask (Shuffle.ofKey (Units.ofString key)) (Units.ofString t) := by
  have halike := alike_mask (Shuffle.sound_ofKey (Units.ofString key)) (Units.ofString t)
  have hsome := Units.toString?_isSome_of_alike halike (by rw [Units.toString?_ofString]; rfl)
  obtain ⟨c, hc⟩ := Option.isSome_iff_exists.1 hsome
  exact ⟨c, Units.ofString_of_toString? hc⟩

/-! ### The round trip -/

theorem decodeText?_encode (c : String) :
    Base64.decodeText? (String.ofList (Base64.encode c.toUTF8.data.toList)) = some c := by
  unfold Base64.decodeText?
  rw [String.toList_ofList, Base64.decode_encode]
  have hvalid : c.toUTF8.IsValidUTF8 := c.isValidUTF8
  unfold String.fromUTF8?
  rw [dif_pos hvalid]
  rfl

theorem ofString_ne_nil {key : String} (hkey : key ≠ "") : Units.ofString key ≠ [] := by
  intro h
  have hread := Units.toString?_ofString key
  rw [h] at hread
  exact hkey (Option.some_inj.1 hread).symm

/-- **Keyed strings read back.** For every key that is not empty and every text, the units of the
text masked with the stream of the key are the units of a text, and reading that text from its
base64 form with the same key gives the first text. Throughout setting up and drawing, the state is
a permutation of the numbers below 256, and no index is out of range. -/
theorem decode?_encode_masked (key t : String) (hkey : key ≠ "") :
    (∃ c : String,
      Units.ofString c = mask (Shuffle.ofKey (Units.ofString key)) (Units.ofString t) ∧
      decode? (String.ofList (Base64.encode c.toUTF8.data.toList)) key = some t) ∧
    (∀ n ≤ 256, ((List.range n).foldl (Shuffle.mix (Units.ofString key)) .start).state.toList.Perm
      (List.range 256)) ∧
    (∀ n, ((Shuffle.ofKey (Units.ofString key)).drawn n).state.toList.Perm (List.range 256)) ∧
    ((List.range 256).foldlM (Shuffle.mixWithin (Units.ofString key)) .start).map
      (fun s => { s with i := 0, j := 0 }) = some (Shuffle.ofKey (Units.ofString key)) ∧
    (∀ us, maskWithin (Shuffle.ofKey (Units.ofString key)) us =
      some (mask (Shuffle.ofKey (Units.ofString key)) us)) := by
  have hsound := Shuffle.sound_ofKey (Units.ofString key)
  have hne := ofString_ne_nil hkey
  refine ⟨?_, fun n hn => (Shuffle.sound_schedule _ hn).perm, fun n => (hsound.drawn n).perm, ?_,
    maskWithin_eq hsound⟩
  · obtain ⟨c, hc⟩ := exists_masked key t
    refine ⟨c, hc, ?_⟩
    unfold decode?
    rw [decodeText?_encode]
    simp only [List.isEmpty_iff, hne, ↓reduceIte, Option.bind_eq_bind, Option.bind_some]
    rw [hc, mask_mask, Units.toString?_ofString]
  · rw [Shuffle.foldlM_mixWithin hne (Nat.le_refl 256), Option.map_some, Shuffle.ofKey_eq]

/-- The case of a text with a surrogate pair. -/
theorem decode?_encode_masked_pair : ("key" : String) ≠ "" ∧ ∃ c : String,
    Units.ofString c = mask (Shuffle.ofKey (Units.ofString "key")) (Units.ofString "a😀") ∧
    decode? (String.ofList (Base64.encode c.toUTF8.data.toList)) "key" = some "a😀" :=
  ⟨by decide, (decode?_encode_masked "key" "a😀" (by decide)).1⟩

end Keystream

end Untangle
