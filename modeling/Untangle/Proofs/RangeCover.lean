import Mathlib.Data.Nat.Bitwise
import Untangle.Source.Loose

/-!
# Reading around errors covers the text once

The work list of `coverRanges` is followed step by step, for **any** reader of ranges. What a reader
may do is bounded by its type alone: each range gives items or the offset of an error, and that
offset may lie anywhere.

The argument has three layers.

* One region (`badRegion_spec`): the part given up for an error lies inside the range, holds the
  error moved into the range, stays on one line, and is cut at ends of the range or behind an ASCII
  byte.
* One step (`Worklist.Sound.step`): settled and pending ranges together tile the text, and every
  boundary is one of a character (`isValid_of_cutAfterAscii`).
* The whole run (`Worklist.run_pending_eq_nil`): each step lowers `Worklist.weight`, so the list is
  empty after `4 * size + 1` of them.
-/

namespace Untangle.Source

variable {bytes : Array UInt8}

/-! ### Lines -/

/-- An index right behind an ASCII byte. -/
def CutAfterAscii (bytes : Array UInt8) (i : Nat) : Prop :=
  ∃ j, i = j + 1 ∧ byteAt bytes j < 128

variable {anchor i lineEnd a b : Nat} {cs : List Chunk} {c : Chunk}

/-- The line of an anchor starts at the range or behind a line feed, and has no line feed before the
anchor. -/
theorem lineStartFrom_spec (bytes : Array UInt8) {start : Nat} (h : start ≤ anchor) :
    start ≤ lineStartFrom bytes start anchor ∧ lineStartFrom bytes start anchor ≤ anchor ∧
      (lineStartFrom bytes start anchor = start ∨
        CutAfterAscii bytes (lineStartFrom bytes start anchor)) ∧
      ∀ i, lineStartFrom bytes start anchor ≤ i → i < anchor → byteAt bytes i ≠ 10 := by
  fun_induction lineStartFrom bytes start anchor with
  | case1 => exact ⟨Nat.le_refl _, h, Or.inl rfl, fun i _ hi => absurd hi (Nat.not_lt_zero i)⟩
  | case2 n hn =>
    refine ⟨Nat.le_refl _, h, Or.inl rfl, fun i hi hi' => ?_⟩
    omega
  | case3 n hn hb =>
    have hb' : byteAt bytes n = 10 := by simpa using hb
    refine ⟨h, Nat.le_refl _, Or.inr ⟨n, rfl, ?_⟩, fun i hi hi' => ?_⟩
    · rw [hb']
      decide
    · omega
  | case4 n hn hb ih =>
    obtain ⟨h1, h2, h3, h4⟩ := ih (by omega)
    refine ⟨h1, by omega, h3, fun i hi hi' => ?_⟩
    rcases Nat.lt_succ_iff_lt_or_eq.mp hi' with hlt | rfl
    · exact h4 i hi hlt
    · simpa using hb

/-- The line of an anchor ends with the range or behind a line feed, which is then its only one from
the anchor on. -/
theorem lineEndFrom_spec (bytes : Array UInt8) {stop : Nat} (h : anchor < stop) :
    anchor < lineEndFrom bytes stop anchor ∧ lineEndFrom bytes stop anchor ≤ stop ∧
      (lineEndFrom bytes stop anchor = stop ∨
        CutAfterAscii bytes (lineEndFrom bytes stop anchor)) ∧
      ∀ i, anchor ≤ i → i + 1 < lineEndFrom bytes stop anchor → byteAt bytes i ≠ 10 := by
  refine ⟨lt_lineEndFrom bytes h, ?_⟩
  clear h
  fun_induction lineEndFrom bytes stop anchor with
  | case1 anchor ha hb =>
    have hb' : byteAt bytes anchor = 10 := by simpa using hb
    refine ⟨ha, Or.inr ⟨anchor, rfl, ?_⟩, fun i hi hi' => ?_⟩
    · rw [hb']
      decide
    · omega
  | case2 anchor ha hb ih =>
    obtain ⟨h1, h2, h3⟩ := ih
    refine ⟨h1, h2, fun i hi hi' => ?_⟩
    rcases Nat.lt_or_eq_of_le hi with hlt | rfl
    · exact h3 i hlt hi'
    · simpa using hb
  | case3 anchor ha =>
    exact ⟨Nat.le_refl _, Or.inl rfl, fun i hi hi' => by omega⟩

/-! ### Statements -/

/-- The separators that a statement can start behind are ASCII. -/
theorem byteAt_of_separator
    (h : markAt bytes lineEnd i = .semicolon ∨ markAt bytes lineEnd i = .closingBrace) :
    byteAt bytes i < 128 := by
  have key : byteAt bytes i = 59 ∨ byteAt bytes i = 125 := by
    unfold markAt at h
    simp only at h
    repeat' split at h
    all_goals simp_all
  rcases key with hb | hb <;> rw [hb] <;> decide

/-- The scan for the start of a statement gives a place between `low` and the anchor: the one it was
given, or one behind a separator. -/
theorem statementStart_spec (bytes : Array UInt8) {low : Nat} (ha : anchor < lineEnd)
    (i depth start : Nat) (hi : low ≤ i) (hlow : low ≤ start) (hstart : start ≤ anchor) :
    low ≤ statementStart bytes ha i depth start ∧
      statementStart bytes ha i depth start ≤ anchor ∧
      (statementStart bytes ha i depth start = start ∨
        CutAfterAscii bytes (statementStart bytes ha i depth start)) := by
  -- the scan moves right only, so whatever it marks as a start is at least `low`
  fun_induction statementStart bytes ha i depth start with
  | case1 i depth start hlt hm ih => exact ih (by omega) hlow hstart
  | case2 i depth start hlt hm ih => exact ih (by omega) hlow hstart
  | case3 i depth start hlt hm ih =>
    by_cases hd : depth - 1 = 0
    · simp only [hd, ↓reduceDIte, ↓reduceIte] at ih ⊢
      obtain ⟨h1, h2, h3⟩ := ih (by omega) (by omega) (by omega)
      refine ⟨h1, h2, Or.inr ?_⟩
      rcases h3 with h3 | h3
      · exact ⟨i, h3, byteAt_of_separator (Or.inr hm)⟩
      · exact h3
    · simp only [hd, ↓reduceDIte, ↓reduceIte] at ih ⊢
      exact ih (by omega) hlow hstart
  | case4 i depth start hlt hm ih =>
    by_cases hd : depth = 0
    · simp only [hd, ↓reduceDIte, ↓reduceIte] at ih ⊢
      obtain ⟨h1, h2, h3⟩ := ih (by omega) (by omega) (by omega)
      refine ⟨h1, h2, Or.inr ?_⟩
      rcases h3 with h3 | h3
      · exact ⟨i, h3, byteAt_of_separator (Or.inl hm)⟩
      · exact h3
    · simp only [hd, ↓reduceDIte, ↓reduceIte] at ih ⊢
      exact ih (by omega) hlow hstart
  | case5 i depth start hlt hm => exact ⟨hlow, hstart, Or.inl rfl⟩
  | case6 i depth start hlt next hm hnext ih => exact ih (by omega) hlow hstart
  | case7 i depth start hlt hm ih => exact ih (by omega) hlow hstart
  | case8 i depth start hlt => exact ⟨hlow, hstart, Or.inl rfl⟩

/-- The scan for the end of a statement gives a place after the index it starts from: the end of the
line, or one behind a semicolon. -/
theorem statementStop_spec (bytes : Array UInt8) (lineEnd i : Nat) (depth : Int) (hi : i ≤ lineEnd) :
    min (i + 1) lineEnd ≤ statementStop bytes lineEnd i depth ∧
      statementStop bytes lineEnd i depth ≤ lineEnd ∧
      (statementStop bytes lineEnd i depth = lineEnd ∨
        CutAfterAscii bytes (statementStop bytes lineEnd i depth)) := by
  fun_induction statementStop bytes lineEnd i depth with
  | case1 i depth hlt hm ih =>
    obtain ⟨h1, h2, h3⟩ := ih (by omega)
    exact ⟨by omega, h2, h3⟩
  | case2 i depth hlt hm ih =>
    obtain ⟨h1, h2, h3⟩ := ih (by omega)
    exact ⟨by omega, h2, h3⟩
  | case3 i depth hlt hm ih =>
    obtain ⟨h1, h2, h3⟩ := ih (by omega)
    exact ⟨by omega, h2, h3⟩
  | case4 i depth hlt hm hd =>
    exact ⟨by omega, by omega, Or.inr ⟨i, rfl, byteAt_of_separator (Or.inl hm)⟩⟩
  | case5 i depth hlt hm hd ih =>
    obtain ⟨h1, h2, h3⟩ := ih (by omega)
    exact ⟨by omega, h2, h3⟩
  | case6 i depth hlt hm => exact ⟨by omega, Nat.le_refl _, Or.inl rfl⟩
  | case7 i depth hlt next hm hnext ih =>
    obtain ⟨h1, h2, h3⟩ := ih (by omega)
    exact ⟨by omega, h2, h3⟩
  | case8 i depth hlt hm ih =>
    obtain ⟨h1, h2, h3⟩ := ih (by omega)
    exact ⟨by omega, h2, h3⟩
  | case9 i depth hlt => exact ⟨by omega, Nat.le_refl _, Or.inl rfl⟩

/-! ### One region -/

/-- What is given up for an error: a part of the range that holds the error moved into the range,
without a line feed before its last byte, whose ends are those of the range or lie behind an ASCII
byte. -/
structure IsBadRegion (bytes : Array UInt8) (start stop error badStart badStop : Nat) : Prop where
  start_le : start ≤ badStart
  le_anchor : badStart ≤ anchorOf start stop error
  anchor_lt : anchorOf start stop error < badStop
  le_stop : badStop ≤ stop
  oneLine : ∀ i, badStart ≤ i → i + 1 < badStop → byteAt bytes i ≠ 10
  start_cut : badStart = start ∨ CutAfterAscii bytes badStart
  stop_cut : badStop = stop ∨ CutAfterAscii bytes badStop

theorem badRegion_spec (bytes : Array UInt8) {start stop : Nat} (h : start < stop) (error : Nat) :
    IsBadRegion bytes start stop error (badRegion bytes h error).1 (badRegion bytes h error).2 := by
  obtain ⟨ha1, ha2⟩ := anchorOf_bounds h error
  obtain ⟨s1, s2, s3, s4⟩ := lineStartFrom_spec bytes ha1
  obtain ⟨e1, e2, e3, e4⟩ := lineEndFrom_spec bytes ha2
  obtain ⟨b1, b2, b3⟩ := statementStart_spec bytes (lt_lineEndFrom bytes ha2)
    (lineStartFrom bytes start (anchorOf start stop error)) 0 _ (Nat.le_refl _) (Nat.le_refl _) s2
  obtain ⟨t1, t2, t3⟩ := statementStop_spec bytes
    (lineEndFrom bytes stop (anchorOf start stop error)) (anchorOf start stop error) 0 (by omega)
  refine ⟨?_, b2, ?_, ?_, fun i hi hi' => ?_, ?_, ?_⟩
  · exact Nat.le_trans s1 b1
  · show _ < statementStop bytes _ _ _
    omega
  · exact Nat.le_trans t2 e2
  · -- left of the anchor the line start decides, from the anchor on the line end
    have hlow : lineStartFrom bytes start (anchorOf start stop error) ≤ i := Nat.le_trans b1 hi
    have hhigh : i + 1 < lineEndFrom bytes stop (anchorOf start stop error) :=
      Nat.lt_of_lt_of_le hi' t2
    by_cases hia : i < anchorOf start stop error
    · exact s4 i hlow hia
    · exact e4 i (Nat.le_of_not_lt hia) hhigh
  · rcases b3 with b3 | b3
    · rcases s3 with s3 | s3
      · exact Or.inl (b3.trans s3)
      · exact Or.inr (by rw [badRegion, b3]; exact s3)
    · exact Or.inr b3
  · rcases t3 with t3 | t3
    · rcases e3 with e3 | e3
      · exact Or.inl (t3.trans e3)
      · exact Or.inr (by rw [badRegion, t3]; exact e3)
    · exact Or.inr t3

/-! ### Characters -/

theorem and_128_of_ascii {b : UInt8} (h : b < 128) : b &&& 128 = 0 := by
  have hb : b.toNat < 2 ^ 7 := UInt8.lt_iff_toNat_lt.mp h
  apply UInt8.toNat.inj
  rw [UInt8.toNat_and]
  show b.toNat &&& 2 ^ 7 = 0
  rw [Nat.and_two_pow, Nat.testBit_lt_two_pow hb]
  rfl

/-- An ASCII byte is a character by itself, so the place behind it is between two characters. -/
theorem isValid_of_cutAfterAscii (text : String) (h : CutAfterAscii text.toUTF8.data i)
    (hi : i ≤ text.toUTF8.data.size) : (⟨i⟩ : String.Pos.Raw).IsValid text := by
  obtain ⟨j, rfl, hj⟩ := h
  have hj' : j < text.toUTF8.data.size := hi
  have hlt : (⟨j⟩ : String.Pos.Raw) < text.rawEndPos := by
    rw [String.Pos.Raw.lt_iff]
    exact hj'
  have hbyte : text.getUTF8Byte ⟨j⟩ hlt &&& 128 = 0 := by
    apply and_128_of_ascii
    rw [byteAt, Array.getD, dif_pos hj'] at hj
    exact hj
  have hvalid : (⟨j⟩ : String.Pos.Raw).IsValid text :=
    String.Pos.Raw.isValid_iff_isUTF8FirstByte.mpr (Or.inr ⟨hlt, Or.inl hbyte⟩)
  let p : text.Pos := ⟨⟨j⟩, hvalid⟩
  have hne : p ≠ text.endPos := by
    intro he
    have hidx := congrArg (fun q : text.Pos => q.offset.byteIdx) he
    simp only [p, String.offset_endPos, String.byteIdx_rawEndPos] at hidx
    rw [String.Pos.Raw.lt_iff, String.byteIdx_rawEndPos] at hlt
    exact absurd hidx (Nat.ne_of_lt hlt)
  have hsize : (p.get hne).utf8Size = 1 := by
    rw [← String.Pos.utf8ByteSize_byte (h := hne)]
    unfold UInt8.utf8ByteSize
    rw [if_pos]
    simpa [p, String.Pos.byte, String.Slice.Pos.byte, String.Slice.getUTF8Byte] using hbyte
  have hnext := (p.next hne).isValid
  have hoff : (p.next hne).offset = ⟨j + 1⟩ := by
    apply String.Pos.Raw.ext
    rw [String.Pos.byteIdx_offset_next, hsize]
  rwa [hoff] at hnext

/-! ### One step -/

variable {α : Type}

/-- Ranges that hold a byte each and follow one another without gap from `a` to `b`. -/
def Tiles : Nat → Nat → List (Piece α) → Prop
  | a, b, [] => a = b
  | a, b, p :: ps => p.start = a ∧ p.start < p.stop ∧ Tiles p.stop b ps

theorem Tiles.snoc {ps : List (Piece α)} {p : Piece α} (h : Tiles a b ps) (hp : p.start = b)
    (hlt : p.start < p.stop) : Tiles a p.stop (ps ++ [p]) := by
  induction ps generalizing a with
  | nil => exact ⟨hp.trans (Eq.symm h), hlt, rfl⟩
  | cons q qs ih => exact ⟨h.1, h.2.1, ih h.2.2⟩

def Chunk.start : Chunk → Nat
  | .source start _ => start
  | .placeholder start _ => start

def Chunk.stop : Chunk → Nat
  | .source _ stop => stop
  | .placeholder _ stop => stop

/-- Pending ranges that follow one another without gap from `a` to `b`; some may be empty. -/
def ChunksTile : Nat → Nat → List Chunk → Prop
  | a, b, [] => a = b
  | a, b, c :: cs => c.start = a ∧ c.start ≤ c.stop ∧ ChunksTile c.stop b cs

theorem ChunksTile.le (h : ChunksTile a b cs) : a ≤ b := by
  induction cs generalizing a with
  | nil => exact Nat.le_of_eq h
  | cons c cs ih =>
    have hc := ih h.2.2
    have h1 : c.start = a := h.1
    have h2 : c.start ≤ c.stop := h.2.1
    omega

theorem ChunksTile.mem_le (h : ChunksTile a b cs) (hc : c ∈ cs) :
    c.start ≤ c.stop ∧ c.stop ≤ b := by
  induction cs generalizing a with
  | nil => exact absurd hc List.not_mem_nil
  | cons d ds ih =>
    rcases List.mem_cons.mp hc with rfl | hd
    · exact ⟨h.2.1, h.2.2.le⟩
    · exact ih h.2.2 hd

/-- A range that was given up, for an error in a range that was tried. -/
def GivenUp (bytes : Array UInt8) (read : RangeReader α) (badStart badStop : Nat) : Prop :=
  ∃ start stop error, read start stop = .error error ∧
    IsBadRegion bytes start stop error badStart badStop

theorem GivenUp.lt {read : RangeReader α} {badStart badStop : Nat}
    (h : GivenUp bytes read badStart badStop) : badStart < badStop := by
  obtain ⟨start, stop, error, -, hbad⟩ := h
  exact Nat.lt_of_le_of_lt hbad.le_anchor hbad.anchor_lt

/-- A range is settled by what the reader makes of it, or by being given up. -/
def Piece.Settled (bytes : Array UInt8) (read : RangeReader α) (p : Piece α) : Prop :=
  match p.items with
  | some items => read p.start p.stop = .ok items
  | none => GivenUp bytes read p.start p.stop

namespace Worklist

/-- What holds after every step: settled ranges tile the text up to some offset and the pending ones
from there, all boundaries are among `B`, each settled range was settled for a reason, and so will
be each placeholder. -/
structure Sound (bytes : Array UInt8) (read : RangeReader α) (B : Nat → Prop) (w : Worklist α) :
    Prop where
  tiles : ∃ m, Tiles 0 m w.settled.reverse ∧ ChunksTile m bytes.size w.pending
  settled : ∀ p ∈ w.settled, p.Settled bytes read
  placeholder : ∀ a b, Chunk.placeholder a b ∈ w.pending → GivenUp bytes read a b
  settled_bounds : ∀ p ∈ w.settled, B p.start ∧ B p.stop
  pending_bounds : ∀ c ∈ w.pending, B c.start ∧ B c.stop

variable {read : RangeReader α} {B : Nat → Prop} {w : Worklist α}

theorem Sound.initial (h0 : B 0) (hsize : B bytes.size) :
    Sound bytes read B (Worklist.initial bytes.size) where
  tiles := ⟨0, rfl, rfl, Nat.zero_le _, rfl⟩
  settled := fun _ hp => absurd hp List.not_mem_nil
  placeholder := fun a b hab => by simp [Worklist.initial] at hab
  settled_bounds := fun _ hp => absurd hp List.not_mem_nil
  pending_bounds := fun c hc => by
    rw [List.mem_singleton.mp hc]
    exact ⟨h0, hsize⟩

variable {rest : List Chunk}

/-- The leftmost range is taken off the list and settled. -/
theorem Sound.settle (h : Sound bytes read B w) (hw : w.pending = c :: rest) (p : Piece α)
    (hstart : p.start = c.start) (hstop : p.stop = c.stop) (hlt : p.start < p.stop)
    (hp : p.Settled bytes read) :
    Sound bytes read B { settled := p :: w.settled, pending := rest } := by
  obtain ⟨m, ht, hc⟩ := h.tiles
  rw [hw] at hc
  have hmem : c ∈ w.pending := by rw [hw]; exact List.mem_cons_self
  have hrest : ∀ d ∈ rest, d ∈ w.pending := fun d hd => by rw [hw]; exact List.mem_cons_of_mem c hd
  refine ⟨⟨c.stop, ?_, hc.2.2⟩, ?_, fun a b hab => h.placeholder a b (hrest _ hab), ?_,
    fun d hd => h.pending_bounds d (hrest d hd)⟩
  · show Tiles 0 c.stop (p :: w.settled).reverse
    rw [List.reverse_cons, ← hstop]
    exact ht.snoc (hstart.trans hc.1) hlt
  · intro q hq
    rcases List.mem_cons.mp hq with rfl | hq
    · exact hp
    · exact h.settled q hq
  · intro q hq
    rcases List.mem_cons.mp hq with rfl | hq
    · rw [hstart, hstop]
      exact h.pending_bounds c hmem
    · exact h.settled_bounds q hq

/-- The leftmost range is split around the part to give up. -/
theorem Sound.split {start stop error : Nat}
    (hB : ∀ i, CutAfterAscii bytes i → i ≤ bytes.size → B i) (h : Sound bytes read B w)
    (hw : w.pending = .source start stop :: rest) (hlt : start < stop)
    (he : read start stop = .error error) :
    Sound bytes read B
      { w with
        pending := .source start (badRegion bytes hlt error).1 ::
          .placeholder (badRegion bytes hlt error).1 (badRegion bytes hlt error).2 ::
          .source (badRegion bytes hlt error).2 stop :: rest } := by
  have hbad := badRegion_spec bytes hlt error
  have hgiven : GivenUp bytes read (badRegion bytes hlt error).1 (badRegion bytes hlt error).2 :=
    ⟨start, stop, error, he, hbad⟩
  obtain ⟨m, ht, hc⟩ := h.tiles
  rw [hw] at hc
  have hstop : stop ≤ bytes.size := hc.2.2.le
  have hmem : Chunk.source start stop ∈ w.pending := by rw [hw]; exact List.mem_cons_self
  have hrest : ∀ d ∈ rest, d ∈ w.pending := fun d hd => by
    rw [hw]; exact List.mem_cons_of_mem _ hd
  obtain ⟨hb1, hb2⟩ := h.pending_bounds _ hmem
  have hcut1 : B (badRegion bytes hlt error).1 := by
    rcases hbad.start_cut with hs | hs
    · rw [hs]; exact hb1
    · exact hB _ hs (by have := hgiven.lt; have := hbad.le_stop; omega)
  have hcut2 : B (badRegion bytes hlt error).2 := by
    rcases hbad.stop_cut with hs | hs
    · rw [hs]; exact hb2
    · exact hB _ hs (Nat.le_trans hbad.le_stop hstop)
  refine ⟨⟨m, ht, hc.1, hbad.start_le, rfl, Nat.le_of_lt hgiven.lt, rfl, hbad.le_stop, hc.2.2⟩,
    h.settled, ?_, h.settled_bounds, ?_⟩
  · intro a b hab
    simp only [List.mem_cons, reduceCtorEq, false_or, Chunk.placeholder.injEq] at hab
    rcases hab with ⟨rfl, rfl⟩ | hab
    · exact hgiven
    · exact h.placeholder a b (hrest _ hab)
  · intro c hcm
    simp only [List.mem_cons] at hcm
    rcases hcm with rfl | rfl | rfl | hcm
    · exact ⟨hb1, hcut1⟩
    · exact ⟨hcut1, hcut2⟩
    · exact ⟨hcut2, hb2⟩
    · exact h.pending_bounds c (hrest c hcm)

theorem Sound.drop {start stop : Nat} (h : Sound bytes read B w)
    (hw : w.pending = .source start stop :: rest) (hlt : ¬start < stop) :
    Sound bytes read B { w with pending := rest } := by
  obtain ⟨m, ht, hc⟩ := h.tiles
  rw [hw] at hc
  have hrest : ∀ d ∈ rest, d ∈ w.pending := fun d hd => by
    rw [hw]; exact List.mem_cons_of_mem _ hd
  have hm : stop = m := by
    have h1 : start = m := hc.1
    have h2 : start ≤ stop := hc.2.1
    omega
  refine ⟨⟨m, ht, ?_⟩, h.settled, fun a b hab => h.placeholder a b (hrest _ hab),
    h.settled_bounds, fun d hd => h.pending_bounds d (hrest d hd)⟩
  rw [← hm]
  exact hc.2.2

/-- One turn of the work keeps all of `Sound`. -/
theorem Sound.step (hB : ∀ i, CutAfterAscii bytes i → i ≤ bytes.size → B i)
    (h : Sound bytes read B w) : Sound bytes read B (w.step bytes read) := by
  unfold Worklist.step
  split
  · exact h
  · rename_i start stop rest hw
    have hgiven := h.placeholder start stop (by rw [hw]; exact List.mem_cons_self)
    exact h.settle hw { start, stop, items := none } rfl rfl hgiven.lt hgiven
  · rename_i start stop rest hw
    split
    · rename_i hlt
      split
      · rename_i items hr
        exact h.settle hw { start, stop, items := some items } rfl rfl hlt hr
      · rename_i e hr
        exact h.split hB hw hlt hr
    · rename_i hlt
      exact h.drop hw hlt

/-! ### The whole run -/

theorem Sound.run (hB : ∀ i, CutAfterAscii bytes i → i ≤ bytes.size → B i) (n : Nat)
    (h : Sound bytes read B w) : Sound bytes read B (w.run bytes read n) := by
  induction n generalizing w with
  | zero => exact h
  | succ n ih =>
    unfold Worklist.run
    split
    · exact h
    · exact ih (h.step hB)

/-- How many steps a pending range can still cost. -/
def chunkWeight : Chunk → Nat
  | .source start stop => 4 * (stop - start) + 1
  | .placeholder _ _ => 1

/-- How many steps the work can still take. -/
def weight (w : Worklist α) : Nat := (w.pending.map chunkWeight).sum

/-- Every turn of the work brings its end nearer: a split leaves two ranges that are together at
least one byte shorter. -/
theorem weight_step_lt (bytes : Array UInt8) (read : RangeReader α) (h : w.pending ≠ []) :
    (w.step bytes read).weight < w.weight := by
  unfold Worklist.step
  split
  · rename_i hw
    exact absurd hw h
  · rename_i start stop rest hw
    simp [weight, hw, chunkWeight]
  · rename_i start stop rest hw
    split
    · rename_i hlt
      split
      · simp [weight, hw, chunkWeight]
      · rename_i e hr
        have hbad := badRegion_spec bytes hlt e
        have h1 := hbad.start_le
        have h2 := hbad.le_anchor
        have h3 := hbad.anchor_lt
        have h4 := hbad.le_stop
        simp only [weight, hw, List.map_cons, List.sum_cons, chunkWeight]
        omega
    · simp [weight, hw, chunkWeight]

theorem run_pending_eq_nil {n : Nat} (h : w.weight ≤ n) : (w.run bytes read n).pending = [] := by
  induction n generalizing w with
  | zero =>
    show w.pending = []
    cases hw : w.pending with
    | nil => rfl
    | cons c cs => cases c <;> simp [weight, hw, chunkWeight] at h
  | succ n ih =>
    unfold Worklist.run
    split
    · rename_i hw
      exact List.isEmpty_iff.mp hw
    · rename_i hw
      have hlt := weight_step_lt bytes read (fun he => hw (List.isEmpty_iff.mpr he))
      exact ih (by omega)

end Worklist

/-- An offset between two characters of a text, or at one of its ends. -/
def IsBoundary (text : String) (i : Nat) : Prop := (⟨i⟩ : String.Pos.Raw).IsValid text

/-- The work on a text, seen after any number of steps. -/
theorem sound_run (text : String) (read : RangeReader α) (n : Nat) :
    Worklist.Sound text.toUTF8.data read (IsBoundary text)
      ((Worklist.initial text.toUTF8.data.size).run text.toUTF8.data read n) := by
  refine Worklist.Sound.run (fun i hi hle => isValid_of_cutAfterAscii text hi hle) n ?_
  exact Worklist.Sound.initial String.Pos.Raw.isValid_zero String.Pos.Raw.isValid_rawEndPos

/-- **The text is cut into ranges once and completely.** Whatever the reader does, the work list is
empty after `4 * size + 1` steps; the settled ranges, in their order, follow one another from the
start of the text to its end; every range that is ever pending, and so every range that is ever
read, lies in the text between boundaries of characters; and a range that became a placeholder holds
the error it was given up for and has no line feed but as its last byte. -/
theorem coverRanges_partitions (text : String) (read : RangeReader α) :
    ((Worklist.initial text.toUTF8.data.size).run text.toUTF8.data read
        (4 * text.toUTF8.data.size + 1)).pending = [] ∧
      Tiles 0 text.toUTF8.data.size (coverRanges text.toUTF8.data read) ∧
      (∀ n, ∀ c ∈ ((Worklist.initial text.toUTF8.data.size).run text.toUTF8.data read n).pending,
        c.start ≤ c.stop ∧ c.stop ≤ text.toUTF8.data.size ∧
          IsBoundary text c.start ∧ IsBoundary text c.stop) ∧
      ∀ p ∈ coverRanges text.toUTF8.data read,
        IsBoundary text p.start ∧ IsBoundary text p.stop ∧
          (∀ items, p.items = some items → read p.start p.stop = .ok items) ∧
          (p.items = none → ∃ start stop error, read start stop = .error error ∧
            start ≤ p.start ∧ p.stop ≤ stop ∧
            p.start ≤ anchorOf start stop error ∧ anchorOf start stop error < p.stop ∧
            ∀ i, p.start ≤ i → i + 1 < p.stop → byteAt text.toUTF8.data i ≠ 10) := by
  have hempty : ((Worklist.initial text.toUTF8.data.size).run text.toUTF8.data read
      (4 * text.toUTF8.data.size + 1)).pending = [] := by
    apply Worklist.run_pending_eq_nil
    simp [Worklist.weight, Worklist.initial, Worklist.chunkWeight]
  have hend := sound_run text read (4 * text.toUTF8.data.size + 1)
  refine ⟨hempty, ?_, fun n c hc => ?_, fun p hp => ?_⟩
  · obtain ⟨m, ht, hc⟩ := hend.tiles
    rw [hempty] at hc
    rw [← (hc : m = text.toUTF8.data.size)]
    exact ht
  · have hn := sound_run text read n
    obtain ⟨m, -, hct⟩ := hn.tiles
    obtain ⟨h1, h2⟩ := hct.mem_le hc
    exact ⟨h1, h2, hn.pending_bounds c hc⟩
  · have hp' := List.mem_reverse.mp hp
    obtain ⟨h1, h2⟩ := hend.settled_bounds p hp'
    have hs := hend.settled p hp'
    refine ⟨h1, h2, fun items hi => ?_, fun hnone => ?_⟩
    · rw [Piece.Settled, hi] at hs
      exact hs
    · rw [Piece.Settled, hnone] at hs
      obtain ⟨start, stop, error, he, hbad⟩ := hs
      exact ⟨start, stop, error, he, hbad.start_le, hbad.le_stop, hbad.le_anchor, hbad.anchor_lt,
        hbad.oneLine⟩

end Untangle.Source
