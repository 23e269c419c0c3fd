import Mathlib
import Untangle.Proofs.Base64Encoding

/-!
# Base64 in a register

The decoder with its waiting bits in a register of 32 bits, and what may stand between the digits of
a text.

The waiting bits are none, two, four or six (`Register.Settled`), so a digit more makes twelve at
most and the shift never pushes one out of the word. `Register.read_eq` says so for the bytes: they
are those of `decodeFrom`, which counts without bound.
-/

namespace Untangle.Base64

/-! ### Characters that mean nothing -/

/-- A text with characters put in, anywhere, that the alphabet does not have. -/
inductive Stuffed : List Char → List Char → Prop
  | nil : Stuffed [] []
  | keep {plain text : List Char} (c : Char) : Stuffed plain text → Stuffed (c :: plain) (c :: text)
  | insert {plain text : List Char} {c : Char} : c ∉ alphabet.toList → Stuffed plain text →
      Stuffed plain (c :: text)

theorem digit?_eq_none {c : Char} (h : c ∉ alphabet.toList) : digit? c = none := by
  rw [digit?, List.findIdx?_eq_none_iff]
  intro d hd
  have hd' : d ∈ alphabet.toList := List.mem_of_mem_take hd
  apply beq_false_of_ne
  rintro rfl
  exact h hd'

theorem ne_padding {c : Char} (h : c ∉ alphabet.toList) : c ≠ '=' := by
  rintro rfl
  exact h (by decide +kernel)

theorem Stuffed.digitsIn_eq {plain text : List Char} (h : Stuffed plain text) :
    digitsIn text = digitsIn plain := by
  unfold digitsIn
  induction h with
  | nil => rfl
  | keep c _ ih =>
    by_cases hc : c = '='
    · simp [hc]
    · simp [hc, List.filterMap_cons, ih]
  | insert hc _ ih => simp [ne_padding hc, digit?_eq_none hc, ih]

theorem digitsIn_unpadded (bytes : List UInt8) :
    digitsIn ((sextets bytes).map digitChar) = sextets bytes := by
  have h := digitsIn_map_append (sextets_lt bytes) []
  rwa [List.append_nil, show digitsIn [] = [] from rfl, List.append_nil] at h

theorem decode_of_digitsIn {bytes : List UInt8} {text : List Char}
    (h : digitsIn text = sextets bytes) : decode text = bytes := by
  unfold decode
  rw [decodeFrom_eq_readDigits, h, readDigits_sextets]

/-! ### The register -/

theorem digit?_lt {c : Char} {v : Nat} (h : digit? c = some v) : v < 64 := by
  obtain ⟨hv, -⟩ := List.findIdx?_eq_some_iff_getElem.1 h
  have hlen : digits.length = 64 := by decide +kernel
  omega

theorem toNat_toUInt32 {n : Nat} (h : n < 2 ^ 32) : n.toUInt32.toNat = n :=
  UInt32.toNat_ofNat_of_lt' h

/-- A word of 32 bits, and how many of them wait for the rest of their byte. -/
structure Register where
  word : UInt32 := 0
  bits : Nat := 0

namespace Register

/-- Shifts the six bits of a digit in. -/
def shiftIn (r : Register) (v : Nat) : Register where
  word := r.word <<< 6 ||| v.toUInt32
  bits := r.bits + 6

/-- The upper eight of the waiting bits. -/
def byte (r : Register) : UInt8 := (r.word >>> (r.bits - 8).toUInt32).toUInt8

/-- Masks the upper eight of the waiting bits off. -/
def letOut (r : Register) : Register where
  word := r.word &&& (1 <<< (r.bits - 8).toUInt32 - 1)
  bits := r.bits - 8

/-- The bytes of a text after what waits in the register. -/
def read (r : Register) : List Char → List UInt8
  | [] => []
  | c :: rest =>
    if c == '=' then []
    else match digit? c with
      | none => read r rest
      | some v =>
        let full := r.shiftIn v
        if 8 ≤ full.bits then full.byte :: read full.letOut rest else read full rest

/-- Every word that the register takes while a text is read. -/
def words (r : Register) : List Char → List UInt32
  | [] => []
  | c :: rest =>
    if c == '=' then []
    else match digit? c with
      | none => words r rest
      | some v =>
        let full := r.shiftIn v
        if 8 ≤ full.bits then full.word :: full.letOut.word :: words full.letOut rest
        else full.word :: words full rest

/-- Between two digits no byte is full, and only waiting bits are set. -/
structure Settled (r : Register) : Prop where
  even : r.bits % 2 = 0
  few : r.bits ≤ 6
  small : r.word.toNat < 2 ^ r.bits

theorem settled_empty : Settled {} := by
  refine ⟨rfl, by decide, ?_⟩
  decide

variable {r : Register} {v : Nat}

theorem Settled.word_lt (h : r.Settled) : r.word.toNat < 64 := by
  have hpow : 2 ^ r.bits ≤ 2 ^ 6 := Nat.pow_le_pow_right (by decide) h.few
  have hsmall := h.small
  omega

theorem Settled.shiftIn_word (h : r.Settled) (hv : v < 64) :
    (r.shiftIn v).word.toNat = r.word.toNat * 64 + v := by
  have hword := h.word_lt
  have hshift : (r.word <<< 6).toNat = r.word.toNat <<< 6 := by
    rw [UInt32.toNat_shiftLeft, Nat.mod_eq_of_lt]
    · rfl
    · show r.word.toNat <<< 6 < _
      rw [Nat.shiftLeft_eq]
      omega
  have hdigit : v.toUInt32.toNat = v := toNat_toUInt32 (by omega)
  show (r.word <<< 6 ||| v.toUInt32).toNat = _
  rw [UInt32.toNat_or, hshift, hdigit, ← Nat.shiftLeft_add_eq_or_of_lt (by omega),
    Nat.shiftLeft_eq]

theorem Settled.shiftIn_lt (h : r.Settled) (hv : v < 64) :
    (r.shiftIn v).word.toNat < 2 ^ (r.bits + 6) := by
  have hsmall := h.small
  rw [h.shiftIn_word hv, Nat.pow_add]
  omega

theorem Settled.shiftIn_bound (h : r.Settled) (hv : v < 64) :
    (r.shiftIn v).word.toNat < 2 ^ 12 := by
  have hfew := h.few
  have hpow : 2 ^ (r.bits + 6) ≤ 2 ^ 12 := Nat.pow_le_pow_right (by decide) (by omega)
  have hlt := h.shiftIn_lt hv
  omega

theorem Settled.shiftIn_settled (h : r.Settled) (hv : v < 64) (hbits : ¬8 ≤ r.bits + 6) :
    (r.shiftIn v).Settled where
  even := by
    have heven := h.even
    show (r.bits + 6) % 2 = 0
    omega
  few := by
    have heven := h.even
    show r.bits + 6 ≤ 6
    omega
  small := h.shiftIn_lt hv

/-- What is masked off is the byte, and the rest keeps waiting. -/
theorem letOut_word {r : Register} (hbits : r.bits ≤ 12) :
    r.letOut.word.toNat = r.word.toNat % 2 ^ (r.bits - 8) := by
  have hleft : (r.bits - 8).toUInt32.toNat = r.bits - 8 := toNat_toUInt32 (by omega)
  have hpow : 2 ^ (r.bits - 8) ≤ 2 ^ 4 := Nat.pow_le_pow_right (by decide) (by omega)
  have hpos : 0 < 2 ^ (r.bits - 8) := Nat.two_pow_pos _
  have hone : (1 <<< (r.bits - 8).toUInt32 : UInt32).toNat = 2 ^ (r.bits - 8) := by
    rw [UInt32.toNat_shiftLeft, hleft, Nat.mod_eq_of_lt (by omega : r.bits - 8 < 32)]
    show 1 <<< (r.bits - 8) % 2 ^ 32 = _
    rw [Nat.shiftLeft_eq, Nat.one_mul, Nat.mod_eq_of_lt (by omega)]
  have hmask : (1 <<< (r.bits - 8).toUInt32 - 1 : UInt32).toNat = 2 ^ (r.bits - 8) - 1 := by
    rw [UInt32.toNat_sub_of_le _ _ (UInt32.le_iff_toNat_le.2 (hone ▸ hpos)), hone]
    rfl
  show (r.word &&& (1 <<< (r.bits - 8).toUInt32 - 1)).toNat = _
  rw [UInt32.toNat_and, hmask, Nat.and_two_pow_sub_one_eq_mod]

theorem byte_eq {r : Register} (hbits : r.bits ≤ 12) :
    r.byte = (r.word.toNat / 2 ^ (r.bits - 8)).toUInt8 := by
  have hleft : (r.bits - 8).toUInt32.toNat = r.bits - 8 := toNat_toUInt32 (by omega)
  have hshift : (r.word >>> (r.bits - 8).toUInt32).toNat = r.word.toNat / 2 ^ (r.bits - 8) := by
    rw [UInt32.toNat_shiftRight, hleft, Nat.mod_eq_of_lt (by omega : r.bits - 8 < 32),
      Nat.shiftRight_eq_div_pow]
  apply UInt8.toNat_inj.1
  show (r.word >>> (r.bits - 8).toUInt32).toUInt8.toNat = _
  rw [UInt32.toNat_toUInt8, hshift]
  rfl

theorem Settled.letOut_settled (h : r.Settled) (hbits : 8 ≤ r.bits + 6) :
    (r.shiftIn v).letOut.Settled := by
  have heven := h.even
  have hfew := h.few
  have hword : (r.shiftIn v).letOut.word.toNat = (r.shiftIn v).word.toNat % 2 ^ (r.bits + 6 - 8) :=
    letOut_word (show r.bits + 6 ≤ 12 by omega)
  refine ⟨?_, ?_, ?_⟩
  · show (r.bits + 6 - 8) % 2 = 0
    omega
  · show r.bits + 6 - 8 ≤ 6
    omega
  · rw [hword]
    exact Nat.mod_lt _ (Nat.two_pow_pos _)

/-! ### Whole texts -/

/-- The register gives the bytes that unbounded numbers give. -/
theorem read_eq (text : List Char) : ∀ {r : Register}, r.Settled →
    r.read text = decodeFrom r.word.toNat r.bits text := by
  induction text with
  | nil =>
    intro r h
    rfl
  | cons c rest ih =>
    intro r h
    unfold read decodeFrom
    split
    · rfl
    · cases hv : digit? c with
      | none => exact ih h
      | some v =>
        have hlt := digit?_lt hv
        have hfew := h.few
        have hfull : (r.shiftIn v).bits ≤ 12 := show r.bits + 6 ≤ 12 by omega
        show (if 8 ≤ r.bits + 6 then _ else _) = if 8 ≤ r.bits + 6 then _ else _
        split
        case isTrue hbits =>
          rw [ih (h.letOut_settled hbits), byte_eq hfull, letOut_word hfull, h.shiftIn_word hlt]
          rfl
        case isFalse hbits =>
          rw [ih (h.shiftIn_settled hlt hbits), h.shiftIn_word hlt]
          rfl

theorem words_bound (text : List Char) : ∀ {r : Register}, r.Settled →
    ∀ w ∈ r.words text, w.toNat < 2 ^ 12 := by
  induction text with
  | nil =>
    intro r h w hw
    cases hw
  | cons c rest ih =>
    intro r h w hw
    unfold words at hw
    split at hw
    · cases hw
    · cases hv : digit? c with
      | none =>
        rw [hv] at hw
        exact ih h w hw
      | some v =>
        have hlt := digit?_lt hv
        simp only [hv] at hw
        split at hw
        case isTrue hbits =>
          have hsettled : (r.shiftIn v).letOut.Settled := h.letOut_settled hbits
          rcases List.mem_cons.1 hw with rfl | hw
          · exact h.shiftIn_bound hlt
          rcases List.mem_cons.1 hw with rfl | hw
          · exact Nat.lt_trans hsettled.word_lt (by decide)
          · exact ih hsettled w hw
        case isFalse hbits =>
          rcases List.mem_cons.1 hw with rfl | hw
          · exact h.shiftIn_bound hlt
          · exact ih (h.shiftIn_settled hlt hbits) w hw

end Register

/-- **Reading gives the bytes of a text back, with its padding or without, whatever is put in that the
alphabet does not have**; and on every text a register of 32 bits reads the same bytes, with no word
of more than twelve bits on the way. -/
theorem decode_stuffed :
    (∀ (bytes : List UInt8) (plain text : List Char),
      plain = encode bytes ∨ plain = (sextets bytes).map digitChar → Stuffed plain text →
        decode text = bytes) ∧
    ∀ text : List Char, Register.read {} text = decode text ∧
      ∀ w ∈ Register.words {} text, w.toNat < 2 ^ 12 := by
  refine ⟨?_, fun text => ⟨Register.read_eq text Register.settled_empty,
    Register.words_bound text Register.settled_empty⟩⟩
  rintro bytes plain text hplain hstuffed
  apply decode_of_digitsIn
  rw [hstuffed.digitsIn_eq]
  rcases hplain with rfl | rfl
  · exact digitsIn_encode bytes
  · exact digitsIn_unpadded bytes

/-- `A-gK` and `AgK =` are `AgK=`, the text of `hi`. -/
theorem decode_stuffed_hi :
    encode [104, 105] = ['A', 'g', 'K', '='] ∧
    decode ['A', '-', 'g', 'K'] = [104, 105] ∧ decode ['A', 'g', 'K', ' ', '='] = [104, 105] ∧
    Register.words {} ['A', '-', 'g', 'K'] = [26, 1670, 6, 420, 0] ∧
    ∀ w ∈ Register.words {} ['A', '-', 'g', 'K'], w.toNat < 2 ^ 12 := by
  have hencode : encode [104, 105] = ['A', 'g', 'K', '='] := by decide +kernel
  have hsextets : (sextets [104, 105]).map digitChar = ['A', 'g', 'K'] := by decide +kernel
  refine ⟨hencode, ?_, ?_, by decide +kernel, (decode_stuffed.2 _).2⟩
  · refine decode_stuffed.1 _ _ _ (.inr rfl) ?_
    rw [hsextets]
    exact .keep _ (.insert (by decide +kernel) (.keep _ (.keep _ .nil)))
  · refine decode_stuffed.1 _ _ _ (.inl rfl) ?_
    rw [hencode]
    exact .keep _ (.keep _ (.keep _ (.insert (by decide +kernel) (.keep _ .nil))))

end Untangle.Base64
