import Untangle.Codec.Base64

/-!
# Base64 read back

What the decoder undoes: bytes written in groups of three as four digits each, with a padded group
at the end.

* `readDigits`, `decodeFrom_eq_readDigits` — the decoder sees the digits before the padding and
  nothing else of a text.
-/

namespace Untangle.Base64

/-! ### Writing -/

/-- The digits of some bytes, most significant first; bits that are missing in the last digit are
zero. -/
def sextets : List UInt8 → List Nat
  | [] => []
  | [a] => [a.toNat / 4, a.toNat % 4 * 16]
  | [a, b] => [a.toNat / 4, a.toNat % 4 * 16 + b.toNat / 16, b.toNat % 16 * 4]
  | a :: b :: c :: rest =>
    a.toNat / 4 :: (a.toNat % 4 * 16 + b.toNat / 16) :: (b.toNat % 16 * 4 + c.toNat / 64) ::
      c.toNat % 64 :: sextets rest

def digitChar (v : Nat) : Char := digits.getD v '='

/-- The characters that fill the last group up. -/
def padding (bytes : List UInt8) : List Char := List.replicate ((3 - bytes.length % 3) % 3) '='

def encode (bytes : List UInt8) : List Char := (sextets bytes).map digitChar ++ padding bytes

theorem sextets_lt (bytes : List UInt8) : ∀ v ∈ sextets bytes, v < 64 := by
  fun_induction sextets bytes with
  | case1 => simp
  | case2 a =>
    have ha := a.toNat_lt
    simp
    omega
  | case3 a b =>
    have ha := a.toNat_lt
    have hb := b.toNat_lt
    simp
    omega
  | case4 a b c rest ih =>
    have ha := a.toNat_lt
    have hb := b.toNat_lt
    have hc := c.toNat_lt
    simp only [List.forall_mem_cons]
    exact ⟨by omega, by omega, by omega, by omega, ih⟩

/-! ### The alphabet -/

theorem digit?_digitChar : ∀ v < 64, digit? (digitChar v) = some v := by
  decide +kernel

theorem digitChar_ne_padding : ∀ v < 64, digitChar v ≠ '=' := by
  decide +kernel

/-! ### Reading -/

/-- The bytes of some digits after `bits` bits of value `pending` that did not fill a byte. -/
def readDigits (pending bits : Nat) : List Nat → List UInt8
  | [] => []
  | v :: rest =>
    if 8 ≤ bits + 6 then
      ((pending * 64 + v) / Nat.pow 2 (bits + 6 - 8)).toUInt8 ::
        readDigits ((pending * 64 + v) % Nat.pow 2 (bits + 6 - 8)) (bits + 6 - 8) rest
    else readDigits (pending * 64 + v) (bits + 6) rest

/-- The digits of a text: those before the padding, whatever else stands between them. -/
def digitsIn (text : List Char) : List Nat := (text.takeWhile (· != '=')).filterMap digit?

theorem decodeFrom_eq_readDigits (text : List Char) (pending bits : Nat) :
    decodeFrom pending bits text = readDigits pending bits (digitsIn text) := by
  induction text generalizing pending bits with
  | nil => rfl
  | cons c rest ih =>
    unfold decodeFrom digitsIn
    by_cases hc : c = '='
    · subst hc
      simp [readDigits]
    · have hne : (c != '=') = true := by simpa using hc
      rw [if_neg (by simpa using hc), List.takeWhile_cons, if_pos hne]
      cases hv : digit? c with
      | none =>
        rw [List.filterMap_cons_none hv]
        exact ih pending bits
      | some v =>
        rw [List.filterMap_cons_some hv]
        simp only [readDigits, ih]
        rfl

theorem digitsIn_map_append {vs : List Nat} (hvs : ∀ v ∈ vs, v < 64) (rest : List Char) :
    digitsIn (vs.map digitChar ++ rest) = vs ++ digitsIn rest := by
  induction vs with
  | nil => rfl
  | cons v vs ih =>
    rw [List.forall_mem_cons] at hvs
    have hne : (digitChar v != '=') = true := by simpa using digitChar_ne_padding v hvs.1
    unfold digitsIn at ih ⊢
    rw [List.map_cons, List.cons_append, List.takeWhile_cons, if_pos hne,
      List.filterMap_cons_some (digit?_digitChar v hvs.1), ih hvs.2, List.cons_append]

theorem digitsIn_encode (bytes : List UInt8) : digitsIn (encode bytes) = sextets bytes := by
  have hpadding : digitsIn (padding bytes) = [] := by
    unfold digitsIn padding
    cases (3 - bytes.length % 3) % 3 <;> rfl
  rw [encode, digitsIn_map_append (sextets_lt bytes), hpadding, List.append_nil]

/-! The four places where a digit can fall in a group of three bytes. -/

section Places

variable (pending v : Nat) (rest : List Nat)

theorem readDigits_first :
    readDigits pending 0 (v :: rest) = readDigits (pending * 64 + v) 6 rest := rfl

theorem readDigits_second : readDigits pending 6 (v :: rest) =
    ((pending * 64 + v) / 16).toUInt8 :: readDigits ((pending * 64 + v) % 16) 4 rest := rfl

theorem readDigits_third : readDigits pending 4 (v :: rest) =
    ((pending * 64 + v) / 4).toUInt8 :: readDigits ((pending * 64 + v) % 4) 2 rest := rfl

theorem readDigits_fourth : readDigits pending 2 (v :: rest) =
    (pending * 64 + v).toUInt8 :: readDigits 0 0 rest := by
  show ((pending * 64 + v) / 1).toUInt8 :: readDigits ((pending * 64 + v) % 1) 0 rest = _
  rw [Nat.div_one, Nat.mod_one]

end Places

theorem toUInt8_eq {n : Nat} {a : UInt8} (h : n = a.toNat) : n.toUInt8 = a := by
  subst h
  exact UInt8.ofNat_toNat

theorem readDigits_sextets (bytes : List UInt8) : readDigits 0 0 (sextets bytes) = bytes := by
  fun_induction sextets bytes with
  | case1 => rfl
  | case2 a =>
    have ha := a.toNat_lt
    rw [readDigits_first, readDigits_second, toUInt8_eq (a := a) (by omega)]
    rfl
  | case3 a b =>
    have ha := a.toNat_lt
    have hb := b.toNat_lt
    rw [readDigits_first, readDigits_second, readDigits_third, toUInt8_eq (a := a) (by omega),
      toUInt8_eq (a := b) (by omega)]
    rfl
  | case4 a b c rest ih =>
    have ha := a.toNat_lt
    have hb := b.toNat_lt
    have hc := c.toNat_lt
    rw [readDigits_first, readDigits_second, readDigits_third, readDigits_fourth, ih,
      toUInt8_eq (a := a) (by omega), toUInt8_eq (a := b) (by omega),
      toUInt8_eq (a := c) (by omega)]

theorem decode_encode (bytes : List UInt8) : decode (encode bytes) = bytes := by
  unfold decode
  rw [decodeFrom_eq_readDigits, digitsIn_encode, readDigits_sextets]

end Untangle.Base64
