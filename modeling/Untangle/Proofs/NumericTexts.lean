import Untangle.Number.Spelling
import Untangle.Proofs.DoubleArithmetic

/-!
# Which strings convert to numbers

The grammar of the language for numbers in strings is stated by itself, and the conversion is
compared with it. Three things set the two apart: digits after a mark are taken only up to 64 bits,
a plus sign may stand before them, and what is trimmed are the blanks of Unicode, with U+0085 and
without U+FEFF.
-/

namespace Untangle.Number

open Float.Model Float.Model.UnpackedFloat

/-! ### Results that are numbers -/

/-- Packing makes no number of NaN and no NaN of a number. -/
theorem isNaN_pack (u : UnpackedFloat) : (Float.Model.pack u).unpack.isNaN = u.isNaN := by
  cases u with
  | notANumber => rfl
  | infinity s => cases s <;> rfl
  | zero s => cases s <;> rfl
  | finite s n x hn =>
    show (UnpackedFloat.unpack _ (UnpackedFloat.pack Format.binary64 (.finite s n x hn))).isNaN = _
    rw [pack_finite]
    split
    · cases s <;> rfl
    · next hsmall =>
      have hread : ∀ e m, (e : BitVec 11) ≠ -1#11 →
          (UnpackedFloat.unpack Format.binary64
            (packComponents Format.binary64 s e m)).isNaN = false := by
        intro e m he
        rw [unpack_eq_ofFields, unpackExponent_packComponents, ofFields, if_neg he]
        repeat' split
        all_goals rfl
      split
      · refine hread _ _ fun htop => hsmall ?_
        have := congrArg BitVec.toNat htop
        simp at this
        omega
      · exact hread _ _ (by decide)

/-- Rounding gives a number. -/
theorem isNaN_roundWithAccuracy (f : Format) (s : Sign) (m : Nat) (e : Int) (a : Accuracy) :
    (roundWithAccuracy f s m e a).isNaN = false := by
  unfold roundWithAccuracy
  dsimp only
  split <;> rfl

/-- Naturals are numbers. -/
theorem isNaN_ofNat (f : Format) (n : Nat) : (UnpackedFloat.ofNat f n).isNaN = false := by
  unfold UnpackedFloat.ofNat UnpackedFloat.ofInt UnpackedFloat.normalize
  split
  · exact isNaN_roundWithAccuracy ..
  · rfl
  · exact isNaN_roundWithAccuracy ..

/-- Neither zero, infinite nor NaN. -/
def isRegular : UnpackedFloat → Bool
  | .finite .. => true
  | _ => false

/-- A number scaled by a regular one is a number. -/
theorem isNaN_scaled {f : Format} {u v : UnpackedFloat} (hu : u.isNaN = false)
    (hv : isRegular v = true) : (u.mul f v).isNaN = false ∧ (u.div f v).isNaN = false := by
  cases v with
  | finite =>
    cases u with
    | notANumber => cases hu
    | finite => exact ⟨isNaN_roundWithAccuracy .., isNaN_roundWithAccuracy ..⟩
    | _ => exact ⟨rfl, rfl⟩
  | _ => cases hv

/-- The powers of ten in the table are regular. -/
theorem isRegular_power : ∀ p ∈ Float.exactlyRepresentablePowersOfTen,
    isRegular p.toModel.unpack = true := by
  decide +kernel

/-- Digits with an exponent are a number. -/
theorem isNaN_ofScientific (m : Nat) (s : Bool) (e : Nat) :
    (Float.ofScientific m s e).isNaN = false := by
  unfold Float.ofScientific
  split
  · next h =>
    have hm : m.toUInt64.toFloat.toModel.unpack.isNaN = false :=
      (isNaN_pack _).trans (isNaN_ofNat ..)
    split
    · exact (isNaN_pack _).trans (isNaN_scaled hm (isRegular_power _ (Array.getElem_mem _))).2
    · exact (isNaN_pack _).trans (isNaN_scaled hm (isRegular_power _ (Array.getElem_mem _))).1
  · refine (isNaN_pack _).trans ?_
    generalize (if s = true then Int.negOfNat e else Int.ofNat e) = e
    unfold UnpackedFloat.ofScientific
    repeat' split
    · rfl
    · rfl
    · rfl
    · exact (isNaN_scaled rfl rfl).1
    · exact (isNaN_scaled rfl rfl).2

/-- The sign is no matter for NaN. -/
theorem isNaN_neg (x : Float) : (-x).isNaN = x.isNaN := by
  show (-x).toModel.unpack.isNaN = x.toModel.unpack.isNaN
  rw [unpack_neg]
  cases x.toModel.unpack <;> rfl

/-- Digits read as a number. -/
theorem isNaN_readDecimal (ds : List Char) (e : Int) : (readDecimal ds e).isNaN = false := by
  unfold readDecimal
  dsimp only
  split
  · rfl
  · split
    · rfl
    · exact isNaN_ofScientific ..

/-! ### Grammar -/

/-- A sign or none. -/
def IsSign (cs : List Char) : Prop := cs = [] ∨ cs = ['+'] ∨ cs = ['-']

/-- Decimal digits only. -/
def AllDigits (cs : List Char) : Prop := ∀ c ∈ cs, c.isDigit = true

/-- An exponent, or none. -/
inductive ExponentText : List Char → Prop
  | none : ExponentText []
  | some {e : Char} {sign ds : List Char} : e = 'e' ∨ e = 'E' → IsSign sign → ds ≠ [] →
    AllDigits ds → ExponentText (e :: (sign ++ ds))

/-- Digits with at most one point, and an exponent. -/
inductive DigitText : List Char → Prop
  | whole {ds ex : List Char} : ds ≠ [] → AllDigits ds → ExponentText ex → DigitText (ds ++ ex)
  | point {ds fs ex : List Char} : ds ≠ [] ∨ fs ≠ [] → AllDigits ds → AllDigits fs →
    ExponentText ex → DigitText (ds ++ '.' :: (fs ++ ex))

/-- A decimal or the word for infinity, with a sign or none. -/
def DecimalText (cs : List Char) : Prop :=
  ∃ sign u, IsSign sign ∧ (u = "Infinity".toList ∨ DigitText u) ∧ cs = sign ++ u

/-- The marks after a zero, with their radix. -/
def radixMarks : List (Char × Nat) :=
  [('x', 16), ('X', 16), ('o', 8), ('O', 8), ('b', 2), ('B', 2)]

/-- A mark, something else, and digits of the radix that write a number. -/
def MarkedText (between : List Char) (n : Nat) (cs : List Char) : Prop :=
  ∃ m radix ds, (m, radix) ∈ radixMarks ∧ ds ≠ [] ∧ Text.digitsValue? radix ds = some n ∧
    cs = '0' :: m :: (between ++ ds)

/-- The numbers of the language, as they may stand in a string. -/
def NumericText (cs : List Char) : Prop := DecimalText cs ∨ ∃ n, MarkedText [] n cs

/-! ### Reading -/

variable {cs ds : List Char} {radix : Nat} {x : Float}

/-- Leading digits end where something else starts. -/
theorem AllDigits.takeWhile_append (h : AllDigits ds) (rest : List Char)
    (hrest : ∀ c ∈ rest.head?, c.isDigit = false) :
    (ds ++ rest).takeWhile Char.isDigit = ds ∧ (ds ++ rest).dropWhile Char.isDigit = rest := by
  induction ds with
  | nil =>
    cases rest with
    | nil => exact ⟨rfl, rfl⟩
    | cons c rest => simp [hrest c rfl]
  | cons c ds ih =>
    have hc : c.isDigit = true := h c List.mem_cons_self
    have ih := ih fun c hc => h c (List.mem_cons_of_mem _ hc)
    simp [hc, ih]

/-- Leading digits are digits. -/
theorem allDigits_takeWhile (cs : List Char) : AllDigits (cs.takeWhile Char.isDigit) :=
  fun _ hc => List.mem_takeWhile_imp hc

/-- Where a text does not start with a sign. -/
def Signless (cs : List Char) : Prop := ∀ c ∈ cs.head?, c ≠ '-' ∧ c ≠ '+'

/-- A sign can be split off. -/
theorem split_sign (cs : List Char) :
    ∃ sign rest, cs = sign ++ rest ∧ IsSign sign ∧ (sign = [] → Signless rest) := by
  cases cs with
  | nil => exact ⟨[], [], rfl, .inl rfl, nofun⟩
  | cons c cs =>
    by_cases hminus : c = '-'
    · exact ⟨['-'], cs, by rw [hminus]; rfl, .inr (.inr rfl), nofun⟩
    by_cases hplus : c = '+'
    · exact ⟨['+'], cs, by rw [hplus]; rfl, .inr (.inl rfl), nofun⟩
    · exact ⟨[], c :: cs, rfl, .inl rfl, fun _ _ hc => Option.some.inj hc ▸ ⟨hminus, hplus⟩⟩

/-- Digits start with no sign. -/
theorem AllDigits.signless (h : AllDigits ds) (hne : ds ≠ []) (rest : List Char) :
    Signless (ds ++ rest) := by
  cases ds with
  | nil => exact absurd rfl hne
  | cons c ds =>
    have hc : c.isDigit = true := h c List.mem_cons_self
    rintro _ ⟨⟩
    constructor <;> rintro rfl <;> cases hc

/-- What follows a mark, as the reader takes it apart. -/
theorem exponent?_marked {e : Char} (he : e = 'e' ∨ e = 'E') {sign : List Char}
    (hsign : IsSign sign) (hds : sign = [] → Signless ds) :
    (exponent? (e :: (sign ++ ds))).isSome = !(ds.isEmpty || !ds.all Char.isDigit) := by
  have hmark : (e == 'e' || e == 'E') = true := by simpa using he
  have hif : ∀ (b : Bool) (n : Int), (if b = true then none else some n).isSome = !b := by
    intro b n
    cases b <;> rfl
  unfold exponent?
  simp only [hmark, if_true]
  rcases hsign with rfl | rfl | rfl
  · rw [List.nil_append]
    split
    · exact absurd rfl (hds rfl _ rfl).1
    · exact absurd rfl (hds rfl _ rfl).2
    · exact hif ..
  · exact hif ..
  · exact hif ..

/-- The exponents read are those of the grammar. -/
theorem exponent?_isSome : (exponent? cs).isSome = true ↔ ExponentText cs := by
  constructor
  · intro h
    cases cs with
    | nil => exact .none
    | cons e rest =>
      obtain ⟨sign, ds, rfl, hsign, hhead⟩ := split_sign rest
      have he : e = 'e' ∨ e = 'E' := by
        by_contra hne
        simp [exponent?, not_or.1 hne] at h
      rw [exponent?_marked he hsign hhead] at h
      exact .some he hsign (by simp_all) (by simp_all [AllDigits])
  · rintro (_ | ⟨he, hsign, hne, hds⟩)
    · rfl
    · rw [exponent?_marked he hsign fun _ => by simpa using hds.signless hne []]
      simp_all [AllDigits]

/-- An exponent starts with neither digit nor point. -/
theorem ExponentText.head {ex : List Char} (h : ExponentText ex) :
    ∀ c ∈ ex.head?, c.isDigit = false ∧ c ≠ '.' := by
  cases h with
  | none => nofun
  | some he =>
    rintro _ ⟨⟩
    rcases he with rfl | rfl <;> decide

theorem not_both_empty {fs : List Char} :
    ¬(ds.isEmpty && fs.isEmpty) = true ↔ ds ≠ [] ∨ fs ≠ [] := by
  simp [← not_and_or]

/-- The decimals read are those of the grammar. -/
theorem unsignedDecimal?_isSome : (unsignedDecimal? cs).isSome = true ↔ DigitText cs := by
  constructor
  · intro h
    have hcs := List.takeWhile_append_dropWhile (p := Char.isDigit) (l := cs)
    have hwhole := allDigits_takeWhile cs
    unfold unsignedDecimal? at h
    dsimp only at h
    split at h
    · next more hmore =>
      have hrest := List.takeWhile_append_dropWhile (p := Char.isDigit) (l := more)
      split at h
      · cases h
      · next hsome =>
        rw [Option.isSome_map, exponent?_isSome] at h
        rw [← hcs, hmore, ← hrest]
        exact .point (not_both_empty.1 hsome) hwhole (allDigits_takeWhile _) h
    · split at h
      · cases h
      · next hsome =>
        rw [Option.isSome_map, exponent?_isSome] at h
        rw [← hcs]
        exact .whole (by simpa using hsome) hwhole h
  · intro h
    cases h with
    | whole hne hds hex =>
      obtain ⟨htake, hdrop⟩ := hds.takeWhile_append _ fun c hc => (hex.head c hc).1
      unfold unsignedDecimal?
      dsimp only
      rw [htake, hdrop]
      split
      · exact absurd rfl (hex.head _ rfl).2
      · rw [if_neg (by simpa using hne), Option.isSome_map, exponent?_isSome]
        exact hex
    | @point ds fs ex hne hds hfs hex =>
      obtain ⟨htake, hdrop⟩ := hds.takeWhile_append ('.' :: (fs ++ ex)) fun _ h => by cases h; rfl
      obtain ⟨htake', hdrop'⟩ := hfs.takeWhile_append _ fun c hc => (hex.head c hc).1
      unfold unsignedDecimal?
      simp only [htake, hdrop, htake', hdrop']
      rw [if_neg (not_both_empty.2 hne), Option.isSome_map, exponent?_isSome]
      exact hex

/-- Decimals start with no sign. -/
theorem DigitText.signless (h : DigitText cs) : Signless cs := by
  cases h with
  | whole hne hds => exact hds.signless hne _
  | @point ds _ _ _ hds =>
    cases ds with
    | nil => rintro _ ⟨⟩; decide
    | cons => exact hds.signless nofun _

/-- So are those with a sign. -/
theorem decimal?_isSome :
    (decimal? cs).isSome = true ↔ ∃ sign u, IsSign sign ∧ DigitText u ∧ cs = sign ++ u := by
  have hread : ∀ {sign u}, IsSign sign → (sign = [] → Signless u) →
      (decimal? (sign ++ u)).isSome = (unsignedDecimal? u).isSome := by
    rintro _ u (rfl | rfl | rfl) hu
    · rw [List.nil_append]
      unfold decimal?
      split
      · exact absurd rfl (hu rfl _ rfl).1
      · exact absurd rfl (hu rfl _ rfl).2
      · rfl
    · rfl
    · exact Option.isSome_map
  constructor
  · intro h
    obtain ⟨sign, u, rfl, hsign, hu⟩ := split_sign cs
    rw [hread hsign hu, unsignedDecimal?_isSome] at h
    exact ⟨sign, u, hsign, h, rfl⟩
  · rintro ⟨sign, u, hsign, hu, rfl⟩
    rw [hread hsign fun _ => hu.signless, unsignedDecimal?_isSome]
    exact hu

/-- A decimal that is read is a number. -/
theorem isNaN_unsignedDecimal? (h : unsignedDecimal? cs = some x) : x.isNaN = false := by
  unfold unsignedDecimal? at h
  dsimp only at h
  split at h <;> split at h
  · cases h
  · obtain ⟨e, -, rfl⟩ := Option.map_eq_some_iff.1 h
    exact isNaN_readDecimal ..
  · cases h
  · obtain ⟨e, -, rfl⟩ := Option.map_eq_some_iff.1 h
    exact isNaN_readDecimal ..

/-- So is one with a sign. -/
theorem isNaN_decimal? (h : decimal? cs = some x) : x.isNaN = false := by
  unfold decimal? at h
  split at h
  · obtain ⟨y, hy, rfl⟩ := Option.map_eq_some_iff.1 h
    rw [isNaN_neg]
    exact isNaN_unsignedDecimal? hy
  · exact isNaN_unsignedDecimal? h
  · exact isNaN_unsignedDecimal? h

/-- The marks read are those of the table. -/
theorem radixMark?_eq_some :
    radixMark? cs = some (radix, ds) ↔ ∃ m, (m, radix) ∈ radixMarks ∧ cs = '0' :: m :: ds := by
  constructor
  · intro h
    unfold radixMark? at h
    split at h
    · next m rest =>
      simp only [Bool.or_eq_true, beq_iff_eq] at h
      repeat' split at h
      all_goals
        cases h <;> rename_i hm <;> exact ⟨m, by rcases hm with rfl | rfl <;> decide, rfl⟩
    · cases h
  · rintro ⟨m, hm, rfl⟩
    simp only [radixMarks, List.mem_cons, Prod.mk.injEq, List.not_mem_nil, or_false] at hm
    rcases hm with ⟨rfl, rfl⟩ | ⟨rfl, rfl⟩ | ⟨rfl, rfl⟩ | ⟨rfl, rfl⟩ | ⟨rfl, rfl⟩ | ⟨rfl, rfl⟩ <;>
      rfl

/-- Which digits are read after a mark. -/
theorem radixDigits?_isSome {m : Char} (hm : (m, radix) ∈ radixMarks) :
    (radixDigits? radix cs).isSome = true ↔ ∃ n < 2 ^ 64, ∃ ds, ds ≠ [] ∧
      Text.digitsValue? radix ds = some n ∧ (cs = ds ∨ cs = '+' :: ds) := by
  have hplus : ∀ ds, Text.digitsValue? radix ('+' :: ds) = none := by
    intro ds
    have hradix : ∀ p ∈ radixMarks, p.2 ≤ 36 := by decide
    have hdigit : Text.digit? radix '+' = none := if_neg (Nat.not_lt.2 (hradix _ hm))
    simp [Text.digitsValue?, Text.digitsAfter?, hdigit]
  have hread : ∀ ds : List Char, (if ds.isEmpty then none else
      (Text.digitsValue? radix ds).filter (· < Nat.pow 2 64)).isSome = true ↔
      ∃ n < 2 ^ 64, ds ≠ [] ∧ Text.digitsValue? radix ds = some n := by
    intro ds
    cases ds with
    | nil => simp
    | cons c ds =>
      rw [if_neg nofun]
      cases Text.digitsValue? radix (c :: ds) <;> simp [Option.filter]
  unfold radixDigits?
  split
  · next ds =>
    rw [hread]
    constructor
    · rintro ⟨n, hn, hne, hvalue⟩
      exact ⟨n, hn, ds, hne, hvalue, .inr rfl⟩
    · rintro ⟨n, hn, ds', hne, hvalue, rfl | h⟩
      · rw [hplus] at hvalue
        cases hvalue
      · cases h
        exact ⟨n, hn, hne, hvalue⟩
  · next hhead =>
    rw [hread]
    constructor
    · rintro ⟨n, hn, hne, hvalue⟩
      exact ⟨n, hn, cs, hne, hvalue, .inl rfl⟩
    · rintro ⟨n, hn, ds, hne, hvalue, rfl | rfl⟩
      · exact ⟨n, hn, hne, hvalue⟩
      · exact absurd rfl (hhead ds)

/-- A marked text, by what follows its mark. -/
theorem markedText_iff {between : List Char} {n : Nat}
    (h : radixMark? cs = some (radix, ds)) : MarkedText between n cs ↔
      ∃ ds', ds' ≠ [] ∧ Text.digitsValue? radix ds' = some n ∧ ds = between ++ ds' := by
  constructor
  · rintro ⟨m, radix', ds', hm, hne, hvalue, hcs⟩
    rw [radixMark?_eq_some.2 ⟨m, hm, hcs⟩] at h
    cases h
    exact ⟨ds', hne, hvalue, rfl⟩
  · rintro ⟨ds', hne, hvalue, rfl⟩
    obtain ⟨m, hm, hcs⟩ := radixMark?_eq_some.1 h
    exact ⟨m, radix, ds', hm, hne, hvalue, hcs⟩

/-- Decimals are infinities and what is read as one. -/
theorem decimalText_iff : DecimalText cs ↔
    (cs = "Infinity".toList ∨ cs = "+Infinity".toList ∨ cs = "-Infinity".toList) ∨
      (decimal? cs).isSome = true := by
  rw [decimal?_isSome]
  constructor
  · rintro ⟨sign, u, hsign, rfl | hu, rfl⟩
    · rcases hsign with rfl | rfl | rfl <;> simp
    · exact .inr ⟨sign, u, hsign, hu, rfl⟩
  · rintro ((rfl | rfl | rfl) | ⟨sign, u, hsign, hu, rfl⟩)
    · exact ⟨[], _, .inl rfl, .inl rfl, rfl⟩
    · exact ⟨['+'], _, .inr (.inl rfl), .inl rfl, rfl⟩
    · exact ⟨['-'], _, .inr (.inr rfl), .inl rfl, rfl⟩
    · exact ⟨sign, u, hsign, .inr hu, rfl⟩

/-- No marked text is a decimal. -/
theorem not_decimalText_of_mark (h : radixMark? cs = some (radix, ds)) : ¬DecimalText cs := by
  obtain ⟨m, hm, rfl⟩ := radixMark?_eq_some.1 h
  rw [decimalText_iff]
  simp only [radixMarks, List.mem_cons, Prod.mk.injEq, List.not_mem_nil, or_false] at hm
  rcases hm with ⟨rfl, -⟩ | ⟨rfl, -⟩ | ⟨rfl, -⟩ | ⟨rfl, -⟩ | ⟨rfl, -⟩ | ⟨rfl, -⟩ <;>
    simp [decimal?, unsignedDecimal?, exponent?]

/-- Digits after a mark are read up to 64 bits, and after a plus sign too. -/
theorem radixDigits?_iff
    (h : radixMark? cs = some (radix, ds)) : (radixDigits? radix ds).isSome = true ↔
      (NumericText cs ∧ ∀ n, MarkedText [] n cs → n < 2 ^ 64) ∨
        ∃ n < 2 ^ 64, MarkedText ['+'] n cs := by
  obtain ⟨m, hm, -⟩ := radixMark?_eq_some.1 h
  simp only [radixDigits?_isSome hm, NumericText, not_decimalText_of_mark h, markedText_iff h,
    false_or]
  constructor
  · rintro ⟨n, hn, ds', hne, hvalue, rfl | rfl⟩
    · refine .inl ⟨⟨n, ds, hne, hvalue, rfl⟩, ?_⟩
      rintro k ⟨_, -, hk, rfl⟩
      rw [hk] at hvalue
      cases hvalue
      exact hn
    · exact .inr ⟨n, hn, ds', hne, hvalue, rfl⟩
  · rintro (⟨⟨n, hmarked⟩, hbound⟩ | ⟨n, hn, ds', hne, hvalue, rfl⟩)
    · have hn := hbound n hmarked
      obtain ⟨ds', hne, hvalue, hds⟩ := hmarked
      exact ⟨n, hn, ds', hne, hvalue, .inl hds⟩
    · exact ⟨n, hn, ds', hne, hvalue, .inr rfl⟩

/-- Without a mark there is no marked text. -/
theorem not_markedText (h : radixMark? cs = none) (between : List Char) (n : Nat) :
    ¬MarkedText between n cs := by
  rintro ⟨m, radix, ds, hm, -, -, hcs⟩
  rw [radixMark?_eq_some.2 ⟨m, hm, hcs⟩] at h
  cases h

/-! ### Blanks -/

/-- White space and line terminators of the language. -/
def isScriptBlank (c : Char) : Bool :=
  let n := c.toNat
  Text.isLineEnd c || n == 9 || n == 11 || n == 12 || n == 0x20 || n == 0xA0 || n == 0x1680 ||
    (0x2000 ≤ n && n ≤ 0x200A) || n == 0x202F || n == 0x205F || n == 0x3000 || n == 0xFEFF

/-- A text without white space and line terminators at its two ends. -/
def trimScript (cs : List Char) : List Char :=
  ((cs.dropWhile isScriptBlank).reverse.dropWhile isScriptBlank).reverse

/-- But for two characters the blanks are those of Unicode. -/
theorem isScriptBlank_eq {c : Char} (h : c.toNat ≠ 0x85 ∧ c.toNat ≠ 0xFEFF) :
    isScriptBlank c = Text.isBlank c := by
  have hfeed : c = '\n' ↔ c.toNat = 10 := Char.toNat_inj.symm
  have hreturn : c = '\r' ↔ c.toNat = 13 := Char.toNat_inj.symm
  rw [Bool.eq_iff_iff]
  simp only [isScriptBlank, Text.isLineEnd, Text.isBlank, Bool.or_eq_true, Bool.and_eq_true,
    beq_iff_eq, decide_eq_true_eq, hfeed, hreturn]
  omega

theorem dropWhile_isScriptBlank
    (h : ∀ c ∈ cs, c.toNat ≠ 0x85 ∧ c.toNat ≠ 0xFEFF) :
    cs.dropWhile isScriptBlank = cs.dropWhile Text.isBlank := by
  induction cs with
  | nil => rfl
  | cons c cs ih =>
    rw [List.dropWhile_cons, List.dropWhile_cons, isScriptBlank_eq (h c List.mem_cons_self),
      ih fun c hc => h c (List.mem_cons_of_mem _ hc)]

/-- So trimming is the same without these. -/
theorem trimScript_eq (h : ∀ c ∈ cs, c.toNat ≠ 0x85 ∧ c.toNat ≠ 0xFEFF) :
    trimScript cs = Text.trimBlank cs := by
  unfold trimScript Text.trimBlank
  rw [dropWhile_isScriptBlank h, dropWhile_isScriptBlank]
  intro c hc
  exact h c ((List.dropWhile_suffix _).subset (List.mem_reverse.1 hc))

/-- A string converts to a number exactly if, trimmed, it is empty, or is a number of the language
with a value that fits 64 bits where it has a mark, or would be one without the plus sign after its
mark. Trimming is that of the language for strings without U+0085 and U+FEFF. -/
theorem ofText_isNaN (s : String) :
    ((ofText s).isNaN = false ↔ Text.trimBlank s.toList = [] ∨
      (NumericText (Text.trimBlank s.toList) ∧
        ∀ n, MarkedText [] n (Text.trimBlank s.toList) → n < 2 ^ 64) ∨
      ∃ n < 2 ^ 64, MarkedText ['+'] n (Text.trimBlank s.toList)) ∧
    ((∀ c ∈ s.toList, c.toNat ≠ 0x85 ∧ c.toNat ≠ 0xFEFF) →
      trimScript s.toList = Text.trimBlank s.toList) := by
  refine ⟨?_, trimScript_eq⟩
  unfold ofText
  dsimp only
  generalize Text.trimBlank s.toList = cs
  cases hmark : radixMark? cs with
  | some p =>
    obtain ⟨radix, ds⟩ := p
    have hcs : cs ≠ [] := by
      rintro rfl
      cases hmark
    rw [if_neg (by simpa using hcs), ← radixDigits?_iff hmark]
    simp only [hcs, false_or]
    cases radixDigits? radix ds with
    | none => decide
    | some n => exact iff_of_true (isNaN_ofScientific ..) rfl
  | none =>
    simp only [NumericText, not_markedText hmark, decimalText_iff]
    simp only [exists_false, or_false, false_implies, implies_true, and_true, and_false,
      Bool.or_eq_true, beq_iff_eq, List.isEmpty_iff]
    split
    · next h => exact iff_of_true rfl (.inl h)
    next hcs =>
    split
    · next h => exact iff_of_true rfl (.inr (.inl (h.imp_right .inl)))
    next hplus =>
    split
    · next h => exact iff_of_true rfl (.inr (.inl (.inr (.inr h))))
    next hminus =>
    cases hdecimal : decimal? cs with
    | none =>
      have hnan : ¬(0.0 / 0.0 : Float).isNaN = false := by decide
      refine iff_of_false hnan ?_
      rintro (h | (h | h | h) | h)
      · exact hcs h
      · exact hplus (.inl h)
      · exact hplus (.inr h)
      · exact hminus h
      · cases h
    | some x => exact iff_of_true (isNaN_decimal? hdecimal) (.inr (.inr rfl))

/-- A plus sign after a mark is read over, which the language does not allow. -/
theorem ofText_plus_after_mark :
    (ofText "0x+1").isNaN = false ∧ ¬NumericText (Text.trimBlank "0x+1".toList) := by
  have hmark : radixMark? (Text.trimBlank "0x+1".toList) = some (16, ['+', '1']) := by decide
  refine ⟨by decide, ?_⟩
  rintro (h | ⟨n, h⟩)
  · exact not_decimalText_of_mark hmark h
  · obtain ⟨ds, -, hvalue, rfl⟩ := (markedText_iff hmark).1 h
    cases hvalue

end Untangle.Number
