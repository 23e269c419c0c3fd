import Mathlib.Data.List.TakeWhile
import Untangle.Source.Grammar.Expression
import Untangle.Tree.Key

/-!
# Keys that are read back as names

A key is written as a plain name if its characters are alphabetic or numerals. A name in the source
is made of other classes of characters, and the two differ here and there.

* `isStrayStart`, `isStrayPart` — the characters that a plain name may have and a source name not.
* `isIdentStart_eq`, `isIdentContinue_eq` — there are no others. Tables of characters are compared in
  one sweep (`within`, `apart`).
* `scan_word_iff` — which names are scanned as one word.
-/

namespace Untangle

namespace Text

/-! ### Tables compared -/

/-- Whether ranges above some value are in order, with something between each two. -/
def ordered (above : Nat) : Ranges → Bool
  | [] => true
  | r :: rs => above.blt r.1 && r.1.ble r.2 && ordered (r.2 + 1) rs

/-- What lies between the ranges, from some value on. -/
def gaps (start : Nat) : Ranges → Ranges
  | [] => [(start, 0x10ffff)]
  | r :: rs => (start, r.1 - 1) :: gaps (r.2 + 1) rs

/-- Whether each range lies in one of others. Both are gone through once, in order. -/
def within : Ranges → Ranges → Bool
  | [], _ => true
  | r :: rs, ss =>
    match ss.dropWhile fun s => s.2.blt r.1 with
    | [] => false
    | s :: ss => s.1.ble r.1 && r.2.ble s.2 && within rs (s :: ss)

/-- Whether no range meets one of others. -/
def apart (rs ss : Ranges) : Bool := ordered 0 ss && within rs (gaps 0 ss)

variable {n : Nat}

theorem inRanges_cons (r : Nat × Nat) (rs : Ranges) :
    inRanges (r :: rs) n = true ↔ (r.1 ≤ n ∧ n ≤ r.2) ∨ inRanges rs n = true := by
  simp [inRanges]

variable {rs ss : Ranges} {above : Nat}

theorem inRanges_of_within (h : within rs ss = true) (hn : inRanges rs n = true) :
    inRanges ss n = true := by
  induction rs generalizing ss with
  | nil => cases hn
  | cons r rs ih =>
    unfold within at h
    split at h
    · cases h
    · next s rest hdrop =>
      simp only [Bool.and_eq_true, Nat.ble_eq] at h
      have hrest : inRanges (s :: rest) n = true := by
        rcases (inRanges_cons r rs).1 hn with hr | hrs
        · exact (inRanges_cons s rest).2 (.inl ⟨Nat.le_trans h.1.1 hr.1, Nat.le_trans hr.2 h.1.2⟩)
        · exact ih h.2 hrs
      obtain ⟨t, ht, hnt⟩ := List.any_eq_true.1 hrest
      have hsuffix : (s :: rest) <:+ ss := hdrop ▸ List.dropWhile_suffix _
      exact List.any_eq_true.2 ⟨t, hsuffix.subset ht, hnt⟩

theorem not_inRanges_of_le (h : ordered above rs = true) (hn : n ≤ above) :
    inRanges rs n = false := by
  induction rs generalizing above with
  | nil => rfl
  | cons r rs ih =>
    simp only [ordered, Bool.and_eq_true, Nat.blt_eq, Nat.ble_eq] at h
    have hrs := ih h.2 (by omega)
    rw [← Bool.not_eq_true, inRanges_cons, hrs]
    simp
    omega

theorem not_inRanges_of_gap (h : ordered above rs = true) (hn : inRanges (gaps above rs) n = true) :
    above ≤ n ∧ inRanges rs n = false := by
  induction rs generalizing above with
  | nil => exact ⟨(((inRanges_cons _ _).1 hn).resolve_right nofun).1, rfl⟩
  | cons r rs ih =>
    simp only [ordered, Bool.and_eq_true, Nat.blt_eq, Nat.ble_eq] at h
    rw [← Bool.not_eq_true, inRanges_cons]
    rcases (inRanges_cons _ _).1 hn with hbefore | hafter
    · dsimp only at hbefore
      have hrs := not_inRanges_of_le h.2 (n := n) (by omega)
      rw [hrs]
      simp
      omega
    · obtain ⟨hle, hrs⟩ := ih h.2 hafter
      rw [hrs]
      simp
      omega

theorem not_inRanges_of_apart (h : apart rs ss = true) (hn : inRanges rs n = true) :
    inRanges ss n = false := by
  simp only [apart, Bool.and_eq_true] at h
  exact (not_inRanges_of_gap h.1 (inRanges_of_within h.2 hn)).2

def enclosedLetterRanges : Ranges :=
  [(0x24b6, 0x24e9), (0x1f130, 0x1f149), (0x1f150, 0x1f169), (0x1f170, 0x1f189)]

/-- Characters above ASCII that end lines or separate tokens. -/
def spaceRanges : Ranges :=
  [(0x85, 0x85), (0xa0, 0xa0), (0x1680, 0x1680), (0x2000, 0x200b), (0x2028, 0x2029),
    (0x202f, 0x202f), (0x205f, 0x205f), (0x3000, 0x3000), (0xfeff, 0xfeff)]

/-- How the tables lie to each other. Neither letters in circles and squares nor numerals that are no
digits are in any other class that names are made of. -/
theorem tables_compared :
    apart spaceRanges letterRanges = true ∧ apart spaceRanges alphabeticExtraRanges = true ∧
    apart alphabeticExtraRanges newerLetterRanges = true ∧
    within (alphabeticExtraRanges.filter fun r => !enclosedLetterRanges.contains r) markRanges =
      true ∧
    apart enclosedLetterRanges continueExtraRanges = true ∧
    [letterRanges, startExtraRanges, newerLetterRanges, digitRanges, markRanges, connectorRanges,
      newerMarkRanges].all (fun t => apart enclosedLetterRanges t && apart otherNumeralRanges t) =
      true := by decide +kernel

end Text

/-! ### Characters -/

/-- A character that a plain name may start with and a source name not: U+2E2F, or one that is
alphabetic without being a letter. -/
def isStrayStart (c : Char) : Bool :=
  c.toNat == 0x2e2f ||
    (Text.isAlphabetic c && !Text.isLetter c && !Text.inRanges Text.startExtraRanges c.toNat)

/-- A character that a plain name may go on with and a source name not: U+2E2F, a letter in a circle
or square, or a numeral that is no digit. -/
def isStrayPart (c : Char) : Bool :=
  c.toNat == 0x2e2f || Text.inRanges Text.enclosedLetterRanges c.toNat ||
    (Text.isOtherNumeral c && !Text.inRanges Text.continueExtraRanges c.toNat)

section Characters

open Text

variable {c : Char}

/-- The characters that the two kinds of names treat each in its own way. -/
theorem exceptions_compared :
    (∀ c ∈ ['ⸯ', '$', '_'], isIdentStart c = !isStrayStart c) ∧
    ∀ c ∈ ['ⸯ', '$', '_', '\u200c', '\u200d'], isIdentContinue c = !isStrayPart c := by
  -- one by one: deciding the quantifier may go through all characters there are
  simp only [List.forall_mem_cons, List.not_mem_nil, false_implies, implies_true, and_true]
  decide +kernel

theorem eq_of_toNat (n : Nat) (h : c.toNat = n) : c = Char.ofNat n := by
  rw [← h, Char.ofNat_toNat]

theorem ne_ascii (hhigh : 0x80 ≤ c.toNat) (a : Char) (ha : a.toNat < 0x80) : (c == a) = false := by
  rw [beq_eq_false_iff_ne]
  rintro rfl
  omega

theorem isIdentStart_eq (h : isNameStart c = true) : isIdentStart c = !isStrayStart c := by
  cases htilde : c.toNat == 0x2e2f with
  | true =>
    rw [eq_of_toNat _ (eq_of_beq htilde)]
    exact exceptions_compared.1 _ (by simp)
  | false =>
    cases hletter : isLetter c with
    | true => simp [isIdentStart, isStrayStart, hletter, htilde, bne]
    | false =>
      simp only [isNameStart, isAlphabetic, hletter, Bool.or_eq_true, Bool.false_or,
        Bool.and_eq_true, decide_eq_true_eq] at h
      rcases h with (h | h) | ⟨hhigh, hextra⟩
      · exact exceptions_compared.1 c (by simp [eq_of_beq h])
      · exact exceptions_compared.1 c (by simp [eq_of_beq h])
      · obtain ⟨-, -, hapart, -⟩ := tables_compared
        have hnewer := not_inRanges_of_apart hapart hextra
        simp [isIdentStart, isStrayStart, isAlphabetic, hletter, htilde, hhigh, hextra, hnewer,
          ne_ascii hhigh '$' (by decide), ne_ascii hhigh '_' (by decide)]

theorem not_isIdentContinue_of_isStrayPart (h : isStrayPart c = true) :
    isIdentContinue c = false := by
  by_cases htilde : c.toNat = 0x2e2f
  · rw [exceptions_compared.2 c (by simp [eq_of_toNat _ htilde]), h]
    rfl
  simp only [isStrayPart, isOtherNumeral, Bool.or_eq_true, beq_iff_eq, htilde, false_or,
    Bool.and_eq_true, decide_eq_true_eq, Bool.not_eq_true'] at h
  have hhigh : 0x80 ≤ c.toNat := by
    rcases h with h | h
    · simp only [enclosedLetterRanges, inRanges_cons] at h
      simp [inRanges] at h
      omega
    · exact h.1.1
  obtain ⟨-, -, -, -, henclosed, hstrays⟩ := tables_compared
  have hcontinue : inRanges continueExtraRanges c.toNat = false := by
    rcases h with h | h
    · exact not_inRanges_of_apart henclosed h
    · exact h.2
  have htables : ∀ t ∈ [letterRanges, startExtraRanges, newerLetterRanges, digitRanges, markRanges,
      connectorRanges, newerMarkRanges], inRanges t c.toNat = false := by
    intro t ht
    have hapart := List.all_eq_true.1 hstrays t ht
    rw [Bool.and_eq_true] at hapart
    rcases h with h | h
    · exact not_inRanges_of_apart hapart.1 h
    · exact not_inRanges_of_apart hapart.2 h.1.2
  simp only [List.forall_mem_cons] at htables
  obtain ⟨hletter, hstart, hnewer, hdigit, hmark, hconnector, hnewerMark, -⟩ := htables
  simp [isIdentContinue, isIdentStart, isLetter, isDecimalDigit, isMark, Nat.not_lt.2 hhigh, hletter,
    hstart, hnewer, hdigit, hmark, hconnector, hnewerMark, hcontinue,
    ne_ascii hhigh '$' (by decide), ne_ascii hhigh '_' (by decide)]

theorem isIdentContinue_eq (h : isNamePart c = true) : isIdentContinue c = !isStrayPart c := by
  cases hstray : isStrayPart c with
  | true => exact not_isIdentContinue_of_isStrayPart hstray
  | false =>
    have hexception (hc : c ∈ ['ⸯ', '$', '_', '\u200c', '\u200d']) : isIdentContinue c = !false := by
      rw [exceptions_compared.2 c hc, hstray]
    simp only [isStrayPart, Bool.or_eq_false_iff, beq_eq_false_iff_ne] at hstray
    obtain ⟨⟨htilde, henclosed⟩, hnumeral⟩ := hstray
    simp only [isNamePart, isAlphanumeric, isAlphabetic, Bool.or_eq_true, beq_iff_eq,
      Bool.and_eq_true, decide_eq_true_eq] at h
    rcases h with (((h | h) | h) | h) | ((hletter | ⟨hhigh, hextra⟩) | hdigit) | hother
    · exact hexception (by simp [h])
    · exact hexception (by simp [h])
    · exact hexception (by simp [eq_of_toNat _ h])
    · exact hexception (by simp [eq_of_toNat _ h])
    · simp [isIdentContinue, isIdentStart, hletter, htilde]
    · obtain ⟨-, -, -, hwithin, -⟩ := tables_compared
      have hmark : inRanges markRanges c.toNat = true := by
        refine inRanges_of_within hwithin ?_
        obtain ⟨r, hr, hc⟩ := List.any_eq_true.1 hextra
        refine List.any_eq_true.2 ⟨r, List.mem_filter.2 ⟨hr, ?_⟩, hc⟩
        rw [Bool.not_eq_true', ← Bool.not_eq_true, List.contains_iff_mem]
        intro hmem
        rw [inRanges, List.any_eq_false] at henclosed
        exact henclosed r hmem hc
      simp [isIdentContinue, isMark, hhigh, hmark]
    · simp [isIdentContinue, hdigit]
    · have hhigh : 0x80 ≤ c.toNat := by
        simp only [isOtherNumeral, Bool.and_eq_true, decide_eq_true_eq] at hother
        exact hother.1
      have hcontinue : inRanges continueExtraRanges c.toNat = true := by simpa [hother] using hnumeral
      simp [isIdentContinue, hhigh, hcontinue]

theorem not_space_of_isNameStart (h : isNameStart c = true) :
    isLineEnd c = false ∧ isSourceSpace c = false := by
  rw [← Bool.or_eq_false_iff, ← Bool.not_eq_true]
  intro hspace
  have hfeed : c = '\n' ↔ c.toNat = 10 := ⟨fun h => h ▸ rfl, eq_of_toNat 10⟩
  have hreturn : c = '\r' ↔ c.toNat = 13 := ⟨fun h => h ▸ rfl, eq_of_toNat 13⟩
  simp only [isLineEnd, isSourceSpace, Bool.or_eq_true, beq_iff_eq, Bool.and_eq_true,
    decide_eq_true_eq, hfeed, hreturn] at hspace
  by_cases hhigh : 0x80 ≤ c.toNat
  · have hranges : inRanges spaceRanges c.toNat = true := by
      simp only [spaceRanges, inRanges_cons]
      omega
    obtain ⟨hletters, hextras, -⟩ := tables_compared
    have hletter := not_inRanges_of_apart hletters hranges
    have hextra := not_inRanges_of_apart hextras hranges
    simp [isNameStart, isAlphabetic, isLetter, Nat.not_lt.2 hhigh, hletter, hextra,
      ne_ascii hhigh '$' (by decide), ne_ascii hhigh '_' (by decide)] at h
  · have hlow : c.toNat = 9 ∨ c.toNat = 10 ∨ c.toNat = 11 ∨ c.toNat = 12 ∨ c.toNat = 13 ∨
        c.toNat = 32 := by omega
    rcases hlow with hlow | hlow | hlow | hlow | hlow | hlow
    all_goals
      rw [eq_of_toNat _ hlow] at h
      revert h
      decide

end Characters

/-! ### Scanning -/

def isLegalName (k : String) : Bool :=
  match k.toList with
  | [] => false
  | c :: cs => Text.isIdentStart c && cs.all Text.isIdentContinue

/-- Whether a plain name has a character that no source name has there. -/
def hasStray (k : String) : Bool :=
  match k.toList with
  | [] => false
  | c :: cs => isStrayStart c || cs.any isStrayPart

namespace Source

def endsWord : List Char → Bool
  | [] => true
  | c :: _ => !(c == '\x5c') && !Text.isIdentContinue c

theorem skipTrivia_of_isNameStart {c : Char} (h : isNameStart c = true) (cs : List Char) (pos : Nat)
    (newline : Bool) : skipTrivia .plain (c :: cs) pos newline none =
      ⟨⟨c :: cs, pos⟩, newline, none, false⟩ := by
  obtain ⟨hline, hspace⟩ := not_space_of_isNameStart h
  have hslash : c ≠ '/' := by rintro rfl; revert h; decide
  have hless : c ≠ '<' := by rintro rfl; revert h; decide
  have hdash : c ≠ '-' := by rintro rfl; revert h; decide
  unfold skipTrivia
  split <;> simp_all

variable {cs rest : List Char} {m : ScanMode}

theorem wordTail_of_endsWord (hcs : cs.all Text.isIdentContinue = true)
    (hrest : endsWord rest = true) {fuel : Nat} (hfuel : cs.length < fuel) (pos : Nat)
    (w : WordPart) : ∃ after, wordTail fuel ⟨cs ++ rest, pos⟩ w =
      .ok ({ w with chars := cs.reverse ++ w.chars }, after) := by
  obtain ⟨fuel, rfl⟩ : ∃ n, fuel = n + 1 := ⟨fuel - 1, by omega⟩
  induction cs generalizing fuel pos w with
  | nil =>
    cases rest with
    | nil => exact ⟨_, rfl⟩
    | cons ch rest =>
      simp only [endsWord, Bool.and_eq_true, Bool.not_eq_true'] at hrest
      refine ⟨⟨ch :: rest, pos⟩, ?_⟩
      simp [wordTail, hrest.1, hrest.2]
  | cons c cs ih =>
    simp only [List.all_cons, Bool.and_eq_true] at hcs
    have hslash : (c == '\x5c') = false := by
      rw [beq_eq_false_iff_ne]
      rintro rfl
      exact absurd hcs.1 (by decide)
    obtain ⟨fuel, rfl⟩ : ∃ n, fuel = n + 1 := ⟨fuel - 1, by simp at hfuel; omega⟩
    obtain ⟨after, hafter⟩ := ih hcs.2 (pos + c.utf8Size) { w with chars := c :: w.chars } fuel
      (by simpa using hfuel)
    refine ⟨after, ?_⟩
    rw [wordTail]
    simp only [List.cons_append, hslash, hcs.1, Bool.false_eq_true, if_false, if_true]
    simpa [Cursor.skip] using hafter

theorem scanWord_of_endsWord {c : Char} (hc : (c == '\x5c') = false)
    (hcs : (c :: cs).all Text.isIdentContinue = true) (hrest : endsWord rest = true)
    (hlimit : cs.length < m.limit) (pos : Nat) :
    (scanWord m ⟨c :: cs ++ rest, pos⟩).1 = .word (String.ofList (c :: cs)) false := by
  obtain ⟨after, hafter⟩ := wordTail_of_endsWord hcs hrest (Nat.succ_lt_succ hlimit) pos {}
  unfold scanWord
  rw [hafter]
  simp [hc]

/-- A word goes on as long as its characters are those of source names. -/
theorem scanToken_of_isIdentStart {c : Char} (hc : Text.isIdentStart c = true)
    (hcs : cs.all isNamePart = true) (hrest : endsWord rest = true) (hlimit : cs.length < m.limit)
    (pos : Nat) :
    (scanToken m ⟨c :: cs ++ rest, pos⟩).1 =
      .word (String.ofList (c :: cs.takeWhile Text.isIdentContinue)) false := by
  have hslash : (c == '\x5c') = false := by
    rw [beq_eq_false_iff_ne]
    rintro rfl
    exact absurd hc (by decide)
  have hword : (c :: cs.takeWhile Text.isIdentContinue).all Text.isIdentContinue = true := by
    simp [Text.isIdentContinue, hc]
  have hends : endsWord (cs.dropWhile Text.isIdentContinue ++ rest) = true := by
    cases hdrop : cs.dropWhile Text.isIdentContinue with
    | nil => exact hrest
    | cons x xs =>
      have hx : Text.isIdentContinue x = false := by
        simpa [hdrop] using List.head?_dropWhile_not Text.isIdentContinue cs
      have hpart : isNamePart x = true :=
        List.all_eq_true.1 hcs x ((List.dropWhile_suffix _).subset (hdrop ▸ List.mem_cons_self))
      have hne : (x == '\x5c') = false := by
        rw [beq_eq_false_iff_ne]
        rintro rfl
        exact absurd hpart (by decide)
      simp [endsWord, hx, hne]
  have hsplit : c :: cs ++ rest = c :: cs.takeWhile Text.isIdentContinue ++
      (cs.dropWhile Text.isIdentContinue ++ rest) := by
    rw [List.cons_append, List.cons_append, ← List.append_assoc, List.takeWhile_append_dropWhile]
  have hlength : (cs.takeWhile Text.isIdentContinue).length < m.limit :=
    Nat.lt_of_le_of_lt (List.takeWhile_sublist _).length_le hlimit
  unfold scanToken
  rw [hsplit]
  simp only [List.cons_append, hc, Bool.true_or, if_true]
  exact scanWord_of_endsWord hslash hword hends hlength pos

theorem scanToken_of_not_isIdentStart {c : Char} (hc : isNameStart c = true)
    (hstart : Text.isIdentStart c = false) (cs : List Char) (pos : Nat) (w : String) (plain : Bool)
    :
    (scanToken m ⟨c :: cs, pos⟩).1 ≠ .word w plain := by
  have hhigh : 0x80 ≤ c.toNat := by
    rw [isIdentStart_eq hc, Bool.not_eq_false'] at hstart
    simp only [isStrayStart, Text.isAlphabetic, Bool.or_eq_true, beq_iff_eq, Bool.and_eq_true,
      decide_eq_true_eq, Bool.not_eq_true'] at hstart
    grind
  have hdigit : c.isDigit = false := by
    have htoNat : c.val.toNat = c.toNat := rfl
    rw [← Bool.not_eq_true]
    intro hdigit
    simp only [Char.isDigit, Bool.and_eq_true, decide_eq_true_eq, ge_iff_le,
      UInt32.le_iff_toNat_le] at hdigit
    simp at hdigit
    omega
  unfold scanToken
  simp only [hstart, hdigit, ne_ascii hhigh '\x5c' (by decide), ne_ascii hhigh '.' (by decide),
    ne_ascii hhigh '\x22' (by decide), ne_ascii hhigh '\x27' (by decide),
    ne_ascii hhigh '\x60' (by decide), Bool.or_self, Bool.false_and, Bool.false_eq_true, if_false]
  split <;> nofun

theorem scan_word_iff {k : String} (h : isIdentifierName k = true) (hrest : endsWord rest = true)
    (hlimit : k.toList.length ≤ m.limit) (pos : Nat) :
    (∃ plain, (scan m false ⟨k.toList ++ rest, pos⟩).token = .word k plain) ↔
      isLegalName k = true := by
  unfold isIdentifierName at h
  unfold isLegalName
  cases hk : k.toList with
  | nil => rw [hk] at h; cases h
  | cons c cs =>
    rw [hk] at h hlimit
    simp only [Bool.and_eq_true] at h ⊢
    have htoken : (scan m false ⟨c :: cs ++ rest, pos⟩).token =
        (scanToken m ⟨c :: cs ++ rest, pos⟩).1 := by
      unfold scan
      rw [List.cons_append]
      simp only [skipTrivia_of_isNameStart h.1]
      rfl
    rw [htoken]
    cases hc : Text.isIdentStart c with
    | false =>
      simp only [Bool.false_eq_true, false_and, iff_false]
      rintro ⟨plain, hword⟩
      exact scanToken_of_not_isIdentStart h.1 hc _ pos k plain hword
    | true =>
      have hname : k = String.ofList (c :: cs) := by rw [← hk, String.ofList_toList]
      rw [scanToken_of_isIdentStart hc h.2 hrest hlimit]
      simp only [true_and, Token.word.injEq, exists_and_left, exists_eq', and_true]
      rw [hname, String.ofList_inj, List.cons_inj_right, List.takeWhile_eq_self_iff,
        List.all_eq_true]

/-! ### Reading -/

/-- The state past the current token. -/
def State.next (ctx : Context) (s : State) : State :=
  { s with
    prevEnd := s.cur.after.pos
    noted := s.cur.recovered.reverse ++ s.noted
    cur := scan ctx.mode false s.cur.after }

section Reading

variable {ctx : Context} {s s' : State}

theorem run_bind {α β : Type} (p : Parser α) (f : α → Parser β) :
    (p >>= f).run ctx s = match p.run ctx s with
      | .done a s' => (f a).run ctx s'
      | .stopped e s' => .stopped e s' := rfl

theorem isPunct_run (p : String) : (isPunct p).run ctx s = .done (s.cur.token == .punct p) s := rfl

theorem eatPunct_run (p : String) : (eatPunct p).run ctx s =
    if s.cur.token == .punct p then .done true (s.next ctx) else .done false s := by
  unfold eatPunct
  rw [run_bind, isPunct_run]
  dsimp only
  split <;> rfl

variable {w : String}

theorem memberName_of_word {plain : Bool} (h : s.cur.token = .word w plain) :
    memberName.run ctx s = .done (.name w) (s.next ctx) := by
  obtain ⟨⟨token, start, here, after, newline, recovered⟩, prevEnd, noted, arrowStart⟩ := s
  subst h
  rfl

theorem word_of_memberName (h : memberName.run ctx s = .done (.name w) s') :
    ∃ plain, s.cur.token = .word w plain := by
  unfold memberName at h
  rw [run_bind, isPunct_run] at h
  dsimp only at h
  split at h
  · rw [run_bind] at h
    split at h <;> cases h
  · obtain ⟨⟨token, start, here, after, newline, recovered⟩, prevEnd, noted, arrowStart⟩ := s
    cases token with
    | word w' plain =>
      cases h
      exact ⟨plain, rfl⟩
    | _ => cases h

theorem access_injective {e : Expr} {a b : MemberProp} (h : access false e a = access false e b) :
    a = b := by
  unfold access at h
  split at h <;> cases h <;> rfl

variable {r : Rules} {noCall : Bool} {c : Cover}

theorem subscript_of_point (h : s.cur.token = .punct ".") : (subscript r noCall c).run ctx s =
    (memberName >>= fun prop => some <$> cover c.start (access false c.expr prop)).run ctx
      (s.next ctx) := by
  have hchain : (Token.punct "." == .punct "?.") = false := by decide
  have hbracket : (Token.punct "." == .punct "[") = false := by decide
  have hparen : (Token.punct "." == .punct "(") = false := by decide
  unfold subscript
  simp only [run_bind, eatPunct_run, isPunct_run, h, hchain, hbracket, hparen, Bool.false_eq_true,
    Bool.false_and, if_false, beq_self_eq_true, if_true]

theorem subscript_reads_iff (h : s.cur.token = .punct ".") (k : String) :
    (∃ d s', (subscript r noCall c).run ctx s = .done (some d) s' ∧
      d.expr = access false c.expr (.name k)) ↔
    ∃ plain, (scan ctx.mode false s.cur.after).token = .word k plain := by
  rw [subscript_of_point h]
  constructor
  · rintro ⟨d, s', hrun, hd⟩
    rw [run_bind] at hrun
    split at hrun
    · next prop s'' hprop =>
      cases hrun
      obtain rfl : prop = .name k := access_injective hd
      exact word_of_memberName hprop
    · cases hrun
  · rintro ⟨plain, hword⟩
    refine ⟨⟨access false c.expr (.name k), c.start, ((s.next ctx).next ctx).prevEnd, [], none⟩,
      (s.next ctx).next ctx, ?_, rfl⟩
    rw [run_bind, memberName_of_word hword]
    rfl

end Reading

end Source

/-- **Which keys can be written as plain names.** A key that counts as a plain name is a name of the
source exactly if it has none of a few stray characters. Written after a point it is then read back as
an access by the same key, and else it is not, wherever a point may stand and whatever follows that
does not make the word longer. -/
theorem isIdentifierName_reads_back {k : String} (h : isIdentifierName k = true) :
    isLegalName k = !hasStray k ∧
    ∀ (r : Source.Rules) (noCall : Bool) (c : Source.Cover) (ctx : Source.Context)
      (s : Source.State) (rest : List Char) (pos : Nat), s.cur.token = .punct "." →
      s.cur.after = ⟨k.toList ++ rest, pos⟩ → k.toList.length ≤ ctx.limit →
      Source.endsWord rest = true →
      ((∃ d s', (Source.subscript r noCall c).run ctx s = .done (some d) s' ∧
        d.expr = Source.access false c.expr (.name k)) ↔ isLegalName k = true) := by
  constructor
  · unfold isIdentifierName at h
    unfold isLegalName hasStray
    split
    · next hk => rw [hk] at h; cases h
    · next c cs hk =>
      rw [hk] at h
      simp only [Bool.and_eq_true, List.all_eq_true] at h
      have hcs : cs.all Text.isIdentContinue = !cs.any isStrayPart := by
        rw [Bool.eq_iff_iff]
        simp only [List.all_eq_true, Bool.not_eq_true', List.any_eq_false]
        refine forall₂_congr fun x hx => ?_
        rw [isIdentContinue_eq (h.2 x hx)]
        simp
      rw [isIdentStart_eq h.1, hcs, Bool.not_or]
  · intro r noCall c ctx s rest pos htoken hafter hlimit hrest
    rw [Source.subscript_reads_iff htoken, hafter]
    exact Source.scan_word_iff h hrest hlimit pos

/-- A reading that has come to a point, with a text after it. -/
def Source.atPoint (text : String) : Source.State where
  cur := ⟨.punct ".", 0, ⟨'.' :: text.toList, 0⟩, ⟨text.toList, 1⟩, false, []⟩
  prevEnd := 0
  noted := []
  arrowStart := none

/-- A superscript digit is a numeral, and no part of a name: such a key is not read back. -/
theorem isIdentifierName_reads_back_superscript :
    isIdentifierName "x²" = true ∧ isLegalName "x²" = false ∧
    ¬ ∃ d s', (Source.subscript .none false ⟨.this, 0, 0, [], none⟩).run { limit := 3 }
        (Source.atPoint "x²;") = .done (some d) s' ∧
      d.expr = Source.access false .this (.name "x²") := by
  have hplain : isIdentifierName "x²" = true := by decide +kernel
  have hlegal : isLegalName "x²" = false := by decide +kernel
  refine ⟨hplain, hlegal, fun hread => ?_⟩
  have hback := (isIdentifierName_reads_back hplain).2 .none false ⟨.this, 0, 0, [], none⟩
    { limit := 3 } (Source.atPoint "x²;") [';'] 1 rfl (by decide) (by decide) (by decide +kernel)
  rw [hback.1 hread] at hlegal
  cases hlegal

end Untangle
