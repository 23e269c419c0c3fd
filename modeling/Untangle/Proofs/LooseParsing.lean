import Mathlib.Data.String.Basic
import Untangle.Proofs.CleanReading

/-!
# Loose parsing extends strict parsing

Strict parsing reads the whole text at once; loose parsing cuts it into ranges and begins with the
range that is the whole text. If that one can be read, no other is looked at, and what strict parsing
gives is put together again from a single piece. Of the reader two facts are used, which are those of
`ProgramReader.Sound`, and nothing of its grammar.

* `rangeCursor_whole` — the range of the whole text is the text.
* `readProgram_sound` — the reader of this library has the two facts.
* `parseLoose_eq_of_strict` — both ways of parsing agree wherever the strict one succeeds.
* `parse_loose_extends_strict` — so does the whole of parsing, with any such reader.
-/

namespace Untangle.Source

/-! ### The whole text as a range -/

theorem charsTo_go_eq {stop : Nat} (cs : List Char) (pos : Nat)
    (h : pos + String.utf8Len cs ≤ stop) : Cursor.charsTo.go stop cs pos = cs := by
  induction cs generalizing pos with
  | nil => rfl
  | cons c cs ih =>
    rw [String.utf8Len_cons] at h
    have hc := c.utf8Size_pos
    unfold Cursor.charsTo.go
    rw [if_pos (by omega), ih (pos + c.utf8Size) (by omega)]

theorem rangeCursor_whole (source : String) :
    rangeCursor (Cursor.ofString source) 0 source.toUTF8.data.size = Cursor.ofString source := by
  have hsize : source.toUTF8.data.size = String.utf8Len source.toList :=
    (String.utf8Len_toList source).symm
  have hdrop : rangeCursor.dropTo 0 source.toList 0 = ⟨source.toList, 0⟩ := by
    cases source.toList with
    | nil => rfl
    | cons c cs => rfl
  unfold rangeCursor Cursor.ofString
  rw [hdrop, hsize, Cursor.charsTo, charsTo_go_eq source.toList 0 (Nat.zero_add _).le]

section Ranges

variable {bytes : Array UInt8} {α : Type} {read : RangeReader α}

theorem coverRanges_of_readable {items : α} (hsize : 0 < bytes.size)
    (hread : read 0 bytes.size = .ok items) :
    coverRanges bytes read = [{ start := 0, stop := bytes.size, items := some items }] := by
  have hstep : (Worklist.initial bytes.size).step bytes read =
      { settled := [{ start := 0, stop := bytes.size, items := some items }], pending := [] } := by
    simp only [Worklist.initial, Worklist.step, dif_pos hsize, hread]
  have hrun (n : Nat) (settled : List (Piece α)) :
      Worklist.run bytes read n { settled := settled, pending := [] } =
        { settled := settled, pending := [] } := by
    cases n with
    | zero => rfl
    | succ n => rfl
  unfold coverRanges Worklist.run
  rw [hstep, hrun]
  rfl

theorem coverRanges_empty (hsize : bytes.size = 0) : coverRanges bytes read = [] := by
  unfold coverRanges Worklist.initial
  rw [hsize]
  rfl

end Ranges

/-! ### Readers -/

/-- What a reader has to fulfil: the empty text, which has no ranges, has no statements either, and
what is read without anything being noted has no placeholder among its statements. -/
structure ProgramReader.Sound (read : ProgramReader) : Prop where
  empty : ∀ mode, read mode (Cursor.ofString "") = .ok { shebang := none, body := [], noted := [] }
  whole : ∀ {mode source r}, read mode source = .ok r → r.noted = [] →
    ∀ s ∈ r.body, s.value ≠ placeholderStmt

theorem readProgram_sound : ProgramReader.Sound readProgram where
  empty mode := by
    obtain ⟨grammar, typescript⟩ := mode
    cases grammar <;> cases typescript <;> rfl
  whole := readProgram_whole

/-! ### Both ways of parsing -/

variable {read : ProgramReader} {g : Grammar} {parsed : Parsed} {source : String}
  {typescript : Bool}

theorem parseStrict_ok (h : parseStrict read source typescript g = .ok parsed) :
    ∃ r : Reading, read { grammar := g, typescript := typescript }
      (Cursor.ofString source) = .ok r ∧ r.noted = [] ∧ parsed = assemble g r.shebang r.body := by
  unfold parseStrict at h
  simp only at h
  split at h
  · cases h
  · next r hr =>
    split at h
    · cases h
    · next hnoted =>
      cases h
      exact ⟨r, hr, hnoted, rfl⟩

theorem parseLoose_eq_of_strict (hsound : read.Sound)
    (h : parseStrict read source typescript g = .ok parsed) :
    parseLoose read source typescript g = parsed := by
  obtain ⟨r, hread, -, rfl⟩ := parseStrict_ok h
  unfold parseLoose
  simp only
  rcases Nat.eq_zero_or_pos source.toUTF8.data.size with hsize | hsize
  · have hempty : source = "" := String.utf8ByteSize_eq_zero_iff.1 hsize
    subst hempty
    rw [hsound.empty] at hread
    cases hread
    rw [coverRanges_empty hsize]
    rfl
  · rw [coverRanges_of_readable hsize]
    · exact congrArg (assemble g r.shebang) (List.append_nil r.body)
    · rw [rangeCursor_whole, hread]

theorem parseStrict_whole (hsound : read.Sound)
    (h : parseStrict read source typescript g = .ok parsed) : ∀ s ∈ parsed.program.body, s ≠ placeholderStmt := by
  obtain ⟨r, hread, hclean, rfl⟩ := parseStrict_ok h
  intro s hs
  obtain ⟨t, ht, rfl⟩ := List.mem_map.1 hs
  exact hsound.whole hread hclean t ht

theorem parseAs_loose (hsound : read.Sound)
    (h : parseAs read source false typescript g = .ok parsed) :
    parseAs read source true typescript g = .ok parsed ∧
      ∀ s ∈ parsed.program.body, s ≠ placeholderStmt :=
  ⟨congrArg Except.ok (parseLoose_eq_of_strict hsound h), parseStrict_whole hsound h⟩

end Untangle.Source

namespace Untangle

/-- Loose parsing never fails. Where strict parsing succeeds it gives the same: the same program with
its grammar, its interpreter line and its statements in the same places, none of them a
placeholder. -/
structure LooseExtendsStrict (parse : ParseSettings → Except ParseError Parsed)
    (settings : ParseSettings) : Prop where
  total : ∃ parsed, parse { settings with loose := true } = .ok parsed
  extends_strict : ∀ parsed, parse { settings with loose := false } = .ok parsed →
    parse { settings with loose := true } = .ok parsed ∧
    ∀ s ∈ parsed.program.body, s ≠ placeholderStmt

theorem parseWith_looseExtendsStrict {reader : EcmaVersion → Source.ProgramReader}
    (hsound : ∀ version, (reader version).Sound) (source : String) (settings : ParseSettings) :
    LooseExtendsStrict (parseWith reader source) settings := by
  specialize hsound settings.version
  obtain ⟨version, sourceType, loose, typescript⟩ := settings
  cases sourceType with
  | module | script => exact ⟨⟨_, rfl⟩, fun parsed h => Source.parseAs_loose hsound h⟩
  | both =>
    -- The module grammar is tried strictly in both modes; only the script grammar is read loosely.
    cases hmodule : Source.parseStrict (reader version) source typescript .module with
    | ok p =>
      refine ⟨⟨p, by simp only [parseWith, hmodule]⟩, fun parsed h => ?_⟩
      simp only [parseWith, hmodule] at h ⊢
      cases h
      exact ⟨rfl, Source.parseStrict_whole hsound hmodule⟩
    | error e =>
      refine ⟨⟨_, by simp only [parseWith, hmodule]; rfl⟩, fun parsed h => ?_⟩
      simp only [parseWith, hmodule] at h ⊢
      exact Source.parseAs_loose hsound h

/-- **Loose parsing extends strict parsing**, with the reader of this library and with any other that
fulfils the same. -/
theorem parse_loose_extends_strict (source : String) (settings : ParseSettings) :
    LooseExtendsStrict (parse source) settings ∧
    ∀ reader : EcmaVersion → Source.ProgramReader, (∀ version, (reader version).Sound) →
      LooseExtendsStrict (parseWith reader source) settings :=
  ⟨parseWith_looseExtendsStrict (fun _ => Source.readProgram_sound) source settings,
    fun _ hsound => parseWith_looseExtendsStrict hsound source settings⟩

end Untangle
