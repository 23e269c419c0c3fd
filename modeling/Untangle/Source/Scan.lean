import Untangle.Number.Decimal
import Untangle.Source.Token
import Untangle.Text.Blank
import Untangle.Text.IdentifierChar

/-!
# Scanning

One token at a time, from a cursor.

Every loop is bounded by `limit`, a number at least the length of the source.
-/

namespace Untangle.Source

/-- What the scanner has to know. -/
structure ScanMode where
  strict : Bool
  isModule : Bool
  typescript : Bool
  inAsync : Bool
  inGenerator : Bool
  inStaticBlock : Bool
  limit : Nat

/-- Whether a word is no identifier here. -/
def ScanMode.reserves (m : ScanMode) (w : String) : Bool :=
  reservedWords.contains w || (m.strict && strictReservedWords.contains w) ||
    (w == "yield" && (m.strict || m.inGenerator)) ||
    (w == "await" && (m.isModule || m.inAsync || m.inStaticBlock))

/-! ## Blanks and comments -/

/-- Outside comments, in a comment up to the end of the line, or in one with a closing mark. -/
inductive TriviaState
  | plain | line | block
  deriving DecidableEq

/-- Where the blanks and comments end. -/
structure Trivia where
  cursor : Cursor
  newline : Bool
  /-- Where the first comment of the old kind starts. -/
  anchor : Option Nat
  unclosed : Bool

/-- Skips blanks and comments. `fresh` tells whether only blanks and comments stand on the line so
far. -/
def skipTrivia : TriviaState → List Char → Nat → Bool → Option Nat → Trivia
  | .plain, '/' :: '/' :: cs, p, n, a => skipTrivia .line cs (p + 2) n a
  | .plain, '/' :: '*' :: cs, p, n, a => skipTrivia .block cs (p + 2) n a
  | .plain, '<' :: '!' :: '-' :: '-' :: cs, p, n, a =>
    skipTrivia .line cs (p + 4) n (a.or (some p))
  | .plain, '-' :: '-' :: '>' :: cs, p, n, a =>
    if n then skipTrivia .line cs (p + 3) n (a.or (some p))
    else ⟨⟨'-' :: '-' :: '>' :: cs, p⟩, n, a, false⟩
  | .plain, c :: cs, p, n, a =>
    if Text.isLineEnd c then skipTrivia .plain cs (p + c.utf8Size) true a
    else if Text.isSourceSpace c then skipTrivia .plain cs (p + c.utf8Size) n a
    else ⟨⟨c :: cs, p⟩, n, a, false⟩
  | .plain, [], p, n, a => ⟨⟨[], p⟩, n, a, false⟩
  | .line, c :: cs, p, n, a =>
    if Text.isLineEnd c then skipTrivia .plain cs (p + c.utf8Size) true a
    else skipTrivia .line cs (p + c.utf8Size) n a
  | .line, [], p, n, a => ⟨⟨[], p⟩, n, a, false⟩
  | .block, '*' :: '/' :: cs, p, n, a => skipTrivia .plain cs (p + 2) n a
  | .block, c :: cs, p, n, a =>
    skipTrivia .block cs (p + c.utf8Size) (n || Text.isLineEnd c) a
  | .block, [], p, n, a => ⟨⟨[], p⟩, n, a, true⟩

/-! ## Digits -/

/-- A run of digits. Separators may stand among them; one without a digit after it is remarked on at
the start of the run. -/
structure DigitRun where
  digits : List Char
  after : Cursor
  notes : List Located

private def isRadixDigit (radix : Nat) (c : Char) : Bool := (Text.digit? radix c).isSome

/-- The digits at a cursor, at most so many if a number is given. -/
def digitRun (radix : Nat) (most : Option Nat) (c : Cursor) : DigitRun :=
  go c.rest c.pos most [] false
where
  finish (rest : List Char) (pos : Nat) (digits : List Char) (misplaced : Bool) : DigitRun :=
    { digits := digits.reverse, after := ⟨rest, pos⟩
      notes := if misplaced then [⟨c.pos, .misplacedSeparator⟩] else [] }
  go : List Char → Nat → Option Nat → List Char → Bool → DigitRun
    | rest, pos, some 0, digits, misplaced => finish rest pos digits misplaced
    | [], pos, _, digits, misplaced => finish [] pos digits misplaced
    | ch :: rest, pos, left, digits, misplaced =>
      if ch == '_' then
        go rest (pos + 1) left digits (misplaced || !isRadixDigit radix (rest.headD ' '))
      else if isRadixDigit radix ch then
        go rest (pos + 1) (left.map (· - 1)) (ch :: digits) misplaced
      else finish (ch :: rest) pos digits misplaced

/-! ## Escapes -/

/-- A code point that an escape stands for. -/
structure EscapedPoint where
  value : Nat
  after : Cursor
  notes : List Located

/-- The code point after `\u`, in four digits or in braces. A fault is placed where the digits end,
an open brace where they start. -/
def unicodeEscape (c : Cursor) : Except Located EscapedPoint :=
  let braced := c.rest.head? == some '{'
  let start := if braced then c.skip 1 else c
  let run := digitRun 16 (if braced then none else some 4) start
  let value := (Text.digitsValue? 16 run.digits).getD 0
  let readable := if braced then !run.digits.isEmpty else run.digits.length == 4
  if !readable || 0xFFFFFFFF < value then
    .error ⟨run.after.pos, .badEscape (if braced then .braced else .unit)⟩
  else if 0x10FFFF < value then .error ⟨run.after.pos, .badEscape .codePoint⟩
  else if !braced then .ok ⟨value, run.after, run.notes⟩
  else if run.after.rest.head? == some '}' then .ok ⟨value, run.after.skip 1, run.notes⟩
  else .error ⟨start.pos, .unclosedEscape⟩

def unitsOfCodePoint (n : Nat) : Units :=
  if n < 0x10000 then [n.toUInt16] else Units.ofChar (Char.ofNat n)

/-- What an escape stands for. -/
structure Escape where
  units : Units
  after : Cursor
  octal : Bool := false
  notes : List Located := []

private def isOctalDigit (c : Char) : Bool := '0' ≤ c && c ≤ '7'

/-- The escape after a backslash; a line end after it stands for nothing. -/
def readEscape (c : Cursor) : Except SyntaxError Escape :=
  match c.rest with
  | [] => .error .bareBackslash
  | ch :: rest =>
    let one (u : UInt16) : Except SyntaxError Escape := .ok { units := [u], after := c.skip 1 }
    if ch == 'n' then one 10
    else if ch == 'r' then one 13
    else if ch == 't' then one 9
    else if ch == 'b' then one 8
    else if ch == 'v' then one 11
    else if ch == 'f' then one 12
    else if ch == '\r' then
      .ok { units := [], after := if rest.head? == some '\n' then c.skip 2 else c.skip 1 }
    else if Text.isLineEnd ch then .ok { units := [], after := c.skip 1 }
    else if ch == 'x' then
      let run := digitRun 16 (some 2) (c.skip 1)
      match run.digits.length == 2, Text.digitsValue? 16 run.digits with
      | true, some n => .ok { units := [n.toUInt16], after := run.after, notes := run.notes }
      | _, _ => .error (.badEscape .byte)
    else if ch == 'u' then
      match unicodeEscape (c.skip 1) with
      | .ok e => .ok { units := unitsOfCodePoint e.value, after := e.after, notes := e.notes }
      | .error e => .error e.error
    else if isOctalDigit ch then
      let most := if ch ≤ '3' then 3 else 2
      let ds := ((ch :: rest).take most).takeWhile isOctalDigit
      let n := ds.foldl (fun acc d => acc * 8 + (d.toNat - '0'.toNat)) 0
      let plainZero := ch == '0' && !isOctalDigit (rest.headD ' ')
      .ok { units := [n.toUInt16], after := c.skip ds.length, octal := !plainZero }
    else .ok { units := Units.ofChar ch, after := c.skip 1 }

/-! ## Words -/

/-- What has been read of a word: its characters in reverse, whether one was escaped, and remarks on
those that do not belong in a name. -/
structure WordPart where
  chars : List Char := []
  escaped : Bool := false
  notes : List Located := []

def wordTail : Nat → Cursor → WordPart → Except Located (WordPart × Cursor)
  | 0, c, _ => .error ⟨c.pos, .limit⟩
  | fuel + 1, c, w =>
    match c.rest with
    | [] => .ok (w, c)
    | ch :: rest =>
      if ch == '\x5c' then
        match rest with
        | 'u' :: _ =>
          match unicodeEscape (c.skip 2) with
          | .error e => .error e
          | .ok e =>
            let point := Char.ofNat e.value
            let valid :=
              if w.chars.isEmpty then Text.isIdentStart point else Text.isIdentContinue point
            let fault := if valid then [] else [⟨c.pos, .invalidIdentChar⟩]
            wordTail fuel e.after
              { chars := point :: w.chars, escaped := true, notes := w.notes ++ e.notes ++ fault }
        | _ => .error ⟨c.pos, .unicodeEscapeExpected⟩
      else if Text.isIdentContinue ch then
        wordTail fuel (c.skip 1) { w with chars := ch :: w.chars }
      else .ok (w, c)

/-- A word. One that starts with an escape is an identifier whatever its name; an escape further on
must not hide a reserved word. -/
def scanWord (m : ScanMode) (c : Cursor) : Token × Cursor × List Located :=
  match wordTail (m.limit + 1) c {} with
  | .error e => (.error e, c.skip 1, [])
  | .ok (w, after) =>
    let name := String.ofList w.chars.reverse
    let plain := c.rest.head? == some '\x5c'
    if w.escaped && !plain && m.reserves name then
      (.error ⟨c.pos, .escapedReserved name⟩, after, w.notes)
    else (.word name plain, after, w.notes)

/-! ## Numbers -/

/-- The value of digits in a radix, accumulated as a double. -/
def radixValue (radix : Nat) (ds : List Char) : Float :=
  ds.foldl (fun acc c => acc * Float.ofNat radix + Float.ofNat ((Text.digit? radix c).getD 0)) 0

/-- A number that ends at `after`, unless a word follows it directly. -/
private def finishNumber (start after : Cursor) (value : Float) (notes : List Located) :
    Token × Cursor × List Located :=
  match after.rest with
  | ch :: _ =>
    if Text.isIdentStart ch then (.error ⟨after.pos, .identAfterNumber⟩, after, notes)
    else (.num { value := value, raw := some (start.textTo after) }, after, notes)
  | [] => (.num { value := value, raw := some (start.textTo after) }, after, notes)

/-- The mark of a big integer closes it. -/
private def finishBig (start mark : Cursor) (notes : List Located) :
    Token × Cursor × List Located :=
  (.bigint (start.textTo (mark.skip 1)), mark.skip 1, notes)

def scanRadix (radix : Nat) (c : Cursor) : Token × Cursor × List Located :=
  let run := digitRun radix none (c.skip 2)
  if run.digits.isEmpty then
    (.error ⟨(c.skip 2).pos, .digitExpected radix⟩, run.after, run.notes)
  else if run.after.rest.head? == some 'n' then finishBig c run.after run.notes
  else finishNumber c run.after (radixValue radix run.digits) run.notes

/-- The exponent part, if one follows: its value, the cursor past it and remarks. -/
private def scanExponent (c : Cursor) : Except Located (Int × Cursor × List Located) :=
  match c.rest with
  | e :: rest =>
    if e == 'e' || e == 'E' then
      if rest.isEmpty then .error ⟨(c.skip 1).pos, .digitAfterExponent⟩
      else
        let negative := rest.head? == some '-'
        let start := if negative || rest.head? == some '+' then c.skip 2 else c.skip 1
        let run := digitRun 10 none start
        if run.digits.isEmpty then .error ⟨start.pos, .digitExpected 10⟩
        else
          let n : Nat := run.digits.foldl (fun acc d => acc * 10 + (d.toNat - '0'.toNat)) 0
          .ok (if negative then -(n : Int) else n, run.after, run.notes)
    else .ok (0, c, [])
  | [] => .ok (0, c, [])

/-- A decimal number, or an octal one of the old kind with a leading zero. -/
def scanDecimal (m : ScanMode) (c : Cursor) : Token × Cursor × List Located :=
  let whole := digitRun 10 none c
  let leadingZero := c.rest.head? == some '0' && c.pos + 1 < whole.after.pos
  let strictError (e : SyntaxError) : List Located := if m.strict then [⟨c.pos, e⟩] else []
  if !leadingZero && !whole.digits.isEmpty && whole.after.rest.head? == some 'n' then
    finishBig c whole.after whole.notes
  else if leadingZero && whole.digits.all isOctalDigit then
    let typed := if m.typescript then [⟨c.pos, .octalInTyped⟩] else []
    finishNumber c whole.after (radixValue 8 whole.digits)
      (whole.notes ++ typed ++ strictError .legacyOctal)
  else
    let legacy := if leadingZero then strictError .legacyDecimal else []
    let fraction := match whole.after.rest with
      | '.' :: _ => digitRun 10 none (whole.after.skip 1)
      | _ => { digits := [], after := whole.after, notes := [] }
    let notes := whole.notes ++ legacy ++ fraction.notes
    match scanExponent fraction.after with
    | .error e => (.error e, fraction.after, notes)
    | .ok (exponent, after, more) =>
      finishNumber c after
        (Number.readDecimal (whole.digits ++ fraction.digits) (exponent - fraction.digits.length))
        (notes ++ more)

/-! ## Strings -/

/-- The contents of a string up to its closing quote. The Boolean tells whether it was closed. -/
def stringTail (m : ScanMode) (quote : Char) :
    Nat → Cursor → Units → List Located → Except Located (Units × Bool × Cursor × List Located)
  | 0, c, _, _ => .error ⟨c.pos, .limit⟩
  | fuel + 1, c, acc, notes =>
    match c.rest with
    | [] => .ok (acc.reverse, false, c, notes)
    | ch :: _ =>
      if ch == quote then .ok (acc.reverse, true, c.skip 1, notes)
      else if ch == '\n' || ch == '\r' then .ok (acc.reverse, false, c, notes)
      else if ch == '\x5c' then
        match readEscape (c.skip 1) with
        | .ok e =>
          let legacy := if e.octal && m.strict then [⟨c.pos, .legacyOctal⟩] else []
          stringTail m quote fuel e.after (e.units.reverse ++ acc) (notes ++ e.notes ++ legacy)
        | .error e => .error ⟨c.pos, e⟩
      else stringTail m quote fuel (c.skip 1) ((Units.ofChar ch).reverse ++ acc) notes

/-- A string literal. One cut off by the end of its line is still a token. -/
def scanString (m : ScanMode) (quote : Char) (c : Cursor) : Token × Cursor × List Located :=
  match stringTail m quote (m.limit + 1) (c.skip 1) [] [] with
  | .ok (units, closed, after, notes) =>
    let notes := if closed then notes else notes ++ [⟨c.pos, .unterminatedString⟩]
    (.str { units := units, raw := some (c.textTo after) }, after, notes)
  | .error e => (.error e, c.skip 1, [])

/-! ## Punctuators -/

def punctuators : List String :=
  [">>>=", "...", "===", "!==", "**=", "<<=", ">>=", ">>>", "&&=", "||=", "??=", "=>", "==", "!=",
    "<=", ">=", "&&", "||", "??", "?.", "++", "--", "+=", "-=", "*=", "/=", "%=", "&=", "|=", "^=",
    "<<", ">>", "**", "\x7b", "\x7d", "(", ")", "[", "]", ";", ",", "<", ">", "+", "-", "*", "/",
    "%", "&", "|", "^", "!", "~", "?", ":", "=", ".", "@", "#"]

/-- The longest punctuator at the cursor; a question mark and a point before a digit are not one
token. -/
def punctuator? (rest : List Char) : Option String :=
  punctuators.find? fun p =>
    p.toList.isPrefixOf rest &&
      !(p == "?." && ((rest.drop 2).headD ' ').isDigit)

/-! ## Tokens -/

def scanToken (m : ScanMode) (c : Cursor) : Token × Cursor × List Located :=
  match c.rest with
  | [] => (.eof, c, [])
  | ch :: rest =>
    if Text.isIdentStart ch || ch == '\x5c' then scanWord m c
    else if ch.isDigit then
      let mark := rest.headD ' '
      if ch == '0' && (mark == 'x' || mark == 'X') then scanRadix 16 c
      else if ch == '0' && (mark == 'o' || mark == 'O') then scanRadix 8 c
      else if ch == '0' && (mark == 'b' || mark == 'B') then scanRadix 2 c
      else scanDecimal m c
    else if ch == '.' && (rest.headD ' ').isDigit then scanDecimal m c
    else if ch == '\x22' || ch == '\x27' then scanString m ch c
    else if ch == '\x60' then (.backquote, c.skip 1, [])
    else match punctuator? c.rest with
      | some p => (.punct p, c.skip p.length, [])
      | none => (.error ⟨c.pos, .unexpectedCharacter ch⟩, c.skip 1, [])

/-- The next token after the cursor. `fresh` tells whether the cursor is at the start of a line. -/
def scan (m : ScanMode) (fresh : Bool) (c : Cursor) : Lexeme :=
  let t := skipTrivia .plain c.rest c.pos fresh none
  let start := t.anchor.getD t.cursor.pos
  let legacy := match t.anchor with
    | some p => if m.isModule then [⟨p, .legacyComment⟩] else []
    | none => []
  if t.unclosed then
    { token := .error ⟨t.cursor.pos, .unterminatedComment⟩, start := start, here := t.cursor
      after := t.cursor, newline := t.newline, recovered := legacy }
  else
    let (token, after, notes) := scanToken m t.cursor
    { token := token, start := start, here := t.cursor, after := after
      newline := t.newline, recovered := legacy ++ notes }

/-! ## Regular expressions and templates -/

def regexBody : List Char → Nat → Bool → Option Nat
  | [], _, _ => none
  | '\x5c' :: c :: cs, n, inClass => if Text.isLineEnd c then none else regexBody cs (n + 2) inClass
  | c :: cs, n, inClass =>
    if Text.isLineEnd c then none
    else if c == '/' && !inClass then some n
    else regexBody cs (n + 1) (if c == '[' then true else if c == ']' then false else inClass)

/-- A regular expression: its body and flags as they are spelled, and what the flags stand for. -/
structure RegexText where
  body : String
  flags : String
  letters : List Char
  after : Cursor
  notes : List Located

def regexFlags : List Char := ['d', 'g', 'i', 'm', 's', 'u', 'v', 'y']

def repeatedFlag? : List Char → Option Char
  | [] => none
  | c :: cs => if regexFlags.contains c && cs.contains c then some c else repeatedFlag? cs

/-- Remarks on the flags of the regular expression at an offset. -/
def RegexText.flagRemarks (r : RegexText) (pos : Nat) : List Located :=
  (if r.letters.all regexFlags.contains then [] else [⟨pos, .unknownRegexFlags⟩]) ++
    (match repeatedFlag? r.letters with
      | some c => [⟨pos, .repeatedRegexFlag c⟩]
      | none => [])

def scanRegex (m : ScanMode) (c : Cursor) : Except Located RegexText :=
  match regexBody (c.rest.drop 1) 0 false with
  | none => .error ⟨c.pos, .unterminatedRegex⟩
  | some n =>
    let body := String.ofList ((c.rest.drop 1).take n)
    let flags := c.skip (n + 2)
    if Text.isIdentStart (flags.rest.headD ' ') then
      match wordTail (m.limit + 1) flags {} with
      | .error e => .error e
      | .ok (w, after) =>
        .ok
          { body, flags := flags.textTo after, letters := w.chars.reverse, after
            notes := w.notes }
    else .ok { body, flags := "", letters := [], after := flags, notes := [] }

/-- A fixed part of a template, and whether an expression follows it. -/
structure TemplatePart where
  quasi : Quasi
  opens : Bool
  after : Cursor
  /-- The last escape in it that cannot be read. -/
  fault : Option Located
  notes : List Located

/-- Every way to end a line becomes a line feed. -/
def unifyLineEnds : List Char → List Char
  | '\r' :: '\n' :: cs => '\n' :: unifyLineEnds cs
  | '\r' :: cs => '\n' :: unifyLineEnds cs
  | c :: cs => c :: unifyLineEnds cs
  | [] => []

/-- What has been read of a fixed part: its units in reverse, and faults. -/
structure TemplateText where
  units : Units := []
  fault : Option Located := none
  notes : List Located := []

/-- The rest of the fixed part that starts at `first`, in a template that starts at `start`. -/
def templateTail (start : Nat) (first : Cursor) :
    Nat → Cursor → TemplateText → Except Located TemplatePart
  | 0, _, _ => .error ⟨start, .limit⟩
  | fuel + 1, c, t =>
    let part (opens : Bool) (after : Cursor) : TemplatePart :=
      { quasi :=
          { raw := String.ofList (unifyLineEnds (first.charsTo c.pos))
            cooked := if t.fault.isSome then none else some t.units.reverse }
        opens, after, fault := t.fault, notes := t.notes }
    let push (u : Units) : TemplateText := { t with units := u.reverse ++ t.units }
    match c.rest with
    | [] => .error ⟨start, .unterminatedTemplate⟩
    | '\x60' :: _ => .ok (part false (c.skip 1))
    | '$' :: '{' :: _ => .ok (part true (c.skip 2))
    | '\r' :: '\n' :: _ => templateTail start first fuel (c.skip 2) (push [10])
    | '\r' :: _ => templateTail start first fuel (c.skip 1) (push [10])
    | '\x5c' :: _ =>
      match readEscape (c.skip 1) with
      | .ok e =>
        if e.octal then
          templateTail start first fuel e.after { t with fault := some ⟨c.pos, .legacyOctal⟩ }
        else
          templateTail start first fuel e.after
            { push e.units with notes := t.notes ++ e.notes }
      | .error e =>
        templateTail start first fuel (c.skip 2) { t with fault := some ⟨c.pos, e⟩ }
    | ch :: _ => templateTail start first fuel (c.skip 1) (push (Units.ofChar ch))

def scanTemplate (m : ScanMode) (start : Nat) (c : Cursor) : Except Located TemplatePart :=
  templateTail start c (m.limit + 1) c {}

end Untangle.Source
