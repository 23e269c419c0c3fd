import Untangle.Source.Error

/-!
# Reading around errors

A text is cut into ranges. A range that can be read gives its items; one that cannot is split
around the statement at the error, which becomes a placeholder, and the two rests are read on their
own.

Nothing here depends on what is read: the reader of ranges is a parameter, and only the offset at
which it fails is used.
-/

namespace Untangle.Source

/-- The byte at an index; zero past the end, which no separator equals. -/
def byteAt (bytes : Array UInt8) (i : Nat) : UInt8 := bytes.getD i 0

private def isOpen (b : UInt8) : Bool := b == 40 || b == 91 || b == 123
private def isQuote (b : UInt8) : Bool := b == 39 || b == 34 || b == 96

/-- The index after the string opened at `i - 1`, or `limit` if it is not closed before. -/
def skipString (bytes : Array UInt8) (quote : UInt8) (limit i : Nat) : Nat :=
  if i < limit then
    let b := byteAt bytes i
    if b == 92 then skipString bytes quote limit (i + 2)
    else if b == quote then i + 1
    else skipString bytes quote limit (i + 1)
  else limit
termination_by limit - i

/-- The index after the comment whose text starts at `i`, or `limit` if it is not closed before. -/
def skipComment (bytes : Array UInt8) (limit i : Nat) : Nat :=
  if i + 1 < limit then
    if byteAt bytes i == 42 && byteAt bytes (i + 1) == 47 then i + 2
    else skipComment bytes limit (i + 1)
  else limit
termination_by limit - i

/-- What stands at an index, seen from outside strings and comments. -/
inductive Mark
  | opening
  /-- A closing parenthesis or bracket. -/
  | closing
  | closingBrace
  | semicolon
  /-- A comment to the end of the line. -/
  | lineComment
  /-- A string or comment that ends before this index. -/
  | skip (next : Nat)
  | other

def markAt (bytes : Array UInt8) (lineEnd i : Nat) : Mark :=
  let b := byteAt bytes i
  if isOpen b then .opening
  else if b == 41 || b == 93 then .closing
  else if b == 125 then .closingBrace
  else if b == 59 then .semicolon
  else if isQuote b then .skip (skipString bytes b lineEnd (i + 1))
  else if b == 47 && byteAt bytes (i + 1) == 47 then .lineComment
  else if b == 47 && byteAt bytes (i + 1) == 42 then .skip (skipComment bytes lineEnd (i + 2))
  else .other

theorem skipString_bounds (bytes : Array UInt8) (quote : UInt8) (limit i : Nat) :
    min i limit ≤ skipString bytes quote limit i ∧ skipString bytes quote limit i ≤ limit := by
  fun_induction skipString bytes quote limit i with
  | case1 i hi b hb ih => omega
  | case2 i hi b hb hq => omega
  | case3 i hi b hb hq ih => omega
  | case4 i hi => omega

theorem skipComment_bounds (bytes : Array UInt8) (limit i : Nat) :
    min i limit ≤ skipComment bytes limit i ∧ skipComment bytes limit i ≤ limit := by
  fun_induction skipComment bytes limit i with
  | case1 i hi hb => omega
  | case2 i hi hb ih => omega
  | case3 i hi => omega

/-- A string or comment is at least one byte long and ends with the line at the latest. -/
theorem markAt_skip {bytes : Array UInt8} {lineEnd i next : Nat} (hi : i < lineEnd)
    (h : markAt bytes lineEnd i = .skip next) : i < next ∧ next ≤ lineEnd := by
  have hs := skipString_bounds bytes (byteAt bytes i) lineEnd (i + 1)
  have hc := skipComment_bounds bytes lineEnd (i + 2)
  unfold markAt at h
  simp only at h
  repeat' split at h
  all_goals cases h
  all_goals omega

/-- The start of the statement that holds `anchor`: after the last semicolon or closing brace at
depth zero before it, `start` being the last one found before `i`. -/
def statementStart (bytes : Array UInt8) {lineEnd anchor : Nat} (ha : anchor < lineEnd)
    (i depth start : Nat) : Nat :=
  if hi : i < anchor then
    match hm : markAt bytes lineEnd i with
    | .opening => statementStart bytes ha (i + 1) (depth + 1) start
    | .closing => statementStart bytes ha (i + 1) (depth - 1) start
    | .closingBrace =>
      statementStart bytes ha (i + 1) (depth - 1) (if depth - 1 = 0 then i + 1 else start)
    | .semicolon => statementStart bytes ha (i + 1) depth (if depth = 0 then i + 1 else start)
    | .lineComment => start
    | .skip next =>
      have := markAt_skip (Nat.lt_trans hi ha) hm
      statementStart bytes ha next depth start
    | .other => statementStart bytes ha (i + 1) depth start
  else start
termination_by anchor - i

/-- The end of the statement that holds `anchor`: after the first semicolon from `i` that is not
inside a bracket opened after `anchor`, else the end of the line. -/
def statementStop (bytes : Array UInt8) (lineEnd i : Nat) (depth : Int) : Nat :=
  if hi : i < lineEnd then
    match hm : markAt bytes lineEnd i with
    | .opening => statementStop bytes lineEnd (i + 1) (depth + 1)
    | .closing => statementStop bytes lineEnd (i + 1) (depth - 1)
    | .closingBrace => statementStop bytes lineEnd (i + 1) (depth - 1)
    | .semicolon => if depth ≤ 0 then i + 1 else statementStop bytes lineEnd (i + 1) depth
    | .lineComment => lineEnd
    | .skip next =>
      have := markAt_skip hi hm
      statementStop bytes lineEnd next depth
    | .other => statementStop bytes lineEnd (i + 1) depth
  else lineEnd
termination_by lineEnd - i

/-- The start of the line of `anchor`, not before `start`. -/
def lineStartFrom (bytes : Array UInt8) (start : Nat) : Nat → Nat
  | 0 => start
  | n + 1 =>
    if n < start then start
    else if byteAt bytes n == 10 then n + 1
    else lineStartFrom bytes start n

/-- The end of the line of `anchor`, its line feed included, not after `stop`. -/
def lineEndFrom (bytes : Array UInt8) (stop : Nat) (anchor : Nat) : Nat :=
  if anchor < stop then
    if byteAt bytes anchor == 10 then anchor + 1 else lineEndFrom bytes stop (anchor + 1)
  else stop
termination_by stop - anchor

theorem lt_lineEndFrom (bytes : Array UInt8) {stop anchor : Nat} (h : anchor < stop) :
    anchor < lineEndFrom bytes stop anchor := by
  fun_induction lineEndFrom bytes stop anchor with
  | case1 anchor ha hb => omega
  | case2 anchor ha hb ih =>
    by_cases hn : anchor + 1 < stop
    · have := ih hn
      omega
    · unfold lineEndFrom
      rw [if_neg hn]
      exact ha
  | case3 anchor ha => exact absurd h ha

/-- The offset of an error, which may lie anywhere, moved into the range it was found in. -/
def anchorOf (start stop error : Nat) : Nat := if stop ≤ error then stop - 1 else max error start

theorem anchorOf_bounds {start stop : Nat} (h : start < stop) (error : Nat) :
    start ≤ anchorOf start stop error ∧ anchorOf start stop error < stop := by
  unfold anchorOf
  split <;> omega

/-- The part of a non-empty range to give up for an error at an offset, which may lie anywhere. -/
def badRegion (bytes : Array UInt8) {start stop : Nat} (h : start < stop) (error : Nat) :
    Nat × Nat :=
  let anchor := anchorOf start stop error
  let lineStart := lineStartFrom bytes start anchor
  let lineEnd := lineEndFrom bytes stop anchor
  (statementStart bytes (lt_lineEndFrom bytes (anchorOf_bounds h error).2) lineStart 0 lineStart,
    statementStop bytes lineEnd anchor 0)

/-- A range still to be read, or given up. -/
inductive Chunk
  | source (start stop : Nat)
  | placeholder (start stop : Nat)
  deriving DecidableEq, Inhabited, Repr

/-- A reader of ranges: items, or the offset at which it fails. -/
abbrev RangeReader (α : Type) := Nat → Nat → Except Nat α

/-- A range together with what became of it: the items read from it, or none if it was given up. -/
structure Piece (α : Type) where
  start : Nat
  stop : Nat
  items : Option α

/-- The state of the work: what became of the ranges to the left, latest first, and the ranges still
pending, leftmost first. -/
structure Worklist (α : Type) where
  settled : List (Piece α)
  pending : List Chunk

namespace Worklist

variable {α : Type}

/-- A text with nothing done yet. -/
def initial (size : Nat) : Worklist α := { settled := [], pending := [.source 0 size] }

/-- Takes the leftmost pending range: settles it, or splits it around the statement that cannot be
read. -/
def step (bytes : Array UInt8) (read : RangeReader α) (w : Worklist α) : Worklist α :=
  match w.pending with
  | [] => w
  | .placeholder start stop :: rest =>
    { settled := { start, stop, items := none } :: w.settled, pending := rest }
  | .source start stop :: rest =>
    if h : start < stop then
      match read start stop with
      | .ok items =>
        { settled := { start, stop, items := some items } :: w.settled, pending := rest }
      | .error e =>
        let (badStart, badStop) := badRegion bytes h e
        { w with
          pending := .source start badStart :: .placeholder badStart badStop ::
            .source badStop stop :: rest }
    else { w with pending := rest }

/-- Takes so many steps, or fewer if nothing is left to do. -/
def run (bytes : Array UInt8) (read : RangeReader α) : Nat → Worklist α → Worklist α
  | 0, w => w
  | n + 1, w => if w.pending.isEmpty then w else run bytes read n (w.step bytes read)

end Worklist

/-- Cuts a text into ranges that were read and ranges that were given up. Each given-up range holds
at least one byte, and each costs three further steps. -/
def coverRanges {α : Type} (bytes : Array UInt8) (read : RangeReader α) : List (Piece α) :=
  ((Worklist.initial bytes.size).run bytes read (4 * bytes.size + 1)).settled.reverse

end Untangle.Source
