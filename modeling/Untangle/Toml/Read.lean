import Untangle.Number.Spelling
import Untangle.Toml.Table

/-!
# Reading settings documents

`Toml.read?` reads a document of tables: headers in brackets, keys with values, comments to the end
of a line. Values are strings of four kinds, whole numbers of 64 bits, doubles, truth values, dates,
lists, and tables in braces; a date is kept as its text.
-/

namespace Untangle.Toml

/-- A step of reading; what is left of the document is the state. -/
abbrev Scan := StateT (List Char) Option

/-! ## Characters -/

def takeAll (p : Char → Bool) : Scan (List Char) := do
  let cs ← get
  set (cs.dropWhile p)
  return cs.takeWhile p

def eat (s : String) : Scan Bool := do
  let cs ← get
  let t := s.toList
  if t.isPrefixOf cs then
    set (cs.drop t.length)
    return true
  else return false

def expect (s : String) : Scan Unit := do
  unless ← eat s do failure

/-- Whether a text may hold a character as it is. -/
def isAllowed (c : Char) : Bool := c == '\t' || (0x20 ≤ c.toNat && c.toNat != 0x7f)

def skipBlanks : Scan Unit := do
  let _ ← takeAll fun c => c == ' ' || c == '\t'

def skipComment : Scan Unit := do
  if ← eat "#" then
    let _ ← takeAll isAllowed

def eatNewline : Scan Bool := do
  if ← eat "\n" then return true
  eat "\r\n"

/-- The end of a line or of the document, after blanks and a comment. -/
def lineEnd : Scan Unit := do
  skipBlanks
  skipComment
  unless (← get).isEmpty do
    unless ← eatNewline do failure

/-- Blanks, comments and ends of lines, at most so many. -/
def skipLines : Nat → Scan Unit
  | 0 => pure ()
  | fuel + 1 => do
    skipBlanks
    skipComment
    if ← eatNewline then skipLines fuel

def skipSpace : Scan Unit := do skipLines (← get).length

/-! ## Strings -/

def numberedChar (digits : Nat) : Scan Char := do
  let cs ← get
  let ds := cs.take digits
  if ds.length = digits then
    match Text.digitsValue? 16 ds with
    | some n =>
      if n.isValidChar then
        set (cs.drop digits)
        return Char.ofNat n
      else failure
    | none => failure
  else failure

def escape : Scan Char := do
  if ← eat "b" then return Char.ofNat 8
  if ← eat "t" then return '\t'
  if ← eat "n" then return '\n'
  if ← eat "f" then return Char.ofNat 12
  if ← eat "r" then return '\r'
  if ← eat "\x22" then return '\x22'
  if ← eat "\x5c" then return '\x5c'
  if ← eat "u" then return ← numberedChar 4
  if ← eat "U" then return ← numberedChar 8
  failure

/-- Whether a backslash that was taken ends its line. -/
def endsLine : Scan Bool := do
  let cs ← get
  match cs.dropWhile fun c => c == ' ' || c == '\t' with
  | '\n' :: _ => return true
  | '\r' :: '\n' :: _ => return true
  | _ => return false

/-- A string up to its closing mark, read newest first. A long string may hold ends of lines, and
one or two quotes right before its mark. -/
def stringBody (quote : Char) (long escapes : Bool) : Nat → List Char → Scan String
  | 0, _ => failure
  | fuel + 1, acc => do
    match ← get with
    | [] => failure
    | c :: rest =>
      if c == quote then
        if long then
          let quotes := (c :: rest).takeWhile (· == quote)
          if quotes.length < 3 then
            set rest
            stringBody quote long escapes fuel (c :: acc)
          else if quotes.length ≤ 5 then
            set ((c :: rest).drop quotes.length)
            return String.ofList ((quotes.drop 3) ++ acc).reverse
          else failure
        else
          set rest
          return String.ofList acc.reverse
      else if c == '\x5c' && escapes then
        set rest
        if ← (if long then endsLine else pure false) then
          let _ ← takeAll fun c => c == ' ' || c == '\t' || c == '\n' || c == '\r'
          stringBody quote long escapes fuel acc
        else
          let e ← escape
          stringBody quote long escapes fuel (e :: acc)
      else if long && c == '\n' then
        set rest
        stringBody quote long escapes fuel ('\n' :: acc)
      else if long && c == '\r' && rest.head? == some '\n' then
        set (rest.drop 1)
        stringBody quote long escapes fuel ('\n' :: acc)
      else if isAllowed c then
        set rest
        stringBody quote long escapes fuel (c :: acc)
      else failure

def shortString? : Scan (Option String) := do
  if ← eat "\x22" then return some (← stringBody '\x22' false true ((← get).length + 1) [])
  if ← eat "\x27" then return some (← stringBody '\x27' false false ((← get).length + 1) [])
  return none

def string? : Scan (Option String) := do
  if ← eat "\x22\x22\x22" then
    let _ ← eatNewline
    return some (← stringBody '\x22' true true ((← get).length + 1) [])
  if ← eat "\x27\x27\x27" then
    let _ ← eatNewline
    return some (← stringBody '\x27' true false ((← get).length + 1) [])
  shortString?

/-! ## Keys -/

def isBareKeyChar (c : Char) : Bool := c.isAlphanum || c == '_' || c == '-'

def simpleKey : Scan String := do
  match ← shortString? with
  | some s => return s
  | none =>
    let cs ← takeAll isBareKeyChar
    if cs.isEmpty then failure else return String.ofList cs

/-- The parts of a dotted key, at most so many. -/
def keyParts : Nat → Scan (List String)
  | 0 => failure
  | fuel + 1 => do
    skipBlanks
    let part ← simpleKey
    skipBlanks
    if ← eat "." then return part :: (← keyParts fuel) else return [part]

def dottedKey : Scan (List String) := do keyParts ((← get).length + 1)

/-! ## Numbers and dates -/

/-- Digits without the lines between them, which must have a digit on either side. -/
def plainDigits? (cs : List Char) : Option (List Char) :=
  if cs.head? == some '_' || cs.getLast? == some '_' || doubled cs then none
  else some (cs.filter (· != '_'))
where
  doubled : List Char → Bool
    | '_' :: '_' :: _ => true
    | _ :: rest => doubled rest
    | [] => false

/-- A whole number that fits 64 bits. -/
def fitting? (n : Int) : Option Json :=
  if -(Nat.pow 2 63 : Int) ≤ n ∧ n < Nat.pow 2 63 then some (.int n) else none

def based? (radix : Nat) (cs : List Char) : Option Json := do
  let ds ← plainDigits? cs
  if ds.head? == some '+' then failure
  fitting? (← Number.radixDigits? radix ds)

/-- Decimal digits of which the first is no idle zero. -/
def wholeDigits? (cs : List Char) : Option (List Char) := do
  let ds ← plainDigits? cs
  if ds.isEmpty || !ds.all Char.isDigit || (ds.head? == some '0' && ds.length != 1) then failure
  else some ds

/-- Whether a text is digits with lines between them. -/
def isDigitRun (cs : List Char) : Bool :=
  match plainDigits? cs with
  | some ds => !ds.isEmpty && ds.all Char.isDigit
  | none => false

/-- A number in base ten without its sign. -/
def decimal? (negative : Bool) (cs : List Char) : Option Json := do
  let isMark (c : Char) : Bool := c == '.' || c == 'e' || c == 'E'
  let whole ← wholeDigits? (cs.takeWhile fun c => !isMark c)
  match cs.dropWhile fun c => !isMark c with
  | [] =>
    let n : Nat := whole.foldl (fun acc c => acc * 10 + (c.toNat - '0'.toNat)) 0
    fitting? (if negative then -(n : Int) else n)
  | mark :: rest =>
    let isExponent (c : Char) : Bool := c == 'e' || c == 'E'
    let fraction := if mark == '.' then rest.takeWhile fun c => !isExponent c else []
    if mark == '.' && !isDigitRun fraction then failure
    let tail := if mark == '.' then rest.dropWhile fun c => !isExponent c else mark :: rest
    match tail with
    | [] => pure ()
    | _ :: ds =>
      let ds := match ds with
        | '+' :: ds => ds
        | '-' :: ds => ds
        | ds => ds
      unless isDigitRun ds do failure
    let x ← Number.decimal? (cs.filter (· != '_'))
    return .float (if negative then -x else x)

/-- Whether a text has the shape of another, in which `d` stands for a digit. -/
def hasShape : List Char → List Char → Bool
  | [], [] => true
  | 'd' :: shape, c :: cs => c.isDigit && hasShape shape cs
  | s :: shape, c :: cs => s == c && hasShape shape cs
  | _, _ => false

def isTime (cs : List Char) : Bool :=
  hasShape "dd:dd:dd".toList (cs.take 8) &&
    match cs.drop 8 with
    | [] => true
    | '.' :: ds => !ds.isEmpty && ds.all Char.isDigit
    | _ => false

/-- Whether a text is a time of day with its distance from noon at the meridian, if it has one. -/
def isZonedTime (cs : List Char) : Bool :=
  match cs.getLast? with
  | some 'Z' | some 'z' => isTime cs.dropLast
  | _ =>
    isTime cs ||
      ((hasShape "+dd:dd".toList (cs.drop (cs.length - 6)) ||
        hasShape "-dd:dd".toList (cs.drop (cs.length - 6))) && isTime (cs.take (cs.length - 6)))

def isDate (cs : List Char) : Bool :=
  isTime cs ||
    (hasShape "dddd-dd-dd".toList (cs.take 10) &&
      match cs.drop 10 with
      | [] => true
      | c :: time => (c == 'T' || c == 't' || c == ' ') && isZonedTime time)

/-- The value that a bare text stands for. -/
def bare? (cs : List Char) : Option Json :=
  match cs with
  | ['t', 'r', 'u', 'e'] => some (.bool true)
  | ['f', 'a', 'l', 's', 'e'] => some (.bool false)
  | '0' :: 'x' :: ds => based? 16 ds
  | '0' :: 'o' :: ds => based? 8 ds
  | '0' :: 'b' :: ds => based? 2 ds
  | _ =>
    if isDate cs then some (Json.ofMembers [("$__toml_private_datetime", .str (String.ofList cs))])
    else
      let (negative, body) := match cs with
        | '-' :: ds => (true, ds)
        | '+' :: ds => (false, ds)
        | ds => (false, ds)
      if body == "inf".toList then some (.float (if negative then -(1.0 / 0.0) else 1.0 / 0.0))
      else if body == "nan".toList then some (.float (0.0 / 0.0))
      else decimal? negative body

def isBareChar (c : Char) : Bool :=
  c.isAlphanum || c == '_' || c == '-' || c == '+' || c == '.' || c == ':'

/-- A value that is neither a string nor in brackets. A date and a time may have a blank between. -/
def bareValue : Scan Json := do
  let cs ← takeAll isBareChar
  let rest ← get
  if hasShape "dddd-dd-dd".toList cs && hasShape " dd:".toList (rest.take 4) then
    set (rest.drop 1)
    let time ← takeAll isBareChar
    bare? (cs ++ ' ' :: time)
  else bare? cs

/-! ## Values -/

mutual

/-- A value, within so many nested steps. -/
def value : Nat → Scan Json
  | 0 => failure
  | fuel + 1 => do
    match ← string? with
    | some s => return .str s
    | none =>
      if ← eat "[" then return .arr (← items fuel)
      if ← eat "\x7b" then
        skipBlanks
        if ← eat "\x7d" then return .obj []
        return Members.toJson (← entries fuel [])
      bareValue

def items : Nat → Scan (List Json)
  | 0 => failure
  | fuel + 1 => do
    skipSpace
    if ← eat "]" then return []
    let v ← value fuel
    skipSpace
    if ← eat "," then return v :: (← items fuel)
    expect "]"
    return [v]

def entries : Nat → Members → Scan Members
  | 0, _ => failure
  | fuel + 1, ms => do
    let key ← dottedKey
    expect "="
    skipBlanks
    let v ← value fuel
    let ms ← define v key ms
    skipBlanks
    if ← eat "," then entries fuel ms
    else
      expect "\x7d"
      return ms

end

/-! ## Documents -/

/-- A document so far: its members, and the path of the table that keys belong to. -/
structure Document where
  members : Members := []
  current : List String := []

def keyLine (d : Document) : Scan Document := do
  let key ← dottedKey
  expect "="
  skipBlanks
  let v ← value (← get).length
  lineEnd
  let members ← changeAt (define v key) d.current d.members
  return { d with members := members }

def headerLine (d : Document) : Scan Document := do
  let isItem ← eat "["
  let path ← dottedKey
  expect (if isItem then "]]" else "]")
  lineEnd
  let members ← if isItem then openItem path d.members else openTable path d.members
  return { members := members, current := path }

def lines : Nat → Document → Scan Document
  | 0, d => pure d
  | fuel + 1, d => do
    skipSpace
    if (← get).isEmpty then return d
    else if ← eat "[" then lines fuel (← headerLine d)
    else lines fuel (← keyLine d)

def read? (s : String) : Option Json :=
  let cs := match s.toList with
    | '\ufeff' :: rest => rest
    | cs => cs
  match (lines (cs.length + 1) {}).run cs with
  | some (d, []) => some d.members.toJson
  | _ => none

end Untangle.Toml
