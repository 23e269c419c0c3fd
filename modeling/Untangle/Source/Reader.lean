import Untangle.Source.Scan
import Untangle.Tree.Node

/-!
# Reading tokens in order

A `Parser` reads tokens under a `Context` (what the surrounding code allows) and a `State` (the
current token and the errors so far). An error either stops the reading, or is noted and the
reading goes on; a stopped reading leaves the state where it stopped, so that a caller may resume
there. What has been noted stays noted, which every parser proves of itself.

* `bump`, `expectPunct`, `eatPunct`, … — moving past tokens.
-/

namespace Untangle.Source

/-- What the surrounding code allows. -/
structure Context where
  strict : Bool := false
  isModule : Bool := false
  typescript : Bool := false
  /-- Outside every block, body and part of a statement. -/
  topLevel : Bool := true
  inFunction : Bool := false
  inAsync : Bool := false
  inGenerator : Bool := false
  inParameters : Bool := false
  inClass : Bool := false
  /-- In the value of a class field or in a static block. -/
  inField : Bool := false
  inStaticBlock : Bool := false
  /-- In a function that is no arrow. -/
  inPlainFunction : Bool := false
  /-- Where `super` may be accessed. -/
  inMethod : Bool := false
  /-- In the head of a loop. -/
  inLoopHead : Bool := false
  /-- In the head of a loop that waits for each value. -/
  inAwaitLoopHead : Bool := false
  /-- Whether `in` is an operator here; it is not in the first part of a loop head. -/
  allowIn : Bool := true
  breakAllowed : Bool := false
  continueAllowed : Bool := false
  ambient : Bool := false
  labels : List String := []
  /-- At least the length of the source; bounds every loop. -/
  limit : Nat := 0

def Context.mode (c : Context) : ScanMode where
  strict := c.strict
  isModule := c.isModule
  typescript := c.typescript
  inAsync := c.inAsync
  inGenerator := c.inGenerator
  inStaticBlock := c.inStaticBlock
  limit := c.limit

def Context.reserves (c : Context) : Token → Bool
  | .word w false => c.mode.reserves w
  | _ => false

/-- Whether a name is not to be declared by its mention alone. -/
def Context.reservesName (c : Context) (name : String) : Bool :=
  c.mode.reserves name && name != "static"

/-- The current token and what has been noted so far. -/
structure State where
  cur : Lexeme
  /-- The end of the previous token. -/
  prevEnd : Nat
  /-- Errors noted so far, the newest first. -/
  noted : List Located
  /-- Where an arrow function may start. -/
  arrowStart : Option Nat

/-- How a reading ends: with a value or an error, and with the state it is left in. -/
inductive Outcome (α : Type)
  | done (a : α) (s : State)
  | stopped (e : Located) (s : State)

def Outcome.state {α : Type} : Outcome α → State
  | .done _ s => s
  | .stopped _ s => s

/-- A reading that may stop with an error. It adds to the errors noted before and drops none. -/
structure Parser (α : Type) where
  run : Context → State → Outcome α
  keeps : ∀ c s, s.noted <:+ (run c s).state.noted

namespace Parser

variable {α β : Type}

/-- A value without reading anything. -/
@[always_inline, inline]
protected def pure (a : α) : Parser α where
  run _ s := .done a s
  keeps _ s := List.suffix_refl s.noted

/-- One reading after another, which may depend on what the first gives. -/
@[always_inline, inline]
protected def bind (p : Parser α) (f : α → Parser β) : Parser β where
  run c s := match p.run c s with
    | .done a s' => (f a).run c s'
    | .stopped e s' => .stopped e s'
  keeps c s := by
    have hp := p.keeps c s
    split
    · next a s' h =>
      rw [h] at hp
      exact hp.trans ((f a).keeps c s')
    · next e s' h =>
      rw [h] at hp
      exact hp

instance : Monad Parser where
  pure := Parser.pure
  bind := Parser.bind

instance : MonadReaderOf Context Parser where
  read := { run := fun c s => .done c s, keeps := fun _ s => List.suffix_refl s.noted }

instance : MonadWithReaderOf Context Parser where
  withReader f p := { run := fun c s => p.run (f c) s, keeps := fun c s => p.keeps (f c) s }

/-- Stops with an error. -/
@[always_inline, inline]
protected def throw (e : Located) : Parser α where
  run _ s := .stopped e s
  keeps _ s := List.suffix_refl s.noted

/-- Goes on after an error, from where the reading stopped. -/
@[always_inline, inline]
protected def tryCatch (p : Parser α) (handle : Located → Parser α) : Parser α where
  run c s := match p.run c s with
    | .done a s' => .done a s'
    | .stopped e s' => (handle e).run c s'
  keeps c s := by
    have hp := p.keeps c s
    split
    · next a s' h =>
      rw [h] at hp
      exact hp
    · next e s' h =>
      rw [h] at hp
      exact hp.trans ((handle e).keeps c s')

instance : MonadExceptOf Located Parser where
  throw := Parser.throw
  tryCatch := Parser.tryCatch

/-- Changes the state, dropping no error. -/
@[always_inline, inline]
def update (f : State → State) (h : ∀ s, s.noted <:+ (f s).noted) : Parser Unit where
  run _ s := .done () (f s)
  keeps _ s := h s

/-- A parser that leaves the state as it was if it fails. -/
def attempt (p : Parser α) : Parser (Option α) where
  run c s := match p.run c s with
    | .done a s' => .done (some a) s'
    | .stopped _ _ => .done none s
  keeps c s := by
    have hp := p.keeps c s
    split
    · next a s' h =>
      rw [h] at hp
      exact hp
    · exact List.suffix_refl s.noted

end Parser

/-- A value with the byte offsets of its text. -/
structure Spanned (α : Type) where
  value : α
  start : Nat
  stop : Nat
  deriving Inhabited

/-- An expression in its place, not yet known to be one rather than a pattern. For an array literal
the parts are its elements, for an object literal its members, and for a member or a spread element
the expression in it. -/
structure Cover where
  expr : Expr
  start : Nat
  stop : Nat
  parts : List Cover := []
  /-- Where a comma follows the last part. -/
  comma : Option Nat := none
  deriving Inhabited

/-! ## The current token -/

def curState : Parser State where
  run _ s := .done s s
  keeps _ s := List.suffix_refl s.noted

def curToken : Parser Token := do return (← curState).cur.token

def curStart : Parser Nat := do return (← curState).cur.start

def newlineBefore : Parser Bool := do return (← curState).cur.newline

def peek : Parser Lexeme := do
  return scan (← read).mode false (← curState).cur.after

def isPunct (p : String) : Parser Bool := do
  return (← curToken) == .punct p

def isWord (w : String) : Parser Bool := do
  return (← curToken) == .word w false

def atEof : Parser Bool := do return (← curToken) == .eof

/-! ## Errors -/

/-- Moves the scanner's own remarks on the current token to the noted errors. -/
def flushRemarks : Parser Unit :=
  .update (fun s => { s with
    noted := s.cur.recovered.reverse ++ s.noted
    cur := { s.cur with recovered := [] } }) fun _ => List.suffix_append _ _

def note (pos : Nat) (e : SyntaxError) : Parser Unit := do
  flushRemarks
  .update (fun s => { s with noted := ⟨pos, e⟩ :: s.noted }) fun _ => List.suffix_cons _ _

def noteStrict (pos : Nat) (e : SyntaxError) : Parser Unit := do
  if (← read).strict then note pos e

def failAt {α : Type} (pos : Nat) (e : SyntaxError) : Parser α := throw ⟨pos, e⟩

def failHere {α : Type} (e : SyntaxError) : Parser α := do
  failAt (← curStart) e

/-- Stops because something else had to come here. -/
def unexpected {α : Type} (wanted : String) : Parser α := do
  failHere (.unexpected (← curToken).describe wanted)

/-! ## Moving on -/

def resumeAt (c : Cursor) : Parser Unit := do
  let m := (← read).mode
  .update (fun s => { s with
    prevEnd := c.pos
    noted := s.cur.recovered.reverse ++ s.noted
    cur := scan m false c }) fun _ => List.suffix_append _ _

def bump : Parser Unit := do
  resumeAt (← curState).cur.after

/-- Tries a step only if a test holds. -/
def onlyIf (b : Bool) (p : Parser Bool) : Parser Bool := if b then p else pure false

def eatPunct (p : String) : Parser Bool := do
  if ← isPunct p then
    bump
    return true
  else return false

def eatWord (w : String) : Parser Bool := do
  if ← isWord w then
    bump
    return true
  else return false

def expectPunct (p : String) : Parser Unit := do
  unless ← eatPunct p do failHere (.expected p (← curToken).describe)

def expectWord (w : String) : Parser Unit := do
  unless ← eatWord w do failHere (.expected w (← curToken).describe)

/-- Past a semicolon, which may be left out before a closing brace, at the end, and before a new
line. -/
def eatSemicolon : Parser Bool := do
  if ← eatPunct ";" then return true
  else return (← isPunct "\x7d") || (← atEof) || (← newlineBefore)

def expectSemicolon : Parser Unit := do
  unless ← eatSemicolon do failHere (.expected ";" (← curToken).describe)

def atSemicolon : Parser Bool := do
  return (← isPunct ";") || (← isPunct "\x7d") || (← atEof) || (← newlineBefore)

/-! ## Loops -/

/-- Runs a step until it gives nothing, at most `n` times. -/
def repeatAtMost {α : Type} (step : Parser (Option α)) : Nat → List α → Parser (List α)
  | 0, _ => failHere .limit
  | n + 1, acc => do
    match ← step with
    | some a => repeatAtMost step n (a :: acc)
    | none => return acc.reverse

def repeatWhileSome {α : Type} (step : Parser (Option α)) : Parser (List α) := do
  repeatAtMost step ((← read).limit + 2) []

/-- Transforms a value by a step until the step gives nothing, at most `n` times. -/
def iterateAtMost {α : Type} (step : α → Parser (Option α)) : Nat → α → Parser α
  | 0, _ => failHere .limit
  | n + 1, a => do
    match ← step a with
    | some b => iterateAtMost step n b
    | none => return a

/-- Transforms a value by a step until the step gives nothing. -/
def iterateWhileSome {α : Type} (step : α → Parser (Option α)) (a : α) : Parser α := do
  iterateAtMost step ((← read).limit + 2) a

/-- Items separated by commas up to a closing punctuator, which is passed too. A comma before the
closing punctuator is allowed, and its place is given. -/
def commaListed {α : Type} (close : String) (item : Parser α) :
    Parser (List α × Option Nat) := do
  let items ← repeatWhileSome do
    if ← isPunct close then return none
    else
      let a ← item
      if ← isPunct close then return some (a, none)
      else
        let comma ← curStart
        expectPunct ","
        return some (a, some comma)
  expectPunct close
  return (items.map (·.1), items.getLast?.bind (·.2))

def commaSeparated {α : Type} (close : String) (item : Parser α) : Parser (List α) := do
  let (items, _) ← commaListed close item
  return items

/-! ## Places -/

/-- An expression from `start` to the end of the previous token. -/
def cover (start : Nat) (e : Expr) : Parser Cover := do
  return { expr := e, start := start, stop := (← curState).prevEnd }

/-- A value from `start` to the end of the previous token. -/
def spanned {α : Type} (start : Nat) (a : α) : Parser (Spanned α) := do
  return { value := a, start := start, stop := (← curState).prevEnd }

/-! ## Names -/

def atName : Parser Bool := do
  match ← curToken with
  | .word w plain => return !(← read).reserves (.word w plain)
  | _ => return false

def anyWord : Parser String := do
  match ← curToken with
  | .word w _ => bump; return w
  | _ => failHere .identExpected

/-- Refuses or remarks on a word that is a keyword somewhere. -/
private def checkKeyword (pos : Nat) (w : String) : Parser Unit := do
  let ctx ← read
  if w == "enum" then note pos (.reservedInStrict w)
  else if reservedWords.contains w then failHere .identExpected
  else if strictReservedWords.contains w || w == "yield" then noteStrict pos (.reservedInStrict w)
  else if w == "await" && !ctx.ambient then
    if ctx.inStaticBlock then failHere .identExpected
    else if ctx.isModule || ctx.inAsync then failHere .awaitAsName

def identifier : Parser Ident := do
  let pos ← curStart
  match ← curToken with
  | .word w plain =>
    unless plain do checkKeyword pos w
    if w == "arguments" && (← read).inField then note pos .argumentsInField
    bump
    return { name := w, pos := pos }
  | _ => failHere .identExpected

def labelName : Parser Ident := do
  if (← isWord "yield") && (← read).inGenerator then failHere .identExpected
  else identifier

/-- Remarks on a declared name that strict code keeps for itself. -/
def checkDeclaredName (pos : Nat) (name : String) : Parser Unit := do
  if name == "eval" || name == "arguments" then noteStrict pos .evalOrArgumentsInStrict

def bindingIdentifier : Parser Ident := do
  let id ← identifier
  let ctx ← read
  checkDeclaredName id.pos id.name
  if id.name == "await" && (ctx.inAsync || ctx.inStaticBlock) then note id.pos .identExpected
  if id.name == "yield" && ctx.inGenerator then note id.pos .identExpected
  return id

/-- An identifier that is declared by block, which must not be `let`. -/
def blockIdentifier : Parser Ident := do
  if ← isWord "let" then unexpected "let is reserved in const, let, class declaration"
  else bindingIdentifier

/-- An identifier that is declared here, if one follows. -/
def binding? (name : Parser Ident) : Parser (Option Ident) := do
  if ← atName then some <$> name else return none

/-- The name after a hash sign, which must follow it directly. -/
def privateName : Parser String := do
  let start ← curStart
  expectPunct "#"
  let s ← curState
  if s.cur.start != s.prevEnd then failAt start .spaceAfterHash
  anyWord

end Untangle.Source
