import Untangle.Table

/-!
# Arguments of commands

A value may follow its option as the next argument or directly, after an equals sign. The values of
an option are checked when the next argument that begins something else is met, so an argument that
is not known is reported before a bad value of the option right before it.
-/

namespace Untangle.Cli

/-- Something a command takes. -/
structure Opt where
  /-- The name after two hyphens; of an operand, how messages show it. -/
  name : String
  short : Option Char := none
  /-- What messages call the value; a flag has none. -/
  value : Option String := none
  isOperand : Bool := false
  repeats : Bool := false
  allowsEmpty : Bool := false
  /-- Why a value is refused, if it is. -/
  refuses : String → Option String := fun _ => none

def Opt.display (o : Opt) : String :=
  if o.isOperand then o.name
  else match o.value with
    | some value => "--" ++ o.name ++ " <" ++ value ++ ">"
    | none => "--" ++ o.name

/-- What is wrong with arguments. -/
inductive UsageError
  | unexpected (arg : String)
  | unknownCommand (name : String)
  | noCommand
  | missingValue (option : String)
  | badValue (value option reason : String)
  | repeated (option : String)
  | unneededValue (value option : String)
  /-- No arguments at all. -/
  | noArguments
  deriving DecidableEq, Inhabited, Repr

abbrev Given := Table String (List String)

/-- How far arguments have been read. -/
structure ArgState where
  given : Given := []
  /-- An option whose values are not checked yet. -/
  pending : Option (Opt × List String) := none
  /-- Whether only operands may follow. -/
  operandsOnly : Bool := false

/-! ## Values -/

def Opt.check (o : Opt) (value : String) : Except UsageError Unit :=
  if value.isEmpty && !o.allowsEmpty then .error (.missingValue o.display)
  else match o.refuses value with
    | some reason => .error (.badValue value o.display reason)
    | none => .ok ()

/-- Takes an option with its values, of which a flag has none. -/
def ArgState.accept (s : ArgState) (o : Opt) (values : List String) :
    Except UsageError ArgState := do
  if o.value.isSome && values.isEmpty then throw (.missingValue o.display)
  if s.given.has o.name && !o.repeats then throw (.repeated o.display)
  values.forM o.check
  let earlier := (s.given.find? o.name).getD []
  return { s with given := s.given.put o.name (earlier ++ values) }

def ArgState.settle (s : ArgState) : Except UsageError ArgState :=
  match s.pending with
  | some (o, values) => { s with pending := none }.accept o values
  | none => .ok s

def ArgState.awaits (s : ArgState) : Bool :=
  match s.pending with
  | some (_, []) => true
  | _ => false

def ArgState.supply (s : ArgState) (value : String) : ArgState :=
  { s with pending := s.pending.map fun p => (p.1, p.2 ++ [value]) }

/-! ## Single arguments -/

/-- Takes an option whose value, if it has one, is part of the same argument or comes next. -/
def ArgState.begin (s : ArgState) (o : Opt) (attached : Option String) :
    Except UsageError ArgState := do
  let s ← s.settle
  match o.value, attached with
  | none, none => s.accept o []
  | none, some value => throw (.unneededValue value o.display)
  | some _, some value => s.accept o [value]
  | some _, none => return { s with pending := some (o, []) }

def longOpt? (opts : List Opt) (name : String) : Option Opt :=
  opts.find? fun o => !o.isOperand && o.name == name

def shortOpt? (opts : List Opt) (c : Char) : Option Opt :=
  opts.find? fun o => !o.isOperand && o.short == some c

/-- An argument that begins with two hyphens, which are taken off. -/
def ArgState.long (s : ArgState) (opts : List Opt) (arg : List Char) : Except UsageError ArgState :=
  let name := String.ofList (arg.takeWhile (· != '='))
  let attached := match arg.dropWhile (· != '=') with
    | _ :: value => some (String.ofList value)
    | [] => none
  match longOpt? opts name with
  | some o => s.begin o attached
  | none => .error (.unexpected ("--" ++ name))

def ArgState.shorts (opts : List Opt) : List Char → ArgState → Except UsageError ArgState
  | [], s => .ok s
  | c :: rest, s =>
    match shortOpt? opts c with
    | none => .error (.unexpected (String.ofList ['-', c]))
    | some o =>
      if o.value.isSome then
        match rest with
        | [] => s.begin o none
        | '=' :: value => s.begin o (some (String.ofList value))
        | value => s.begin o (some (String.ofList value))
      else do ArgState.shorts opts rest (← s.begin o none)

def ArgState.operand (s : ArgState) (opts : List Opt) (arg : String) : Except UsageError ArgState :=
  let taken (o : Opt) : Bool := s.given.has o.name || (match s.pending with
    | some (p, _) => p.name == o.name
    | none => false)
  match opts.find? fun o => o.isOperand && !taken o with
  | some o => do return { ← s.settle with pending := some (o, [arg]) }
  | none => .error (.unexpected arg)

def ArgState.step (s : ArgState) (opts : List Opt) (arg : String) : Except UsageError ArgState :=
  if s.operandsOnly then s.operand opts arg
  else match arg.toList with
    | ['-', '-'] => .ok { s with operandsOnly := true }
    | '-' :: '-' :: name => s.long opts name
    | '-' :: c :: rest => ArgState.shorts opts (c :: rest) s
    | _ => if s.awaits then .ok (s.supply arg) else s.operand opts arg

/-! ## Argument lists -/

def readArgs (opts : List Opt) (args : List String) : Except UsageError Given := do
  let s ← args.foldlM (fun s arg => s.step opts arg) ({} : ArgState)
  return (← s.settle).given

def Given.has (g : Given) (name : String) : Bool := Table.has g name

def Given.values (g : Given) (name : String) : List String := (Table.find? g name).getD []

def Given.value? (g : Given) (name : String) : Option String := (Given.values g name).head?

def UsageError.message : UsageError → String
  | .unexpected arg => "error: unexpected argument '" ++ arg ++ "' found"
  | .unknownCommand name => "error: unrecognized subcommand '" ++ name ++ "'"
  | .noCommand => "error: 'unshroud' requires a subcommand but one was not provided"
  | .missingValue option =>
    "error: a value is required for '" ++ option ++ "' but none was supplied"
  | .badValue value option reason =>
    "error: invalid value '" ++ value ++ "' for '" ++ option ++ "': " ++ reason
  | .repeated option => "error: the argument '" ++ option ++ "' cannot be used multiple times"
  | .unneededValue value option =>
    "error: unexpected value '" ++ value ++ "' for '" ++ option ++ "' found; no more were expected"
  | .noArguments => "JavaScript deobfuscator"

end Untangle.Cli
