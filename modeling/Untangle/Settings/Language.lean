import Untangle.Text.Blank

/-!
# Which language a source is in

Editions are named by number (`5`, `6` to `99`), by year (`2015` on), or by either after `es`;
years past the newest edition known mean the newest.
-/

namespace Untangle

/-- How a source is read. -/
inductive SourceType
  | module | script
  /-- As a module if that works, else as a script. -/
  | both
  deriving DecidableEq, Inhabited, Repr

/-- Editions of the language, oldest first. -/
inductive EcmaVersion
  | es3 | es5 | es2015 | es2016 | es2017 | es2018 | es2019 | es2020 | es2021 | es2022 | latest
  deriving DecidableEq, Inhabited, Repr

/-- What is wrong with a configuration. -/
inductive ConfigError
  | unknownPass (name : String)
  | invalidOptions (pass detail : String)
  | invalidVersion (text : String)
  | invalidSourceType (text : String)
  deriving DecidableEq, Inhabited, Repr

def ConfigError.message : ConfigError → String
  | .unknownPass name => "Unknown transformer: " ++ name
  | .invalidOptions pass detail => "Invalid options for transformer " ++ pass ++ ": " ++ detail
  | .invalidVersion text => "Invalid ECMAScript version: " ++ text
  | .invalidSourceType text =>
    "Invalid source type: " ++ text ++ " (expected module, script or both)"

def asciiLower (s : String) : String := s.map Char.toLower

/-- A natural number written in decimal digits after an optional plus sign. -/
def natOfDigits? (cs : List Char) : Option Nat :=
  let ds := match cs with
    | '+' :: ds => ds
    | ds => ds
  if ds.isEmpty || !ds.all Char.isDigit then none
  else some (ds.foldl (fun acc c => acc * 10 + (c.toNat - '0'.toNat)) 0)

namespace SourceType

def text : SourceType → String
  | .module => "module"
  | .script => "script"
  | .both => "both"

/-- The source type with this name, in any case. -/
def ofText (s : String) : Except ConfigError SourceType :=
  match asciiLower s with
  | "module" => .ok .module
  | "script" => .ok .script
  | "both" => .ok .both
  | _ => .error (.invalidSourceType s)

end SourceType

namespace EcmaVersion

/-- The place of an edition in the order of editions. -/
def rank : EcmaVersion → Nat
  | .es3 => 0
  | .es5 => 1
  | .es2015 => 2
  | .es2016 => 3
  | .es2017 => 4
  | .es2018 => 5
  | .es2019 => 6
  | .es2020 => 7
  | .es2021 => 8
  | .es2022 => 9
  | .latest => 10

def olderThan (a b : EcmaVersion) : Bool := a.rank < b.rank

def text : EcmaVersion → String
  | .es3 => "es3"
  | .es5 => "es5"
  | .es2015 => "es2015"
  | .es2016 => "es2016"
  | .es2017 => "es2017"
  | .es2018 => "es2018"
  | .es2019 => "es2019"
  | .es2020 => "es2020"
  | .es2021 => "es2021"
  | .es2022 => "es2022"
  | .latest => "latest"

def ofYear : Nat → EcmaVersion
  | 2015 => .es2015
  | 2016 => .es2016
  | 2017 => .es2017
  | 2018 => .es2018
  | 2019 => .es2019
  | 2020 => .es2020
  | 2021 => .es2021
  | 2022 => .es2022
  | _ => .latest

def ofNumber? (n : Nat) : Option EcmaVersion :=
  if n = 3 then some .es3
  else if n = 5 then some .es5
  else if 6 ≤ n ∧ n ≤ 99 then some (ofYear (2009 + n))
  else if 2015 ≤ n then some (ofYear n)
  else none

/-- The edition with this name. Numbers must fit 32 bits. -/
def ofText (s : String) : Except ConfigError EcmaVersion :=
  let name := (Text.trimBlank s.toList).map Char.toLower
  if name == "latest".toList || name == "esnext".toList then .ok .latest
  else
    let digits := match name with
      | 'e' :: 's' :: rest => rest
      | cs => cs
    match natOfDigits? digits with
    | some n =>
      if n < Nat.pow 2 32 then
        match ofNumber? n with
        | some v => .ok v
        | none => .error (.invalidVersion s)
      else .error (.invalidVersion s)
    | none => .error (.invalidVersion s)

end EcmaVersion

end Untangle
