/-!
# Base64 with small letters first

`decode` — the bytes of a text in the alphabet that puts small letters before capitals. Other
characters are skipped, and the padding ends the text.

`decodeFrom` keeps the bits that do not fill a byte yet: fewer than eight, so with the next six they
stay below `2^12`.
-/

namespace Untangle.Base64

/-- The digits in order, followed by the padding. -/
def alphabet : String := "abcdefghijklmnopqrstuvwxyzABCDEFGHIJKLMNOPQRSTUVWXYZ0123456789+/="

def digits : List Char := alphabet.toList.take 64

def digit? (c : Char) : Option Nat := digits.findIdx? (· == c)

/-- The bytes of a text after `bits` bits of value `pending` that did not fill a byte. -/
def decodeFrom (pending bits : Nat) : List Char → List UInt8
  | [] => []
  | c :: rest =>
    if c == '=' then []
    else match digit? c with
      | none => decodeFrom pending bits rest
      | some v =>
        let pending' := pending * 64 + v
        if 8 ≤ bits + 6 then
          let left := bits + 6 - 8
          (pending' / Nat.pow 2 left).toUInt8 :: decodeFrom (pending' % Nat.pow 2 left) left rest
        else decodeFrom pending' (bits + 6) rest

def decode (text : List Char) : List UInt8 := decodeFrom 0 0 text

def decodeText? (text : String) : Option String :=
  String.fromUTF8? ⟨(decode text.toList).toArray⟩

end Untangle.Base64
