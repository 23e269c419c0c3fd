import Untangle.Text.Letter
import Untangle.Text.Mark
import Untangle.Text.Numeral

/-!
# Characters of identifiers
-/

namespace Untangle.Text

/-- What ID_Start adds to the letters. -/
def startExtraRanges : Ranges :=
  [(0x1885, 0x1886), (0x2118, 0x2118), (0x212e, 0x212e), (0x309b, 0x309c)]

/-- Letters that newer editions of the standard add, in gaps of older blocks and in blocks of their
own. -/
def newerLetterRanges : Ranges :=
  [(0x558, 0x558), (0x58b, 0x58c), (0x208f, 0x208f), (0x209d, 0x209f), (0xa7dd, 0xa7f0),
    (0x107bb, 0x107bf), (0x10ed9, 0x10edf), (0x12550, 0x1268f), (0x16d80, 0x16daf),
    (0x18e00, 0x191df), (0x3d000, 0x3fc3f)]

/-- Marks that newer editions of the standard add. -/
def newerMarkRanges : Ranges :=
  [(0x5c8, 0x5ca), (0x1ade, 0x1adf), (0x1aec, 0x1aff)]

/-- What ID_Continue adds to starts, marks, digits and connectors. -/
def continueExtraRanges : Ranges :=
  [(0xb7, 0xb7), (0x387, 0x387), (0x1369, 0x1371), (0x19da, 0x19da), (0x200c, 0x200d),
    (0x30fb, 0x30fb), (0xff65, 0xff65)]

/-- Connector punctuation, general category Pc. -/
def connectorRanges : Ranges :=
  [(0x5f, 0x5f), (0x203f, 0x2040), (0x2054, 0x2054), (0xfe33, 0xfe34), (0xfe4d, 0xfe4f),
    (0xff3f, 0xff3f)]

def isIdentStart (c : Char) : Bool :=
  c == '$' || c == '_' || (isLetter c && c.toNat != 0x2e2f) ||
    (0x80 ≤ c.toNat &&
      (inRanges startExtraRanges c.toNat || inRanges newerLetterRanges c.toNat))

def isIdentContinue (c : Char) : Bool :=
  isIdentStart c || isDecimalDigit c ||
    (0x80 ≤ c.toNat &&
      (isMark c || inRanges connectorRanges c.toNat || inRanges continueExtraRanges c.toNat ||
        inRanges newerMarkRanges c.toNat))

/-- Alphabetic, or of general category Nd, Nl or No. -/
def isAlphanumeric (c : Char) : Bool :=
  isAlphabetic c || isDecimalDigit c || isOtherNumeral c

end Untangle.Text
