import Untangle.Text.Range

/-!
# Digits and other numerals

The general categories Nd and No. Letter-like numerals (Nl) are in `Untangle.Text.Letter`.
-/

namespace Untangle.Text

/-- General category Nd. -/
def digitRanges : Ranges :=
  ofRuns 0 [48, 10, 1574, 10, 134, 10, 198, 10, 412, 10, 118, 10, 118, 10, 118, 10, 118, 10, 118,
    10, 118, 10, 118, 10, 118, 10, 118, 10, 96, 10, 118, 10, 70, 10, 278, 10, 70, 10, 1862, 10, 38,
    10, 300, 10, 128, 10, 166, 10, 6, 10, 182, 10, 86, 10, 134, 10, 6, 10, 35270, 10, 678, 10, 38,
    10, 198, 10, 22, 10, 86, 10, 406, 10, 21270, 10, 1414, 10, 2182, 10, 6, 10, 796, 10, 128, 10,
    60, 10, 144, 10, 278, 10, 342, 10, 118, 10, 374, 10, 102, 10, 6, 20, 76, 10, 422, 10, 102, 10,
    662, 10, 86, 10, 246, 10, 70, 10, 54, 10, 358, 10, 16854, 10, 2342, 10, 86, 10, 134, 10, 534,
    10, 24438, 10, 2772, 50, 2368, 10, 422, 10, 502, 10, 247, 10, 853, 10, 4758, 10]

def otherNumeralRanges : Ranges :=
  ofRuns 0 [178, 2, 5, 1, 2, 3, 2357, 6, 376, 6, 120, 3, 133, 7, 217, 7, 17, 9, 433, 10, 1077, 20,
    1139, 10, 480, 1, 1685, 1, 3, 6, 6, 10, 198, 16, 41, 1, 726, 60, 78, 22, 630, 30, 1385, 1, 1172,
    4, 138, 10, 30, 8, 1, 15, 32, 10, 39, 15, 30064, 6, 22737, 45, 65, 4, 17, 2, 341, 27, 36, 4,
    1332, 8, 25, 7, 39, 9, 75, 5, 22, 6, 160, 2, 2, 16, 2, 46, 64, 9, 52, 2, 30, 3, 75, 5, 104, 8,
    24, 8, 41, 7, 330, 6, 352, 31, 158, 10, 42, 4, 112, 7, 134, 20, 379, 20, 1349, 2, 430, 9, 871,
    19, 851, 21, 19334, 7, 798, 23, 25641, 20, 12, 20, 108, 25, 5454, 9, 929, 59, 1, 3, 1, 4, 76,
    45, 1, 15, 962, 13]

/-- General category Nd. -/
def isDecimalDigit (c : Char) : Bool :=
  if c.toNat < 0x80 then c.isDigit else inRanges digitRanges c.toNat

def isOtherNumeral (c : Char) : Bool :=
  0x80 ≤ c.toNat && inRanges otherNumeralRanges c.toNat

end Untangle.Text
