import Untangle.Text.Units

/-!
# Fingerprints

`fingerprint` — a 32-bit number that tells sources apart. It runs over the code units from the last
to the first; it is no cryptographic hash, and two sources may share one.
-/

namespace Untangle

def fingerprintSeed : UInt32 := 0x94a3fa21

/-- A fingerprint with one more unit in front of the source. -/
def mixUnit (unit : UInt16) (acc : UInt32) : UInt32 := (acc * 33) ^^^ unit.toUInt32

def fingerprintUnits (us : Units) : UInt32 := us.foldr mixUnit fingerprintSeed

def fingerprint (source : String) : UInt32 := fingerprintUnits (Units.ofString source)

end Untangle
