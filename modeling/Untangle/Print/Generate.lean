import Untangle.Print.Parens
import Untangle.Print.Tree

/-!
# The text of a program

`generate` prints a program for an edition of the language with the parentheses it needs. It has a
text for every tree: it writes to memory, so that no write can fail.
-/

namespace Untangle

def generate (p : Program) (v : EcmaVersion) : String := Print.emit v (Print.fixProgram p)

end Untangle
