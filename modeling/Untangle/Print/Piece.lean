/-!
# Printed text as pieces

A tree is printed as a list of pieces: text, ends of lines, and changes of indentation. A line end
at the start of a line adds nothing, and indentation is written only before text.
-/

namespace Untangle.Print

/-- A piece of printed text. -/
inductive Piece
  | text (s : String)
  /-- The end of a line, unless nothing has been written on it. -/
  | line
  | indent
  | dedent
  deriving DecidableEq, Inhabited

abbrev Doc := List Piece

/-- A literal text; the empty text adds nothing, not even indentation. -/
def text (s : String) : Doc := if s.isEmpty then [] else [.text s]

def line : Doc := [.line]

def nested (d : Doc) : Doc := .indent :: d ++ [.dedent]

def joinDocs (separator : Doc) : List Doc → Doc
  | [] => []
  | [d] => d
  | d :: ds => d ++ separator ++ joinDocs separator ds

def commas (ds : List Doc) : Doc := joinDocs (text ", ") ds

/-- A list with each item on a line of its own, in braces or brackets, with commas between. -/
def commaLines (opening closing : String) (ds : List Doc) (last : Doc) : Doc :=
  text opening ++ line ++ nested (joinDocs (text "," ++ line) ds ++ last) ++ line ++ text closing

/-- Items in braces, each on a line of its own; an empty list still breaks the line. -/
def braceLines (ds : List Doc) : Doc :=
  match ds with
  | [] => text "\x7b" ++ line ++ text "\x7d"
  | _ => text "\x7b" ++ line ++ nested (joinDocs line ds) ++ line ++ text "\x7d"

/-- What has been written, the current level, and whether the line is still empty. Chunks are kept
newest first. -/
structure Page where
  chunks : List String := []
  level : Nat := 0
  fresh : Bool := true

def indentation (level : Nat) : String := String.ofList (List.replicate (4 * level) ' ')

def Page.write (p : Page) : Piece → Page
  | .text s =>
    if p.fresh then { p with chunks := s :: indentation p.level :: p.chunks, fresh := false }
    else { p with chunks := s :: p.chunks }
  | .line => if p.fresh then p else { p with chunks := "\n" :: p.chunks, fresh := true }
  | .indent => { p with level := p.level + 1 }
  | .dedent => { p with level := p.level - 1 }

def render (d : Doc) : String :=
  String.join (d.foldl Page.write {}).chunks.reverse

end Untangle.Print
