/-!
# Places in a source text

Lines and columns count from one, columns in characters. Every token, tree node and error carries
the place where it begins.
-/

namespace Scriptlet

/-- A place in a source text. -/
structure Location where
  line : Nat
  column : Nat
deriving DecidableEq, Inhabited

namespace Location

/-- The first place of a text. -/
def start : Location := ⟨1, 1⟩

/-- The place behind a character that stands here: a newline ends its line. -/
def after (l : Location) (c : Char) : Location :=
  if c = '\n' then ⟨l.line + 1, 1⟩ else ⟨l.line, l.column + 1⟩

/-- The text `line:column`. -/
def text (l : Location) : String := s!"{l.line}:{l.column}"

end Location

end Scriptlet
