/-!
# The input line

A line of text with a cursor between two characters. The cursor counts characters from the start of
the line and never stands behind the end.
-/

namespace Scriptlet

/-- A line that is being edited. -/
structure InputLine where
  chars : List Char
  cursor : Nat
deriving DecidableEq

namespace InputLine

/-- The empty line. -/
def empty : InputLine := ⟨[], 0⟩

/-- A line of the given text with the cursor at its end. -/
def ofText (s : String) : InputLine := ⟨s.toList, s.toList.length⟩

/-- The text of the line. -/
def text (l : InputLine) : String := String.ofList l.chars

/-- One character to the left. -/
def left (l : InputLine) : InputLine := { l with cursor := l.cursor - 1 }

/-- One character to the right. -/
def right (l : InputLine) : InputLine := { l with cursor := min (l.cursor + 1) l.chars.length }

/-- The start of the line. -/
def home (l : InputLine) : InputLine := { l with cursor := 0 }

/-- The end of the line. -/
def toEnd (l : InputLine) : InputLine := { l with cursor := l.chars.length }

/-- A character put in at the cursor, which moves behind it. -/
def insert (l : InputLine) (c : Char) : InputLine :=
  ⟨l.chars.take l.cursor ++ c :: l.chars.drop l.cursor, l.cursor + 1⟩

/-- The character before the cursor removed. -/
def backspace (l : InputLine) : InputLine :=
  if l.cursor = 0 then l else ⟨l.chars.eraseIdx (l.cursor - 1), l.cursor - 1⟩

/-- The character behind the cursor removed. -/
def delete (l : InputLine) : InputLine := { l with chars := l.chars.eraseIdx l.cursor }

end InputLine

end Scriptlet
