import Scriptlet.Session.Key
import Scriptlet.Text.InPlace

/-!
# Keys that change the line in place

A session at a terminal keeps its line as bytes and changes it in place. This can go wrong where
changing a list of characters cannot: there are bytes at which no character can be put in or taken
out, and numbers under which there is no entry to be shown. Here a key that comes to such a byte or
number has no outcome.
-/

namespace Scriptlet

namespace InputLine

/-- A character put in at the byte of the cursor. -/
def insertInPlace? (l : InputLine) (c : Char) : Option InputLine :=
  (Text.insertAt? l.text (Text.byteOffset l.text l.cursor) c).map fun t ↦ ⟨t.toList, l.cursor + 1⟩

/-- The character at a place taken out, and the cursor put there. -/
def removeInPlace? (l : InputLine) (index : Nat) : Option InputLine :=
  (Text.removeAt? l.text (Text.byteOffset l.text index)).map fun t ↦ ⟨t.toList, index⟩

/-- The character before the cursor taken out, if there is one. -/
def backspaceInPlace? (l : InputLine) : Option InputLine :=
  if 0 < l.cursor then l.removeInPlace? (l.cursor - 1) else some l

/-- The character behind the cursor taken out, if there is one. -/
def deleteInPlace? (l : InputLine) : Option InputLine :=
  if l.cursor < l.chars.length then l.removeInPlace? l.cursor else some l

end InputLine

namespace Session

/-- The session with another line, if there is one. -/
def edit? (s : Session) (f : InputLine → Option InputLine) : Option Session :=
  (f s.line).map fun l ↦ { s with line := l }

/-- The line replaced by an input of the history, which has to be there. -/
def showEntryAt? (s : Session) (index : Nat) : Option Session :=
  (s.history[index]?).map fun entry ↦ { s with recalled := some index, line := .ofText entry.input }

/-- Goes one input back; at the first one it stays. -/
def recallPrevious? (s : Session) : Option Session :=
  if s.history.isEmpty then some s
  else
    match s.recalled with
    | none => s.showEntryAt? (s.history.length - 1)
    | some i => s.showEntryAt? (i - 1)

/-- Goes one input forward, and behind the last one to an empty line. -/
def recallNext? (s : Session) : Option Session :=
  match s.recalled with
  | none => some s
  | some i =>
    if i + 1 < s.history.length then s.showEntryAt? (i + 1)
    else some { s with recalled := none, line := .empty }

/-- Presses a key on a line that is changed in place. -/
def press? (s : Session) : Key → Option Session
  | .control c =>
    if c = 'c' then some { s with quit := true } else s.edit? (·.insertInPlace? c)
  | .char c => s.edit? (·.insertInPlace? c)
  | .backspace => s.edit? InputLine.backspaceInPlace?
  | .delete => s.edit? InputLine.deleteInPlace?
  | .up => s.recallPrevious?
  | .down => s.recallNext?
  | k => some (s.press k)

end Session

end Scriptlet
