import Scriptlet.Session.InPlace
import Scriptlet.Session.Screen

/-!
# A session at a terminal

A console is a session together with what its screen shows. The screen is drawn after every key, and
what it shows depends on what was drawn before: a cell behind a wide cluster is left alone, so it
still shows what stood there when it was last drawn.
-/

namespace Scriptlet

/-- A session, the number of rows of its screen, and the rows that are shown. -/
structure Console where
  session : Session
  height : Nat
  shown : List Cells

namespace Console

/-- A session before an empty screen. -/
def start (height : Nat) (s : Session) : Console :=
  ⟨s, height, List.replicate height (Cells.blank Screen.columns)⟩

/-- Draws the session, which settles its offsets. -/
def draw (c : Console) : Console :=
  let s := Screen.settle c.height c.session
  { c with session := s, shown := c.shown.zipWith Cells.drawOver (Screen.paint c.height s) }

/-- The session changed and drawn. -/
def update (c : Console) (f : Session → Session) : Console :=
  { c with session := f c.session }.draw

/-- Presses a key. -/
def press? (c : Console) (k : Key) : Option Console :=
  (c.session.press? k).map fun s ↦ { c with session := s }.draw

/-- Presses some keys, one after another. -/
def pressAll? (c : Console) (keys : List Key) : Option Console := keys.foldlM press? c

/-- The rows that are shown, without blanks at their ends. -/
def rows (c : Console) : List String := c.shown.map Cells.text

/-- The place of the cursor, in columns and rows from the upper left corner. -/
def cursor (c : Console) : Nat × Nat := Screen.cursor c.height c.session

end Console

end Scriptlet
