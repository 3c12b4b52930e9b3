import Scriptlet.Session.Basic

/-!
# Keys

What the keys do in a session.
-/

namespace Scriptlet

/-- A key, with the control key held or not. -/
inductive Key where
  | char (c : Char)
  | control (c : Char)
  | escape | tab | enter
  | up | down | left | right | home | «end»
  | pageUp | pageDown
  | backspace | delete
  | other
deriving DecidableEq

namespace Session

/-- The number of rows that a page key scrolls by. -/
def page : Nat := 5

/-- The session with another line. -/
def edit (s : Session) (f : InputLine → InputLine) : Session := { s with line := f s.line }

/-- The session with the history scrolled otherwise. -/
def scrollHistory (s : Session) (f : Nat → Nat) : Session :=
  { s with scroll := { s.scroll with history := f s.scroll.history } }

/-- Presses a key. Control and `c` together end the session; any other character is typed, whether
control is held or not. -/
def press (s : Session) : Key → Session
  | .escape => { s with quit := true }
  | .control c => if c = 'c' then { s with quit := true } else s.edit (·.insert c)
  | .char c => s.edit (·.insert c)
  | .tab =>
    { s with mode := s.mode.toggle, status := "Mode: " ++ s.mode.toggle.label, failed := false }
  | .enter => s.submit
  | .up => s.recallPrevious
  | .down => s.recallNext
  | .left => s.edit InputLine.left
  | .right => s.edit InputLine.right
  | .home => s.edit InputLine.home
  | .end => s.edit InputLine.toEnd
  | .pageUp => s.scrollHistory (· - page)
  | .pageDown => s.scrollHistory fun n ↦ min (n + page) Scroll.greatest
  | .backspace => s.edit InputLine.backspace
  | .delete => s.edit InputLine.delete
  | .other => s

end Session

end Scriptlet
