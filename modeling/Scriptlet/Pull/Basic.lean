import Scriptlet.Parse.Reply
import Scriptlet.Token.Scan

/-!
# Parsers that pull tokens

A text need not be scanned before it is parsed. A window shows the next token of a text and keeps
the cursor behind it, and a parser moves the window on by asking the cursor for one more token. A
window can be kept, and the parser can go back to it after a reading that came to nothing.

Nothing in such a parser says that it ends: a loop goes on as long as the token in the window tells
it to, and a parser that calls itself again need not have moved. So parsers are not defined by
recursion. What they call is a parameter, and running them to some depth is a matter of its own: a
call replies with a value or with an error and leaves the window somewhere, and it does not reply if
it would have to go deeper.
-/

namespace Scriptlet

/-- The next token of a text, and the cursor behind it. -/
structure Window where
  cursor : Cursor
  token : Token
deriving DecidableEq

namespace Window

/-- The window that shows what the cursor finds next. -/
def before (c : Cursor) : Window := ⟨c.next.2, c.next.1⟩

/-- The window at the start of a text. -/
def ofText (source : String) : Window := before (.ofText source)

/-- The window one token on. At the end of the text it shows the end once more. -/
def advance (w : Window) : Window := before w.cursor

/-- The error of meeting the token that the window shows. -/
def unexpected (w : Window) (wanted : Expectation) : ParseError :=
  match w.token.kind with
  | .bad c => .badCharacter c w.token.location
  | found => .unexpected wanted found w.token.location

end Window

/-- A parser that pulls tokens. -/
abbrev Pull (α : Type) := ExceptT ParseError (StateT Window Option) α

namespace Pull

variable {α : Type}

/-- The reply of a parser at a window and the window that it leaves, if it replies. -/
def run (x : Pull α) (w : Window) : Option (Except ParseError α × Window) :=
  StateT.run (ExceptT.run x) w

/-! ## Steps -/

/-- The token in the window. -/
def token : Pull Token := return (← get).token

/-- The place of the token in the window. -/
def location : Pull Location := return (← token).location

/-- Moves the window on, and gives back the token that it showed. -/
def advance : Pull Token := do
  let w ← get
  set w.advance
  return w.token

/-- Does not reply. -/
def never : Pull α := ExceptT.mk fun _ ↦ none

/-- Stops at the token in the window. -/
def refuse (wanted : Expectation) : Pull α := do
  throw ((← get).unexpected wanted)

/-- The window shows the symbol. -/
def at? (s : Symbol) : Pull Bool := return decide ((← token).kind = .symbol s)

/-- The window shows the end of the text. -/
def atEnd? : Pull Bool := return decide ((← token).kind = .eof)

/-- The reserved word in the window. -/
def keyword? : Pull (Option Keyword) := return (← token).kind.reserved?

/-- Takes the symbol if the window shows it. -/
def take? (s : Symbol) : Pull Bool := do
  if ← at? s then
    let _ ← advance
    return true
  else return false

/-- Takes either symbol if the window shows it. -/
def takeEither? (s s' : Symbol) : Pull Bool := do
  if ← take? s then return true
  else take? s'

/-- Takes the symbol, which must be there. -/
def expect (s : Symbol) (wanted : Expectation) : Pull Unit := do
  if ← at? s then
    let _ ← advance
    return ()
  else refuse wanted

/-- Reads on and says whether the reading came to something; if not, the window is put back. -/
def speculate (reading : Pull Bool) : Pull Bool := do
  let saved ← get
  if ← reading then return true
  else
    set saved
    return false

/-! ## Words -/

/-- Takes a word that is not reserved. -/
def identifier : Pull String := do
  match (← token).kind with
  | .word w =>
    if Keyword.isReserved w then refuse .identifier
    else
      let _ ← advance
      return w
  | _ => refuse .identifier

/-- Takes any word. -/
def anyName : Pull String := do
  match (← token).kind with
  | .word w =>
    let _ ← advance
    return w
  | _ => refuse .name

/-- The target of an arrow: a name, or a name behind a sigil. -/
def arrowTarget : Pull Expr := do
  let l ← location
  if ← take? .at then return .variableRef (.at l) (← anyName)
  else return .name (.at l) (← identifier)

/-- A bracket that is closed at once. One that is not is left where it is. -/
def closedBracket : Pull Bool :=
  speculate do
    let _ ← advance
    take? .closeBracket

end Pull

end Scriptlet
