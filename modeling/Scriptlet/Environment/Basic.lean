import Scriptlet.Environment.Part
import Scriptlet.Table

/-!
# Environments

An environment is a stack of frames over the global frame, and the lines printed so far. Looking up
a name goes from the innermost frame outward, up to the nearest frame of a function, and then to
the global frame: a function's body sees its own blocks and parameters and the globals, never the
variables of its caller.

The global frame is kept apart from the stack, so it cannot be popped.
-/

namespace Scriptlet

/-- What a frame was made for. -/
inductive FrameKind where
  | global | block | function
deriving DecidableEq

/-- Variables, constants and functions of one stretch of code. -/
structure Frame where
  kind : FrameKind
  vars : Table Value
  constants : Table Value
  functions : Table (List Part)

/-- A frame without entries. -/
def Frame.empty (kind : FrameKind) : Frame := ⟨kind, [], [], []⟩

/-- The frames above the global one, innermost first, the global frame, and the printed lines. -/
structure Environment where
  inner : List Frame
  global : Frame
  output : List String

namespace Environment

/-- An environment without entries. -/
def empty : Environment := ⟨[], .empty .global, []⟩

/-! ## Frames -/

/-- A new innermost frame. -/
def push (e : Environment) (kind : FrameKind) : Environment :=
  { e with inner := .empty kind :: e.inner }

/-- The innermost frame removed; the global frame stays. -/
def pop (e : Environment) : Environment := { e with inner := e.inner.tail }

/-- The number of frames, the global one included. -/
def depth (e : Environment) : Nat := e.inner.length + 1

/-- The frames up to the nearest frame of a function, that one included. -/
def upToFunction : List Frame → List Frame
  | [] => []
  | f :: fs => if f.kind = .function then [f] else f :: upToFunction fs

/-- The frames that a name is looked up in, innermost first. -/
def visible (e : Environment) : List Frame := upToFunction e.inner ++ [e.global]

/-- The innermost frame changed. -/
def changeInnermost (e : Environment) (f : Frame → Frame) : Environment :=
  match e.inner with
  | [] => { e with global := f e.global }
  | g :: gs => { e with inner := f g :: gs }

/-- The first frame with a property changed, among those up to the nearest frame of a function. -/
def changeUpToFunction (p : Frame → Bool) (f : Frame → Frame) : List Frame → Option (List Frame)
  | [] => none
  | g :: gs =>
    if p g then some (f g :: gs)
    else if g.kind = .function then none
    else (changeUpToFunction p f gs).map (g :: ·)

/-- The first visible frame with a property changed, if there is one. -/
def changeVisible? (e : Environment) (p : Frame → Bool) (f : Frame → Frame) :
    Option Environment :=
  match changeUpToFunction p f e.inner with
  | some inner => some { e with inner := inner }
  | none => if p e.global then some { e with global := f e.global } else none

/-! ## Variables -/

/-- The value of a visible variable. -/
def valueOf? (e : Environment) (name : String) : Option Value :=
  e.visible.findSome? fun f ↦ f.vars.get? name

/-- A frame with a variable set. -/
def setVariable (name : String) (v : Value) (f : Frame) : Frame :=
  { f with vars := f.vars.put name v }

/-- A variable defined in the innermost frame, whatever is visible already. -/
def define (e : Environment) (name : String) (v : Value) : Environment :=
  e.changeInnermost (setVariable name v)

/-- A variable written where it is visible, or defined in the innermost frame if it is not. -/
def assign (e : Environment) (name : String) (v : Value) : Environment :=
  (e.changeVisible? (fun f ↦ f.vars.has name) (setVariable name v)).getD (e.define name v)

/-! ## Constants -/

/-- The value of a visible constant. -/
def constant? (e : Environment) (name : String) : Option Value :=
  e.visible.findSome? fun f ↦ f.constants.get? name

/-- A frame with a constant set. -/
def putConstant (name : String) (v : Value) (f : Frame) : Frame :=
  { f with constants := f.constants.put name v }

/-- A constant set, once: one that is visible and not null refuses a new value. -/
def setConstant (e : Environment) (name : String) (v : Value) (l : Location) :
    Except EvalError Environment :=
  match e.constant? name with
  | some old =>
    if old.isNull then
      .ok ((e.changeVisible? (fun f ↦ f.constants.has name) (putConstant name v)).getD e)
    else .error (.constantReassignment name l)
  | none => .ok (e.changeInnermost (putConstant name v))

/-! ## Functions -/

/-- A frame with a part added to a function. -/
def addPart (name : String) (part : Part) (f : Frame) : Frame :=
  { f with functions := f.functions.put name ((f.functions.get? name).getD [] ++ [part]) }

/-- A part added to a function of the innermost frame. -/
def defineFunction (e : Environment) (name : String) (part : Part) : Environment :=
  e.changeInnermost (addPart name part)

/-- A visible frame has a function of the name. -/
def hasFunction (e : Environment) (name : String) : Bool :=
  e.visible.any fun f ↦ f.functions.has name

/-- The part that a call reaches: that of the innermost visible frame which has one for the call. A
frame that has the function but no part for the call does not hide another frame. -/
def part (e : Environment) (name : String) (arity : Nat) (scope : Scope) (l : Location) :
    Except EvalError Part :=
  match e.visible.findSome? fun f ↦ (f.functions.get? name).bind (Part.select? · arity scope) with
  | some p => .ok p
  | none =>
    if e.hasFunction name then .error (.missingPart name arity l)
    else .error (.undefinedFunction name l)

/-- The scope of a call that is made here: inside any function it is local. -/
def callScope (e : Environment) : Scope :=
  if e.inner.any fun f ↦ f.kind == .function then .local else .global

/-! ## Output -/

/-- One more line printed. -/
def print (e : Environment) (line : String) : Environment :=
  { e with output := e.output ++ [line] }

/-- The printed lines removed. -/
def clearOutput (e : Environment) : Environment := { e with output := [] }

end Environment

end Scriptlet
