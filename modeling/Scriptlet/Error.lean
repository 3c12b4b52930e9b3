import Scriptlet.Bind.Error
import Scriptlet.Code.Emission
import Scriptlet.Eval.Error
import Scriptlet.Parse.Reply

/-!
# Errors of any stage
-/

namespace Scriptlet

/-- An error, by the stage that found it. -/
inductive ScriptError where
  | parse (e : ParseError)
  | bind (e : BindError)
  | emit (e : EmitError)
  | eval (e : EvalError)

namespace ScriptError

/-- How the stage is named in front of a message. -/
def stage : ScriptError → String
  | parse _ => "parse error"
  | bind _ => "bind error"
  | emit _ => "emit error"
  | eval _ => "runtime error"

/-- The message of an error. -/
def message : ScriptError → String
  | parse e => e.message
  | bind e => e.message
  | emit e => e.message
  | eval e => e.message

/-- Where the failure is. -/
def location : ScriptError → Location
  | parse e => e.location
  | bind e => e.location
  | emit e => e.location
  | eval e => e.location

/-- The stage and the message. -/
def text (e : ScriptError) : String := s!"{e.stage}: {e.message}"

end ScriptError

end Scriptlet
