import Scriptlet.Tree.Operator
import Scriptlet.Value.Basic

/-!
# Errors of evaluation

Every way in which running a script can fail, with the place of the failure. A thrown value is one
of them.
-/

namespace Scriptlet

/-- An operation on whole numbers whose exact result does not fit. -/
inductive WholeOperation where
  | binary (op : BinaryOp) (a b : Int64)
  | negate (n : Int64)
  | abs (n : Int64)
deriving DecidableEq

/-- The operation as it is written. -/
def WholeOperation.text : WholeOperation → String
  | .binary op a b => Whole.text a ++ " " ++ op.symbol ++ " " ++ Whole.text b
  | .negate n => "-" ++ Whole.text n
  | .abs n => "abs(" ++ Whole.text n ++ ")"

/-- A form that can be bound but not evaluated. -/
inductive Unevaluated where
  | computedCall | construction | lambda | thisReference
deriving DecidableEq

/-- How the form is named. -/
def Unevaluated.text : Unevaluated → String
  | .computedCall => "call through a computed target"
  | .construction => "object construction"
  | .lambda => "lambda expression"
  | .thisReference => "'this' outside a declaring type"

/-- Why an evaluation failed. -/
inductive EvalError where
  | missingPart (name : String) (arity : Nat) (location : Location)
  | undefinedFunction (name : String) (location : Location)
  | unboundIdentifier (name : String) (location : Location)
  | notImplemented (what : Unevaluated) (location : Location)
  | invalidOperands (op : String) (operands : List Kind) (location : Location)
  | integerOverflow (operation : WholeOperation) (location : Location)
  | divisionByZero (location : Location)
  | indexOutOfRange (index : Int64) (length : Nat) (location : Location)
  | invalidTarget (location : Location)
  | constantReassignment (name : String) (location : Location)
  | thrown (value : Value) (location : Location)
  | recursionLimit (limit : Nat) (location : Location)
deriving DecidableEq

namespace EvalError

/-- Where the failure is. -/
def location : EvalError → Location
  | missingPart _ _ l | undefinedFunction _ l | unboundIdentifier _ l | notImplemented _ l
  | invalidOperands _ _ l | integerOverflow _ l | divisionByZero l | indexOutOfRange _ _ l
  | invalidTarget l | constantReassignment _ l | thrown _ l | recursionLimit _ l => l

/-- Kinds parted by commas. -/
def kindsText (ks : List Kind) : String := ", ".intercalate (ks.map Kind.name)

/-- The message of an error. -/
def message : EvalError → String
  | missingPart name arity l => s!"No part of '{name}' accepts {arity} argument(s) at {l.text}"
  | undefinedFunction name l => s!"Undefined function '{name}' at {l.text}"
  | unboundIdentifier name l => s!"Unbound identifier '{name}' at {l.text}"
  | notImplemented what l => s!"{what.text} is not implemented in evaluation mode at {l.text}"
  | invalidOperands op ks l =>
    s!"Operator '{op}' cannot be applied to (" ++ kindsText ks ++ s!") at {l.text}"
  | integerOverflow operation l => s!"Integer overflow in {operation.text} at {l.text}"
  | divisionByZero l => s!"Division by zero at {l.text}"
  | indexOutOfRange i n l =>
    "Index " ++ Whole.text i ++ s!" out of range for length {n} at {l.text}"
  | invalidTarget l => s!"Expression at {l.text} cannot be assigned to"
  | constantReassignment name l => s!"Constant '_{name}' is already set at {l.text}"
  | thrown v l => s!"Uncaught script error: {v.text} at {l.text}"
  | recursionLimit limit l => s!"Call depth exceeded {limit} at {l.text}"

/-- The error of applying an operator or a function to these operands. -/
def ofOperands (op : String) (operands : List Value) (l : Location) : EvalError :=
  invalidOperands op (operands.map Value.kind) l

end EvalError

end Scriptlet
