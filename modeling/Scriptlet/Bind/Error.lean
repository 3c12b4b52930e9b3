import Scriptlet.Location
import Scriptlet.Ty

/-!
# Errors of binding

Every way in which a program can fail to get types, with the place of the failure.
-/

namespace Scriptlet

/-- A form that cannot be bound. -/
inductive Unbindable where
  | omittedExpression
  | omittedArgument
  | untypedEmptyArray
  | callOf (ty : Ty)
deriving DecidableEq

/-- How the form is named. -/
def Unbindable.text : Unbindable → String
  | .omittedExpression => "An omitted expression"
  | .omittedArgument => "An omitted argument"
  | .untypedEmptyArray => "An untyped empty array literal"
  | .callOf ty => s!"Calling a value of type '{ty.text}'"

/-- Why binding failed. -/
inductive BindError where
  | unboundIdentifier (name : String) (location : Location)
  | missingMember (ty : Ty) (name : String) (location : Location)
  | overloadNotFound (name : String) (arity : Nat) (location : Location)
  | argumentTypeMismatch (name : String) (args : List Ty) (location : Location)
  | operatorNotFound (op : String) (left : Ty) (location : Location)
  | invalidOperation (op : String) (operands : List Ty) (location : Location)
  | branchTypeMismatch (onTrue onFalse : Ty) (location : Location)
  | invalidDeclaration (name : String) (location : Location)
  | typeMismatch (expected found : Ty) (location : Location)
  | unknownType (name : String) (location : Location)
  | notAssignable (location : Location)
  | alreadyResolved (location : Location)
  | unsupported (what : Unbindable) (location : Location)
deriving DecidableEq

namespace BindError

/-- Where the failure is. -/
def location : BindError → Location
  | unboundIdentifier _ l | missingMember _ _ l | overloadNotFound _ _ l
  | argumentTypeMismatch _ _ l | operatorNotFound _ _ l | invalidOperation _ _ l
  | branchTypeMismatch _ _ l | invalidDeclaration _ l | typeMismatch _ _ l | unknownType _ l
  | notAssignable l | alreadyResolved l | unsupported _ l => l

/-- The message of an error. -/
def message : BindError → String
  | unboundIdentifier name l => s!"Unbound identifier '{name}' at {l.text}"
  | missingMember ty name l => s!"Type '{ty.text}' has no member '{name}' at {l.text}"
  | overloadNotFound name arity l =>
    s!"No overload of '{name}' takes {arity} argument(s) at {l.text}"
  | argumentTypeMismatch name args l =>
    s!"No overload of '{name}' accepts (" ++ Ty.listText args ++ s!") at {l.text}"
  | operatorNotFound op left l => s!"Operator '{op}' is not defined for '{left.text}' at {l.text}"
  | invalidOperation op operands l =>
    s!"Operator '{op}' cannot be applied to (" ++ Ty.listText operands ++ s!") at {l.text}"
  | branchTypeMismatch a b l =>
    s!"Conditional branches have incompatible types '{a.text}' and '{b.text}' at {l.text}"
  | invalidDeclaration name l =>
    s!"Declaration of '{name}' needs a type or an initializer at {l.text}"
  | typeMismatch expected found l =>
    s!"Type error at {l.text}: expected {expected.text}, found {found.text}"
  | unknownType name l => s!"Unknown type '{name}' at {l.text}"
  | notAssignable l => s!"Expression at {l.text} cannot be assigned to"
  | alreadyResolved l => s!"Node at {l.text} is already resolved"
  | unsupported what l => s!"{what.text} is not supported by the binder at {l.text}"

end BindError

end Scriptlet
