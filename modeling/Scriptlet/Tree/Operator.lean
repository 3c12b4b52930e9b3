/-!
# Operators

The operators of the language, how they are written, and under which method name a type may define
its own meaning for them.
-/

namespace Scriptlet

/-- An operator between two operands. -/
inductive BinaryOp where
  | add | sub | mul | div | mod
  | eq | ne | lt | le | gt | ge
  | and | or
  | bitAnd | bitOr | bitXor | shl | shr
deriving DecidableEq

namespace BinaryOp

/-- How the operator is written. -/
def symbol : BinaryOp → String
  | add => "+" | sub => "-" | mul => "*" | div => "/" | mod => "%"
  | eq => "==" | ne => "!=" | lt => "<" | le => "<=" | gt => ">" | ge => ">="
  | and => "&&" | or => "||"
  | bitAnd => "&" | bitOr => "|" | bitXor => "^" | shl => "<<" | shr => ">>"

/-- The method that gives the operator its meaning; the two logical operators have none, because
they do not always evaluate their right operand. -/
def methodName? : BinaryOp → Option String
  | add => some "op_Addition"
  | sub => some "op_Subtraction"
  | mul => some "op_Multiply"
  | div => some "op_Division"
  | mod => some "op_Modulus"
  | eq => some "op_Equality"
  | ne => some "op_Inequality"
  | lt => some "op_LessThan"
  | le => some "op_LessThanOrEqual"
  | gt => some "op_GreaterThan"
  | ge => some "op_GreaterThanOrEqual"
  | bitAnd => some "op_BitwiseAnd"
  | bitOr => some "op_BitwiseOr"
  | bitXor => some "op_ExclusiveOr"
  | shl => some "op_LeftShift"
  | shr => some "op_RightShift"
  | and | or => none

/-- All operators. -/
def all : List BinaryOp :=
  [add, sub, mul, div, mod, eq, ne, lt, le, gt, ge, and, or, bitAnd, bitOr, bitXor, shl, shr]

end BinaryOp

/-- An operator on one operand. Parentheses count as one: they are kept in the tree. -/
inductive UnaryOp where
  | group | neg | plus | not | preInc | preDec | postInc | postDec
deriving DecidableEq

namespace UnaryOp

/-- The operator's name. -/
def name : UnaryOp → String
  | group => "Group" | neg => "Neg" | plus => "Plus" | not => "Not"
  | preInc => "PreInc" | preDec => "PreDec" | postInc => "PostInc" | postDec => "PostDec"

/-- The method that gives the operator its meaning; parentheses have none. -/
def methodName? : UnaryOp → Option String
  | group => none
  | neg => some "op_UnaryNegation"
  | plus => some "op_UnaryPlus"
  | not => some "op_LogicalNot"
  | preInc | postInc => some "op_Increment"
  | preDec | postDec => some "op_Decrement"

/-- The operator writes a new value back to its operand. -/
def isMutating : UnaryOp → Bool
  | preInc | preDec | postInc | postDec => true
  | _ => false

/-- All operators. -/
def all : List UnaryOp := [group, neg, plus, not, preInc, preDec, postInc, postDec]

end UnaryOp

end Scriptlet
