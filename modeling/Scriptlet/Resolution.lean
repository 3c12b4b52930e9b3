import Scriptlet.Ty

/-!
# What binding finds out

A bound tree says, node by node, which member a name denotes, which definition a call reaches and
which conversion an operand passes through. This module has the vocabulary of these answers; a tree
has a place for each, empty until binding fills it.
-/

namespace Scriptlet

/-! ## Handles to members

A member is known by its owner and its number in the owner's list, so a handle stays valid while
members are added. -/

/-- A field of a type. -/
structure FieldRef where
  owner : Ty
  index : Nat
deriving DecidableEq

/-- A property of a type. -/
structure PropertyRef where
  owner : Ty
  index : Nat
deriving DecidableEq

/-- A method of a type, or one of its constructors. -/
structure MethodRef where
  owner : Ty
  index : Nat
  constructor : Bool
deriving DecidableEq

/-- The owner and the number, the mark `ctor` before a constructor's. -/
def MethodRef.text (m : MethodRef) : String :=
  m.owner.text ++ (if m.constructor then "#ctor" else "#") ++ s!"{m.index}"

/-! ## Conversions and targets -/

/-- An implicit conversion of one value. An intrinsic one is an instruction of the machine, any
other is a call. -/
structure Conversion where
  method : MethodRef
  source : Ty
  target : Ty
  intrinsic : Bool
deriving DecidableEq

/-- The two types, how the conversion is made, and by which method. -/
def Conversion.text (c : Conversion) : String :=
  s!"{c.source.text} -> {c.target.text} "
    ++ (if c.intrinsic then "intrinsic " else "call ") ++ c.method.text

/-- One entry per argument, in order; none where the argument fits as it is. -/
abbrev Conversions := List (Option Conversion)

/-- What a call, a construction or an index reaches. -/
inductive Callee where
  | method (m : MethodRef)
  | script (index : Nat)
  | delegate
  | arrayElement
  | defaultConstructor (ty : Ty)
deriving DecidableEq

/-- How a callee is shown. -/
def Callee.text : Callee → String
  | .method m => m.text
  | .script i => s!"script#{i}"
  | .delegate => "Delegate"
  | .arrayElement => "ArrayElement"
  | .defaultConstructor ty => "default " ++ ty.text

/-- The resolved target of a call, a construction or an index. -/
structure CallTarget where
  callee : Callee
  ret : Ty
  conversions : Conversions
deriving DecidableEq

/-- What an operator means on its operands. -/
inductive OperatorKind where
  | method (m : MethodRef)
  | referenceEquality
  | logical
  | transparent
deriving DecidableEq

/-- How an operator's meaning is shown. -/
def OperatorKind.text : OperatorKind → String
  | .method m => m.text
  | .referenceEquality => "ReferenceEquality"
  | .logical => "Logical"
  | .transparent => "Transparent"

/-- The resolved target of an operator. -/
structure OperatorTarget where
  kind : OperatorKind
  conversions : Conversions
deriving DecidableEq

/-- One of the two branches of a conditional. -/
inductive Branch where
  | thenBranch
  | elseBranch
deriving DecidableEq

/-- How a branch is shown. -/
def Branch.text : Branch → String
  | .thenBranch => "Then"
  | .elseBranch => "Else"

/-- The branch of a conditional that is converted to the type of the other. -/
structure BranchConversion where
  branch : Branch
  conversion : Option Conversion
deriving DecidableEq

/-! ## Storage -/

/-- A local variable of a program or function. -/
structure Local where
  index : Nat
  name : String
  ty : Ty
deriving DecidableEq

/-- Where the value of a name or a member access lives. -/
inductive Binding where
  | variable (slot : Local)
  | parameter (index : Nat) (ty : Ty)
  | field (field : FieldRef) (ty : Ty) (isStatic : Bool)
  | property (property : PropertyRef) (ty : Ty) (isStatic : Bool) (writable : Bool)
  | typeName (ty : Ty)
deriving DecidableEq

namespace Binding

/-- The type of the value. -/
def ty : Binding → Ty
  | .variable slot => slot.ty
  | .parameter _ ty | .field _ ty _ | .property _ ty _ _ | .typeName ty => ty

/-- The place can be written. -/
def isSettable : Binding → Bool
  | .variable _ | .parameter .. | .field .. => true
  | .property _ _ _ writable => writable
  | .typeName _ => false

/-- The owner has to be loaded before the place is read or written. -/
def needsInstance : Binding → Bool
  | .field _ _ isStatic | .property _ _ isStatic _ => !isStatic
  | _ => false

/-- How a binding is shown. -/
def text : Binding → String
  | .variable slot => s!"local #{slot.index} {slot.name}: {slot.ty.text}"
  | .parameter index ty => s!"arg #{index}: {ty.text}"
  | .field f ty isStatic =>
    (if isStatic then "static field " else "field ") ++ s!"{f.owner.text}#{f.index}: {ty.text}"
  | .property p ty _ _ => s!"property {p.owner.text}#{p.index}: {ty.text}"
  | .typeName ty => "type " ++ ty.text

end Binding

end Scriptlet
