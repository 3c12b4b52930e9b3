/-!
# Static types

The types that binding gives to the nodes of a tree. A declared type is known by a number, so two
declarations of one name are two types; its name is kept for messages.
-/

namespace Scriptlet

/-- A static type. `null` is the type of the null literal only. -/
inductive Ty where
  | void | null | bool | char | int | float | double | string
  | array (element : Ty)
  | named (id : Nat) (name : String)
  | delegate (params : List Ty) (ret : Ty)
deriving Inhabited

namespace Ty

/-! ## Equality -/

mutual

/-- Equality of types is decidable, by recursion on the first. -/
def decEq : (a b : Ty) → Decidable (a = b)
  | .void, b | .null, b | .bool, b | .char, b | .int, b | .float, b | .double, b | .string, b => by
    cases b <;> first
      | exact isTrue rfl
      | exact isFalse (by intro h; cases h)
  | .array a, b => by
    cases b with
    | array b =>
      exact match decEq a b with
        | isTrue h => isTrue (congrArg _ h)
        | isFalse h => isFalse fun e ↦ h (Ty.array.inj e)
    | _ => exact isFalse (by intro h; cases h)
  | .named i m, b => by
    cases b with
    | named j n => exact decidable_of_iff (i = j ∧ m = n) (by simp)
    | _ => exact isFalse (by intro h; cases h)
  | .delegate ps r, b => by
    cases b with
    | delegate qs s =>
      exact match decEqList ps qs, decEq r s with
        | isTrue h, isTrue k => isTrue (by rw [h, k])
        | isFalse h, _ => isFalse fun e ↦ h (Ty.delegate.inj e).1
        | _, isFalse k => isFalse fun e ↦ k (Ty.delegate.inj e).2
    | _ => exact isFalse (by intro h; cases h)

/-- Equality of lists of types is decidable, by recursion on the first. -/
def decEqList : (as bs : List Ty) → Decidable (as = bs)
  | [], [] => isTrue rfl
  | [], _ :: _ => isFalse (by intro h; cases h)
  | _ :: _, [] => isFalse (by intro h; cases h)
  | a :: as, b :: bs =>
    match decEq a b, decEqList as bs with
    | isTrue h, isTrue k => isTrue (by rw [h, k])
    | isFalse h, _ => isFalse fun e ↦ h (List.cons.inj e).1
    | _, isFalse k => isFalse fun e ↦ k (List.cons.inj e).2

end

instance : DecidableEq Ty := decEq

/-! ## Classification -/

/-- The widening rank of a number type; other types have none. -/
def rank? : Ty → Option Nat
  | .int => some 1
  | .float => some 2
  | .double => some 3
  | _ => none

/-- A type whose values may be null. -/
def isReference : Ty → Bool
  | .null | .string | .array _ | .named .. | .delegate .. => true
  | _ => false

/-- The type of an array's elements. -/
def element? : Ty → Option Ty
  | .array e => some e
  | _ => none

/-- The array type with `rank` dimensions over an element type. -/
def arrayOf (element : Ty) : (rank : Nat) → Ty
  | 0 => element
  | n + 1 => .array (arrayOf element n)

/-! ## Text -/

mutual

/-- How a type is written. -/
def text : Ty → String
  | .void => "void"
  | .null => "null"
  | .bool => "bool"
  | .char => "char"
  | .int => "int"
  | .float => "float"
  | .double => "double"
  | .string => "string"
  | .array e => e.text ++ "[]"
  | .named _ name => name
  | .delegate params ret => "(" ++ ", ".intercalate (texts params) ++ ") => " ++ ret.text

/-- How the types of a list are written. -/
def texts : List Ty → List String
  | [] => []
  | t :: ts => t.text :: texts ts

end

/-- Types in a list, parted by commas. -/
def listText (ts : List Ty) : String := ", ".intercalate (texts ts)

end Ty

end Scriptlet
