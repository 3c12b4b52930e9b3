import Scriptlet.Tree.Basic

/-!
# Values

What scripts compute with at run time: null, truth values, whole and floating numbers, characters,
texts and arrays of any of these. Each value has a kind, and operators decide by it.
-/

namespace Scriptlet

/-- The kind of a value. -/
inductive Kind where
  | null | bool | int | float | double | char | string | array
deriving DecidableEq

namespace Kind

/-- The name of a kind. -/
def name : Kind → String
  | null => "null" | bool => "bool" | int => "int" | float => "float" | double => "double"
  | char => "char" | string => "string" | array => "array"

/-- The kind that a type name in a script stands for; null and arrays cannot be named. -/
def ofTypeName? : String → Option Kind
  | "bool" => some bool
  | "int" => some int
  | "float" => some float
  | "double" => some double
  | "char" => some char
  | "string" => some string
  | _ => none

/-- One of the three kinds of numbers. -/
def isNumeric : Kind → Bool
  | int | float | double => true
  | _ => false

end Kind

/-- A value. -/
inductive Value where
  | null
  | bool (b : Bool)
  | int (n : Int64)
  | float (x : Single)
  | double (x : Double)
  | char (c : Char)
  | str (s : String)
  | array (items : List Value)
deriving Inhabited

namespace Value

/-! ## Equality -/

mutual

/-- Equality of values is decidable, by recursion on the first. -/
def decEq : (a b : Value) → Decidable (a = b)
  | .null, b => by
    cases b <;> first
      | exact isTrue rfl
      | exact isFalse (by intro h; cases h)
  | .bool x, b => by
    cases b with
    | bool y => exact decidable_of_iff (x = y) (by simp)
    | _ => exact isFalse (by intro h; cases h)
  | .int x, b => by
    cases b with
    | int y => exact decidable_of_iff (x = y) (by simp)
    | _ => exact isFalse (by intro h; cases h)
  | .float x, b => by
    cases b with
    | float y => exact decidable_of_iff (x = y) (by simp)
    | _ => exact isFalse (by intro h; cases h)
  | .double x, b => by
    cases b with
    | double y => exact decidable_of_iff (x = y) (by simp)
    | _ => exact isFalse (by intro h; cases h)
  | .char x, b => by
    cases b with
    | char y => exact decidable_of_iff (x = y) (by simp)
    | _ => exact isFalse (by intro h; cases h)
  | .str x, b => by
    cases b with
    | str y => exact decidable_of_iff (x = y) (by simp)
    | _ => exact isFalse (by intro h; cases h)
  | .array xs, b => by
    cases b with
    | array ys =>
      exact match decEqList xs ys with
        | isTrue h => isTrue (congrArg _ h)
        | isFalse h => isFalse fun e ↦ h (Value.array.inj e)
    | _ => exact isFalse (by intro h; cases h)

/-- Equality of lists of values is decidable, by recursion on the first. -/
def decEqList : (as bs : List Value) → Decidable (as = bs)
  | [], [] => isTrue rfl
  | [], _ :: _ => isFalse (by intro h; cases h)
  | _ :: _, [] => isFalse (by intro h; cases h)
  | a :: as, b :: bs =>
    match decEq a b, decEqList as bs with
    | isTrue h, isTrue k => isTrue (by rw [h, k])
    | isFalse h, _ => isFalse fun e ↦ h (List.cons.inj e).1
    | _, isFalse k => isFalse fun e ↦ k (List.cons.inj e).2

end

instance : DecidableEq Value := decEq

/-! ## Views -/

/-- The kind of a value. -/
def kind : Value → Kind
  | .null => .null
  | .bool _ => .bool
  | .int _ => .int
  | .float _ => .float
  | .double _ => .double
  | .char _ => .char
  | .str _ => .string
  | .array _ => .array

/-- The null value. -/
def isNull : Value → Bool
  | .null => true
  | _ => false

/-- The whole number that a value is. -/
def asInt? : Value → Option Int64
  | .int n => some n
  | _ => none

/-- The text that a value is. -/
def asStr? : Value → Option String
  | .str s => some s
  | _ => none

/-- The whole number that a character stands for. -/
def codeOf (c : Char) : Int64 := Int64.ofInt c.toNat

/-- The value as a whole number: a character counts as its code point, truth as one. -/
def toInt? : Value → Option Int64
  | .int n => some n
  | .char c => some (codeOf c)
  | .bool b => some (if b then 1 else 0)
  | _ => none

/-- The value as a double: a character counts as its code point. -/
def toDouble? : Value → Option Double
  | .int n => some (.ofInt n.toInt)
  | .float x => some (x.convert .double)
  | .double x => some x
  | .char c => some (.ofInt c.toNat)
  | _ => none

/-- How a value counts in a condition: null, zeros and whatever is empty are false. -/
def isTruthy : Value → Bool
  | .null => false
  | .bool b => b
  | .int n => n != 0
  | .float x => !x.isZero
  | .double x => !x.isZero
  | .char c => c != '\x00'
  | .str s => !s.toList.isEmpty
  | .array items => !items.isEmpty

mutual

/-- The text of a value; texts inside an array are written as they are. -/
def text : Value → String
  | .null => "null"
  | .bool b => if b then "true" else "false"
  | .int n => Whole.text n
  | .float x => x.text
  | .double x => x.text
  | .char c => c.toString
  | .str s => s
  | .array items => "[" ++ ", ".intercalate (texts items) ++ "]"

/-- The texts of the values in a list. -/
def texts : List Value → List String
  | [] => []
  | v :: vs => v.text :: texts vs

end

/-! ## Equality in scripts -/

/-- Equality of two values that are not arrays: numbers are compared across their kinds, everything
else only within its own. -/
def scalarEq (a b : Value) : Bool :=
  match a, b with
  | .null, .null => true
  | .bool x, .bool y => x == y
  | .str x, .str y => x == y
  | .char x, .char y => x == y
  | .int x, .int y => x == y
  | a, b =>
    if a.kind.isNumeric && b.kind.isNumeric then
      match a.toDouble?, b.toDouble? with
      | some x, some y => x.valueEq y
      | _, _ => false
    else false

mutual

/-- Equality as scripts see it; arrays are equal element by element. -/
def looseEq : Value → Value → Bool
  | .array xs, .array ys => looseEqList xs ys
  | a, b => scalarEq a b

/-- Equality of two lists element by element. -/
def looseEqList : List Value → List Value → Bool
  | [], [] => true
  | x :: xs, y :: ys => looseEq x y && looseEqList xs ys
  | _, _ => false

end

end Value

/-! ## Literals -/

/-- The value of a literal. -/
def Literal.value : Literal → Value
  | .int n => .int n
  | .double x => .double x
  | .str s => .str s
  | .bool b => .bool b

end Scriptlet
