import Scriptlet.Registry.Basic

/-!
# The types that every registry knows

The number types, characters, truth values, texts and `void`, with the operators and widenings that
the machine has instructions for, and the members of texts.
-/

namespace Scriptlet.Primitive

/-- Arithmetic between two numbers of one type. -/
def arithmetic : List String :=
  ["op_Addition", "op_Subtraction", "op_Multiply", "op_Division", "op_Modulus"]

/-- The two tests of equality. -/
def equality : List String := ["op_Equality", "op_Inequality"]

/-- All comparisons. -/
def comparison : List String :=
  equality ++ ["op_LessThan", "op_LessThanOrEqual", "op_GreaterThan", "op_GreaterThanOrEqual"]

/-- The operators on bits, which truth values have too. -/
def bitwise : List String := ["op_BitwiseAnd", "op_BitwiseOr", "op_ExclusiveOr"]

/-- The operators on one number. -/
def onNumber : List String := ["op_UnaryNegation", "op_UnaryPlus", "op_Increment", "op_Decrement"]

/-- Operators between two values of a type. -/
def between (ty ret : Ty) (names : List String) : List MethodDef :=
  names.map fun name ↦ .ofIntrinsic name [ty, ty] ret

/-- Operators on one value of a type, which keep the type. -/
def on (ty : Ty) (names : List String) : List MethodDef :=
  names.map fun name ↦ .ofIntrinsic name [ty] ty

/-- The widenings of a type. -/
def widenings (ty : Ty) (targets : List Ty) : List MethodDef :=
  targets.map fun target ↦ .ofIntrinsic implicitName [ty] target

/-- What every number type has. -/
def numeric (ty : Ty) : List MethodDef :=
  between ty ty arithmetic ++ between ty .bool comparison ++ on ty onNumber

/-- Whole numbers. -/
def int : TypeDef :=
  (TypeDef.ofTy .int).addMethods <| numeric .int
    ++ between .int .int (bitwise ++ ["op_LeftShift", "op_RightShift"])
    ++ widenings .int [.float, .double]

/-- Numbers in single precision. -/
def float : TypeDef :=
  (TypeDef.ofTy .float).addMethods (numeric .float ++ widenings .float [.double])

/-- Numbers in double precision. -/
def double : TypeDef := (TypeDef.ofTy .double).addMethods (numeric .double)

/-- Characters. -/
def char : TypeDef :=
  (TypeDef.ofTy .char).addMethods
    (between .char .bool comparison ++ widenings .char [.int, .float, .double])

/-- Truth values. -/
def bool : TypeDef :=
  (TypeDef.ofTy .bool).addMethods
    (between .bool .bool (equality ++ bitwise) ++ on .bool ["op_LogicalNot"])

/-- Texts. -/
def string : TypeDef :=
  ((TypeDef.ofTy .string).addProperty ⟨⟨"Length", ["len"]⟩, .int, false, false⟩).addMethods <|
    between .string .string ["op_Addition"] ++ between .string .bool equality
    ++ [.ofInstance (.ofName indexerName) [.int] .char,
        .ofInstance ⟨"ToUpper", ["upper"]⟩ [] .string,
        .ofInstance ⟨"ToLower", ["lower"]⟩ [] .string,
        .ofInstance (.ofName "Substring") [.int, .int] .string,
        .ofInstance (.ofName "Contains") [.string] .bool]

/-- The definitions that a registry starts with. -/
def defs : List TypeDef := [.ofTy .void, int, float, double, char, bool, string]

end Scriptlet.Primitive

namespace Scriptlet.Registry

/-- The registry in which nothing is declared. -/
def primitive : Registry where
  defs := Primitive.defs
  names := Primitive.defs.map fun d ↦ (d.ty.text, d.ty)
  nextId := 0

end Scriptlet.Registry
