import Scriptlet.Code.Instruction
import Scriptlet.Location

/-!
# Pieces of code

A piece of code is known once the number of the first free label is. Pieces are put one after
another; each numbers its labels on from where the one before it ended. A piece may fail, and then
the code in front of the failure is still there.
-/

namespace Scriptlet

/-! ## Errors -/

/-- A form that there is no code for. -/
inductive Unemittable where
  | unaryOperator
  | incrementOfInstance
  | groupedPair
  | constructorTarget
  | indexerTarget
  | lambda
  | omittedExpression
  | callTarget
deriving DecidableEq

/-- How the form is named. -/
def Unemittable.text : Unemittable → String
  | .unaryOperator => "non-method unary operator"
  | .incrementOfInstance => "increment of an instance member"
  | .groupedPair => "transparent binary operator"
  | .constructorTarget => "constructor target"
  | .indexerTarget => "indexer target"
  | .lambda => "lambda expression"
  | .omittedExpression => "omitted expression"
  | .callTarget => "call target"

/-- Why there is no code for a tree. -/
inductive EmitError where
  | unbound (location : Location)
  | noValue (ty : Ty) (location : Location)
  | readOnly (location : Location)
  | unsupported (what : Unemittable) (location : Location)
deriving DecidableEq

namespace EmitError

/-- Where the failure is. -/
def location : EmitError → Location
  | unbound l | noValue _ l | readOnly l | unsupported _ l => l

/-- The message of an error. -/
def message : EmitError → String
  | unbound l => s!"Node at {l.text} was not bound"
  | noValue ty l => s!"Type '{ty.text}' has no value to load at {l.text}"
  | readOnly l => s!"Member at {l.text} is read-only"
  | unsupported what l => s!"{what.text} cannot be emitted at {l.text}"

end EmitError

/-! ## Pieces -/

/-- Code, the number of the next free label, and the error at its end, if there is one. -/
structure Emission where
  code : List Instruction
  labels : Nat
  failure : Option EmitError
deriving DecidableEq

/-- A piece of code, given the number of the first free label. -/
def Emit := Nat → Emission

namespace Emit

/-- No code. -/
def nothing : Emit := fun n ↦ ⟨[], n, none⟩

/-- One instruction. -/
def put (i : Instruction) : Emit := fun n ↦ ⟨[i], n, none⟩

/-- No code, but a failure. -/
def fail (e : EmitError) : Emit := fun n ↦ ⟨[], n, some e⟩

/-- One piece and then another, which is not reached if the first fails. -/
def andThen (a b : Emit) : Emit := fun n ↦
  let first := a n
  match first.failure with
  | some _ => first
  | none =>
    let second := b first.labels
    ⟨first.code ++ second.code, second.labels, second.failure⟩

instance : Append Emit := ⟨andThen⟩

/-- A piece that uses a new label. -/
def fresh (piece : Nat → Emit) : Emit := fun n ↦ piece n (n + 1)

/-- A piece that depends on something that has to be there. -/
def require {α : Type} (a : Option α) (l : Location) (piece : α → Emit) : Emit :=
  match a with
  | some a => piece a
  | none => fail (.unbound l)

/-- A call. -/
def call (i : Invocation) : Emit := put (.call i)

end Emit

end Scriptlet
