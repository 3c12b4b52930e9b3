import Scriptlet.Bind.Error
import Scriptlet.Code.Emission
import Scriptlet.Eval.Error

/-!
# Errors without places

Every error says where it happened. Two runs of the same code at different places can still be
compared: their results are the same up to places if they have the same value, or errors that say
the same except for where.
-/

namespace Scriptlet

/-- The error, moved to the start of the text. -/
def EvalError.withoutPlace : EvalError → EvalError
  | missingPart name arity _ => missingPart name arity .start
  | undefinedFunction name _ => undefinedFunction name .start
  | unboundIdentifier name _ => unboundIdentifier name .start
  | notImplemented what _ => notImplemented what .start
  | invalidOperands op operands _ => invalidOperands op operands .start
  | integerOverflow operation _ => integerOverflow operation .start
  | divisionByZero _ => divisionByZero .start
  | indexOutOfRange index length _ => indexOutOfRange index length .start
  | invalidTarget _ => invalidTarget .start
  | constantReassignment name _ => constantReassignment name .start
  | thrown value _ => thrown value .start
  | recursionLimit limit _ => recursionLimit limit .start

/-- The error, moved to the start of the text. -/
def BindError.withoutPlace : BindError → BindError
  | unboundIdentifier name _ => unboundIdentifier name .start
  | missingMember ty name _ => missingMember ty name .start
  | overloadNotFound name arity _ => overloadNotFound name arity .start
  | argumentTypeMismatch name args _ => argumentTypeMismatch name args .start
  | operatorNotFound op left _ => operatorNotFound op left .start
  | invalidOperation op operands _ => invalidOperation op operands .start
  | branchTypeMismatch onTrue onFalse _ => branchTypeMismatch onTrue onFalse .start
  | invalidDeclaration name _ => invalidDeclaration name .start
  | typeMismatch expected found _ => typeMismatch expected found .start
  | unknownType name _ => unknownType name .start
  | notAssignable _ => notAssignable .start
  | alreadyResolved _ => alreadyResolved .start
  | unsupported what _ => unsupported what .start

/-- The error, moved to the start of the text. -/
def EmitError.withoutPlace : EmitError → EmitError
  | unbound _ => unbound .start
  | noValue ty _ => noValue ty .start
  | readOnly _ => readOnly .start
  | unsupported what _ => unsupported what .start

/-- The same value, or errors between which `f` makes no difference. -/
def SameUpTo {ε α : Type} (f : ε → ε) (r r' : Except ε α) : Prop := r.mapError f = r'.mapError f

namespace SameUpTo

variable {ε α β : Type} {f : ε → ε} {r r' r'' : Except ε α}

theorem refl (r : Except ε α) : SameUpTo f r r := rfl

theorem symm (h : SameUpTo f r r') : SameUpTo f r' r := Eq.symm h

theorem trans (h : SameUpTo f r r') (h' : SameUpTo f r' r'') : SameUpTo f r r'' := Eq.trans h h'

theorem error {e e' : ε} (h : f e = f e') : SameUpTo (α := α) f (.error e) (.error e') :=
  congrArg Except.error h

/-- Two results that are the same are two values or two errors. -/
theorem ok_or_error (h : SameUpTo f r r') :
    (∃ a, r = .ok a ∧ r' = .ok a) ∨ ∃ e e', r = .error e ∧ r' = .error e' ∧ f e = f e' := by
  cases r with
  | ok a =>
    cases r' with
    | ok a' => exact .inl ⟨a, rfl, by rw [Except.ok.inj h]⟩
    | error e' => cases h
  | error e =>
    cases r' with
    | ok a' => cases h
    | error e' => exact .inr ⟨e, e', rfl, rfl, Except.error.inj h⟩

/-- What comes after a value comes after the same value; an error stays the same. -/
theorem bind {k k' : α → Except ε β} (h : SameUpTo f r r') (hk : ∀ a, SameUpTo f (k a) (k' a)) :
    SameUpTo f (r >>= k) (r' >>= k') := by
  rcases h.ok_or_error with ⟨a, rfl, rfl⟩ | ⟨e, e', rfl, rfl, he⟩
  · exact hk a
  · exact .error he

end SameUpTo

end Scriptlet
