/-!
# Results of checks

What is known of checks that have a result: of a choice with an error on the other side, and of two
checks one after the other.
-/

namespace Scriptlet

variable {ε α β : Type}

theorem ok_of_toOption {r : Except ε α} {a : α} (h : r.toOption = some a) : r = .ok a := by
  cases r with
  | error e => cases h
  | ok b => exact congrArg _ (Option.some.inj h)

theorem of_ite_ok {p : Prop} [Decidable p] {a b : α} {e : ε}
    (h : (if p then .ok a else .error e : Except ε α) = .ok b) : p ∧ a = b := by
  split at h
  · rename_i hp
    exact ⟨hp, Except.ok.inj h⟩
  · cases h

theorem of_ite_error {p : Prop} [Decidable p] {a : α} {e e' : ε}
    (h : (if p then .ok a else .error e : Except ε α) = .error e') : e = e' := by
  split at h
  · cases h
  · exact Except.error.inj h

/-- Two checks have a result only if the first has one, and the second has it for that. -/
theorem of_bind_ok {r : Except ε α} {next : α → Except ε β} {b : β} (h : r >>= next = .ok b) :
    ∃ a, r = .ok a ∧ next a = .ok b := by
  cases r with
  | error e => cases h
  | ok a => exact ⟨a, rfl, h⟩

end Scriptlet
