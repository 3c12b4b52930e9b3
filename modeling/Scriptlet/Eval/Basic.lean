import Scriptlet.Environment.Basic

/-!
# Computations on an environment

An evaluation reads and changes an environment and ends with a value or an error. Changes made
before an error stay: a script that fails has still printed its lines and set its variables.
-/

namespace Scriptlet

/-- A computation on an environment that may fail. -/
def Eval (α : Type) := Environment → Except EvalError α × Environment

namespace Eval

variable {α β : Type}

/-- The computation that only has a value. -/
protected def pure (a : α) : Eval α := fun env ↦ (.ok a, env)

/-- One computation and then another; an error ends both. -/
protected def bind (m : Eval α) (k : α → Eval β) : Eval β := fun env ↦
  match m env with
  | (.ok a, env') => k a env'
  | (.error e, env') => (.error e, env')

instance : Monad Eval where
  pure := Eval.pure
  bind := Eval.bind

/-- The computation that fails. -/
def fail (e : EvalError) : Eval α := fun env ↦ (.error e, env)

/-- The computation with a given result. -/
def lift (r : Except EvalError α) : Eval α := fun env ↦ (r, env)

/-- Something that the environment says. -/
def ask (f : Environment → α) : Eval α := fun env ↦ (.ok (f env), env)

/-- A change of the environment. -/
def change (f : Environment → Environment) : Eval Unit := fun env ↦ (.ok (), f env)

/-- A change of the environment that may be refused and then leaves it as it is. -/
def tryChange (f : Environment → Except EvalError Environment) : Eval Unit := fun env ↦
  match f env with
  | .ok env' => (.ok (), env')
  | .error e => (.error e, env)

/-- A computation inside a new frame, which is removed however the computation ends. -/
def inFrame (kind : FrameKind) (m : Eval α) : Eval α := fun env ↦
  let r := m (env.push kind)
  (r.1, r.2.pop)

/-! ## Success -/

variable {env env' : Environment}

theorem bind_eq_ok_iff {m : Eval α} {k : α → Eval β} {b : β} :
    (m >>= k) env = (.ok b, env') ↔
      ∃ a env₁, m env = (.ok a, env₁) ∧ k a env₁ = (.ok b, env') := by
  rw [show (m >>= k) env = Eval.bind m k env from rfl, Eval.bind]
  rcases m env with ⟨e | a, env₁⟩
  · simp
  · refine ⟨fun h ↦ ⟨a, env₁, rfl, h⟩, ?_⟩
    rintro ⟨_, _, ⟨⟩, h⟩
    exact h

theorem pure_eq_ok_iff {a b : α} :
    (pure a : Eval α) env = (.ok b, env') ↔ a = b ∧ env' = env := by
  rw [show (pure a : Eval α) env = (.ok a, env) from rfl, Prod.mk.injEq, Except.ok.injEq,
    eq_comm (a := env)]

theorem lift_eq_ok_iff {r : Except EvalError α} {a : α} :
    lift r env = (.ok a, env') ↔ r = .ok a ∧ env' = env := by
  rw [lift, Prod.mk.injEq, eq_comm (a := env)]

end Eval

/-- How a statement ended: it ran through and has a value, or a return is on its way to the call. -/
inductive Flow where
  | normal (v : Value)
  | returning (v : Value)
deriving DecidableEq

/-- The value, whichever way the statement ended. -/
def Flow.value : Flow → Value
  | .normal v | .returning v => v

end Scriptlet
