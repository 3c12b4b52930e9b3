import Scriptlet.Proofs.Eval.Machine

/-!
# The calls that are going on

A machine counts the calls that are going on and keeps what each of them goes on to, but not what it
runs: the body of a part is opened when it begins. What holds of a run in the function at hand, such
as the types of its variables, is told with the bodies kept. They are found along the run, a body
more for each call that begins and one less for each that ends, and their number is what the machine
counts.
-/

namespace Scriptlet

/-- A call that is going on: the name that was called, and the body that runs. -/
structure Activation where
  name : String
  body : PartBody

/-- Whether the part is one of the host, for what waits for the end of a part. -/
def Pending.isHost? : Pending → Option Bool
  | .block _ => none
  | .script _ => some false
  | .native _ => some true

namespace Machine

/-- The calls that are going on after the next step, given those before it. The innermost is the
first. -/
def callsNext (limit : Nat) (m : Machine) (calls : List Activation) : List Activation :=
  match m.action with
  | .done _ => calls.drop (m.pending.head?.elim 0 Pending.calls)
  | .call x args l _ =>
    match m.env.part x args.length m.env.callScope l with
    | .error _ => calls
    | .ok part => if limit ≤ m.depth then calls else ⟨x, part.body⟩ :: calls
  | _ => calls

/-- The calls that are going on after a number of steps, given those at the start. -/
def callsAfter (limit : Nat) (m : Machine) (calls : List Activation) : Nat → List Activation
  | 0 => calls
  | n + 1 => (m.after limit n).callsNext limit (m.callsAfter limit calls n)

variable {limit : Nat} {m m' : Machine} {calls : List Activation}

section

variable {x : String} {args : List Value} {l : Location} {next : Except EvalError Value → Action}
  {ps : List Pending} {env : Environment} {depth : Nat} {part : Part} {e : EvalError}

theorem callsNext_call (hpart : env.part x args.length env.callScope l = .ok part)
    (hlimit : depth < limit) :
    callsNext limit ⟨.call x args l next, ps, env, depth⟩ calls = ⟨x, part.body⟩ :: calls := by
  simp only [callsNext, hpart, if_neg (Nat.not_le_of_lt hlimit)]

theorem callsNext_refusePart (hpart : env.part x args.length env.callScope l = .error e) :
    callsNext limit ⟨.call x args l next, ps, env, depth⟩ calls = calls := by
  simp only [callsNext, hpart]

theorem callsNext_refuseDepth (hpart : env.part x args.length env.callScope l = .ok part)
    (hlimit : limit ≤ depth) :
    callsNext limit ⟨.call x args l next, ps, env, depth⟩ calls = calls := by
  simp only [callsNext, hpart, if_pos hlimit]

end

/-- A run takes no step only where nothing is left to do. -/
theorem done_of_step_eq_none (h : m.step limit = none) :
    (∃ r, m.action = .done r) ∧ m.pending = [] := by
  obtain ⟨a, ps, env, depth⟩ := m
  cases a with
  | done r =>
    cases ps with
    | nil => exact ⟨⟨r, rfl⟩, rfl⟩
    | cons p ps => cases h
  | look _ | define _ _ _ | assign _ _ _ | defineFunction _ _ _ _ | print _ _ | block _ _ => cases h
  | setConstant x v l next =>
    cases hset : env.setConstant x v l <;> simp only [step, hset, reduceCtorEq] at h
  | call name args l next =>
    cases hpart : env.part name args.length env.callScope l with
    | error e => simp only [step, hpart, reduceCtorEq] at h
    | ok part =>
      simp only [step, hpart] at h
      split at h <;> cases h

/-- What holds at the start, and is kept by every step with the calls after it, holds at every point
of a run. -/
theorem holds_callsAfter {P : Machine → List Activation → Prop} (hstart : P m calls)
    (hstep : ∀ m m' calls, P m calls → m.step limit = some m' → P m' (m.callsNext limit calls))
    (n : Nat) : P (m.after limit n) (m.callsAfter limit calls n) := by
  induction n with
  | zero => exact hstart
  | succ n ih =>
    rw [after_succ, callsAfter]
    cases h : (m.after limit n).step limit with
    | some m' =>
      rw [advance_of_step h]
      exact hstep _ _ _ ih h
    | none =>
      obtain ⟨⟨r, hdone⟩, hpending⟩ := done_of_step_eq_none h
      rw [advance, h, Option.getD_none, callsNext, hdone, hpending]
      exact ih

/-! ## What waits, and the counter -/

/-- The calls are those that something waits for the end of, in the same order, and the counter says
how many they are. -/
structure Follows (m : Machine) (calls : List Activation) : Prop where
  pending : m.pending.filterMap Pending.isHost? = calls.map fun c ↦ c.body.isNative
  depth : m.depth = calls.length

theorem Follows.of_step (h : m.Follows calls) (hstep : m.step limit = some m') :
    m'.Follows (m.callsNext limit calls) := by
  obtain ⟨hpending, hdepth⟩ := h
  cases transition_of_step hstep with
  | resume p =>
    cases p with
    | block next => exact ⟨hpending, hdepth⟩
    | script next | native next =>
      obtain ⟨c, calls, rfl, -, hrest⟩ := List.map_eq_cons_iff.mp hpending.symm
      refine ⟨hrest.symm, ?_⟩
      simp only [Pending.calls, List.length_cons, callsNext, List.head?_cons, Option.elim_some,
        List.drop_succ_cons, List.drop_zero] at hdepth ⊢
      omega
  | look | define | assign | setConstant _ | refuseConstant _ | defineFunction | print =>
    exact ⟨hpending, hdepth⟩
  | @call _ _ _ next _ _ _ part hpart hlimit =>
    rw [callsNext_call hpart hlimit]
    cases hbody : part.body with
    | native act => exact ⟨congrArg (true :: ·) hpending, congrArg (· + 1) hdepth⟩
    | script params body => exact ⟨congrArg (false :: ·) hpending, congrArg (· + 1) hdepth⟩
  | refusePart hpart =>
    rw [callsNext_refusePart hpart]
    exact ⟨hpending, hdepth⟩
  | refuseDepth hpart hlimit =>
    rw [callsNext_refuseDepth hpart hlimit]
    exact ⟨hpending, hdepth⟩
  | block => exact ⟨hpending, hdepth⟩

/-- At every point of a run of a program what waits and the counter agree with the calls that are
going on. -/
theorem follows_after (limit : Nat) (p : Program) (env : Environment) (n : Nat) :
    ((start p env).after limit n).Follows ((start p env).callsAfter limit [] n) :=
  holds_callsAfter (P := Follows) ⟨rfl, rfl⟩ (fun _ _ _ h ↦ h.of_step) n

end Machine

end Scriptlet
