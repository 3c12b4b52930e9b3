import Mathlib.Logic.Function.Iterate
import Scriptlet.Proofs.Environment.Operation
import Scriptlet.Proofs.Eval.Action

/-!
# Runs, step by step

A machine carries out actions one at a time. It keeps the environment, a counter of the calls that
are going on, and a stack of what waits for the end of the actions at hand: a block or a call. No
budget is handed down: a call is refused when the counter has reached the limit, and otherwise the
counter goes up, and down again when the body has ended in whatever way.

The evaluator and the machine agree: from any actions, environment, counter and stack the machine
comes to the point where the actions are done, with the result and the environment of the evaluator,
the same counter and the same stack. In particular every run ends.
-/

namespace Scriptlet

/-- The value of a call whose body ended so: without a return it is null. -/
def Flow.result : Flow → Value
  | .returning v => v
  | .normal _ => .null

/-- What waits for the end of the actions at hand: a block, the body of a part that a script
defines, or a part of the host. -/
inductive Pending where
  | block (next : Flow → Action)
  | script (next : Except EvalError Value → Action)
  | native (next : Except EvalError Value → Action)

namespace Pending

/-- How many calls it stands for. -/
def calls : Pending → Nat
  | .block _ => 0
  | .script _ | .native _ => 1

/-- The kinds of the frames it has pushed. -/
def frames : Pending → List FrameKind
  | .block _ => [.block]
  | .script _ => [.function]
  | .native _ => []

/-- The environment in which its actions begin. -/
def enter (env : Environment) : Pending → Environment
  | .block _ => env.push .block
  | .script _ => env.push .function
  | .native _ => env

/-- The environment after its actions have ended. -/
def leave (env : Environment) : Pending → Environment
  | .block _ | .script _ => env.pop
  | .native _ => env

/-- How it goes on when its actions have ended: an error ends what is around a block, too, and is
handed to whoever made a call. -/
def resume (r : Except EvalError Flow) : Pending → Action
  | .block next => .attempt r next
  | .script next | .native next => next (r.map Flow.result)

end Pending

/-- A point of a run: the actions from here on, what waits for their end with the innermost first,
the environment, and how many calls are going on. -/
structure Machine where
  action : Action
  pending : List Pending
  env : Environment
  depth : Nat

namespace Machine

/-- The point where the actions of a block or a call begin. -/
def begin (m : Machine) (p : Pending) (a : Action) : Machine :=
  ⟨a, p :: m.pending, p.enter m.env, m.depth + p.calls⟩

/-- The point where the body of a part begins. The parameters are the first things it defines. -/
def beginBody (m : Machine) (args : List Value) (l : Location)
    (next : Except EvalError Value → Action) : PartBody → Machine
  | .native act => m.begin (.native next) (.ofHost (act args l))
  | .script params body => m.begin (.script next)
      (.defineAll (params.zip args) (.statements .null body .finish))

/-- One step; there is none when nothing is left to do. -/
def step (limit : Nat) (m : Machine) : Option Machine :=
  match m.action with
  | .done r =>
    match m.pending with
    | [] => none
    | p :: ps => some ⟨p.resume r, ps, p.leave m.env, m.depth - p.calls⟩
  | .look next => some { m with action := next m.env }
  | .define x v next => some { m with action := next, env := m.env.define x v }
  | .assign x v next => some { m with action := next, env := m.env.assign x v }
  | .setConstant x v l next =>
    match m.env.setConstant x v l with
    | .ok env => some { m with action := next, env := env }
    | .error e => some { m with action := .fail e }
  | .defineFunction name params body next =>
    some { m with
      action := next
      env := m.env.defineFunction name (.ofScript params body (Eval.scopeOfDefinition m.env)) }
  | .print line next => some { m with action := next, env := m.env.print line }
  | .call name args l next =>
    match m.env.part name args.length m.env.callScope l with
    | .error e => some { m with action := next (.error e) }
    | .ok part =>
      if limit ≤ m.depth then some { m with action := next (.error (.recursionLimit limit l)) }
      else some (m.beginBody args l next part.body)
  | .block body next => some (m.begin (.block next) body)

/-- One step, or none. -/
def advance (limit : Nat) (m : Machine) : Machine := (m.step limit).getD m

/-- The point of a run after a number of steps. A run that has ended stays where it is. -/
def after (limit : Nat) (m : Machine) (n : Nat) : Machine := (advance limit)^[n] m

variable {limit : Nat} {m m' m'' : Machine}

theorem after_zero : m.after limit 0 = m := rfl

theorem after_succ (n : Nat) : m.after limit (n + 1) = (m.after limit n).advance limit :=
  Function.iterate_succ_apply' _ _ _

theorem after_add (n k : Nat) : m.after limit (n + k) = (m.after limit n).after limit k := by
  rw [after, after, after, Nat.add_comm, Function.iterate_add_apply]

theorem advance_of_step (h : m.step limit = some m') : m.advance limit = m' := by
  rw [advance, h, Option.getD_some]

theorem after_of_step_eq_none (h : m.step limit = none) (n : Nat) : m.after limit n = m := by
  induction n with
  | zero => rfl
  | succ n ih => rw [after_succ, ih, advance, h, Option.getD_none]

/-- What holds at the start and is kept by every step holds at every point of a run. -/
theorem holds_after {P : Machine → Prop} (hstart : P m)
    (hstep : ∀ m m', P m → m.step limit = some m' → P m') (n : Nat) : P (m.after limit n) := by
  induction n with
  | zero => exact hstart
  | succ n ih =>
    rw [after_succ]
    cases h : (m.after limit n).step limit with
    | none => rwa [advance, h]
    | some m' =>
      rw [advance_of_step h]
      exact hstep _ _ ih h

/-! ## The ways a step goes -/

/-- The ways a step goes, with what makes it go so. -/
inductive Transition (limit : Nat) : Machine → Machine → Prop where
  | resume {r ps env depth} (p : Pending) :
      Transition limit ⟨.done r, p :: ps, env, depth⟩
        ⟨p.resume r, ps, p.leave env, depth - p.calls⟩
  | look {next ps env depth} :
      Transition limit ⟨.look next, ps, env, depth⟩ ⟨next env, ps, env, depth⟩
  | define {x v next ps env depth} :
      Transition limit ⟨.define x v next, ps, env, depth⟩ ⟨next, ps, env.define x v, depth⟩
  | assign {x v next ps env depth} :
      Transition limit ⟨.assign x v next, ps, env, depth⟩ ⟨next, ps, env.assign x v, depth⟩
  | setConstant {x v l next ps env env' depth} (h : env.setConstant x v l = .ok env') :
      Transition limit ⟨.setConstant x v l next, ps, env, depth⟩ ⟨next, ps, env', depth⟩
  | refuseConstant {x v l next ps env depth e} (h : env.setConstant x v l = .error e) :
      Transition limit ⟨.setConstant x v l next, ps, env, depth⟩ ⟨.fail e, ps, env, depth⟩
  | defineFunction {name params body next ps env depth} :
      Transition limit ⟨.defineFunction name params body next, ps, env, depth⟩
        ⟨next, ps,
          env.defineFunction name (.ofScript params body (Eval.scopeOfDefinition env)), depth⟩
  | print {line next ps env depth} :
      Transition limit ⟨.print line next, ps, env, depth⟩ ⟨next, ps, env.print line, depth⟩
  | call {name args l next ps env depth part}
      (h : env.part name args.length env.callScope l = .ok part) (hlimit : depth < limit) :
      Transition limit ⟨.call name args l next, ps, env, depth⟩
        (beginBody ⟨.call name args l next, ps, env, depth⟩ args l next part.body)
  | refusePart {name args l next ps env depth e}
      (h : env.part name args.length env.callScope l = .error e) :
      Transition limit ⟨.call name args l next, ps, env, depth⟩ ⟨next (.error e), ps, env, depth⟩
  | refuseDepth {name args l next ps env depth part}
      (h : env.part name args.length env.callScope l = .ok part) (hlimit : limit ≤ depth) :
      Transition limit ⟨.call name args l next, ps, env, depth⟩
        ⟨next (.error (.recursionLimit limit l)), ps, env, depth⟩
  | block {body next ps env depth} :
      Transition limit ⟨.block body next, ps, env, depth⟩
        (begin ⟨.block body next, ps, env, depth⟩ (.block next) body)

theorem Transition.step_eq (h : Transition limit m m') : m.step limit = some m' := by
  cases h with
  | setConstant h | refuseConstant h | refusePart h => simp only [step, h]
  | call h hlimit => simp only [step, h, if_neg (Nat.not_le_of_lt hlimit)]
  | refuseDepth h hlimit => simp only [step, h, if_pos hlimit]
  | _ => rfl

theorem transition_of_step (h : m.step limit = some m') : Transition limit m m' := by
  obtain ⟨a, ps, env, depth⟩ := m
  cases a with
  | done r =>
    cases ps with
    | nil => cases h
    | cons p ps =>
      obtain rfl := Option.some.inj h
      exact .resume p
  | look _ | define _ _ _ | assign _ _ _ | defineFunction _ _ _ _ | print _ _ | block _ _ =>
    obtain rfl := Option.some.inj h
    constructor
  | setConstant x v l next =>
    cases hset : env.setConstant x v l with
    | ok env' =>
      simp only [step, hset] at h
      obtain rfl := Option.some.inj h
      exact .setConstant hset
    | error e =>
      simp only [step, hset] at h
      obtain rfl := Option.some.inj h
      exact .refuseConstant hset
  | call name args l next =>
    cases hpart : env.part name args.length env.callScope l with
    | error e =>
      simp only [step, hpart] at h
      obtain rfl := Option.some.inj h
      exact .refusePart hpart
    | ok part =>
      simp only [step, hpart] at h
      split at h
      · obtain rfl := Option.some.inj h
        exact .refuseDepth hpart ‹_›
      · obtain rfl := Option.some.inj h
        exact .call hpart (Nat.lt_of_not_le ‹_›)

/-! ## Reaching a point -/

/-- The second point is one of the run from the first. -/
def Reaches (limit : Nat) (m m' : Machine) : Prop := ∃ n, m.after limit n = m'

namespace Reaches

theorem refl (m : Machine) : Reaches limit m m := ⟨0, rfl⟩

theorem trans (h : Reaches limit m m') (h' : Reaches limit m' m'') : Reaches limit m m'' := by
  obtain ⟨n, rfl⟩ := h
  obtain ⟨k, rfl⟩ := h'
  exact ⟨n + k, after_add n k⟩

theorem head (hstep : m.step limit = some m') (h : Reaches limit m' m'') :
    Reaches limit m m'' := by
  refine trans ⟨1, ?_⟩ h
  rw [after_succ, after_zero, advance_of_step hstep]

theorem single (hstep : m.step limit = some m') : Reaches limit m m' := .head hstep (.refl m')

/-- A run has one end only. -/
theorem eq_of_final (h : Reaches limit m m') (h' : Reaches limit m m'')
    (hfinal : m'.step limit = none) (hfinal' : m''.step limit = none) : m' = m'' := by
  obtain ⟨n, rfl⟩ := h
  obtain ⟨k, rfl⟩ := h'
  rcases Nat.le_total n k with hle | hle
  · obtain ⟨j, rfl⟩ := Nat.exists_eq_add_of_le hle
    rw [after_add, after_of_step_eq_none hfinal]
  · obtain ⟨j, rfl⟩ := Nat.exists_eq_add_of_le hle
    rw [after_add, after_of_step_eq_none hfinal']

end Reaches

/-! ## The machine agrees with the evaluator -/

variable {invoke : String → List Value → Location → Eval Value} {depth : Nat}

/-- Where calls agree with `invoke`, all actions do. -/
theorem reaches_run_of_calls
    (hcalls : ∀ name args l next ps env,
      Reaches limit ⟨.call name args l next, ps, env, depth⟩
        ⟨next (invoke name args l env).1, ps, (invoke name args l env).2, depth⟩)
    (a : Action) (ps : List Pending) (env : Environment) :
    Reaches limit ⟨a, ps, env, depth⟩
      ⟨.done (a.run invoke env).1, ps, (a.run invoke env).2, depth⟩ := by
  induction a generalizing ps env with
  | done r => exact .refl _
  | look next ih => exact .head rfl (ih env ps env)
  | define x v next ih => exact .head rfl (ih ps _)
  | assign x v next ih => exact .head rfl (ih ps _)
  | setConstant x v l next ih =>
    cases h : env.setConstant x v l with
    | ok env' =>
      simp only [Action.run, h]
      exact .head (Transition.setConstant h).step_eq (ih ps env')
    | error e =>
      simp only [Action.run, h]
      exact .single (Transition.refuseConstant h).step_eq
  | defineFunction name params body next ih => exact .head rfl (ih ps _)
  | print line next ih => exact .head rfl (ih ps _)
  | call name args l next ih => exact (hcalls name args l next ps env).trans (ih _ ps _)
  | block body next ihbody ihnext =>
    -- the one action that waits: its body comes to its end with one more entry pending
    refine .head rfl ((ihbody (.block next :: ps) (env.push .block)).trans (.head rfl ?_))
    simp only [Action.run]
    rcases body.run invoke (env.push .block) with ⟨_ | flow, env'⟩
    · exact .refl _
    · exact ihnext flow ps env'.pop

theorem run_defineAll (ps : List (String × Value)) (next : Action) (env : Environment) :
    (Action.defineAll ps next).run invoke env
      = next.run invoke (ps.foldl (fun env p ↦ env.define p.1 p.2) env) := by
  induction ps generalizing env with
  | nil => rfl
  | cons p ps ih => exact ih (env.define p.1 p.2)

theorem run_ofHost (act : HostAction) (env : Environment) :
    (Action.ofHost act).run invoke env
      = ((Eval.host invoke act env).1.map .returning, (Eval.host invoke act env).2) := by
  induction act generalizing env with
  | done r => rfl
  | print line next ih => exact ih (env.print line)
  | call name args l next ih => exact ih _ _

theorem run_statements (last : Value) (sts : List Statement) (env : Environment) :
    (Action.statements last sts .finish).run invoke env = Eval.statements invoke last sts env := by
  have hdoes : Action.Does invoke (Action.statements last sts) (Eval.statements invoke last sts) :=
    Action.does_statements fun st _ ↦ Action.tree_does.statement st
  rw [hdoes]
  simp only [Bind.bind, Eval.bind]
  rcases Eval.statements invoke last sts env with ⟨_ | flow, env'⟩ <;> rfl

theorem body_script (params : List String) (sts : List Statement) (args : List Value)
    (l : Location) (env : Environment) :
    Eval.body invoke (.script params sts) args l env
      = let r := Eval.statements invoke .null sts
          ((params.zip args).foldl (fun env p ↦ env.define p.1 p.2) (env.push .function))
        (r.1.map Flow.result, r.2.pop) := by
  simp only [Eval.body, Eval.inFrame, Eval.change, Bind.bind, Eval.bind]
  rcases Eval.statements invoke .null sts _ with ⟨_ | flow, env'⟩
  · rfl
  · cases flow with
    | normal v => rfl
    | returning v => rfl

/-- Where the calls inside a body agree with `invoke`, the body does. -/
theorem reaches_body
    (hcalls : ∀ name args l next ps env,
      Reaches limit ⟨.call name args l next, ps, env, depth + 1⟩
        ⟨next (invoke name args l env).1, ps, (invoke name args l env).2, depth + 1⟩)
    (a : Action) (b : PartBody) (args : List Value) (l : Location)
    (next : Except EvalError Value → Action) (ps : List Pending) (env : Environment) :
    Reaches limit (beginBody ⟨a, ps, env, depth⟩ args l next b)
      ⟨next (Eval.body invoke b args l env).1, ps, (Eval.body invoke b args l env).2, depth⟩ := by
  cases b with
  | native act =>
    refine (reaches_run_of_calls hcalls _ (.native next :: ps) env).trans (.single ?_)
    have hresult : ∀ r : Except EvalError Value, (r.map Flow.returning).map Flow.result = r := by
      intro r
      cases r with
      | ok v => rfl
      | error e => rfl
    simp only [run_ofHost, step, Pending.resume, Pending.leave, Pending.calls,
      Nat.add_sub_cancel, hresult, Eval.body]
  | script params sts =>
    refine (reaches_run_of_calls hcalls _ (.script next :: ps) (env.push .function)).trans
      (.single ?_)
    simp only [run_defineAll, run_statements, step, Pending.resume, Pending.leave, Pending.calls,
      Nat.add_sub_cancel, body_script]

/-- A call comes to its end with the result of the evaluator, whose budget is what the counter has
left. -/
theorem reaches_call (depth : Nat) (name : String) (args : List Value) (l : Location)
    (next : Except EvalError Value → Action) (ps : List Pending) (env : Environment) :
    Reaches limit ⟨.call name args l next, ps, env, depth⟩
      ⟨next (Eval.call limit (limit - depth) name args l env).1, ps,
        (Eval.call limit (limit - depth) name args l env).2, depth⟩ := by
  -- the counter goes up where the evaluator hands a smaller budget down
  generalize hbudget : limit - depth = budget
  induction budget generalizing depth name args l next ps env with
  | zero =>
    have hlimit : limit ≤ depth := by omega
    cases hpart : env.part name args.length env.callScope l with
    | error e =>
      simp only [Eval.call, Bind.bind, Eval.bind, Eval.ask, Eval.lift, hpart]
      exact .single (Transition.refusePart hpart).step_eq
    | ok part =>
      simp only [Eval.call, Bind.bind, Eval.bind, Eval.ask, Eval.lift, Eval.fail, hpart]
      exact .single (Transition.refuseDepth hpart hlimit).step_eq
  | succ budget ih =>
    have hlimit : depth < limit := by omega
    cases hpart : env.part name args.length env.callScope l with
    | error e =>
      simp only [Eval.call, Bind.bind, Eval.bind, Eval.ask, Eval.lift, hpart]
      exact .single (Transition.refusePart hpart).step_eq
    | ok part =>
      have hcall : Eval.call limit (budget + 1) name args l env
          = Eval.body (Eval.call limit budget) part.body args l env := by
        simp only [Eval.call, Bind.bind, Eval.bind, Eval.ask, Eval.lift, hpart]
      rw [hcall]
      exact .head (Transition.call hpart hlimit).step_eq (reaches_body
        (fun name args l next ps env ↦ ih (depth + 1) name args l next ps env (by omega))
        (.call name args l next) part.body args l next ps env)

/-- Whatever is done comes to its end, with the result and the environment of the evaluator. -/
theorem reaches_run (limit : Nat) (a : Action) (ps : List Pending) (env : Environment)
    (depth : Nat) :
    Reaches limit ⟨a, ps, env, depth⟩
      ⟨.done (a.run (Eval.call limit (limit - depth)) env).1, ps,
        (a.run (Eval.call limit (limit - depth)) env).2, depth⟩ :=
  reaches_run_of_calls (reaches_call depth) a ps env

/-- The start of a run of a program. -/
def start (p : Program) (env : Environment) : Machine := ⟨.program p, [], env, 0⟩

/-- The end of a run. -/
def ended (r : Except EvalError Flow) (env : Environment) : Machine := ⟨.done r, [], env, 0⟩

theorem program_eq (limit : Nat) (p : Program) (env : Environment) :
    Eval.program limit p env
      = let r := Eval.statements (Eval.call limit limit) .null p env
        (r.1.map Flow.value, r.2) := by
  simp only [Eval.program, Bind.bind, Eval.bind]
  rcases Eval.statements (Eval.call limit limit) .null p env with ⟨_ | flow, env'⟩ <;> rfl

/-- A program comes to its end, with the value or the error and the environment that the evaluator
says. -/
theorem reaches_program (limit : Nat) (p : Program) (env : Environment) :
    ∃ r : Except EvalError Flow, r.map Flow.value = (Eval.program limit p env).1 ∧
      Reaches limit (start p env) (ended r (Eval.program limit p env).2) := by
  rw [program_eq]
  refine ⟨(Eval.statements (Eval.call limit limit) .null p env).1, rfl, ?_⟩
  rw [← run_statements]
  exact reaches_run limit (Action.program p) [] env 0

/-! ## What a step can do -/

/-- What a step can do: stay among the same frames and calls, perhaps with a write; begin a block or
a call, a call only below the limit; or end one. The parts that it writes are a script's. -/
inductive Moves (limit : Nat) : Machine → Machine → Prop where
  | stay {a a' : Action} {ps : List Pending} {env : Environment} {depth : Nat} :
      Moves limit ⟨a, ps, env, depth⟩ ⟨a', ps, env, depth⟩
  | write {a a' : Action} {ps : List Pending} {env env' : Environment} {depth : Nat}
      (h : env.Write (fun part ↦ part.body.isNative = false) env') :
      Moves limit ⟨a, ps, env, depth⟩ ⟨a', ps, env', depth⟩
  | begin {a a' : Action} {ps : List Pending} {env : Environment} {depth : Nat} (p : Pending)
      (h : p.calls = 0 ∨ depth < limit) :
      Moves limit ⟨a, ps, env, depth⟩ ⟨a', p :: ps, p.enter env, depth + p.calls⟩
  | finish {r : Except EvalError Flow} {ps : List Pending} {env : Environment} {depth : Nat}
      (p : Pending) :
      Moves limit ⟨.done r, p :: ps, env, depth⟩
        ⟨p.resume r, ps, p.leave env, depth - p.calls⟩

theorem moves_of_step (h : m.step limit = some m') : Moves limit m m' := by
  cases transition_of_step h with
  | resume p => exact .finish p
  | look | refuseConstant _ | refusePart _ | refuseDepth _ _ => exact .stay
  | define => exact .write (.define _ _ _)
  | assign => exact .write (.assign _ _ _)
  | setConstant hset => exact .write (.setConstant hset)
  | defineFunction => exact .write (.defineFunction _ _ rfl)
  | print => exact .write (.print _ _)
  | @call _ _ _ next _ _ _ part _ hlimit =>
    -- a body begins below the limit only, whoever wrote it
    cases part.body with
    | native act => exact .begin (.native next) (.inr hlimit)
    | script params body => exact .begin (.script next) (.inr hlimit)
  | @block _ next => exact .begin (.block next) (.inl rfl)

end Machine

end Scriptlet
