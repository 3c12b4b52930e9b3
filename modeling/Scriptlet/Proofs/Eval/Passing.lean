import Scriptlet.Proofs.Eval.Course
import Scriptlet.Proofs.Eval.Machine

/-!
# Errors pass through

Nothing in a script holds an error up: a call that fails ends the frame at hand with its error, a
block that fails ends what is around it, and so on to the end of the run. Actions *pass errors on*
if every call among them does that; what errors they may begin with by themselves is a parameter.
Everything that a tree does passes errors on, and what it begins with is never that calls nest too
deep. Parts of the host pass errors on if they do not go on after a failed call.

From this come the two directions of one statement about runs. An error with which the environment
or the limit refuses an action is the error of the whole run; and an error of the whole run that no
tree and no part of the host begins with was such a refusal.
-/

namespace Scriptlet

variable {P : EvalError → Prop}

/-! ## Actions that pass errors on -/

variable (P) in
/-- The actions begin with no other errors than these, and a call that fails is the last of them. -/
def Action.Passes : Action → Prop
  | .done r => ∀ e, r = .error e → P e
  | .look next => ∀ env, (next env).Passes
  | .define _ _ next | .assign _ _ next | .setConstant _ _ _ next | .defineFunction _ _ _ next
  | .print _ next => next.Passes
  | .call _ _ _ next => (∀ v, (next (.ok v)).Passes) ∧ ∀ e, next (.error e) = .fail e
  | .block body next => body.Passes ∧ ∀ flow, (next flow).Passes

variable (P) in
/-- The part of the host begins with no other errors than these, and a call that fails is the last
thing it does. -/
def HostAction.Passes : HostAction → Prop
  | .done r => ∀ e, r = .error e → P e
  | .print _ next => next.Passes
  | .call _ _ _ next => (∀ v, (next (.ok v)).Passes) ∧ ∀ e, next (.error e) = .done (.error e)

variable (P) in
/-- A part of the host passes errors on for all arguments; every part of a script does. -/
def PartBody.Passes : PartBody → Prop
  | .native act => ∀ args l, (act args l).Passes P
  | .script _ _ => True

variable (P) in
/-- All parts of the host in the environment pass errors on. -/
abbrev Environment.Passes (env : Environment) : Prop := env.AllParts fun part ↦ part.body.Passes P

namespace Action

theorem passes_fail {e : EvalError} (he : P e) : (fail e).Passes P := by
  rintro _ ⟨⟩
  exact he

theorem of_passes_fail {e : EvalError} (h : (fail e).Passes P) : P e := h e rfl

theorem passes_ofHost {act : HostAction} (h : act.Passes P) : (ofHost act).Passes P := by
  induction act with
  | done r =>
    intro e he
    cases r with
    | ok v => cases he
    | error e' =>
      obtain rfl := Except.error.inj he
      exact h e' rfl
  | print line next ih => exact ih h
  | call name args l next ih =>
    refine ⟨fun v ↦ ih _ (h.1 v), fun e ↦ ?_⟩
    dsimp only
    rw [h.2 e]
    rfl

theorem passes_defineAll (ps : List (String × Value)) {next : Action} (h : next.Passes P) :
    (defineAll ps next).Passes P := by
  induction ps with
  | nil => exact h
  | cons p ps ih => exact ih

end Action

/-! ## Trees pass errors on -/

namespace Action

variable (hP : ∀ e : EvalError, e.Ordinary → P e)
include hP

theorem treeProperty_passes : TreeProperty (fun _ ↦ True) (fun _ ↦ True) (Passes P) where
  values := valueProperty_true
  finish _ _ := nofun
  fail e he := passes_fail (hP e he)
  look _ h := fun env ↦ h env env.values_true
  define _ _ _ _ h := h
  assign _ _ _ _ h := h
  setConstant _ _ _ _ _ h := h
  defineFunction _ _ _ _ _ h := h
  call _ _ _ _ _ h := ⟨fun v ↦ h v trivial, fun _ ↦ rfl⟩
  block _ _ hbody h := ⟨hbody, fun flow ↦ h flow trivial⟩

/-- Whole statements pass errors on, up to the end of their frame. -/
theorem passes_ended (last : Value) (sts : List Statement) :
    (statements last sts finish).Passes P :=
  has_ended (treeProperty_passes hP) (fun _ _ ↦ trivial) (literalsAre_true sts) trivial

end Action

/-! ## Machines pass errors on -/

variable (P) in
/-- What waits passes errors on: it goes on after a failure only to fail in its turn. -/
def Pending.Passes : Pending → Prop
  | .block next => ∀ flow, (next flow).Passes P
  | .script next | .native next =>
    (∀ v, (next (.ok v)).Passes P) ∧ ∀ e, next (.error e) = .fail e

theorem Pending.resume_error {p : Pending} (hp : p.Passes P) (e : EvalError) :
    p.resume (.error e) = .fail e := by
  cases p with
  | block next => rfl
  | script next => exact hp.2 e
  | native next => exact hp.2 e

theorem Pending.passes_resume {p : Pending} (hp : p.Passes P) (flow : Flow) :
    (p.resume (.ok flow)).Passes P := by
  cases p with
  | block next => exact hp flow
  | script next => exact hp.1 _
  | native next => exact hp.1 _

namespace Machine

variable {limit : Nat} {m m' : Machine}

variable (P) in
/-- A point of a run where all that is left to do passes errors on, or where a failure is on its
way. -/
structure Passes (m : Machine) : Prop where
  action : m.action.Passes P ∨ ∃ e, m.action = .fail e
  pending : ∀ p ∈ m.pending, p.Passes P
  parts : m.env.Passes P

/-- The environment or the limit refuses what is to be done next. -/
inductive Refuses (limit : Nat) : Machine → EvalError → Prop where
  | constant {x : String} {v : Value} {l : Location} {next : Action} {ps : List Pending}
      {env : Environment} {depth : Nat} {e : EvalError} (h : env.setConstant x v l = .error e) :
      Refuses limit ⟨.setConstant x v l next, ps, env, depth⟩ e
  | part {name : String} {args : List Value} {l : Location} {next : Except EvalError Value → Action}
      {ps : List Pending} {env : Environment} {depth : Nat} {e : EvalError}
      (h : env.part name args.length env.callScope l = .error e) :
      Refuses limit ⟨.call name args l next, ps, env, depth⟩ e
  | limit {name : String} {args : List Value} {l : Location}
      {next : Except EvalError Value → Action} {ps : List Pending} {env : Environment}
      {depth : Nat} {part : Part} (h : env.part name args.length env.callScope l = .ok part)
      (hlimit : limit ≤ depth) :
      Refuses limit ⟨.call name args l next, ps, env, depth⟩ (.recursionLimit limit l)

/-- A refusal changes nothing but what is done next, which is to fail. -/
theorem step_of_refuses {e : EvalError} (h : Refuses limit m e) (hm : m.Passes P) :
    m.step limit = some { m with action := .fail e } := by
  have hnext : ∀ {name args l next ps env depth}, m = ⟨.call name args l next, ps, env, depth⟩ →
      next (.error e) = .fail e := by
    rintro name args l next ps env depth rfl
    rcases hm.action with hpasses | ⟨e', he'⟩
    · exact hpasses.2 e
    · cases he'
  cases h with
  | constant hset => exact (Transition.refuseConstant hset).step_eq
  | part hpart => rw [(Transition.refusePart hpart).step_eq, hnext rfl]
  | limit hpart hlimit => rw [(Transition.refuseDepth hpart hlimit).step_eq, hnext rfl]

theorem parts_of_moves (h : m.env.Passes P) (hmoves : Moves limit m m') : m'.env.Passes P := by
  cases hmoves with
  | stay => exact h
  | write hwrite =>
    refine hwrite.allParts (fun part hpart ↦ ?_) h
    cases hbody : part.body with
    | native act => simp [hbody, PartBody.isNative] at hpart
    | script params body => trivial
  | begin p hlimit =>
    cases p with
    | block next => exact h.push .block
    | script next => exact h.push .function
    | native next => exact h
  | finish p =>
    cases p with
    | block next => exact h.pop
    | script next => exact h.pop
    | native next => exact h

variable (hP : ∀ e : EvalError, e.Ordinary → P e)
include hP

/-- What a step does with errors. What comes next passes errors on, or it is a failure, and that
failure was on its way already or is a refusal. -/
theorem Passes.of_step (hm : m.Passes P) (hstep : m.step limit = some m') :
    m'.Passes P ∧ (m'.action.Passes P ∨
      ∃ e, m'.action = .fail e ∧ (m.action = .fail e ∨ Refuses limit m e)) := by
  -- it is enough to say what is done next and what waits
  suffices h : (∀ p ∈ m'.pending, p.Passes P) ∧ (m'.action.Passes P ∨
      ∃ e, m'.action = .fail e ∧ (m.action = .fail e ∨ Refuses limit m e)) by
    refine ⟨⟨?_, h.1, parts_of_moves hm.parts (moves_of_step hstep)⟩, h.2⟩
    rcases h.2 with hpasses | ⟨e, he, -⟩
    · exact .inl hpasses
    · exact .inr ⟨e, he⟩
  obtain ⟨haction, hpending, hparts⟩ := hm
  cases transition_of_step hstep with
  | @resume r _ _ _ p =>
    obtain ⟨hp, hps⟩ := List.forall_mem_cons.mp hpending
    cases r with
    | ok flow => exact ⟨hps, .inl (p.passes_resume hp flow)⟩
    | error e => exact ⟨hps, .inr ⟨e, p.resume_error hp e, .inl rfl⟩⟩
  | look =>
    rcases haction with h | ⟨e, ⟨⟩⟩
    exact ⟨hpending, .inl (h _)⟩
  | define | assign | setConstant _ | defineFunction | print =>
    rcases haction with h | ⟨e, ⟨⟩⟩
    exact ⟨hpending, .inl h⟩
  | refuseConstant hset => exact ⟨hpending, .inr ⟨_, rfl, .inr (.constant hset)⟩⟩
  | refusePart hpart =>
    rcases haction with h | ⟨e, ⟨⟩⟩
    exact ⟨hpending, .inr ⟨_, h.2 _, .inr (.part hpart)⟩⟩
  | refuseDepth hpart hlimit =>
    rcases haction with h | ⟨e, ⟨⟩⟩
    exact ⟨hpending, .inr ⟨_, h.2 _, .inr (.limit hpart hlimit)⟩⟩
  | @call _ args l _ _ _ _ part hpart _ =>
    rcases haction with h | ⟨e, ⟨⟩⟩
    have hbody := hparts.of_part hpart
    revert hbody
    cases part.body with
    | native act =>
      exact fun hbody ↦
        ⟨List.forall_mem_cons.mpr ⟨h, hpending⟩, .inl (Action.passes_ofHost (hbody args l))⟩
    | script params body =>
      exact fun _ ↦ ⟨List.forall_mem_cons.mpr ⟨h, hpending⟩,
        .inl (Action.passes_defineAll _ (Action.passes_ended hP .null body))⟩
  | block =>
    rcases haction with h | ⟨e, ⟨⟩⟩
    exact ⟨List.forall_mem_cons.mpr ⟨h.2, hpending⟩, .inl h.1⟩

/-- Every point of the run of a program passes errors on. -/
theorem passes_after (limit : Nat) {env : Environment} (henv : env.Passes P) (p : Program)
    (n : Nat) :
    ((start p env).after limit n).Passes P := by
  have hstart : (start p env).Passes P :=
    ⟨.inl (Action.passes_ended hP .null p), fun _ h ↦ absurd h List.not_mem_nil, henv⟩
  exact holds_after hstart (fun m m' h hstep ↦ (h.of_step hP hstep).1) n

omit hP in
/-- A failure goes through all that waits. -/
theorem reaches_fail (limit : Nat) {ps : List Pending} (hps : ∀ p ∈ ps, p.Passes P)
    (e : EvalError) (env : Environment) (depth : Nat) :
    ∃ env' depth', Reaches limit ⟨.fail e, ps, env, depth⟩ ⟨.fail e, [], env', depth'⟩ := by
  induction ps generalizing env depth with
  | nil => exact ⟨env, depth, .refl _⟩
  | cons p ps ih =>
    obtain ⟨hp, hps⟩ := List.forall_mem_cons.mp hps
    obtain ⟨env', depth', hreaches⟩ := ih hps (p.leave env) (depth - p.calls)
    have hstep : step limit ⟨.fail e, p :: ps, env, depth⟩
        = some ⟨.fail e, ps, p.leave env, depth - p.calls⟩ := by
      simp only [Action.fail, step, p.resume_error hp e]
    exact ⟨env', depth', .head hstep hreaches⟩

/-- A refusal at any point of a run is the result of the run. -/
theorem error_of_refuses {env : Environment} (henv : env.Passes P) {p : Program} {n : Nat}
    {e : EvalError} (h : Refuses limit ((start p env).after limit n) e) :
    (Eval.program limit p env).1 = .error e := by
  have hpasses := passes_after hP limit henv p n
  obtain ⟨env', depth', hreaches⟩ := reaches_fail limit hpasses.pending e
    ((start p env).after limit n).env ((start p env).after limit n).depth
  have hfail : Reaches limit (start p env) ⟨.fail e, [], env', depth'⟩ :=
    .trans ⟨n, rfl⟩ (.head (step_of_refuses h hpasses) hreaches)
  obtain ⟨r, hr, hend⟩ := reaches_program limit p env
  -- both are ends of the one run
  have heq : Action.fail e = .done r :=
    congrArg Machine.action (hfail.eq_of_final hend rfl rfl)
  rw [← hr, ← Action.done.inj heq]
  rfl

/-- The result of a run that no tree and no part of the host begins with was a refusal. -/
theorem refuses_of_error {env : Environment} (henv : env.Passes P) {p : Program} {e : EvalError}
    (he : ¬P e) (h : (Eval.program limit p env).1 = .error e) :
    ∃ n, Refuses limit ((start p env).after limit n) e := by
  -- a failure with this error is one that was refused some steps before
  have hback : ∀ n, ((start p env).after limit n).action = .fail e →
      ∃ k, Refuses limit ((start p env).after limit k) e := by
    intro n
    induction n with
    | zero =>
      intro hfail
      have hpasses := Action.passes_ended hP .null p
      rw [after_zero] at hfail
      exact absurd (Action.of_passes_fail (hfail ▸ hpasses)) he
    | succ n ih =>
      rw [after_succ]
      intro hfail
      cases hstep : ((start p env).after limit n).step limit with
      | none =>
        rw [advance, hstep, Option.getD_none] at hfail
        exact ih hfail
      | some m' =>
        rw [advance_of_step hstep] at hfail
        obtain ⟨-, hnext⟩ := (passes_after hP limit henv p n).of_step hP hstep
        rcases hnext with hpasses | ⟨e', he', hold | hrefuses⟩
        · rw [hfail] at hpasses
          exact absurd (Action.of_passes_fail hpasses) he
        · rw [hfail] at he'
          cases he'
          exact ih hold
        · rw [hfail] at he'
          cases he'
          exact ⟨n, hrefuses⟩
  obtain ⟨r, hr, n, hn⟩ := reaches_program limit p env
  refine hback n ?_
  rw [hn]
  rw [h] at hr
  cases r with
  | ok flow => cases hr
  | error e' =>
    cases hr
    rfl

end Machine

end Scriptlet
