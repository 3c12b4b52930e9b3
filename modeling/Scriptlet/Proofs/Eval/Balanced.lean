import Scriptlet.Proofs.Eval.Machine

/-!
# Frames and calls are balanced

At every point of a run the frames are those that the run began with and, on top of them, one for
every block and every call of a script's function that is still going on; the counter says how many
calls these are. This is kept by every step, so a frame or a call cannot outlive what it was made
for, however that ends: with a value, with a return on its way, or with an error from any depth.
-/

namespace Scriptlet

/-! ## Kinds of frames -/

namespace Environment

theorem kinds_push (env : Environment) (kind : FrameKind) :
    (env.push kind).kinds = kind :: env.kinds := rfl

theorem kinds_pop_of_kinds {env : Environment} {kind : FrameKind} {kinds : List FrameKind}
    (h : env.kinds = kind :: kinds) (hne : kinds ≠ []) : env.pop.kinds = kinds := by
  obtain ⟨inner, global, output⟩ := env
  cases inner with
  | nil =>
    -- the global frame alone would leave nothing behind the first kind
    exact absurd (List.cons.inj h).2.symm hne
  | cons f fs => exact (List.cons.inj h).2

end Environment

namespace Machine

variable {limit depth : Nat} {m m' : Machine} {env : Environment}

/-! ## The invariant -/

/-- The frames are these kinds under those of what is going on, and the counter counts the calls
among what is going on, from `calls` upwards. -/
structure Balanced (kinds : List FrameKind) (calls : Nat) (m : Machine) : Prop where
  kinds : m.env.kinds = m.pending.flatMap Pending.frames ++ kinds
  depth : m.depth = m.pending.foldr (fun p n ↦ p.calls + n) calls

section

variable {kinds : List FrameKind} {calls : Nat}

theorem kinds_enter (p : Pending) (env : Environment) :
    (p.enter env).kinds = p.frames ++ env.kinds := by
  cases p with
  | block next => exact env.kinds_push .block
  | script next => exact env.kinds_push .function
  | native next => rfl

theorem kinds_leave {p : Pending} (h : env.kinds = p.frames ++ kinds) (hne : kinds ≠ []) :
    (p.leave env).kinds = kinds := by
  cases p with
  | block next => exact Environment.kinds_pop_of_kinds h hne
  | script next => exact Environment.kinds_pop_of_kinds h hne
  | native next => exact h

theorem Balanced.of_moves (h : Balanced kinds calls m) (hne : kinds ≠ [])
    (hmoves : Moves limit m m') : Balanced kinds calls m' := by
  obtain ⟨hkinds, hdepth⟩ := h
  cases hmoves with
  | stay => exact ⟨hkinds, hdepth⟩
  | write hwrite => exact ⟨hwrite.kinds_eq.trans hkinds, hdepth⟩
  | begin p hlimit =>
    -- what waits grows by the frames and calls that the entry stands for
    constructor
    · rw [kinds_enter, hkinds, List.flatMap_cons, List.append_assoc]
    · simp only [List.foldr_cons] at hdepth ⊢
      omega
  | finish p =>
    rw [List.flatMap_cons, List.append_assoc] at hkinds
    constructor
    · exact kinds_leave hkinds (List.append_ne_nil_of_right_ne_nil _ hne)
    · simp only [List.foldr_cons] at hdepth ⊢
      omega

/-- Every point of a run is balanced over the frames and calls that the run began with. -/
theorem balanced_after (limit : Nat) (a : Action) (env : Environment) (depth n : Nat) :
    Balanced env.kinds depth (after limit ⟨a, [], env, depth⟩ n) := by
  have hne : env.kinds ≠ [] := by
    rw [Environment.kinds, Environment.frames, List.map_append]
    exact List.append_ne_nil_of_right_ne_nil _ (List.cons_ne_nil _ _)
  have hstart : Balanced env.kinds depth ⟨a, [], env, depth⟩ :=
    ⟨rfl, rfl⟩
  exact holds_after hstart (fun m m' h hstep ↦ h.of_moves hne (moves_of_step hstep)) n

end

/-! ## The end of a run -/

/-- From these actions the run comes to its end with the result and the environment, whatever waits
for that end, and has then the frames and the counter that it began with. -/
structure Settles (limit depth : Nat) (env : Environment) (a : Action) (r : Except EvalError Flow)
    (env' : Environment) : Prop where
  reaches : ∀ ps, Reaches limit ⟨a, ps, env, depth⟩ ⟨.done r, ps, env', depth⟩
  depth : env'.depth = env.depth
  kinds : env'.kinds = env.kinds

theorem settles_run (limit depth : Nat) (env : Environment) (a : Action) :
    Settles limit depth env a (a.run (Eval.call limit (limit - depth)) env).1
      (a.run (Eval.call limit (limit - depth)) env).2 := by
  have hkinds : (a.run (Eval.call limit (limit - depth)) env).2.kinds = env.kinds := by
    obtain ⟨n, hn⟩ := reaches_run limit a [] env depth
    have hend := (balanced_after limit a env depth n).kinds
    rwa [hn] at hend
  refine ⟨fun ps ↦ reaches_run limit a ps env depth, ?_, hkinds⟩
  rw [← Environment.length_kinds, hkinds, Environment.length_kinds]

theorem settles_of_run {a : Action} {r : Except EvalError Flow} {env' : Environment}
    (h : a.run (Eval.call limit (limit - depth)) env = (r, env')) :
    Settles limit depth env a r env' := by
  have hrun := settles_run limit depth env a
  rwa [h] at hrun

/-- Frames and calls are balanced on every exit. An expression, a statement or a call that begins in
any environment and at any depth of calls ends, in a value, in a return or in an error, with the
frames and the counter that were there before. -/
theorem settles_of_tree (limit depth : Nat) (env : Environment) :
    let invoke := Eval.call limit (limit - depth)
    (∀ e, Settles limit depth env (.expr e fun v ↦ .finish (.normal v))
      ((Eval.expr invoke e env).1.map .normal) (Eval.expr invoke e env).2) ∧
    (∀ st, Settles limit depth env (.statement st .finish)
      (Eval.statement invoke st env).1 (Eval.statement invoke st env).2) ∧
    (∀ name args l, Settles limit depth env (.call name args l fun r ↦ .done (r.map .returning))
      ((invoke name args l env).1.map .returning) (invoke name args l env).2) := by
  refine ⟨fun e ↦ settles_of_run ?_, fun st ↦ settles_of_run ?_, fun name args l ↦ ?_⟩
  · rw [(Action.tree_does.expr e).value]
    simp only [Bind.bind, Eval.bind]
    rcases Eval.expr _ e env with ⟨_ | v, env'⟩ <;> rfl
  · rw [Action.tree_does.statement st]
    simp only [Bind.bind, Eval.bind]
    rcases Eval.statement _ st env with ⟨_ | flow, env'⟩ <;> rfl
  · exact settles_of_run rfl

end Machine

end Scriptlet
