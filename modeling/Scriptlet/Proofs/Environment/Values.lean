import Scriptlet.Proofs.Environment.Operation

/-!
# Values of names

A property of all values that variables and constants have. What is read has it; a write keeps it if
the value that is written has it, and a new frame has no values at all.
-/

namespace Scriptlet

variable {V : Value → Prop}

/-- The values of all variables and constants of the frame have the property. -/
structure Frame.Values (V : Value → Prop) (f : Frame) : Prop where
  vars : ∀ x v, f.vars.get? x = some v → V v
  constants : ∀ x v, f.constants.get? x = some v → V v

namespace Frame.Values

variable {f : Frame}

theorem empty (V : Value → Prop) (kind : FrameKind) : (Frame.empty kind).Values V :=
  ⟨fun _ _ h ↦ (nomatch h), fun _ _ h ↦ (nomatch h)⟩

theorem setVariable (h : f.Values V) {x : String} {v : Value} (hv : V v) :
    (Environment.setVariable x v f).Values V := by
  refine ⟨fun y w hy ↦ ?_, h.constants⟩
  rw [Environment.setVariable, Table.get?_put] at hy
  split at hy
  · rwa [← Option.some.inj hy]
  · exact h.vars y w hy

theorem putConstant (h : f.Values V) {x : String} {v : Value} (hv : V v) :
    (Environment.putConstant x v f).Values V := by
  refine ⟨h.vars, fun y w hy ↦ ?_⟩
  rw [Environment.putConstant, Table.get?_put] at hy
  split at hy
  · rwa [← Option.some.inj hy]
  · exact h.constants y w hy

end Frame.Values

namespace Environment

/-- The values of all variables and constants have the property. -/
def Values (V : Value → Prop) (env : Environment) : Prop := ∀ f ∈ env.frames, f.Values V

namespace Values

variable {env env' : Environment} {x : String} {v : Value}

/-! ## Reads -/

theorem of_valueOf? (h : env.Values V) (hv : env.valueOf? x = some v) : V v := by
  obtain ⟨f, hf, hget⟩ := List.exists_of_findSome?_eq_some hv
  exact (h f (mem_frames_of_mem_visible hf)).vars x v hget

theorem of_constant? (h : env.Values V) (hv : env.constant? x = some v) : V v := by
  obtain ⟨f, hf, hget⟩ := List.exists_of_findSome?_eq_some hv
  exact (h f (mem_frames_of_mem_visible hf)).constants x v hget

/-! ## Writes -/

theorem define (h : env.Values V) (hv : V v) : (env.define x v).Values V :=
  (pointwise_changeInnermost (fun _ h ↦ h) (fun _ h ↦ h.setVariable hv) env).forall_frames h

theorem assign (h : env.Values V) (hv : V v) : (env.assign x v).Values V := by
  rw [Environment.assign]
  cases hc : env.changeVisible? (fun f ↦ f.vars.has x) (setVariable x v) with
  | some env₁ =>
    exact (pointwise_changeVisible? (fun _ h ↦ h) hc fun _ _ h ↦ h.setVariable hv).forall_frames h
  | none => exact h.define hv

theorem setConstant (h : env.Values V) (hv : V v) {l : Location}
    (hset : env.setConstant x v l = .ok env') : env'.Values V := by
  rcases of_setConstant hset with ⟨-, rfl⟩ | ⟨-, hc⟩
  · exact (pointwise_changeInnermost (fun _ h ↦ h) (fun _ h ↦ h.putConstant hv) env).forall_frames h
  · exact (pointwise_changeVisible? (fun _ h ↦ h) hc fun _ _ h ↦ h.putConstant hv).forall_frames h

theorem defineFunction (h : env.Values V) (name : String) (part : Part) :
    (env.defineFunction name part).Values V :=
  (pointwise_changeInnermost (fun _ h ↦ h) (fun _ h ↦ ⟨h.vars, h.constants⟩) env).forall_frames h

theorem print (h : env.Values V) (line : String) : (env.print line).Values V := h

/-! ## Frames -/

theorem push (h : env.Values V) (kind : FrameKind) : (env.push kind).Values V :=
  forall_frames_push h (.empty V kind)

theorem pop (h : env.Values V) : env.pop.Values V := forall_frames_pop h

end Values

end Environment

end Scriptlet
