import Scriptlet.Proofs.Environment.Constants
import Scriptlet.Proofs.Eval.Balanced
import Scriptlet.Proofs.Eval.Passing

/-!
# Constants over whole runs

What single operations do with constants carries over to runs, since every step of a run is at most
one operation. So a constant that is set at some point of a run is set to the same value at all
later points up to the end of its frame, and a write to it at any point is the end of the run.
-/

namespace Scriptlet.Machine

variable {limit : Nat} {m m' : Machine}

theorem reachable_of_moves (h : m.env.Reachable) (hmoves : Moves limit m m') :
    m'.env.Reachable := by
  cases hmoves with
  | stay => exact h
  | write hwrite => exact h.write (hwrite.mono fun _ _ ↦ trivial)
  | begin p hlimit =>
    cases p with
    | block next => exact h.push .block
    | script next => exact h.push .function
    | native next => exact h
  | finish p =>
    cases p with
    | block next => exact h.pop
    | script next => exact h.pop
    | native next => exact h

/-- A step keeps every constant that is set, in every frame that is there before and after. -/
theorem constantAt?_of_moves (hmoves : Moves limit m m') {height : Nat} {x : String} {v : Value}
    (hv : v ≠ .null) (h : m.env.constantAt? height x = some v) (hbefore : height < m.env.depth)
    (hafter : height < m'.env.depth) : m'.env.constantAt? height x = some v := by
  cases hmoves with
  | stay => exact h
  | write hwrite => exact Environment.constantAt?_of_write hwrite h hv
  | begin p hlimit =>
    cases p with
    | block next => exact (Environment.constantAt?_push hbefore .block x).trans h
    | script next => exact (Environment.constantAt?_push hbefore .function x).trans h
    | native next => exact h
  | finish p =>
    cases p with
    | block next => exact (Environment.constantAt?_pop hafter x).trans h
    | script next => exact (Environment.constantAt?_pop hafter x).trans h
    | native next => exact h

/-- Between two points, a frame that is there all the while keeps its constants. -/
theorem constantAt?_after {height : Nat} {x : String} {v : Value} (hv : v ≠ .null) {i : Nat}
    (h : (m.after limit i).env.constantAt? height x = some v) (j : Nat)
    (hthere : ∀ k, i ≤ k → k ≤ i + j → height < (m.after limit k).env.depth) :
    (m.after limit (i + j)).env.constantAt? height x = some v := by
  induction j with
  | zero => exact h
  | succ j ih =>
    have hbefore := hthere (i + j) (Nat.le_add_right i j) (Nat.le_succ _)
    have hafter := hthere (i + j + 1) (by omega) (Nat.le_refl _)
    have hv' := ih fun k hik hkj ↦ hthere k hik (Nat.le_succ_of_le hkj)
    rw [← Nat.add_assoc]
    rw [after_succ] at hafter ⊢
    cases hstep : (m.after limit (i + j)).step limit with
    | none => rwa [advance, hstep, Option.getD_none]
    | some m' =>
      rw [advance_of_step hstep] at hafter ⊢
      exact constantAt?_of_moves (moves_of_step hstep) hv hv' hbefore hafter

/-- The frames that a run began with are there at all its points. -/
theorem depth_le_depth_after (p : Program) (env : Environment) (n : Nat) :
    env.depth ≤ ((start p env).after limit n).env.depth := by
  have hkinds := (balanced_after limit (.program p) env 0 n).kinds
  have hlength := congrArg List.length hkinds
  rw [List.length_append, Environment.length_kinds, Environment.length_kinds] at hlength
  exact hlength ▸ Nat.le_add_left _ _

/-- The end of a run that takes fewer steps is still its end. -/
theorem exists_after_eq_ended (limit : Nat) (p : Program) (env : Environment) (i : Nat) :
    ∃ j r, (start p env).after limit (i + j) = ended r (Eval.program limit p env).2 := by
  obtain ⟨r, -, n, hn⟩ := reaches_program limit p env
  refine ⟨n, r, ?_⟩
  rw [Nat.add_comm, after_add, hn]
  exact after_of_step_eq_none rfl i

/-- Constants are written once over whole runs. For a program that runs in an environment that came
about by operations:

* a frame that has a value other than null for a constant at some point of the run has it at every
  later point, as long as the frame is there all the while;
* in particular a frame that was there before the run has it in the environment that is left, be it
  that of a success or of a failure;
* and a write to a constant for which a visible frame has a value other than null is refused, with
  nothing else changed. The refusal is the result of the run, where no function of the host holds
  errors up. -/
theorem constants_write_once (limit : Nat) (p : Program) {env : Environment}
    (henv : env.Reachable) :
    let point := (start p env).after limit
    (∀ height x v, v ≠ .null → ∀ i j, i ≤ j → (point i).env.constantAt? height x = some v →
      (∀ k, i ≤ k → k ≤ j → height < (point k).env.depth) →
      (point j).env.constantAt? height x = some v) ∧
    (∀ height x v, v ≠ .null → ∀ i, (point i).env.constantAt? height x = some v →
      height < env.depth → (Eval.program limit p env).2.constantAt? height x = some v) ∧
    ∀ x v, v ≠ .null → ∀ i w l next f, (point i).action = .setConstant x w l next →
      f ∈ (point i).env.visible → f.constants.get? x = some v →
      point (i + 1) = { point i with action := .fail (.constantReassignment x l) } ∧
        (env.Passes (fun _ ↦ True) →
          (Eval.program limit p env).1 = .error (.constantReassignment x l)) := by
  intro point
  have hkept : ∀ height x v, v ≠ .null → ∀ i j, i ≤ j →
      (point i).env.constantAt? height x = some v →
      (∀ k, i ≤ k → k ≤ j → height < (point k).env.depth) →
      (point j).env.constantAt? height x = some v := by
    intro height x v hv i j hij h hthere
    obtain ⟨j, rfl⟩ := Nat.exists_eq_add_of_le hij
    exact constantAt?_after hv h j hthere
  refine ⟨hkept, fun height x v hv i h hheight ↦ ?_, fun x v hv i w l next f haction hf hx ↦ ?_⟩
  · -- a frame of the beginning is there at every point up to the end
    obtain ⟨j, r, hend⟩ := exists_after_eq_ended limit p env i
    have hlast := hkept height x v hv i (i + j) (Nat.le_add_right i j) h fun k _ _ ↦
      Nat.lt_of_lt_of_le hheight (depth_le_depth_after p env k)
    rwa [show point (i + j) = _ from hend] at hlast
  · have hreachable : (point i).env.Reachable :=
      holds_after (P := fun m ↦ m.env.Reachable) henv
        (fun _ _ h hstep ↦ reachable_of_moves h (moves_of_step hstep)) i
    have hset := hreachable.setConstant_eq_error hf hx hv w l
    have hrefuses : Refuses limit (point i) (.constantReassignment x l) := by
      generalize point i = m at haction hset
      obtain ⟨a, ps, env', depth⟩ := m
      obtain rfl : a = .setConstant x w l next := haction
      exact .constant hset
    constructor
    · have hstep : (point i).step limit
          = some { point i with action := .fail (.constantReassignment x l) } := by
        simp only [step, haction, hset]
      exact (after_succ i).trans (advance_of_step hstep)
    · intro hpasses
      exact error_of_refuses (fun _ _ ↦ trivial) hpasses hrefuses

/-- A constant that is null is set, and a block around a further write does not help: the frame at
height zero has the value of the first write at the end, too. -/
theorem constants_write_once_of_block :
    let write (v : Literal) : Statement :=
      .expr (.assign (.at .start) (.constantRef (.at .start) "x") (.literal (.at .start) v) none)
    let unset : Statement :=
      .expr (.assign (.at .start) (.constantRef (.at .start) "x") (.null (.at .start)) none)
    let p : Program := [unset, write (.int 1), .block .start [write (.int 2)]]
    Environment.Reachable .empty ∧
      ((start p .empty).after 8 2).env.constantAt? 0 "x" = some (.int 1) ∧
      (Eval.program 8 p .empty).2.constantAt? 0 "x" = some (.int 1) ∧
      (Eval.program 8 p .empty).1 = .error (.constantReassignment "x" .start) := by
  intro write unset p
  obtain ⟨-, hend, hrefused⟩ := constants_write_once 8 p .empty
  have hset : ((start p .empty).after 8 2).env.constantAt? 0 "x" = some (.int 1) := by rfl
  refine ⟨.empty, hset, ?_, ?_⟩
  · exact hend 0 "x" (.int 1) nofun 2 hset Nat.one_pos
  · refine (hrefused "x" (.int 1) nofun 3 (.int 2) .start _ _ rfl
      (List.mem_append_right _ List.mem_cons_self) rfl).2 ?_
    intro f hf part hpart
    obtain rfl := List.mem_singleton.mp hf
    cases hpart

end Scriptlet.Machine
