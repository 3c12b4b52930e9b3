import Scriptlet.Parse.Program
import Scriptlet.Proofs.Eval.Depth
import Scriptlet.Proofs.Parse.Written

/-!
# The limit of calls only cuts runs off

Nothing in a script can tell how many calls are going on. The one step that looks at their number is
a call, and all it does with it is to refuse the call at the limit. Runs of one program under two
limits are therefore the same step by step, up to the first call that the smaller limit refuses.
Such a refusal is the result of the run, so a run that ends in any other way never meets it and is
the run under every greater limit, too.
-/

namespace Scriptlet.Machine

variable {L M : Nat} {m : Machine}

/-- The next step is a call that is refused for want of depth. -/
def OutOfDepth (limit : Nat) (m : Machine) : Prop := ∃ l, Refuses limit m (.recursionLimit limit l)

/-- A step that the smaller limit does not refuse is the same under the greater one. -/
theorem step_eq_of_le (hLM : L ≤ M) (h : ¬m.OutOfDepth L) : m.step M = m.step L := by
  obtain ⟨a, ps, env, depth⟩ := m
  cases a with
  | call name args l next =>
    cases hpart : env.part name args.length env.callScope l with
    | error e => simp only [step, hpart]
    | ok part =>
      have hL : ¬L ≤ depth := fun hle ↦ h ⟨l, .limit hpart hle⟩
      have hM : ¬M ≤ depth := fun hle ↦ hL (Nat.le_trans hLM hle)
      simp only [step, hpart, if_neg hL, if_neg hM]
  | _ => rfl

/-- Up to the first call that the smaller limit refuses, the runs are the same. -/
theorem after_eq_of_le (hLM : L ≤ M) {n : Nat} (h : ∀ k < n, ¬(m.after L k).OutOfDepth L) :
    m.after M n = m.after L n := by
  induction n with
  | zero => rfl
  | succ n ih =>
    have hbefore := ih fun k hk ↦ h k (Nat.lt_succ_of_lt hk)
    have hstep := step_eq_of_le hLM (h n (Nat.lt_succ_self n))
    rw [after_succ, after_succ, hbefore, advance, advance, hstep]

/-- A run of a program that ends in any other way never runs out of depth. -/
theorem not_outOfDepth_after {p : Program} {env : Environment} (henv : env.AllParts Part.Standard)
    (h : ∀ k l, (Eval.program L p env).1 ≠ .error (.recursionLimit k l)) (n : Nat) :
    ¬((start p env).after L n).OutOfDepth L := by
  have hpasses : env.Passes EvalError.Ordinary := fun f hf part hpart ↦
    (henv f hf part hpart).passes
  rintro ⟨l, hrefuses⟩
  exact h L l (error_of_refuses (fun _ he ↦ he) hpasses hrefuses)

/-- A run that does not end because calls nest too deep ends in the same way under every greater
limit: with the same value or error, and with the same environment, what was printed included. -/
theorem program_eq_of_le (hLM : L ≤ M) (p : Program) (env : Environment)
    (henv : env.AllParts Part.Standard)
    (h : ∀ k l, (Eval.program L p env).1 ≠ .error (.recursionLimit k l)) :
    Eval.program M p env = Eval.program L p env := by
  obtain ⟨r, hr, n, hn⟩ := reaches_program L p env
  obtain ⟨r', hr', hend'⟩ := reaches_program M p env
  have hend : Reaches M (start p env) (ended r (Eval.program L p env).2) :=
    ⟨n, (after_eq_of_le hLM fun k _ ↦ not_outOfDepth_after henv h k).trans hn⟩
  -- a run has one end, and both are that of the run under the greater limit
  have heq : ended r' (Eval.program M p env).2 = ended r (Eval.program L p env).2 :=
    hend'.eq_of_final hend rfl rfl
  obtain ⟨hresult, -, henv', -⟩ := Machine.mk.inj heq
  refine Prod.ext ?_ henv'
  rw [← hr, ← hr', Action.done.inj hresult]

/-- A sum by recursion, with a line printed in each call: three calls at a time are enough for
it. -/
theorem program_eq_of_le_of_sum :
    ∃ p, parseProgram ("function sum(n) \x7b print(n); if (n < 1) return 0; " ++
        "return n + sum(n - 1); \x7d throw sum(1)") = .ok p ∧
      (Eval.program 3 p .withBuiltins).1 = .error (.thrown (.int 1) ⟨1, 75⟩) ∧
      (Eval.program 3 p .withBuiltins).2.output = ["1", "0"] ∧
      Eval.program Eval.defaultLimit p .withBuiltins = Eval.program 3 p .withBuiltins := by
  have hrun : (parseProgram ("function sum(n) \x7b print(n); if (n < 1) return 0; " ++
      "return n + sum(n - 1); \x7d throw sum(1)")).toOption.any (fun p ↦
        decide ((Eval.program 3 p .withBuiltins).1 = .error (.thrown (.int 1) ⟨1, 75⟩)) &&
        decide ((Eval.program 3 p .withBuiltins).2.output = ["1", "0"])) = true := by
    decide +kernel
  obtain ⟨p, hp, hrun⟩ := (Option.any_eq_true _ _).mp hrun
  rw [Bool.and_eq_true, decide_eq_true_eq, decide_eq_true_eq] at hrun
  refine ⟨p, ok_of_toOption hp, hrun.1, hrun.2, ?_⟩
  refine program_eq_of_le (by decide) p .withBuiltins Environment.standard_withBuiltins fun k l ↦ ?_
  rw [hrun.1]
  nofun

end Scriptlet.Machine
