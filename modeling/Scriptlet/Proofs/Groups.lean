import Scriptlet.Eval.Builtin
import Scriptlet.Proofs.Bind.Groups
import Scriptlet.Proofs.Code.Groups
import Scriptlet.Proofs.Eval.Groups
import Scriptlet.Proofs.Parse.Written
import Scriptlet.Registry.Primitive
import Scriptlet.Script

/-!
# Parentheses change nothing

A script with and without its parentheses is the same script to all that is done with its tree: it
runs alike, it is bound alike, and what is bound has the same code. Only the place of an error may
move, from the parentheses to what stands in them.

The built-in functions know nothing of places, so the statement about runs holds of the environment
that scripts start in.
-/

namespace Scriptlet

/-! ## Built-in functions -/

theorem Builtin.ignoresPlaces_onOne (name : String) (f : Value → Location → Except EvalError Value)
    (args : List Value) (l : Location) : (onOne name f args l).Alike (onOne name f args l) := by
  match args with
  | [] => exact .done (.refl _)
  | [v] => exact .done (.refl _)
  | _ :: _ :: _ => exact .done (.refl _)

theorem Builtin.ignoresPlaces_all {part : Part} (h : part ∈ all.map Prod.snd) :
    part.body.IgnoresPlaces := by
  simp only [all, List.map_cons, List.map_nil, List.mem_cons, List.not_mem_nil, or_false] at h
  rcases h with rfl | rfl | rfl | rfl | rfl | rfl
  · exact fun args l ↦ .print _ (.done (.refl _))
  · exact ignoresPlaces_onOne "len" len
  · exact ignoresPlaces_onOne "str" str
  · exact fun args l ↦ .done (.refl _)
  · exact fun args l ↦ .done (.refl _)
  · exact ignoresPlaces_onOne "abs" abs

theorem Environment.ignoresPlaces_withBuiltins : Environment.withBuiltins.IgnoresPlaces := by
  intro f hf part hpart
  obtain rfl := List.mem_singleton.mp hf
  exact Builtin.ignoresPlaces_all hpart

/-! ## Binding and code -/

/-- A program that is bound leaves a tree whose code is that of the tree which the program without
groups leaves. -/
theorem alike_code_of_bindProgram (c : BindContext) {p : Program} (hp : ∀ st ∈ p, st.Written)
    {ty : Ty} (hty : (bindProgram c p).answer = .ok ty) :
    (Code.program c.registry (bindProgram c p).tree).Alike
        (Code.program c.registry (bindProgram c (statementsWithoutGroups p)).tree) ∧
      (Code.functions c.registry (bindProgram c p).tree 0 (bindProgram c p).state.functions).Alike
        (Code.functions c.registry (bindProgram c (statementsWithoutGroups p)).tree 0
          (bindProgram c (statementsWithoutGroups p)).state.functions) := by
  have hbound := c.alike_program hp .start
  change (bindProgram c p).Alike _ (bindProgram c (statementsWithoutGroups p)) at hbound
  generalize bindProgram c p = b at hbound hty
  generalize bindProgram c (statementsWithoutGroups p) = b' at hbound
  cases hbound with
  | error h => cases hty
  | ok h =>
    obtain ⟨rfl, hgroups⟩ := h
    exact ⟨Code.alike_program hgroups, Code.alike_functions hgroups 0 _⟩

/-! ## All three -/

/-- A parsed program and the same without its groups have the same result in any environment, up to
the places of errors, and leave the same environment and output, up to the groups in the functions
that it holds. Against any registry they get the same type, or the same error up to its place, and
if they get a type then they have the same code, or fail for the same reason behind the same
code. -/
theorem groups_transparent {source : String} {p : Program} (hp : parseProgram source = .ok p) :
    (∀ limit (env : Environment), env.IgnoresPlaces →
      SameUpTo EvalError.withoutPlace (Eval.program limit p env).1
          (Eval.program limit (statementsWithoutGroups p) env).1 ∧
        (Eval.program limit p env).2.withoutGroups
          = (Eval.program limit (statementsWithoutGroups p) env).2.withoutGroups) ∧
      ∀ c : BindContext,
        SameUpTo BindError.withoutPlace (bindProgram c p).answer
            (bindProgram c (statementsWithoutGroups p)).answer ∧
          ∀ ty, (bindProgram c p).answer = .ok ty →
            (Code.program c.registry (bindProgram c p).tree).Alike
                (Code.program c.registry (bindProgram c (statementsWithoutGroups p)).tree) ∧
              (Code.functions c.registry (bindProgram c p).tree 0
                  (bindProgram c p).state.functions).Alike
                (Code.functions c.registry (bindProgram c (statementsWithoutGroups p)).tree 0
                  (bindProgram c (statementsWithoutGroups p)).state.functions) := by
  have hwritten := written_of_parseProgram hp
  refine ⟨fun limit env henv ↦ Eval.program_withoutGroups limit p henv, fun c ↦ ⟨?_, ?_⟩⟩
  · exact (c.alike_program hwritten .start).answer_eq
  · exact fun ty hty ↦ alike_code_of_bindProgram c hwritten hty

/-- Parentheses around a function that is called, a name that is written and one that is counted
up, with the code of the function's body. -/
theorem groups_transparent_of_targets :
    ∃ p, parseProgram
        "function f(x: int): int => (x) + 2; var y = 1; (y) = ((f)(3)); ((y))++; (y)" = .ok p ∧
      Environment.withBuiltins.IgnoresPlaces ∧
      SameUpTo EvalError.withoutPlace (Eval.program 9 p .withBuiltins).1
        (Eval.program 9 (statementsWithoutGroups p) .withBuiltins).1 ∧
      (bindProgram ⟨.primitive, none⟩ p).answer = .ok .int ∧
      (Code.functions .primitive (bindProgram ⟨.primitive, none⟩ p).tree 0
          (bindProgram ⟨.primitive, none⟩ p).state.functions).Alike
        (Code.functions .primitive
          (bindProgram ⟨.primitive, none⟩ (statementsWithoutGroups p)).tree 0
          (bindProgram ⟨.primitive, none⟩ (statementsWithoutGroups p)).state.functions) := by
  have hrun : (parseProgram
      "function f(x: int): int => (x) + 2; var y = 1; (y) = ((f)(3)); ((y))++; (y)").toOption.any
      (fun p ↦ (bindProgram ⟨.primitive, none⟩ p).answer.toOption == some .int) = true := by
    decide +kernel
  obtain ⟨p, hp, hty⟩ := (Option.any_eq_true _ _).mp hrun
  have hparse := ok_of_toOption hp
  have hbind := ok_of_toOption (beq_iff_eq.mp hty)
  have henv := Environment.ignoresPlaces_withBuiltins
  obtain ⟨hevaluated, hbound⟩ := groups_transparent hparse
  exact ⟨p, hparse, henv, (hevaluated 9 _ henv).1, hbind, ((hbound _).2 _ hbind).2⟩

end Scriptlet
