import Scriptlet.Proofs.Eval.Passing

/-!
# Every run ends, within the limit of calls

A program takes finitely many steps to its end. While it runs no more calls are going on than the
limit says, and it ends with the error that calls nest too deep exactly if, at some point, as many
calls are going on as the limit says and one more is made that has a part to go to.

The first two statements hold of any functions. The last one needs to know that no function of the
host makes up that error or holds it up. This is so of the built-in ones.
-/

namespace Scriptlet

/-- The part is a script's or a built-in one. -/
def Part.Standard (part : Part) : Prop :=
  part.body.isNative = false ∨ part ∈ Builtin.all.map Prod.snd

/-! ## Built-in functions pass errors on -/

namespace Builtin

theorem passes_onOne {f : Value → Location → Except EvalError Value} {name : String}
    (hf : ∀ v l, Ordinary (f v l)) (args : List Value) (l : Location) :
    (onOne name f args l).Passes EvalError.Ordinary := by
  match args with
  | [] => exact ordinary_error nofun
  | [v] => exact hf v l
  | _ :: _ :: _ => exact ordinary_error nofun

theorem passes_extremumOf (name : String) (least : Bool) (args : List Value) (l : Location) :
    (extremumOf name least args l).Passes EvalError.Ordinary := by
  cases args with
  | nil => exact ordinary_error nofun
  | cons v vs =>
    exact Ordinary.ite (ordinary_extremum _ _ v l vs) (Value.ordinary_ofOperands _ _ l)

theorem passes_all {part : Part} (h : part ∈ all.map Prod.snd) :
    part.body.Passes EvalError.Ordinary := by
  simp only [all, List.map_cons, List.map_nil, List.mem_cons, List.not_mem_nil, or_false] at h
  rcases h with rfl | rfl | rfl | rfl | rfl | rfl
  · exact fun args l ↦ ordinary_ok _
  · exact passes_onOne ordinary_len
  · exact passes_onOne fun v l ↦ ordinary_ok _
  · exact passes_extremumOf "min" true
  · exact passes_extremumOf "max" false
  · exact passes_onOne ordinary_abs

end Builtin

theorem Part.Standard.passes {part : Part} (h : part.Standard) :
    part.body.Passes EvalError.Ordinary := by
  rcases h with hscript | hbuiltin
  · cases hbody : part.body with
    | native act => simp [hbody, PartBody.isNative] at hscript
    | script params body => trivial
  · exact Builtin.passes_all hbuiltin

theorem Environment.standard_withBuiltins :
    Environment.withBuiltins.AllParts Part.Standard := by
  intro f hf part hpart
  obtain rfl := List.mem_singleton.mp hf
  exact .inr hpart

namespace Machine

variable {limit : Nat} {m m' : Machine}

/-! ## The depth of calls -/

theorem depth_le_of_moves (h : m.depth ≤ limit) (hmoves : Moves limit m m') :
    m'.depth ≤ limit := by
  cases hmoves with
  | stay => exact h
  | write hwrite => exact h
  | begin p hlimit =>
    -- an entry stands for one call at most, and for one only below the limit
    have hcalls : p.calls ≤ 1 := by
      cases p with
      | block next => exact Nat.zero_le 1
      | script next => exact Nat.le_refl 1
      | native next => exact Nat.le_refl 1
    simp only at h ⊢
    omega
  | finish p => exact Nat.le_trans (Nat.sub_le _ _) h

theorem depth_after_le (limit : Nat) (p : Program) (env : Environment) (n : Nat) :
    ((start p env).after limit n).depth ≤ limit :=
  holds_after (P := fun m ↦ m.depth ≤ limit) (Nat.zero_le limit)
    (fun _ _ h hstep ↦ depth_le_of_moves h (moves_of_step hstep)) n

/-- A call at this place, for which there is a part, is made while as many calls are going on as
the limit says. -/
def CallsAtLimit (limit : Nat) (l : Location) (m : Machine) : Prop :=
  ∃ name args next part, m.action = .call name args l next ∧
    m.env.part name args.length m.env.callScope l = .ok part ∧ m.depth = limit

theorem part_ordinary {env : Environment} {name : String} {arity : Nat} {scope : Scope}
    {l : Location} {e : EvalError} (h : env.part name arity scope l = .error e) : e.Ordinary := by
  rw [Environment.part] at h
  split at h
  · cases h
  · split at h <;> cases h <;> rintro k l ⟨⟩

theorem setConstant_ordinary {env : Environment} {x : String} {v : Value} {l : Location}
    {e : EvalError} (h : env.setConstant x v l = .error e) : e.Ordinary := by
  rw [Environment.setConstant] at h
  split at h
  · split at h <;> cases h
    rintro k l ⟨⟩
  · cases h

/-- The refusals for want of depth are those of calls at the limit. -/
theorem refuses_recursionLimit_iff (hm : m.depth ≤ limit) {k : Nat} {l : Location} :
    Refuses limit m (.recursionLimit k l) ↔ k = limit ∧ CallsAtLimit limit l m := by
  constructor
  · intro h
    cases h with
    | constant hset => exact absurd rfl (setConstant_ordinary hset k l)
    | part hpart => exact absurd rfl (part_ordinary hpart k l)
    | limit hpart hlimit => exact ⟨rfl, _, _, _, _, rfl, hpart, Nat.le_antisymm hm hlimit⟩
  · rintro ⟨rfl, name, args, next, part, haction, hpart, hdepth⟩
    obtain ⟨a, ps, env, depth⟩ := m
    obtain rfl : a = .call name args l next := haction
    exact .limit hpart (Nat.le_of_eq hdepth.symm)

/-- Every run ends: a program comes after some number of steps to a point where nothing is left to
do, with the evaluator's value or error and its environment. At no point are more calls going on
than the limit says, and the run ends in the error that calls nest too deep exactly if some call
that has a part to go to is made at the limit. -/
theorem ends_within_limit (limit : Nat) (p : Program) (env : Environment)
    (henv : env.AllParts Part.Standard) :
    (∃ n r, (start p env).after limit n = ended r (Eval.program limit p env).2 ∧
      r.map Flow.value = (Eval.program limit p env).1) ∧
    (∀ n, ((start p env).after limit n).depth ≤ limit) ∧
    ∀ k l, (Eval.program limit p env).1 = .error (.recursionLimit k l) ↔
      k = limit ∧ ∃ n, CallsAtLimit limit l ((start p env).after limit n) := by
  have hdepth := depth_after_le limit p env
  have hpasses : env.Passes EvalError.Ordinary := fun f hf part hpart ↦
    (henv f hf part hpart).passes
  refine ⟨?_, hdepth, fun k l ↦ ⟨fun h ↦ ?_, ?_⟩⟩
  · obtain ⟨r, hr, n, hn⟩ := reaches_program limit p env
    exact ⟨n, r, hn, hr⟩
  · obtain ⟨n, hrefuses⟩ :=
      refuses_of_error (fun _ he ↦ he) hpasses (fun he ↦ he k l rfl) h
    obtain ⟨hk, hcalls⟩ := (refuses_recursionLimit_iff (hdepth n)).mp hrefuses
    exact ⟨hk, n, hcalls⟩
  · rintro ⟨hk, n, hcalls⟩
    exact error_of_refuses (fun _ he ↦ he) hpasses
      ((refuses_recursionLimit_iff (hdepth n)).mpr ⟨hk, hcalls⟩)

/-- A function that only calls itself: with two calls allowed, the one inside the second is made at
the limit, and the run ends with that. -/
theorem ends_within_limit_of_recursion :
    let call : Expr := .call (.at ⟨1, 14⟩) (.name (.at ⟨1, 14⟩) "f") [] none
    let p : Program := [.function .start ⟨"f", [], none, .start⟩ [.expr call], .expr call]
    Environment.withBuiltins.AllParts Part.Standard ∧
      (Eval.program 2 p .withBuiltins).1 = .error (.recursionLimit 2 ⟨1, 14⟩) ∧
      ∃ n, CallsAtLimit 2 ⟨1, 14⟩ ((start p .withBuiltins).after 2 n) := by
  intro call p
  have hrun : (Eval.program 2 p .withBuiltins).1 = .error (.recursionLimit 2 ⟨1, 14⟩) := by
    decide +kernel
  have hends := ends_within_limit 2 p .withBuiltins Environment.standard_withBuiltins
  exact ⟨Environment.standard_withBuiltins, hrun, ((hends.2.2 2 ⟨1, 14⟩).mp hrun).2⟩

end Machine

end Scriptlet
