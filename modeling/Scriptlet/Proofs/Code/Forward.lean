import Scriptlet.Proofs.Code.Exits
import Scriptlet.Script

/-!
# Branches go forward

A compiled program is a sequence of segments: its own code, and behind it the body of each function
after the mark of its number. Every label that was given out is marked in one place, and every
branch goes to a label further on in the same segment. Control therefore only moves forward, and no
path comes to an instruction twice.

Whatever the tree is, the labels of its code are right if it has code: that goes along with how
control leaves the code, and is read off that here.
-/

namespace Scriptlet

namespace Code

open Emit (Routes)

/-! ## Parts of programs -/

theorem program_routes (r : Registry) (p : Program) : Routes (program r p) := by
  fun_induction program r p with
  | case1 => exact .put rfl
  | case2 e hvalue =>
    refine (((tree_leaves r).expr e).value.routes.append ?_).append (.put rfl)
    split
    · exact .ite .nothing (.put rfl)
    · exact .nothing
  | case3 e _ => exact ((tree_leaves r).statement _).code.routes.append (.put rfl)
  | case4 st sts _ ih => exact ((tree_leaves r).statement st).code.routes.append ih

theorem functionBody_routes (r : Registry) (body : List Statement) :
    Routes (functionBody r body) :=
  (statements_leaves fun st _ ↦ (tree_leaves r).statement st).routes.append
    (.ite .nothing (.put rfl))

theorem of_gives_functions_cons {r : Registry} {p : Program} {f : ScriptFunction}
    {fs : List ScriptFunction} {index n m : Nat} {code : List Instruction}
    (h : (functions r p index (f :: fs)).Gives n code m) :
    ∃ d body k rest, (definitions p).find? (fun d ↦ d.1 = f.location) = some d ∧
      (functionBody r d.2).Gives n body k ∧ (functions r p (index + 1) fs).Gives k rest m ∧
      code = .function index :: (body ++ rest) := by
  rw [functions] at h
  cases hfind : (definitions p).find? fun d ↦ d.1 = f.location with
  | none =>
    rw [hfind] at h
    exact absurd h Emit.not_gives_fail
  | some d =>
    rw [hfind, Emit.require_some] at h
    obtain ⟨_, k, rest, hfirst, hrest, rfl⟩ := Emit.gives_append.mp h
    obtain ⟨_, _, body, hput, hbody, rfl⟩ := Emit.gives_append.mp hfirst
    obtain ⟨rfl, rfl⟩ := Emit.gives_put.mp hput
    exact ⟨d, body, k, rest, rfl, hbody, hrest, rfl⟩

/-- Each body is a segment of its own, and the labels of the bodies follow on one another. -/
theorem forward_functions (r : Registry) (p : Program) {fs : List ScriptFunction} {index n m : Nat}
    {code : List Instruction} (h : (functions r p index fs).Gives n code m) :
    Marks n m code ∧ Forward code := by
  induction fs generalizing index n code with
  | nil =>
    obtain ⟨rfl, rfl⟩ := Emit.gives_nothing.mp h
    exact ⟨.of_none rfl, .nil⟩
  | cons f fs ih =>
    obtain ⟨d, body, k, rest, -, hbody, hrest, rfl⟩ := of_gives_functions_cons h
    have hrouted := functionBody_routes r d.2 _ _ _ hbody
    obtain ⟨hmarks, hforward⟩ := ih hrest
    have hmark : Marks n n [.function index] := .of_none rfl
    exact ⟨(hmark.append hrouted.marks).append hmarks,
      Forward.append (.step rfl hrouted.forward) hforward⟩

end Code

/-! ## Compiled programs -/

/-- A program that compiles was bound, and its code and labels are those of the tree that binding
left. -/
theorem of_compile {c : BindContext} {p : Program} {out : Compiled} (h : compile c p = .ok out) :
    (bindProgram c p).answer = .ok out.ty ∧ out.tree = (bindProgram c p).tree ∧
      (codeOf c.registry (bindProgram c p).tree (bindProgram c p).state.functions).Gives 0 out.code
        (codeOf c.registry (bindProgram c p).tree (bindProgram c p).state.functions 0).labels := by
  simp only [compile] at h
  split at h
  · cases h
  · rename_i ty hty
    split at h
    · cases h
    · rename_i hfailure
      obtain rfl := Except.ok.inj h
      exact ⟨hty, rfl, Emit.gives_of_failure hfailure⟩

theorem Forward.lt_of_path {code : List Instruction} (h : Forward code)
    (hnodup : (labelsOf code).Nodup) {i j : Nat} (hij : Relation.TransGen (Follows code) i j) :
    i < j := by
  induction hij with
  | single hstep => exact h.lt_of_follows hnodup hstep
  | tail _ hstep ih => exact Nat.lt_trans ih (h.lt_of_follows hnodup hstep)

theorem count_label (code : List Instruction) (l : Nat) :
    code.count (.label l) = (labelsOf code).count l := by
  induction code with
  | nil => rfl
  | cons i code ih =>
    rw [List.count_cons, labelsOf_cons, List.count_append, ih, Nat.add_comm]
    congr 1
    cases i with
    | label m => simp [Instruction.label?, List.count_singleton]
    | _ => rfl

theorem Marks.nodup {n m : Nat} {code : List Instruction} (h : Marks n m code) :
    (labelsOf code).Nodup := by
  refine List.nodup_iff_count.mpr fun l ↦ ?_
  rw [h.count]
  split_ifs <;> omega

theorem forward_codeOf (r : Registry) (p : Program) {fs : List ScriptFunction} {n m : Nat}
    {code : List Instruction} (h : (codeOf r p fs).Gives n code m) :
    Marks n m code ∧ Forward code := by
  obtain ⟨main, k, bodies, hmain, hbodies, rfl⟩ := Emit.gives_append.mp h
  have hrouted := Code.program_routes r p _ _ _ hmain
  obtain ⟨hmarks, hforward⟩ := Code.forward_functions r p hbodies
  exact ⟨hrouted.marks.append hmarks, hrouted.forward.append hforward⟩

/-- In compiled code, whatever the program, every label that was given out is marked in exactly one
place and nothing else is marked, and every branch goes to a label further on in the segment that it
stands in. So control only moves forward, and no path comes back to a place where it was. -/
theorem forward_of_compile (c : BindContext) {p : Program} {out : Compiled}
    (h : compile c p = .ok out) :
    (∀ l, out.code.count (.label l) =
      if l < (codeOf c.registry (bindProgram c p).tree (bindProgram c p).state.functions 0).labels
      then 1 else 0) ∧
    (∀ i condition t, out.code[i]? = some (.branch condition t) →
      ∃ j, i < j ∧ out.code[j]? = some (.label t) ∧ SameSegment out.code i j) ∧
    ∀ i j, Relation.TransGen (Follows out.code) i j → i < j := by
  obtain ⟨-, -, hgives⟩ := of_compile h
  obtain ⟨hmarks, hforward⟩ := forward_codeOf c.registry _ hgives
  refine ⟨fun l ↦ ?_, fun i condition t hi ↦ hforward.at_place hi rfl,
    fun i j hij ↦ hforward.lt_of_path hmarks.nodup hij⟩
  rw [count_label, hmarks.count]
  simp only [Nat.zero_le, true_and]

/-- A program with a conditional statement, a conditional inside a function, and a logical operator
that skips a call. -/
theorem forward_of_compile_segments :
    ∃ p out, parseProgram ("function f(x: int): int => x < 2 ? 1 : x; n = 1; " ++
        "if (n < 2 && f(n) < 3) n = 4; n") = .ok p ∧
      compile ⟨.primitive, none⟩ p = .ok out ∧ out.code[26]? = some (Instruction.function 0) ∧
      out.code[30]? = some (Instruction.branch .ifFalse 3) ∧
      (∃ j, 30 < j ∧ out.code[j]? = some (Instruction.label 3) ∧ SameSegment out.code 30 j) ∧
      ∀ i j, Relation.TransGen (Follows out.code) i j → i < j := by
  have hrun : (parseProgram ("function f(x: int): int => x < 2 ? 1 : x; n = 1; " ++
      "if (n < 2 && f(n) < 3) n = 4; n")).toOption.any (fun p ↦
        (compile ⟨.primitive, none⟩ p).toOption.any fun out ↦
          decide (out.code[26]? = some (Instruction.function 0) ∧
            out.code[30]? = some (Instruction.branch .ifFalse 3))) = true := by
    decide +kernel
  obtain ⟨p, hp, hrun⟩ := (Option.any_eq_true _ _).mp hrun
  obtain ⟨out, hout, hrun⟩ := (Option.any_eq_true _ _).mp hrun
  obtain ⟨hfunction, hbranch⟩ := of_decide_eq_true hrun
  obtain ⟨-, hjumps, hpaths⟩ := forward_of_compile _ (ok_of_toOption hout)
  exact ⟨p, out, ok_of_toOption hp, ok_of_toOption hout, hfunction, hbranch,
    hjumps 30 _ _ hbranch, hpaths⟩

end Scriptlet
