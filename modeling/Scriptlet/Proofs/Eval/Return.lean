import Scriptlet.Eval.Builtin
import Scriptlet.Proofs.Eval.Machine
import Scriptlet.Proofs.Parse.Written

/-!
# What a return ends

Running the body of a function *comes to* a return if it runs through what stands before the return
and goes into the blocks and branches around it. Then the value of the return is all that is still
evaluated: the frames of the blocks and that of the function are removed, and the call has the
value. Nothing behind the return matters, in the innermost block or further out, since what it means
to come to a return says nothing about it.

A block that is an expression is different. It takes a return for its own end, so a return inside it
is not one that the body of the function comes to; the value of the return is the value of the
block, and the body goes on behind it.
-/

namespace Scriptlet.Eval

variable {invoke : String → List Value → Location → Eval Value}

/-- Running the statements in the one environment comes to `return e` in the other, inside so many
blocks. What is behind the statement that holds the return is arbitrary. -/
inductive ComesTo (invoke : String → List Value → Location → Eval Value) :
    List Statement → Environment → Option Expr → Nat → Environment → Prop where
  | ret {l e place sts env} : ComesTo invoke (.ret l e place :: sts) env e 0 env
  | block {l body sts env e k env'} (h : ComesTo invoke body (env.push .block) e k env') :
      ComesTo invoke (.block l body :: sts) env e (k + 1) env'
  | thenBranch {l x a b sts env v env₁ e k env'} (hx : expr invoke x env = (.ok v, env₁))
      (hv : v.isTruthy) (h : ComesTo invoke [a] env₁ e k env') :
      ComesTo invoke (.cond l x a b :: sts) env e k env'
  | elseBranch {l x a b sts env v env₁ e k env'} (hx : expr invoke x env = (.ok v, env₁))
      (hv : v.isTruthy = false) (h : ComesTo invoke [b] env₁ e k env') :
      ComesTo invoke (.cond l x a (some b) :: sts) env e k env'
  | later {st sts env v env₁ e k env'} (hst : statement invoke st env = (.ok (.normal v), env₁))
      (h : ComesTo invoke sts env₁ e k env') : ComesTo invoke (st :: sts) env e k env'

/-- The value of the expression of a return, with so many frames removed behind it. -/
def leaving (invoke : String → List Value → Location → Eval Value) (e : Option Expr) (k : Nat)
    (env : Environment) : Except EvalError Value × Environment :=
  ((optionalExpr invoke e env).1, Environment.pop^[k] (optionalExpr invoke e env).2)

/-- The same as the outcome of statements: a value is on its way to the call. -/
def returned (r : Except EvalError Value × Environment) : Except EvalError Flow × Environment :=
  (r.1.map Flow.returning, r.2)

theorem leaving_succ (e : Option Expr) (k : Nat) (env : Environment) :
    leaving invoke e (k + 1) env
      = ((leaving invoke e k env).1, (leaving invoke e k env).2.pop) := by
  rw [leaving, leaving, Function.iterate_succ_apply']

/-- What a return in the first statement leads to is what all statements lead to. -/
theorem statements_of_returned {st : Statement} {env : Environment}
    {r : Except EvalError Value × Environment} (h : statement invoke st env = returned r)
    (last : Value) (sts : List Statement) :
    statements invoke last (st :: sts) env = returned r := by
  simp only [statements, Bind.bind, Eval.bind, h, returned]
  rcases r with ⟨_ | v, env'⟩ <;> rfl

theorem statements_singleton (last : Value) (st : Statement) :
    statements invoke last [st] = statement invoke st := by
  funext env
  simp only [statements, Bind.bind, Eval.bind]
  rcases statement invoke st env with ⟨_ | flow, env'⟩
  · rfl
  · cases flow with
    | normal v => rfl
    | returning v => rfl

namespace ComesTo

variable {sts : List Statement} {env env' : Environment} {e : Option Expr} {k : Nat}

/-- Coming to a return does not depend on what stands behind. -/
theorem append (h : ComesTo invoke sts env e k env') (rest : List Statement) :
    ComesTo invoke (sts ++ rest) env e k env' := by
  induction h with
  | ret => exact .ret
  | block h _ => exact .block h
  | thenBranch hx hv h _ => exact .thenBranch hx hv h
  | elseBranch hx hv h _ => exact .elseBranch hx hv h
  | later hst _ ih => exact .later hst ih

/-- From the return on, only its expression is evaluated. -/
theorem statements_eq (h : ComesTo invoke sts env e k env') (last : Value) :
    statements invoke last sts env = returned (leaving invoke e k env') := by
  induction h generalizing last with
  | @ret l e place sts env =>
    simp only [statements, statement, Bind.bind, Eval.bind, leaving, returned]
    rcases optionalExpr invoke e env with ⟨_ | v, env'⟩ <;> rfl
  | @block l body sts env e k env' _ ih =>
    have hblock : statement invoke (.block l body) env
        = returned (leaving invoke e (k + 1) env') := by
      rw [statement, inFrame, ih, leaving_succ]
      rfl
    exact statements_of_returned hblock last sts
  | @thenBranch l x a b sts env v env₁ e k env' hx hv _ ih =>
    refine statements_of_returned ?_ last sts
    rw [← ih .null, statements_singleton]
    simp only [statement, Bind.bind, Eval.bind, hx, hv, if_true]
  | @elseBranch l x a b sts env v env₁ e k env' hx hv _ ih =>
    refine statements_of_returned ?_ last sts
    rw [← ih .null, statements_singleton]
    simp only [statement, Bind.bind, Eval.bind, hx, hv, Bool.false_eq_true, if_false,
      optionalStatement]
  | @later st sts env v env₁ e k env' hst _ ih =>
    -- the one rule that runs a statement to its end
    simp only [statements, Bind.bind, Eval.bind, hst]
    exact ih v

end ComesTo

/-! ## Only such returns end statements -/

/-- Running the statements in the environment comes to a return, which leads to this. -/
def ComesToValue (invoke : String → List Value → Location → Eval Value) (sts : List Statement)
    (env : Environment) (v : Value) (env' : Environment) : Prop :=
  ∃ e k env₁, ComesTo invoke sts env e k env₁ ∧ leaving invoke e k env₁ = (.ok v, env')

theorem comesToValue_of_statements {sts : List Statement}
    (ih : ∀ st ∈ sts, ∀ {env v env'}, statement invoke st env = (.ok (.returning v), env') →
      ComesToValue invoke [st] env v env')
    {last v : Value} {env env' : Environment}
    (h : statements invoke last sts env = (.ok (.returning v), env')) :
    ComesToValue invoke sts env v env' := by
  induction sts generalizing last env with
  | nil => cases h
  | cons st sts ihs =>
    obtain ⟨hst, hsts⟩ := List.forall_mem_cons.mp ih
    rw [statements] at h
    obtain ⟨flow, env₁, hflow, h⟩ := bind_eq_ok_iff.mp h
    cases flow with
    | normal w =>
      obtain ⟨e, k, env₂, hcomes, hleaving⟩ := ihs hsts h
      exact ⟨e, k, env₂, .later hflow hcomes, hleaving⟩
    | returning w =>
      -- the first statement comes to the return, so the others are not looked at
      cases h
      obtain ⟨e, k, env₂, hcomes, hleaving⟩ := hst hflow
      exact ⟨e, k, env₂, hcomes.append sts, hleaving⟩

/-- A statement ends with a value on its way to the call only if it comes to a return. -/
theorem comesToValue_of_statement (st : Statement) {env : Environment} {v : Value}
    {env' : Environment} (h : statement invoke st env = (.ok (.returning v), env')) :
    ComesToValue invoke [st] env v env' := by
  revert env v env'
  -- nothing is said of expressions: a return inside one does not come out of it
  refine Tree.Cases.statement (P := fun _ ↦ True) (Q := fun st ↦ ∀ {env v env'},
    statement invoke st env = (.ok (.returning v), env') → ComesToValue invoke [st] env v env')
    ?_ st
  constructor
  case ret =>
    intro l value place _ env v env' h
    rw [statement] at h
    obtain ⟨w, env₁, hvalue, h⟩ := bind_eq_ok_iff.mp h
    cases h
    exact ⟨value, 0, env, .ret, hvalue⟩
  case blockStatement =>
    intro l body ih env v env' h
    rw [statement, inFrame] at h
    obtain ⟨hresult, rfl⟩ := Prod.mk.inj h
    obtain ⟨e, k, env₁, hcomes, hleaving⟩ := comesToValue_of_statements ih (Prod.ext hresult rfl)
    refine ⟨e, k + 1, env₁, .block hcomes, ?_⟩
    rw [leaving_succ, hleaving]
  case cond =>
    intro l x a b _ iha ihb env v env' h
    rw [statement] at h
    obtain ⟨w, env₁, hx, h⟩ := bind_eq_ok_iff.mp h
    by_cases hw : w.isTruthy
    · rw [if_pos hw] at h
      obtain ⟨e, k, env₂, hcomes, hleaving⟩ := iha h
      exact ⟨e, k, env₂, .thenBranch hx hw hcomes, hleaving⟩
    · rw [if_neg hw] at h
      cases b with
      | none => cases h
      | some b =>
        obtain ⟨e, k, env₂, hcomes, hleaving⟩ := ihb b rfl h
        exact ⟨e, k, env₂, .elseBranch hx (Bool.not_eq_true _ ▸ hw) hcomes, hleaving⟩
  case exprStatement =>
    intro e _ env v env' h
    rw [statement] at h
    obtain ⟨w, env₁, -, h⟩ := bind_eq_ok_iff.mp h
    cases h
  case throw =>
    intro l value _ env v env' h
    rw [statement] at h
    obtain ⟨w, env₁, -, h⟩ := bind_eq_ok_iff.mp h
    cases h
  case vars =>
    intro l declarations _ env v env' h
    rw [statement] at h
    obtain ⟨w, env₁, -, h⟩ := bind_eq_ok_iff.mp h
    cases h
  case function =>
    intro l signature body _ env v env' h
    cases h
  all_goals intros; trivial

/-! ## Calls -/

/-- The environment in which the body of a function begins. -/
def entered (env : Environment) (params : List String) (args : List Value) : Environment :=
  (params.zip args).foldl (fun env p ↦ env.define p.1 p.2) (env.push .function)

theorem call_eq_body (limit budget : Nat) {env : Environment} {name : String} {args : List Value}
    {l : Location} {part : Part}
    (hpart : env.part name args.length env.callScope l = .ok part) :
    call limit (budget + 1) name args l env = body (call limit budget) part.body args l env := by
  simp only [call, Bind.bind, Eval.bind, ask, lift, hpart]

theorem ComesTo.body_eq {params : List String} {sts : List Statement} {args : List Value}
    {env env' : Environment} {e : Option Expr} {k : Nat}
    (h : ComesTo invoke sts (entered env params args) e k env') (l : Location) :
    body invoke (.script params sts) args l env = leaving invoke e (k + 1) env' := by
  have hrun := h.statements_eq .null
  rw [entered] at hrun
  rw [Machine.body_script, hrun, leaving_succ]
  rcases leaving invoke e k env' with ⟨_ | v, env''⟩ <;> rfl

/-- The value of a body that is not null is that of a return which the body came to. -/
theorem comesTo_of_body {params : List String} {sts : List Statement} {args : List Value}
    {l : Location} {env env' : Environment} {v : Value}
    (h : body invoke (.script params sts) args l env = (.ok v, env')) (hv : v ≠ .null) :
    ∃ e k env₁, ComesTo invoke sts (entered env params args) e k env₁ ∧
      leaving invoke e (k + 1) env₁ = (.ok v, env') := by
  rw [Machine.body_script, ← entered] at h
  rcases hrun : statements invoke .null sts (entered env params args) with ⟨_ | flow, env₁⟩
  · rw [hrun] at h
    cases h
  · rw [hrun] at h
    cases flow with
    | normal w =>
      -- a body that runs through has the value null
      cases h
      exact absurd rfl hv
    | returning w =>
      cases h
      obtain ⟨e, k, env₂, hcomes, hleaving⟩ :=
        comesToValue_of_statements (fun st _ ↦ comesToValue_of_statement st) hrun
      refine ⟨e, k, env₂, hcomes, ?_⟩
      rw [leaving_succ, hleaving]
      rfl

/-- A block that is an expression takes a return for its own end. -/
theorem ComesTo.expr_block_eq {body : List Statement} {env env' : Environment} {e : Option Expr}
    {k : Nat} (h : ComesTo invoke body (env.push .block) e k env') (n : Node) :
    expr invoke (.block n body) env = leaving invoke e (k + 1) env' := by
  -- the value is taken out of the flow inside the block, so nothing is left that says it returned
  rw [expr, inFrame_map, leaving_succ]
  simp only [inFrame, Bind.bind, Eval.bind, h.statements_eq, returned]
  rcases leaving invoke e k env' with ⟨_ | v, env''⟩ <;> rfl

/-- A return that stands outside of the expressions of a function's body ends the call. As soon as
the body has come to it, through blocks and branches of any nesting, all that is left of the call is
the value of the return, and then the frames are removed; the outcome of the call is that of the
value, whatever stands behind. A call has a value other than null only through such a return. A
return inside a block that is an expression ends that block only, whose value it is. -/
theorem return_ends_call (limit budget : Nat) {env : Environment} {name : String}
    {args : List Value} {l : Location} {part : Part} {params : List String} {sts : List Statement}
    (hpart : env.part name args.length env.callScope l = .ok part)
    (hbody : part.body = .script params sts) :
    (∀ e k env', ComesTo (call limit budget) sts (entered env params args) e k env' →
      call limit (budget + 1) name args l env = leaving (call limit budget) e (k + 1) env') ∧
    (∀ v env', call limit (budget + 1) name args l env = (.ok v, env') → v ≠ .null →
      ∃ e k env₁, ComesTo (call limit budget) sts (entered env params args) e k env₁ ∧
        leaving (call limit budget) e (k + 1) env₁ = (.ok v, env')) ∧
    ∀ n block env e k env', ComesTo (call limit budget) block (env.push .block) e k env' →
      expr (call limit budget) (.block n block) env
        = leaving (call limit budget) e (k + 1) env' := by
  have hcall := call_eq_body limit budget hpart
  rw [hbody] at hcall
  refine ⟨fun e k env' h ↦ ?_, fun v env' h hv ↦ ?_, fun n block env e k env' h ↦ ?_⟩
  · rw [hcall]
    exact h.body_eq l
  · rw [hcall] at h
    exact comesTo_of_body h hv
  · exact h.expr_block_eq n

/-- A return in a block in a branch, with a throw behind it in the block and another return behind
the branch. -/
theorem return_ends_call_of_block :
    let number (i : Int64) : Expr := .literal (.at .start) (.int i)
    let inner : Statement :=
      .block .start [.ret .start (some (number 1)) none, .throw .start none]
    let sts : List Statement :=
      [.cond .start (.literal (.at .start) (.bool true)) inner none,
        .ret .start (some (number 2)) none]
    let env := Environment.empty.defineFunction "f" (.ofScript [] sts .any)
    env.part "f" ([] : List Value).length env.callScope .start = .ok (.ofScript [] sts .any) ∧
      ComesTo (call 8 3) sts (entered env [] []) (some (number 1)) 1
        ((entered env [] []).push .block) ∧
      call 8 4 "f" [] .start env = (.ok (.int 1), env) := by
  intro number inner sts env
  have hpart : env.part "f" ([] : List Value).length env.callScope .start
      = .ok (.ofScript [] sts .any) := rfl
  have hcomes : ComesTo (call 8 3) sts (entered env [] []) (some (number 1)) 1
      ((entered env [] []).push .block) := .thenBranch rfl rfl (.block .ret)
  obtain ⟨hcall, -⟩ := return_ends_call 8 3 hpart rfl
  exact ⟨hpart, hcomes, hcall _ _ _ hcomes⟩

/-- A return in the block that a variable starts with does not end the call of its function. -/
theorem return_continues_of_expression :
    ∃ p, parseProgram "function f() \x7b var x = \x7b return 1; \x7d; return 2; \x7d f()" = .ok p ∧
      (program defaultLimit p .withBuiltins).1 = .ok (.int 2) := by
  have hrun : (parseProgram
      "function f() \x7b var x = \x7b return 1; \x7d; return 2; \x7d f()").toOption.any
        (fun p ↦ decide ((program defaultLimit p .withBuiltins).1 = .ok (.int 2))) = true := by
    decide +kernel
  obtain ⟨p, hp, hrun⟩ := (Option.any_eq_true _ _).mp hrun
  exact ⟨p, ok_of_toOption hp, of_decide_eq_true hrun⟩

end Scriptlet.Eval
