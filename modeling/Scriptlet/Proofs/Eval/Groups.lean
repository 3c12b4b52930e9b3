import Scriptlet.Eval.Call
import Scriptlet.Proofs.Environment.Groups
import Scriptlet.Proofs.Error.Places

/-!
# Evaluation sees through parentheses

A tree with and without its parentheses is evaluated alike, each in its own environment: the second
one in that of the first without parentheses. Where the first run fails at some place the second
fails at some other place for the same reason, and their environments go on to differ in parentheses
only.

A function of the host could tell the two runs apart, by looking at the place of an error that it
gets from a call. So it is assumed that no function of the host does that.
-/

namespace Scriptlet

/-! ## Functions of the host -/

/-- Two courses of a part of the host are the same but for the places of errors, as long as the
calls they make have the same results but for those. -/
inductive HostAction.Alike : HostAction → HostAction → Prop where
  | done {r r' : Except EvalError Value} (h : SameUpTo EvalError.withoutPlace r r') :
      Alike (.done r) (.done r')
  | print {a a' : HostAction} (line : String) (h : Alike a a') :
      Alike (.print line a) (.print line a')
  | call {next next' : Except EvalError Value → HostAction} (name : String) (args : List Value)
      (l : Location)
      (h : ∀ r r', SameUpTo EvalError.withoutPlace r r' → Alike (next r) (next' r')) :
      Alike (.call name args l next) (.call name args l next')

/-- A part of the host makes nothing of where an error happened. -/
def PartBody.IgnoresPlaces : PartBody → Prop
  | .native act => ∀ args l, (act args l).Alike (act args l)
  | .script _ _ => True

/-- No part of the host in the environment makes anything of where an error happened. -/
abbrev Environment.IgnoresPlaces (env : Environment) : Prop :=
  env.AllParts fun part ↦ part.body.IgnoresPlaces

/-! ## Computations that agree -/

namespace Eval

variable {α β : Type}

/-- The second computation, without parentheses in its environment, does what the first does. -/
def Agrees (m m' : Eval α) : Prop :=
  ∀ env : Environment, env.IgnoresPlaces →
    SameUpTo EvalError.withoutPlace (m env).1 (m' env.withoutGroups).1 ∧
      (m' env.withoutGroups).2 = (m env).2.withoutGroups ∧ (m env).2.IgnoresPlaces

namespace Agrees

theorem lift {r r' : Except EvalError α} (h : SameUpTo EvalError.withoutPlace r r') :
    Agrees (lift r) (lift r') :=
  fun _ henv ↦ ⟨h, rfl, henv⟩

theorem pure (a : α) : Agrees (Pure.pure a) (Pure.pure a) := lift (.refl _)

theorem fail (e : EvalError) : Agrees (α := α) (Eval.fail e) (Eval.fail e) := lift (.refl _)

theorem ask {f : Environment → α} (hf : ∀ env, f env.withoutGroups = f env) :
    Agrees (ask f) (ask f) :=
  fun env henv ↦ ⟨by rw [Eval.ask, Eval.ask, hf]; rfl, rfl, henv⟩

theorem change {f f' : Environment → Environment}
    (hf : ∀ env, (f env).withoutGroups = f' env.withoutGroups)
    (hparts : ∀ env, env.IgnoresPlaces → (f env).IgnoresPlaces) : Agrees (change f) (change f') :=
  fun env henv ↦ ⟨rfl, (hf env).symm, hparts env henv⟩

theorem bind {m m' : Eval α} {k k' : α → Eval β} (hm : Agrees m m')
    (hk : ∀ a, Agrees (k a) (k' a)) : Agrees (m >>= k) (m' >>= k') := by
  intro env henv
  obtain ⟨hresult, hafter, hparts⟩ := hm env henv
  simp only [Bind.bind, Eval.bind]
  rcases hmenv : m env with ⟨r, env₁⟩
  rcases hmenv' : m' env.withoutGroups with ⟨r', env₁'⟩
  rw [hmenv, hmenv'] at hresult hafter
  rw [hmenv] at hparts
  obtain rfl : env₁' = env₁.withoutGroups := hafter
  rcases hresult.ok_or_error with ⟨a, rfl, rfl⟩ | ⟨e, e', rfl, rfl, he⟩
  · exact hk a env₁ hparts
  · exact ⟨.error he, rfl, hparts⟩

theorem ite {p : Prop} [Decidable p] {m m' k k' : Eval α} (hm : Agrees m m') (hk : Agrees k k') :
    Agrees (if p then m else k) (if p then m' else k') := by
  by_cases hp : p
  · rwa [if_pos hp, if_pos hp]
  · rwa [if_neg hp, if_neg hp]

theorem inFrame {m m' : Eval α} (kind : FrameKind) (h : Agrees m m') :
    Agrees (inFrame kind m) (inFrame kind m') := by
  intro env henv
  obtain ⟨hresult, hafter, hparts⟩ := h (env.push kind) (henv.push kind)
  refine ⟨hresult, ?_, hparts.pop⟩
  simp only [Eval.inFrame]
  rw [← Environment.push_withoutGroups, hafter, Environment.pop_withoutGroups]

/-- A computation that only has to agree in each environment. -/
theorem of_env {m m' : Eval α}
    (h : ∀ env, ∃ k k', Agrees k k' ∧ k env = m env ∧ k' env.withoutGroups = m' env.withoutGroups) :
    Agrees m m' := by
  intro env henv
  obtain ⟨k, k', hk, hm, hm'⟩ := h env
  rw [← hm, ← hm']
  exact hk env henv

end Agrees

/-! ## Names -/

theorem agrees_lookupName (x : String) (l : Location) :
    Agrees (lookupName x l) (lookupName x l) := by
  refine .of_env fun env ↦ ?_
  rw [lookupName, lookupName, Environment.valueOf?_withoutGroups,
    Environment.constant?_withoutGroups]
  cases (env.valueOf? x).orElse fun _ ↦ env.constant? x with
  | some v => exact ⟨_, _, .pure v, rfl, rfl⟩
  | none => exact ⟨_, _, .fail _, rfl, rfl⟩

theorem agrees_assignVariable (x : String) (v : Value) :
    Agrees (change fun env ↦ env.assign x v) (change fun env ↦ env.assign x v) :=
  .change (fun env ↦ env.assign_withoutGroups x v) fun env henv ↦
    (Environment.Write.assign env x v).allParts (fun _ h ↦ h) henv

theorem agrees_define (x : String) (v : Value) :
    Agrees (change fun env ↦ env.define x v) (change fun env ↦ env.define x v) :=
  .change (fun env ↦ env.define_withoutGroups x v) fun env henv ↦
    (Environment.Write.define env x v).allParts (fun _ h ↦ h) henv

theorem agrees_print (line : String) :
    Agrees (change fun env ↦ env.print line) (change fun env ↦ env.print line) :=
  .change (fun env ↦ env.print_withoutGroups line) fun env henv ↦
    (Environment.Write.print env line).allParts (fun _ h ↦ h) henv

theorem agrees_setConstant (x : String) (v : Value) (l : Location) :
    Agrees (tryChange fun env ↦ env.setConstant x v l)
      (tryChange fun env ↦ env.setConstant x v l) := by
  intro env henv
  simp only [tryChange, Environment.setConstant_withoutGroups]
  cases hset : env.setConstant x v l with
  | ok env' =>
    have hwrite : env.Write (fun part ↦ part.body.IgnoresPlaces) env' := .setConstant hset
    exact ⟨.refl _, rfl, hwrite.allParts (fun _ h ↦ h) henv⟩
  | error e => exact ⟨.refl _, rfl, henv⟩

theorem agrees_assignName (x : String) (v : Value) (l : Location) :
    Agrees (assignName x v l) (assignName x v l) := by
  refine .of_env fun env ↦ ?_
  simp only [assignName, Environment.valueOf?_withoutGroups, Environment.constant?_withoutGroups]
  by_cases hconst : (env.valueOf? x).isNone && (env.constant? x).isSome
  · simp only [hconst, if_true]
    exact ⟨_, _, agrees_setConstant x v l, rfl, rfl⟩
  · simp only [hconst, Bool.false_eq_true, if_false]
    exact ⟨_, _, agrees_assignVariable x v, rfl, rfl⟩

theorem agrees_defineFunction (name : String) (params : List String) (body : List Statement) :
    Agrees
      (change fun env ↦ env.defineFunction name (.ofScript params body (scopeOfDefinition env)))
      (change fun env ↦ env.defineFunction name
        (.ofScript params (statementsWithoutGroups body) (scopeOfDefinition env))) := by
  refine .change (fun env ↦ ?_) fun env henv ↦ ?_
  · rw [Environment.defineFunction_withoutGroups, scopeOfDefinition, scopeOfDefinition,
      Environment.callScope_withoutGroups]
    rfl
  · exact (Environment.Write.defineFunction env name trivial).allParts (fun _ h ↦ h) henv

theorem agrees_defineAll (ps : List (String × Value)) :
    Agrees (change fun env ↦ ps.foldl (fun env p ↦ env.define p.1 p.2) env)
      (change fun env ↦ ps.foldl (fun env p ↦ env.define p.1 p.2) env) := by
  refine .change (fun env ↦ ?_) fun env henv ↦ ?_
  · induction ps generalizing env with
    | nil => rfl
    | cons p ps ih => rw [List.foldl_cons, List.foldl_cons, ih, Environment.define_withoutGroups]
  · induction ps generalizing env with
    | nil => exact henv
    | cons p ps ih =>
      exact ih _ ((Environment.Write.define env p.1 p.2).allParts (fun _ h ↦ h) henv)

/-- A value fits a kind or not, wherever it stands. -/
theorem agrees_fit (kind : Option Kind) (v : Value) (op : String) (l l' : Location) :
    Agrees (fit kind v op l) (fit kind v op l') := by
  cases kind with
  | none => exact .pure v
  | some k =>
    refine .ite (.pure v) ?_
    cases v.convertTo k with
    | some w => exact .pure w
    | none => exact .lift (.error rfl)

/-! ## Trees -/

section Trees

variable (invoke invoke' : String → List Value → Location → Eval Value)

/-- The expression and the same without groups do the same as a value, as the target of a write and
in front of arguments. -/
structure ExprAgrees (e : Expr) : Prop where
  value : Agrees (expr invoke e) (expr invoke' e.withoutGroups)
  target : ∀ v l, Agrees (assign invoke e v l) (assign invoke' e.withoutGroups v l)
  called : ∀ args args' l, Agrees args args' →
    Agrees (callee invoke e args l) (callee invoke' e.withoutGroups args' l)

/-- The statement and the same without groups do the same. -/
def StatementAgrees (st : Statement) : Prop :=
  Agrees (statement invoke st) (statement invoke' st.withoutGroups)

variable {invoke invoke'}

theorem agrees_exprs {es : List Expr} (hes : ∀ e ∈ es, ExprAgrees invoke invoke' e) :
    Agrees (exprs invoke es) (exprs invoke' (exprsWithoutGroups es)) := by
  induction es with
  | nil => exact .pure []
  | cons e es ih =>
    obtain ⟨he, hes⟩ := List.forall_mem_cons.mp hes
    exact he.value.bind fun v ↦ (ih hes).bind fun vs ↦ .pure _

/-- The elements of an array are the only expressions whose own places are reported. -/
theorem agrees_items {kind : Option Kind} {es : List Expr}
    (hes : ∀ e ∈ es, ExprAgrees invoke invoke' e) :
    Agrees (items invoke kind es) (items invoke' kind (exprsWithoutGroups es)) := by
  induction es with
  | nil => exact .pure []
  | cons e es ih =>
    obtain ⟨he, hes⟩ := List.forall_mem_cons.mp hes
    exact he.value.bind fun v ↦ (agrees_fit kind v "[]" _ _).bind fun w ↦
      (ih hes).bind fun ws ↦ .pure _

theorem agrees_lastOf {last : Value} {es : List Expr}
    (hes : ∀ e ∈ es, ExprAgrees invoke invoke' e) :
    Agrees (lastOf invoke last es) (lastOf invoke' last (exprsWithoutGroups es)) := by
  induction es generalizing last with
  | nil => exact .pure last
  | cons e es ih =>
    obtain ⟨he, hes⟩ := List.forall_mem_cons.mp hes
    exact he.value.bind fun v ↦ ih hes

theorem agrees_initial {kind : Option Kind} {l : Location} {o : Option Expr}
    (ho : ∀ e ∈ o, ExprAgrees invoke invoke' e) :
    Agrees (initial invoke kind l o) (initial invoke' kind l (optionWithoutGroups o)) := by
  cases o with
  | none => exact .pure _
  | some e => exact (ho e rfl).value.bind fun v ↦ agrees_fit kind v "=" l l

theorem agrees_optionalExpr {o : Option Expr} (ho : ∀ e ∈ o, ExprAgrees invoke invoke' e) :
    Agrees (optionalExpr invoke o) (optionalExpr invoke' (optionWithoutGroups o)) := by
  cases o with
  | none => exact .pure _
  | some e => exact (ho e rfl).value

theorem agrees_indexArg {es : List Expr} (l : Location)
    (hes : ∀ e ∈ es, ExprAgrees invoke invoke' e) :
    Agrees (indexArg invoke es l) (indexArg invoke' (exprsWithoutGroups es) l) := by
  match es, hes with
  | [], _ => exact .fail _
  | [e], hes => exact (hes e List.mem_cons_self).value.bind fun v ↦ .lift (.refl _)
  | e :: e' :: es, _ =>
    have hlength : (exprsWithoutGroups (e :: e' :: es)).length = (e :: e' :: es).length := by
      rw [exprsWithoutGroups_eq_map, List.length_map]
    have hfail : indexArg invoke' (exprsWithoutGroups (e :: e' :: es)) l
        = fail (.missingPart "[]" (exprsWithoutGroups (e :: e' :: es)).length l) := rfl
    rw [hfail, hlength]
    exact .fail _

theorem agrees_statements {last : Value} {sts : List Statement}
    (hsts : ∀ st ∈ sts, StatementAgrees invoke invoke' st) :
    Agrees (statements invoke last sts)
      (statements invoke' last (statementsWithoutGroups sts)) := by
  induction sts generalizing last with
  | nil => exact .pure _
  | cons st sts ih =>
    obtain ⟨hst, hsts⟩ := List.forall_mem_cons.mp hsts
    refine Agrees.bind hst fun flow ↦ ?_
    cases flow with
    | normal v => exact ih hsts
    | returning v => exact .pure _

theorem agrees_optionalStatement {o : Option Statement}
    (ho : ∀ st ∈ o, StatementAgrees invoke invoke' st) :
    Agrees (optionalStatement invoke o)
      (optionalStatement invoke' (alternativeWithoutGroups o)) := by
  cases o with
  | none => exact .pure _
  | some st => exact ho st rfl

/-- A group has the value of its operand. -/
theorem expr_group (n : Node) (e : Expr) (t : Option OperatorTarget) :
    expr invoke (.unary n .group e t) = expr invoke e := by
  funext env
  simp only [expr, Bind.bind, Eval.bind]
  rcases expr invoke e env with ⟨_ | v, env'⟩ <;> rfl

/-- Groups are seen through in all three positions; for other operators the operand is. -/
theorem agrees_unary {n : Node} {op : UnaryOp} {e : Expr} {t : Option OperatorTarget}
    (ih : ExprAgrees invoke invoke' e) : ExprAgrees invoke invoke' (.unary n op e t) := by
  by_cases hop : op = .group
  · subst hop
    constructor
    · rw [expr_group, Expr.withoutGroups_group]
      exact ih.value
    · rw [Expr.withoutGroups_group]
      exact ih.target
    · rw [Expr.withoutGroups_group]
      exact ih.called
  · -- an increment writes to its operand, and so needs it as a target
    have hvalue : Agrees (expr invoke (.unary n op e t))
        (expr invoke' (.unary n op e.withoutGroups t)) :=
      ih.value.bind fun v ↦ (Agrees.lift (.refl _)).bind fun w ↦
        .ite ((ih.target w n.location).bind fun _ ↦ .pure _) (.pure _)
    constructor
    · rwa [Expr.withoutGroups_unary hop]
    · rw [Expr.withoutGroups_unary hop]
      intro v l
      cases op with
      | group => exact absurd rfl hop
      | _ => exact .fail _
    · rw [Expr.withoutGroups_unary hop]
      intro args args' l hargs
      cases op with
      | group => exact absurd rfl hop
      | _ => exact .fail _

theorem agrees_coalesce {n : Node} {a b : Expr} (iha : ExprAgrees invoke invoke' a)
    (ihb : ExprAgrees invoke invoke' b) : ExprAgrees invoke invoke' (.coalesce n a b) := by
  refine ⟨?_, fun _ _ ↦ .fail _, fun _ _ _ _ ↦ .fail _⟩
  refine iha.value.bind fun v ↦ .ite (ihb.value.bind fun w ↦ ?_) (.pure v)
  rw [Expr.assignableName?_withoutGroups]
  exact .ite ((iha.target w n.location).bind fun _ ↦ .pure w) (.pure w)

theorem agrees_index {n : Node} {target : Expr} {args : List Expr} {t : Option CallTarget}
    (ih : ExprAgrees invoke invoke' target) (ihs : ∀ e ∈ args, ExprAgrees invoke invoke' e) :
    ExprAgrees invoke invoke' (.index n target args t) where
  value := ih.value.bind fun _ ↦ (agrees_indexArg _ ihs).bind fun _ ↦ .lift (.refl _)
  target _ l := ih.value.bind fun _ ↦ (agrees_indexArg l ihs).bind fun _ ↦
    (Agrees.lift (.refl _)).bind fun updated ↦ ih.target updated l
  called _ _ _ _ := .fail _

variable (hinvoke : ∀ f vs l, Agrees (invoke f vs l) (invoke' f vs l))
include hinvoke

/-- Every form does the same without its groups if its parts do. -/
theorem tree_agrees : Tree.Cases (ExprAgrees invoke invoke') (StatementAgrees invoke invoke') where
  literal n v := ⟨.pure _, fun _ _ ↦ .fail _, fun _ _ _ _ ↦ .fail _⟩
  null n := ⟨.pure _, fun _ _ ↦ .fail _, fun _ _ _ _ ↦ .fail _⟩
  empty n := ⟨.pure _, fun _ _ ↦ .fail _, fun _ _ _ _ ↦ .fail _⟩
  this n := ⟨.fail _, fun _ _ ↦ .fail _, fun _ _ _ _ ↦ .fail _⟩
  lambda n params body _ := ⟨.fail _, fun _ _ ↦ .fail _, fun _ _ _ _ ↦ .fail _⟩
  new n target args t _ _ := ⟨.fail _, fun _ _ ↦ .fail _, fun _ _ _ _ ↦ .fail _⟩
  name n x := ⟨agrees_lookupName x _, fun v l ↦ agrees_assignName x v l,
    fun args args' l hargs ↦ hargs.bind fun vs ↦ hinvoke x vs l⟩
  variableRef n x :=
    ⟨.ask fun env ↦ by rw [Environment.valueOf?_withoutGroups],
      fun v l ↦ agrees_assignVariable x v, fun _ _ _ _ ↦ .fail _⟩
  constantRef n x :=
    ⟨.ask fun env ↦ by rw [Environment.constant?_withoutGroups],
      fun v l ↦ agrees_setConstant x v l, fun _ _ _ _ ↦ .fail _⟩
  unary n op e t ih := agrees_unary ih
  binary n op a b t iha ihb :=
    ⟨iha.value.bind fun v ↦ .ite (.pure _) (.ite (.pure _)
      (ihb.value.bind fun w ↦ .lift (.refl _))), fun _ _ ↦ .fail _, fun _ _ _ _ ↦ .fail _⟩
  coalesce n a b iha ihb := agrees_coalesce iha ihb
  ternary n x a b v ihx iha ihb :=
    ⟨ihx.value.bind fun v ↦ .ite iha.value ihb.value, fun _ _ ↦ .fail _, fun _ _ _ _ ↦ .fail _⟩
  assign n target v k iht ihv :=
    ⟨ihv.value.bind fun v ↦ (iht.target v _).bind fun _ ↦ .pure _,
      fun _ _ ↦ .fail _, fun _ _ _ _ ↦ .fail _⟩
  call n target args t ih ihs :=
    ⟨ih.called _ _ _ (agrees_exprs ihs), fun _ _ ↦ .fail _, fun _ _ _ _ ↦ .fail _⟩
  index n target args t ih ihs := agrees_index ih ihs
  member n target x ih := ⟨ih.value.bind fun v ↦ .lift (.refl _), fun _ _ ↦ .fail _,
    fun args args' l hargs ↦ ih.value.bind fun v ↦ hargs.bind fun vs ↦ .lift (.refl _)⟩
  declare n x ty init k ih :=
    ⟨(agrees_initial ih).bind fun v ↦ (agrees_define x v).bind fun _ ↦ .pure _,
      fun _ _ ↦ .fail _, fun _ _ _ _ ↦ .fail _⟩
  array n ty items cs ih :=
    ⟨(agrees_items ih).bind fun vs ↦ .pure _, fun _ _ ↦ .fail _, fun _ _ _ _ ↦ .fail _⟩
  block n body ih :=
    ⟨.inFrame .block ((agrees_statements ih).bind fun flow ↦ .pure _), fun _ _ ↦ .fail _,
      fun _ _ _ _ ↦ .fail _⟩
  exprStatement e ih := ih.value.bind fun v ↦ .pure _
  blockStatement l body ih := .inFrame .block (agrees_statements ih)
  cond l x a b ihx iha ihb := ihx.value.bind fun v ↦ .ite iha (agrees_optionalStatement ihb)
  ret l value k ih := (agrees_optionalExpr ih).bind fun v ↦ .pure _
  throw l value ih := (agrees_optionalExpr ih).bind fun v ↦ .fail _
  vars l declarations ih := (agrees_lastOf ih).bind fun v ↦ .pure _
  function l signature body _ :=
    (agrees_defineFunction signature.name (signature.params.map Param.name) body).bind fun _ ↦
      .pure _

/-- Statements do the same without their groups. -/
theorem agrees_all (last : Value) (sts : List Statement) :
    Agrees (statements invoke last sts)
      (statements invoke' last (statementsWithoutGroups sts)) :=
  agrees_statements fun st _ ↦ (tree_agrees hinvoke).statement st

/-! ## Calls -/

theorem agrees_host {a a' : HostAction} (h : a.Alike a') :
    Agrees (host invoke a) (host invoke' a') := by
  induction h with
  | done h => exact .lift h
  | print line _ ih => exact (agrees_print line).bind fun _ ↦ ih
  | call name args l _ ih =>
    intro env henv
    obtain ⟨hresult, hafter, hparts⟩ := hinvoke name args l env henv
    have hrest := ih _ _ hresult _ hparts
    rw [← hafter] at hrest
    exact hrest

/-- The body of a part does the same without its groups. -/
theorem agrees_body {part : Part} (hpart : part.body.IgnoresPlaces) (args : List Value)
    (l : Location) :
    Agrees (body invoke part.body args l) (body invoke' part.withoutGroups.body args l) := by
  obtain ⟨arity, scope, body⟩ := part
  cases body with
  | native act => exact agrees_host hinvoke (hpart args l)
  | script params sts =>
    refine .inFrame .function ((agrees_defineAll _).bind fun _ ↦
      (agrees_all hinvoke .null sts).bind fun flow ↦ ?_)
    cases flow with
    | normal v => exact .pure _
    | returning v => exact .pure v

end Trees

theorem agrees_call (limit budget : Nat) (name : String) (args : List Value) (l : Location) :
    Agrees (call limit budget name args l) (call limit budget name args l) := by
  induction budget generalizing name args l with
  | zero =>
    refine .of_env fun env ↦ ?_
    simp only [call, Bind.bind, Eval.bind, Eval.ask, Eval.lift,
      Environment.callScope_withoutGroups, Environment.part_withoutGroups]
    cases env.part name args.length env.callScope l with
    | error e => exact ⟨_, _, .fail e, rfl, rfl⟩
    | ok part => exact ⟨_, _, .fail (.recursionLimit limit l), rfl, rfl⟩
  | succ budget ih =>
    intro env henv
    simp only [call, Bind.bind, Eval.bind, Eval.ask, Eval.lift,
      Environment.callScope_withoutGroups, Environment.part_withoutGroups]
    cases hfound : env.part name args.length env.callScope l with
    | error e => exact ⟨.refl _, rfl, henv⟩
    | ok part => exact agrees_body ih (henv.of_part hfound) args l env henv

theorem agrees_program (limit : Nat) (p : Program) :
    Agrees (program limit p) (program limit (statementsWithoutGroups p)) :=
  (agrees_all (agrees_call limit limit) .null p).bind fun _ ↦ .pure _

/-- A program and the same without its groups have the same result but for the places of errors, and
leave environments that differ only in groups. -/
theorem program_withoutGroups (limit : Nat) (p : Program) {env : Environment}
    (henv : env.IgnoresPlaces) :
    SameUpTo EvalError.withoutPlace (program limit p env).1
        (program limit (statementsWithoutGroups p) env).1 ∧
      (program limit p env).2.withoutGroups
        = (program limit (statementsWithoutGroups p) env).2.withoutGroups := by
  -- both agree with the program without groups in the environment without groups
  obtain ⟨hresult, hafter, -⟩ := agrees_program limit p env henv
  obtain ⟨hresult', hafter', -⟩ := agrees_program limit (statementsWithoutGroups p) env henv
  rw [withoutGroups_withoutGroups] at hresult' hafter'
  exact ⟨hresult.trans hresult'.symm, hafter.symm.trans hafter'⟩

end Eval

end Scriptlet
