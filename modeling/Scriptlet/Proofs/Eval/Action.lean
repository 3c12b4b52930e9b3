import Scriptlet.Eval.Call
import Scriptlet.Proofs.Tree.Induction

/-!
# What a script does, one action after another

The evaluator says how a run ends. Some statements are about the way there: how deep calls nest
while a run goes on, which constants are set at some point and what becomes of them. For these a
script is given as a tree of actions, as the parts of the host are: every read, every write, every
call and every block is one node, and what comes next depends on what the node brings.

The tree of an expression needs to know what happens with the expression's value, so it is a
function of that: a *course*. A course does what a computation does if carrying out its actions,
with calls left to `invoke`, is running the computation and then the rest. Every form of tree does
what the evaluator says.
-/

namespace Scriptlet

/-- What is made of a value can be made of it outside of the frame. -/
theorem Eval.inFrame_map {α β : Type} (kind : FrameKind) (m : Eval α) (f : α → β) :
    inFrame kind (do return f (← m)) = do return f (← inFrame kind m) := by
  funext env
  simp only [Bind.bind, Eval.bind, inFrame]
  rcases m (env.push kind) with ⟨_ | a, env'⟩ <;> rfl

/-- What is done from here on, up to the end of the frame at hand. -/
inductive Action where
  | done (r : Except EvalError Flow)
  | look (next : Environment → Action)
  | define (name : String) (v : Value) (next : Action)
  | assign (name : String) (v : Value) (next : Action)
  | setConstant (name : String) (v : Value) (l : Location) (next : Action)
  | defineFunction (name : String) (params : List String) (body : List Statement) (next : Action)
  | print (line : String) (next : Action)
  | call (name : String) (args : List Value) (l : Location)
      (next : Except EvalError Value → Action)
  | block (body : Action) (next : Flow → Action)

/-- Actions that come to something of type `α`: all that is done, given what is done with it. -/
abbrev Course (α : Type) := (α → Action) → Action

namespace Action

variable {α β : Type}

/-- Nothing but a failure. -/
def fail (e : EvalError) : Action := .done (.error e)

/-- Goes on with a result, or fails with its error. -/
def attempt (r : Except EvalError α) : Course α := fun next ↦
  match r with
  | .ok a => next a
  | .error e => fail e

/-- The frame at hand ends with this. -/
def finish (flow : Flow) : Action := .done (.ok flow)

/-! ## Names -/

/-- A value brought to a written kind; null fits every kind. -/
def fit (kind : Option Kind) (v : Value) (op : String) (l : Location) : Course Value := fun next ↦
  match kind with
  | none => next v
  | some k =>
    if v.isNull then next v
    else
      match v.convertTo k with
      | some w => next w
      | none => fail (.ofOperands op [v] l)

/-- Reads a bare name: a variable, else a constant. -/
def lookupName (name : String) (l : Location) : Course Value := fun next ↦
  .look fun env ↦
    match (env.valueOf? name).orElse fun _ ↦ env.constant? name with
    | some v => next v
    | none => fail (.unboundIdentifier name l)

/-- Writes a bare name: one that is known only as a constant is written as a constant. -/
def writeName (name : String) (v : Value) (l : Location) (next : Action) : Action :=
  .look fun env ↦
    if (env.valueOf? name).isNone && (env.constant? name).isSome then .setConstant name v l next
    else .assign name v next

/-- Defines the parameters of a function. -/
def defineAll (ps : List (String × Value)) (next : Action) : Action :=
  match ps with
  | [] => next
  | p :: ps => .define p.1 p.2 (defineAll ps next)

/-! ## Trees -/

mutual

/-- The value of an expression. -/
def expr : Expr → Course Value
  | .literal _ v, next => next v.value
  | .null _, next => next .null
  | .empty _, next => next .null
  | .name n x, next => lookupName x n.location next
  | .variableRef _ x, next => .look fun env ↦ next ((env.valueOf? x).getD .null)
  | .constantRef _ x, next => .look fun env ↦ next ((env.constant? x).getD .null)
  | .unary n op e _, next =>
    expr e fun v ↦ attempt (v.unary op n.location) fun w ↦
      if op.isMutating then
        write e w n.location (next (if op = .postInc ∨ op = .postDec then v else w))
      else next w
  | .binary n op l r _, next =>
    expr l fun a ↦
      if op = .and ∧ !a.isTruthy then next (.bool false)
      else if op = .or ∧ a.isTruthy then next (.bool true)
      else expr r fun b ↦ attempt (a.binary op b n.location) next
  | .coalesce n l r, next =>
    expr l fun v ↦
      if v.isNull then
        expr r fun w ↦
          if l.assignableName?.isSome then write l w n.location (next w) else next w
      else next v
  | .ternary _ c t e _, next => expr c fun v ↦ if v.isTruthy then expr t next else expr e next
  | .assign n t e _, next => expr e fun v ↦ write t v n.location (next v)
  | .call n t args _, next => called t (fun next ↦ exprs args next) n.location next
  | .new n _ _ _, _ => fail (.notImplemented .construction n.location)
  | .member n t x, next => expr t fun v ↦ attempt (v.member x n.location) next
  | .index n t args _, next =>
    expr t fun v ↦ indexArg args n.location fun i ↦ attempt (v.element i n.location) next
  | .declare n x ty init _, next =>
    initial (TypeExpr.kind? ty) n.location init fun v ↦ .define x v (next v)
  | .array _ ty es _, next => items (TypeExpr.kind? ty) es fun vs ↦ next (.array vs)
  | .lambda n _ _, _ => fail (.notImplemented .lambda n.location)
  | .this n, _ => fail (.notImplemented .thisReference n.location)
  | .block _ body, next => .block (statements .null body finish) fun flow ↦ next flow.value

/-- The values of expressions, from left to right. -/
def exprs : List Expr → Course (List Value)
  | [], next => next []
  | e :: es, next => expr e fun v ↦ exprs es fun vs ↦ next (v :: vs)

/-- The elements of an array, each brought to the written kind. -/
def items (kind : Option Kind) : List Expr → Course (List Value)
  | [], next => next []
  | e :: es, next =>
    expr e fun v ↦ fit kind v "[]" e.location fun w ↦ items kind es fun ws ↦ next (w :: ws)

/-- The value that a declaration starts with, brought to the written kind. -/
def initial (kind : Option Kind) (l : Location) : Option Expr → Course Value
  | none, next => next ((kind.map Kind.zero).getD .null)
  | some e, next => expr e fun v ↦ fit kind v "=" l next

/-- The one whole number between the brackets of an index. -/
def indexArg : List Expr → Location → Course Int64
  | [e], l, next => expr e fun v ↦ attempt (v.intArg "[]" l) next
  | es, l, _ => fail (.missingPart "[]" es.length l)

/-- A call, by the form of what is called. A call that fails ends the frame at hand. -/
def called : Expr → Course (List Value) → Location → Course Value
  | .unary _ .group e _, args, l, next => called e args l next
  | .name _ f, args, l, next => args fun vs ↦ .call f vs l fun r ↦ attempt r next
  | .member _ t m, args, l, next =>
    expr t fun v ↦ args fun vs ↦ attempt (v.method m vs l) next
  | _, _, l, _ => fail (.notImplemented .computedCall l)

/-- Writes a value to an expression. -/
def write : Expr → Value → Location → Action → Action
  | .unary _ .group e _, v, l, next => write e v l next
  | .name _ x, v, l, next => writeName x v l next
  | .variableRef _ x, v, _, next => .assign x v next
  | .constantRef _ x, v, l, next => .setConstant x v l next
  | .index _ t args _, v, l, next =>
    expr t fun container ↦ indexArg args l fun i ↦
      attempt (container.setElement i v l) fun updated ↦ write t updated l next
  | _, _, l, _ => fail (.invalidTarget l)

/-- A statement. -/
def statement : Statement → Course Flow
  | .expr e, next => expr e fun v ↦ next (.normal v)
  | .block _ body, next => .block (statements .null body finish) next
  | .cond _ c t e, next =>
    expr c fun v ↦ if v.isTruthy then statement t next else optionalStatement e next
  | .ret _ v _, next => optionalExpr v fun v ↦ next (.returning v)
  | .throw l v, _ => optionalExpr v fun v ↦ fail (.thrown v l)
  | .vars _ ds, next => lastOf .null ds fun v ↦ next (.normal v)
  | .function _ s body, next =>
    .defineFunction s.name (s.params.map Param.name) body (next (.normal .null))

/-- Statements one after another, up to a return. -/
def statements (last : Value) : List Statement → Course Flow
  | [], next => next (.normal last)
  | s :: ss, next =>
    statement s fun flow ↦
      match flow with
      | .normal v => statements v ss next
      | .returning v => next (.returning v)

/-- An optional statement; nothing has the value null. -/
def optionalStatement : Option Statement → Course Flow
  | none, next => next (.normal .null)
  | some s, next => statement s next

/-- The value of an optional expression; nothing has the value null. -/
def optionalExpr : Option Expr → Course Value
  | none, next => next .null
  | some e, next => expr e next

/-- Expressions from left to right, of which the last value is kept. -/
def lastOf (last : Value) : List Expr → Course Value
  | [], next => next last
  | e :: es, next => expr e fun v ↦ lastOf v es next

end

/-- A whole program, in the frame at hand. -/
def program (p : Program) : Action := statements .null p finish

/-- What a part of the host does. Its result is what the call returns. -/
def ofHost : HostAction → Action
  | .done r => .done (r.map .returning)
  | .print line next => .print line (ofHost next)
  | .call name args l next => .call name args l fun r ↦ ofHost (next r)

/-! ## Carrying out actions -/

/-- Carries out actions, with calls left to `invoke`. -/
def run (invoke : String → List Value → Location → Eval Value) : Action → Eval Flow
  | .done r => Eval.lift r
  | .look next => fun env ↦ run invoke (next env) env
  | .define name v next => fun env ↦ run invoke next (env.define name v)
  | .assign name v next => fun env ↦ run invoke next (env.assign name v)
  | .setConstant name v l next => fun env ↦
    match env.setConstant name v l with
    | .ok env' => run invoke next env'
    | .error e => (.error e, env)
  | .defineFunction name params body next => fun env ↦
    run invoke next
      (env.defineFunction name (.ofScript params body (Eval.scopeOfDefinition env)))
  | .print line next => fun env ↦ run invoke next (env.print line)
  | .call name args l next => fun env ↦
    run invoke (next (invoke name args l env).1) (invoke name args l env).2
  | .block body next => fun env ↦
    match run invoke body (env.push .block) with
    | (.ok flow, env') => run invoke (next flow) env'.pop
    | (.error e, env') => (.error e, env'.pop)

variable {invoke : String → List Value → Location → Eval Value}

variable (invoke) in
/-- The course does what the computation does: with any rest behind them, carrying out the one is
running the other. -/
def Does (a : Course α) (m : Eval α) : Prop :=
  ∀ next, (a next).run invoke = m >>= fun x ↦ (next x).run invoke

namespace Does

theorem pure (x : α) : Does invoke (fun next ↦ next x) (Pure.pure x) := fun _ ↦ rfl

theorem fail (e : EvalError) : Does (α := α) invoke (fun _ ↦ Action.fail e) (Eval.fail e) :=
  fun _ ↦ rfl

theorem lift (r : Except EvalError α) : Does invoke (attempt r) (Eval.lift r) := by
  intro next
  cases r with
  | ok a => rfl
  | error e => rfl

theorem ask (f : Environment → α) :
    Does invoke (fun next ↦ .look fun env ↦ next (f env)) (Eval.ask f) :=
  fun _ ↦ rfl

theorem bind {a : Course α} {m : Eval α} {b : α → Course β} {k : α → Eval β}
    (ha : Does invoke a m) (hb : ∀ x, Does invoke (b x) (k x)) :
    Does invoke (fun next ↦ a fun x ↦ b x next) (m >>= k) := by
  intro next
  rw [ha]
  funext env
  simp only [Bind.bind, Eval.bind]
  rcases m env with ⟨_ | x, env'⟩
  · rfl
  · exact congrFun (hb x next) env'

theorem ite {p : Prop} [Decidable p] {a a' : Course α} {m m' : Eval α} (h : Does invoke a m)
    (h' : Does invoke a' m') :
    Does invoke (fun next ↦ if p then a next else a' next) (if p then m else m') := by
  intro next
  by_cases hp : p
  · simpa only [hp, if_true] using h next
  · simpa only [hp, if_false] using h' next

/-- A course that only has to agree in each environment. -/
theorem of_look {f : Environment → Course α} {m : Eval α}
    (h : ∀ env, ∃ m', Does invoke (f env) m' ∧ m' env = m env) :
    Does invoke (fun next ↦ .look fun env ↦ f env next) m := by
  intro next
  funext env
  obtain ⟨m', hm', heq⟩ := h env
  have hrun := congrFun (hm' next) env
  simp only [Bind.bind, Eval.bind, heq] at hrun
  exact hrun

theorem inBlock {a : Course Flow} {m : Eval Flow} (h : Does invoke a m) :
    Does invoke (fun next ↦ .block (a finish) next) (Eval.inFrame .block m) := by
  intro next
  funext env
  have hbody : (a finish).run invoke (env.push .block) = m (env.push .block) := by
    rw [h]
    simp only [Bind.bind, Eval.bind]
    rcases m (env.push .block) with ⟨_ | flow, env'⟩ <;> rfl
  simp only [run, hbody, Eval.inFrame, Bind.bind, Eval.bind]
  rcases m (env.push .block) with ⟨_ | flow, env'⟩ <;> rfl

end Does

/-- The write does what the computation does. -/
def DoesWrite (invoke : String → List Value → Location → Eval Value) (w : Action → Action)
    (m : Eval Unit) : Prop :=
  Does invoke (fun next ↦ w (next ())) m

theorem does_fit (kind : Option Kind) (v : Value) (op : String) (l : Location) :
    Does invoke (fit kind v op l) (Eval.fit kind v op l) := by
  intro next
  cases kind with
  | none => rfl
  | some k =>
    simp only [fit, Eval.fit]
    by_cases hnull : v.isNull
    · rw [if_pos hnull, if_pos hnull]
      rfl
    · rw [if_neg hnull, if_neg hnull]
      cases v.convertTo k with
      | none => rfl
      | some w => rfl

theorem does_lookupName (name : String) (l : Location) :
    Does invoke (lookupName name l) (Eval.lookupName name l) := by
  refine Does.of_look fun env ↦ ?_
  rcases hfound : (env.valueOf? name).orElse fun _ ↦ env.constant? name with _ | v
  · refine ⟨Eval.fail (.unboundIdentifier name l), .fail _, ?_⟩
    rw [Eval.lookupName, hfound]
    rfl
  · refine ⟨Pure.pure v, .pure v, ?_⟩
    rw [Eval.lookupName, hfound]
    rfl

theorem does_assign (name : String) (v : Value) :
    DoesWrite invoke (.assign name v) (Eval.change fun env ↦ env.assign name v) :=
  fun _ ↦ rfl

theorem does_setConstant (name : String) (v : Value) (l : Location) :
    DoesWrite invoke (.setConstant name v l)
      (Eval.tryChange fun env ↦ env.setConstant name v l) := by
  intro next
  funext env
  simp only [run, Bind.bind, Eval.bind, Eval.tryChange]
  cases env.setConstant name v l with
  | ok env' => rfl
  | error e => rfl

theorem does_writeName (name : String) (v : Value) (l : Location) :
    DoesWrite invoke (writeName name v l) (Eval.assignName name v l) := by
  intro next
  funext env
  simp only [writeName, run, Eval.assignName, Bind.bind, Eval.bind]
  by_cases hconst : (env.valueOf? name).isNone && (env.constant? name).isSome
  · rw [if_pos hconst, if_pos hconst]
    exact congrFun (does_setConstant name v l next) env
  · rw [if_neg hconst, if_neg hconst]
    rfl

/-! ## Trees do what the evaluator says -/

section Trees

variable (invoke) in
/-- The expression does what the evaluator says as a value, as the target of a write and in front of
arguments. -/
structure ExprDoes (e : Expr) : Prop where
  value : Does invoke (expr e) (Eval.expr invoke e)
  target : ∀ v l, DoesWrite invoke (write e v l) (Eval.assign invoke e v l)
  called : ∀ args m l, Does invoke args m →
    Does invoke (called e args l) (Eval.callee invoke e m l)

variable (invoke) in
/-- The statement does what the evaluator says. -/
def StatementDoes (st : Statement) : Prop := Does invoke (statement st) (Eval.statement invoke st)

theorem does_exprs {es : List Expr} (hes : ∀ e ∈ es, ExprDoes invoke e) :
    Does invoke (exprs es) (Eval.exprs invoke es) := by
  induction es with
  | nil => exact .pure _
  | cons e es ih =>
    obtain ⟨he, hes⟩ := List.forall_mem_cons.mp hes
    exact he.value.bind fun v ↦ (ih hes).bind fun vs ↦ .pure _

theorem does_items {kind : Option Kind} {es : List Expr} (hes : ∀ e ∈ es, ExprDoes invoke e) :
    Does invoke (items kind es) (Eval.items invoke kind es) := by
  induction es with
  | nil => exact .pure _
  | cons e es ih =>
    obtain ⟨he, hes⟩ := List.forall_mem_cons.mp hes
    exact he.value.bind fun v ↦ (does_fit _ _ _ _).bind fun w ↦ (ih hes).bind fun ws ↦ .pure _

theorem does_lastOf {last : Value} {es : List Expr} (hes : ∀ e ∈ es, ExprDoes invoke e) :
    Does invoke (lastOf last es) (Eval.lastOf invoke last es) := by
  induction es generalizing last with
  | nil => exact .pure _
  | cons e es ih =>
    obtain ⟨he, hes⟩ := List.forall_mem_cons.mp hes
    exact he.value.bind fun v ↦ ih hes

theorem does_initial {kind : Option Kind} {l : Location} {o : Option Expr}
    (ho : ∀ e ∈ o, ExprDoes invoke e) :
    Does invoke (initial kind l o) (Eval.initial invoke kind l o) := by
  cases o with
  | none => exact .pure _
  | some e => exact (ho e rfl).value.bind fun v ↦ does_fit _ _ _ _

theorem does_optionalExpr {o : Option Expr} (ho : ∀ e ∈ o, ExprDoes invoke e) :
    Does invoke (optionalExpr o) (Eval.optionalExpr invoke o) := by
  cases o with
  | none => exact .pure _
  | some e => exact (ho e rfl).value

theorem does_indexArg {es : List Expr} (l : Location) (hes : ∀ e ∈ es, ExprDoes invoke e) :
    Does invoke (indexArg es l) (Eval.indexArg invoke es l) := by
  match es, hes with
  | [], _ => exact .fail _
  | [e], hes => exact (hes e List.mem_cons_self).value.bind fun v ↦ .lift _
  | _ :: _ :: _, _ => exact .fail _

theorem does_statements {last : Value} {sts : List Statement}
    (hsts : ∀ st ∈ sts, StatementDoes invoke st) :
    Does invoke (statements last sts) (Eval.statements invoke last sts) := by
  induction sts generalizing last with
  | nil => exact .pure _
  | cons st sts ih =>
    obtain ⟨hst, hsts⟩ := List.forall_mem_cons.mp hsts
    have hdoes : Does invoke (statement st) (Eval.statement invoke st) := hst
    refine hdoes.bind fun flow ↦ ?_
    cases flow with
    | normal v => exact ih hsts
    | returning v => exact .pure _

theorem does_optionalStatement {o : Option Statement} (ho : ∀ st ∈ o, StatementDoes invoke st) :
    Does invoke (optionalStatement o) (Eval.optionalStatement invoke o) := by
  cases o with
  | none => exact .pure _
  | some st => exact ho st rfl

theorem does_unary {n : Node} {op : UnaryOp} {e : Expr} {t : Option OperatorTarget}
    (ih : ExprDoes invoke e) : ExprDoes invoke (.unary n op e t) where
  value := ih.value.bind fun v ↦ (Does.lift _).bind fun w ↦
    .ite ((ih.target w n.location).bind fun _ ↦ .pure _) (.pure _)
  target v l := by
    cases op with
    | group => exact ih.target v l
    | _ => exact .fail _
  called args m l hargs := by
    cases op with
    | group => exact ih.called args m l hargs
    | _ => exact .fail _

theorem does_index {n : Node} {target : Expr} {args : List Expr} {t : Option CallTarget}
    (ih : ExprDoes invoke target) (ihs : ∀ e ∈ args, ExprDoes invoke e) :
    ExprDoes invoke (.index n target args t) where
  value := ih.value.bind fun _ ↦ (does_indexArg _ ihs).bind fun _ ↦ .lift _
  target _ l := ih.value.bind fun _ ↦ (does_indexArg l ihs).bind fun _ ↦
    (Does.lift _).bind fun updated ↦ ih.target updated l
  called _ _ _ _ := .fail _

theorem does_call (f : String) (vs : List Value) (l : Location) :
    Does invoke (fun next ↦ .call f vs l fun r ↦ attempt r next) (invoke f vs l) := by
  intro next
  funext env
  simp only [run, Bind.bind, Eval.bind]
  rcases invoke f vs l env with ⟨_ | v, env'⟩ <;> rfl

/-- Every form does what the evaluator says if its parts do. -/
theorem tree_does : Tree.Cases (ExprDoes invoke) (StatementDoes invoke) where
  literal n v := ⟨.pure _, fun _ _ ↦ .fail _, fun _ _ _ _ ↦ .fail _⟩
  null n := ⟨.pure _, fun _ _ ↦ .fail _, fun _ _ _ _ ↦ .fail _⟩
  empty n := ⟨.pure _, fun _ _ ↦ .fail _, fun _ _ _ _ ↦ .fail _⟩
  this n := ⟨.fail _, fun _ _ ↦ .fail _, fun _ _ _ _ ↦ .fail _⟩
  lambda n params body _ := ⟨.fail _, fun _ _ ↦ .fail _, fun _ _ _ _ ↦ .fail _⟩
  new n target args t _ _ := ⟨.fail _, fun _ _ ↦ .fail _, fun _ _ _ _ ↦ .fail _⟩
  name n x := ⟨does_lookupName x _, fun v l ↦ does_writeName x v l,
    fun args m l hargs ↦ hargs.bind fun vs ↦ does_call x vs l⟩
  variableRef n x := ⟨.ask _, fun v l ↦ does_assign x v, fun _ _ _ _ ↦ .fail _⟩
  constantRef n x := ⟨.ask _, fun v l ↦ does_setConstant x v l, fun _ _ _ _ ↦ .fail _⟩
  unary n op e t ih := does_unary ih
  binary n op a b t iha ihb :=
    ⟨iha.value.bind fun v ↦ .ite (.pure _) (.ite (.pure _) (ihb.value.bind fun w ↦ .lift _)),
      fun _ _ ↦ .fail _, fun _ _ _ _ ↦ .fail _⟩
  coalesce n a b iha ihb :=
    ⟨iha.value.bind fun v ↦ .ite (ihb.value.bind fun w ↦
      .ite ((iha.target w n.location).bind fun _ ↦ .pure w) (.pure w)) (.pure v),
      fun _ _ ↦ .fail _, fun _ _ _ _ ↦ .fail _⟩
  ternary n x a b v ihx iha ihb :=
    ⟨ihx.value.bind fun v ↦ .ite iha.value ihb.value, fun _ _ ↦ .fail _, fun _ _ _ _ ↦ .fail _⟩
  assign n target v k iht ihv :=
    ⟨ihv.value.bind fun v ↦ (iht.target v _).bind fun _ ↦ .pure _,
      fun _ _ ↦ .fail _, fun _ _ _ _ ↦ .fail _⟩
  call n target args t ih ihs :=
    ⟨ih.called _ _ _ (does_exprs ihs), fun _ _ ↦ .fail _, fun _ _ _ _ ↦ .fail _⟩
  index n target args t ih ihs := does_index ih ihs
  member n target x ih := ⟨ih.value.bind fun v ↦ .lift _, fun _ _ ↦ .fail _,
    fun args m l hargs ↦ ih.value.bind fun v ↦ hargs.bind fun vs ↦ .lift _⟩
  declare n x ty init k ih :=
    ⟨(does_initial ih).bind fun v ↦ fun _ ↦ rfl, fun _ _ ↦ .fail _, fun _ _ _ _ ↦ .fail _⟩
  array n ty items cs ih :=
    ⟨(does_items ih).bind fun vs ↦ .pure _, fun _ _ ↦ .fail _, fun _ _ _ _ ↦ .fail _⟩
  block n body ih :=
    ⟨by
      rw [Eval.expr, Eval.inFrame_map]
      exact (does_statements ih).inBlock.bind fun flow ↦ .pure _,
      fun _ _ ↦ .fail _, fun _ _ _ _ ↦ .fail _⟩
  exprStatement e ih := ih.value.bind fun v ↦ .pure _
  blockStatement l body ih := (does_statements ih).inBlock
  cond l x a b ihx iha ihb := ihx.value.bind fun v ↦ .ite iha (does_optionalStatement ihb)
  ret l value k ih := (does_optionalExpr ih).bind fun v ↦ .pure _
  throw l value ih := (does_optionalExpr ih).bind fun v ↦ .fail _
  vars l declarations ih := (does_lastOf ih).bind fun v ↦ .pure _
  function l signature body _ := fun _ ↦ rfl

end Trees

end Action

end Scriptlet
