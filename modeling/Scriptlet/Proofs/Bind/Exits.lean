import Scriptlet.Proofs.Bind.Growth
import Scriptlet.Registry.Primitive

/-!
# What binding leaves behind, however it ends

A binder is used for one program after the other, also after programs that did not bind. So whatever
way binding comes to an end, by an answer or by an error at any depth, the binder has to be fit for
more: every body and every scope that was opened on the way is closed again, and what calls and
variables already refer to by number is still there under the same number.

Growth, which is about what binding learns when it succeeds, is not enough here. It speaks of
successful steps only, and of functions without their locals. The walk below is over steps and not
over their results: a step is safe if its state is, whatever its answer, and the ways in which steps
are put together keep that. The one place where the parts do not decide is the definition of a
function. It completes an entry of the table behind its body, and that this entry is not an old one
depends on the length of the table in front of the body.
-/

namespace Scriptlet

/-- What `s'` may have come to from `s`: the innermost scope of the body at hand may have other
entries, its locals may be more, its return type may be settled, and functions may have been added
at the end. Everything else is as it was. -/
structure Binder.Keeps (s s' : Binder) : Prop where
  outer : s'.outer = s.outer
  params : s'.body.params = s.body.params
  scopes_length : s'.body.scopes.length = s.body.scopes.length
  outer_scopes : s'.body.scopes.tail = s.body.scopes.tail
  locals : s.body.locals <+: s'.body.locals
  ret : s.body.ret.Settles s'.body.ret
  functions : s.functions <+: s'.functions

namespace Binder

/-- The bodies that are being bound, innermost first. -/
def frames (s : Binder) : List Body := s.body :: s.outer

/-- A name is listed with numbers of functions that have it. -/
theorem exists_of_mem_numbers {s : Binder} {name : String} {i : Nat}
    (h : i ∈ (s.table.numbers.get? name).getD []) :
    ∃ f, s.functions[i]? = some f ∧ f.name = name := by
  rw [s.table.numbers_eq, numbersOf, List.mem_map] at h
  obtain ⟨⟨x, j⟩, hmem, rfl⟩ := h
  obtain ⟨hmem, hname⟩ := List.mem_filter.mp hmem
  have hentry := List.mk_mem_zipIdx_iff_getElem?.mp hmem
  rw [List.getElem?_map, Option.map_eq_some_iff] at hentry
  obtain ⟨f, hf, rfl⟩ := hentry
  exact ⟨f, hf, by simpa using hname⟩

variable {s s₁ s' : Binder}

namespace Keeps

theorem refl (s : Binder) : s.Keeps s :=
  ⟨rfl, rfl, rfl, rfl, List.prefix_refl _, .refl _, List.prefix_refl _⟩

theorem trans (h : s.Keeps s₁) (k : s₁.Keeps s') : s.Keeps s' :=
  ⟨k.outer.trans h.outer, k.params.trans h.params, k.scopes_length.trans h.scopes_length,
    k.outer_scopes.trans h.outer_scopes, h.locals.trans k.locals, h.ret.trans k.ret,
    h.functions.trans k.functions⟩

/-- There are as many bodies as before, and each has as many scopes as before. -/
theorem scopes_of_frames (h : s.Keeps s') :
    s'.frames.map (·.scopes.length) = s.frames.map (·.scopes.length) := by
  rw [frames, frames, List.map_cons, List.map_cons, h.scopes_length, h.outer]

theorem declare (s : Binder) (x : String) (ty : Ty) :
    s.Keeps (s.change fun b ↦ b.declare x ty) := by
  refine ⟨rfl, rfl, ?_, ?_, ⟨_, rfl⟩, .refl _, List.prefix_refl _⟩
  · simp only [Binder.change, Body.declare]
    cases s.body.scopes <;> rfl
  · simp only [Binder.change, Body.declare]
    cases s.body.scopes <;> rfl

theorem settle {ret : ReturnType} (h : s.body.ret.Settles ret) :
    s.Keeps (s.change fun b ↦ { b with ret := ret }) :=
  ⟨rfl, rfl, rfl, rfl, List.prefix_refl _, h, List.prefix_refl _⟩

theorem register (s : Binder) (f : ScriptFunction) : s.Keeps (s.register f) :=
  ⟨rfl, rfl, rfl, rfl, List.prefix_refl _, .refl _, ⟨[f], rfl⟩⟩

/-- Recording locals leaves the functions alone that stand before the one with the number. -/
theorem recordLocals (locals : List Local) (h : s.Keeps s') :
    s.Keeps (s'.recordLocals s.functions.length locals) := by
  refine ⟨h.outer, h.params, h.scopes_length, h.outer_scopes, h.locals, h.ret, ?_⟩
  rw [functions_recordLocals, List.prefix_iff_getElem?]
  intro i hi
  rw [List.getElem?_modify, List.prefix_iff_getElem?.mp h.functions i hi]
  simp [Nat.ne_of_gt hi]

/-- A scope that was opened is the one that is closed. -/
theorem scope (h : (s.change Body.pushScope).Keeps s') : s.Keeps (s'.change Body.popScope) := by
  have htail : s'.body.scopes.tail = s.body.scopes := h.outer_scopes
  refine ⟨h.outer, h.params, ?_, ?_, h.locals, h.ret, h.functions⟩
  · rw [change, Body.popScope, htail]
  · rw [change, Body.popScope, htail]

/-- A body that was entered is the one that is left; only functions come out of it. -/
theorem leave {b : Body} (h : (s.enter b).Keeps s') : s.Keeps s'.leave := by
  have houter : s'.outer = s.body :: s.outer := h.outer
  rw [leave_eq houter]
  exact ⟨rfl, rfl, rfl, rfl, List.prefix_refl _, .refl _, h.functions⟩

end Keeps

/-- All that an exit leaves in order: beside what is kept, there are as many bodies as before with
as many scopes each, and the functions that are listed under a name are there and have it. -/
structure Balanced (s s' : Binder) : Prop where
  keeps : s.Keeps s'
  frames : s'.frames.map (·.scopes.length) = s.frames.map (·.scopes.length)
  numbers : ∀ name, ∀ i ∈ (s'.table.numbers.get? name).getD [],
    ∃ f, s'.functions[i]? = some f ∧ f.name = name

theorem Keeps.balanced (h : s.Keeps s') : s.Balanced s' :=
  ⟨h, h.scopes_of_frames, fun _ _ ↦ exists_of_mem_numbers⟩

end Binder

/-! ## Safe steps -/

namespace Pass

variable {T U α β σ : Type}

/-- The step keeps the binder, whatever its answer. -/
def Safe (m : Pass T α) : Prop := ∀ s : Binder, s.Keeps (m s).state

theorem safe_done (t : T) (a : α) : (done t a).Safe := fun s ↦ .refl s

theorem safe_stop (t : T) (e : BindError) : (stop t e : Pass T α).Safe := fun s ↦ .refl s

/-- The second step starts where the first one ended; if the first one failed, that is the end. -/
theorem keeps_within {m : Pass T α} {whole : T → U} {next : T → α → Pass U β} {s s₀ : Binder}
    (hm : s₀.Keeps (m s).state)
    (hnext : ∀ t a s₁, s₀.Keeps s₁ → s₁ = (m s).state → s₀.Keeps (next t a s₁).state) :
    s₀.Keeps (m.within whole next s).state := by
  rw [within]
  rcases ha : (m s).answer with e | a
  · exact hm
  · exact hnext _ a _ hm rfl

theorem Safe.within {m : Pass T α} (hm : m.Safe) {whole : T → U} {next : T → α → Pass U β}
    (hnext : ∀ t a, (next t a).Safe) : (m.within whole next).Safe :=
  fun s ↦ keeps_within (hm s) fun t a s₁ h _ ↦ h.trans (hnext t a s₁)

/-- What a test finds may be taken into account. -/
theorem safe_look_of {tree : U} {test : Binder → Except BindError α} {next : α → Pass U β}
    (hnext : ∀ (s : Binder) a, test s = .ok a → s.Keeps (next a s).state) :
    (look tree test next).Safe := by
  intro s
  rw [look]
  rcases ha : test s with e | a
  · exact .refl s
  · exact hnext s a ha

theorem safe_look {tree : U} {test : Binder → Except BindError α} {next : α → Pass U β}
    (hnext : ∀ a, (next a).Safe) : (look tree test next).Safe :=
  safe_look_of fun s a _ ↦ hnext a s

theorem safe_check {tree : U} {result : Except BindError α} {next : α → Pass U β}
    (hnext : ∀ a, (next a).Safe) : (check tree result next).Safe :=
  safe_look hnext

theorem Safe.change {f : Binder → Binder} (hf : ∀ s : Binder, s.Keeps (f s)) {next : Pass U β}
    (hnext : next.Safe) : (Pass.change f next).Safe :=
  fun s ↦ (hf s).trans (hnext (f s))

theorem safe_fill {place : Option σ} {v : σ} {l : Location} {node : Option σ → U}
    {next : U → Pass U β} (hnext : ∀ u, (next u).Safe) : (fill place v l node next).Safe := by
  cases place with
  | none => exact hnext _
  | some _ => exact safe_stop _ _

theorem safe_resolve (e : Expr) (ty : Ty) (b : Option Binding) : (resolve e ty b).Safe := by
  refine safe_fill fun e ↦ ?_
  cases b with
  | none => exact safe_done _ _
  | some b => exact safe_fill fun e ↦ safe_done _ _

theorem Safe.inScope {m : Pass T α} (hm : m.Safe) : m.inScope.Safe :=
  fun s ↦ (hm (s.change Body.pushScope)).scope

theorem Safe.inBody {m : Pass T α} (hm : m.Safe) (b : Body) : (m.inBody b).Safe :=
  fun s ↦ (hm (s.enter b)).leave

end Pass

/-! ## The walk -/

namespace BindContext

open Pass

variable {c : BindContext}

/-- The expression is bound safely, as a value or as what a method is called on. -/
def ExprSafe (c : BindContext) (e : Expr) : Prop := (c.expr e).Safe ∧ (c.owner e).Safe

theorem safe_recordCall (place : Option CallTarget) (t : CallTarget) (l : Location)
    (node : Option CallTarget → Expr) : (recordCall place t l node).Safe :=
  safe_fill fun e ↦ safe_resolve e t.ret none

theorem safe_named (e : Expr) (name : String) (find : Binder → Option Binding) :
    (named e name find).Safe :=
  safe_look fun b ↦ safe_resolve e b.ty (some b)

theorem safe_args {es : List Expr} (hes : ∀ e ∈ es, c.ExprSafe e) : (c.args es).Safe := by
  induction es with
  | nil =>
    rw [args]
    exact safe_done _ _
  | cons e es ih =>
    obtain ⟨he, hes⟩ := List.forall_mem_cons.mp hes
    by_cases hempty : ∃ n, e = .empty n
    · obtain ⟨n, rfl⟩ := hempty
      rw [args]
      exact safe_stop _ _
    · rw [args]
      · exact he.1.within fun e ty ↦ (ih hes).within fun es tys ↦ safe_done _ _
      · exact fun n hn ↦ hempty ⟨n, hn⟩

theorem safe_exprs {es : List Expr} (hes : ∀ e ∈ es, c.ExprSafe e) : (c.exprs es).Safe := by
  induction es with
  | nil =>
    rw [exprs]
    exact safe_done _ _
  | cons e es ih =>
    obtain ⟨he, hes⟩ := List.forall_mem_cons.mp hes
    rw [exprs]
    exact he.1.within fun e _ ↦ (ih hes).within fun es _ ↦ safe_done _ _

theorem safe_optional {o : Option Expr} (ho : ∀ e ∈ o, c.ExprSafe e) : (c.optional o).Safe := by
  cases o with
  | none =>
    rw [optional]
    exact safe_done _ _
  | some e =>
    rw [optional]
    exact (ho e rfl).1.within fun e ty ↦ safe_done _ _

theorem safe_statements {sts : List Statement} (hsts : ∀ st ∈ sts, (c.statement st).Safe) :
    (c.statements sts).Safe := by
  induction sts with
  | nil =>
    rw [statements]
    exact safe_done _ _
  | cons st sts ih =>
    obtain ⟨hst, hsts⟩ := List.forall_mem_cons.mp hsts
    rw [statements]
    exact hst.within fun st _ ↦ (ih hsts).within fun sts _ ↦ safe_done _ _

theorem safe_alternative {o : Option Statement} (ho : ∀ st ∈ o, (c.statement st).Safe) :
    (c.alternative o).Safe := by
  cases o with
  | none =>
    rw [alternative]
    exact safe_done _ _
  | some st =>
    rw [alternative]
    exact (ho st rfl).inScope.within fun st _ ↦ safe_done _ _

theorem safe_function {l : Location} {signature : Signature} {body : List Statement}
    (hbody : (c.statements body).Safe) : (c.statement (.function l signature body)).Safe := by
  rw [statement]
  refine safe_check fun params ↦ safe_check fun ret ↦ safe_look_of fun s index hindex ↦ ?_
  obtain rfl : s.functions.length = index := Except.ok.inj hindex
  have hearly : s.Keeps (registerEarly signature params ret s) := by
    cases ret with
    | none => exact .refl s
    | some ret => exact .register s _
  have hinner := hearly.trans ((hbody.inBody (.start params (returnOf ret))) _)
  refine keeps_within hinner fun body r s₁ hs₁ _ ↦ ?_
  cases ret with
  | none => exact hs₁.trans (.register _ _)
  | some ret => exact hs₁.recordLocals _

/-- A call by a function's name binds its arguments only, one by a method's name also the owner of
the method, and any other the whole target. -/
theorem safe_call {n : Node} {target : Expr} {args : List Expr} {place : Option CallTarget}
    (htarget : c.ExprSafe target) (hargs : ∀ e ∈ args, c.ExprSafe e) :
    (c.expr (.call n target args place)).Safe := by
  rw [expr]
  refine (safe_args hargs).within fun args types s ↦ ?_
  rcases CallForm.of s.body target with x | x | _
  · exact safe_check (fun t ↦ safe_recordCall _ _ _ _) s
  · exact (htarget.2.within fun target o ↦ safe_check fun t ↦ safe_recordCall _ _ _ _) s
  · exact (htarget.1.within fun target ty ↦ safe_check fun t ↦ safe_recordCall _ _ _ _) s

theorem safe_new {n : Node} {target : Expr} {args : List Expr} {place : Option CallTarget}
    (htarget : c.ExprSafe target) (hargs : ∀ e ∈ args, c.ExprSafe e) :
    (c.expr (.new n target args place)).Safe := by
  have hconstructed : ∀ target ty, (((c.args args).within (.new n target · place) fun args types ↦
      Pass.check (.new n target args place) (c.registry.constructorTarget ty types n.location)
        fun t ↦ recordCall place t n.location (.new n target args)) : Pass Expr Ty).Safe :=
    fun target ty ↦ (safe_args hargs).within fun args types ↦
      safe_check fun t ↦ safe_recordCall _ _ _ _
  rw [expr]
  split
  · exact (safe_resolve _ _ _).within hconstructed
  · exact htarget.1.within fun target ty ↦ safe_check fun _ ↦ hconstructed target ty

/-- An assignment may declare its target before the target is bound. -/
theorem safe_assign {n : Node} {target v : Expr} {place : Option (Option Conversion)}
    (htarget : c.ExprSafe target) (hv : c.ExprSafe v) :
    (c.expr (.assign n target v place)).Safe := by
  rw [expr]
  refine hv.1.within fun v value ↦ safe_look_of fun s s' hs' ↦ ?_
  have hdeclared : s.Keeps s' := by
    rcases of_declareByAssignment hs' with rfl | ⟨-, x, rfl⟩
    · exact .refl _
    · exact .declare s x value
  refine hdeclared.trans ((htarget.1.within fun target ty ↦ ?_) s')
  exact safe_check fun _ ↦ safe_check fun k ↦ safe_fill fun e ↦ safe_resolve _ _ _

theorem safe_unary {n : Node} {op : UnaryOp} {e : Expr} {place : Option OperatorTarget}
    (he : c.ExprSafe e) : c.ExprSafe (.unary n op e place) := by
  constructor
  · rw [expr]
    refine he.1.within fun e ty ↦ ?_
    split
    · exact safe_fill fun u ↦ safe_resolve _ _ _
    · exact safe_check fun t ↦ safe_fill fun u ↦ safe_resolve _ _ _
  · cases op with
    | group =>
      rw [owner]
      exact he.2.within fun e o ↦ safe_done _ _
    | _ => exact safe_done _ _

theorem safe_ternary {n : Node} {x a b : Expr} {place : Option BranchConversion}
    (hx : c.ExprSafe x) (ha : c.ExprSafe a) (hb : c.ExprSafe b) :
    (c.expr (.ternary n x a b place)).Safe := by
  rw [expr]
  refine hx.1.within fun x ty ↦ safe_check fun _ ↦ ha.1.within fun a onTrue ↦
    hb.1.within fun b onFalse ↦ safe_check fun t ↦ ?_
  split
  · exact safe_resolve _ _ _
  · exact safe_fill fun e ↦ safe_resolve _ _ _

/-- The variable is declared behind its initializer. -/
theorem safe_declare {n : Node} {x : String} {written : Option TypeExpr} {init : Option Expr}
    {place : Option (Option Conversion)} (hinit : ∀ e ∈ init, c.ExprSafe e) :
    (c.expr (.declare n x written init place)).Safe := by
  rw [expr]
  refine safe_check fun declared ↦ (safe_optional hinit).within fun init initial ↦
    safe_check fun t ↦ safe_fill fun e ↦ safe_look fun slot ↦ ?_
  exact (safe_resolve _ _ _).change fun s ↦ .declare s x t.1

theorem safe_ret {l : Location} {value : Option Expr} {place : Option (Option Conversion)}
    (hvalue : ∀ e ∈ value, c.ExprSafe e) : (c.statement (.ret l value place)).Safe := by
  rw [statement]
  refine (safe_optional hvalue).within fun value ty ↦ safe_look_of fun s r hr ↦ ?_
  have hsettle := Binder.Keeps.settle (settles_of_returned hr)
  exact hsettle.trans (safe_fill (fun st ↦ safe_done st ()) _)

/-- Every form is bound safely if its parts are. -/
theorem tree_safe (c : BindContext) : Tree.Cases c.ExprSafe fun st ↦ (c.statement st).Safe where
  literal n v := by
    refine ⟨?_, safe_done _ _⟩
    rw [expr]
    exact safe_resolve _ _ _
  null n := by
    refine ⟨?_, safe_done _ _⟩
    rw [expr]
    exact safe_resolve _ _ _
  this n := by
    refine ⟨?_, safe_done _ _⟩
    rw [expr]
    split
    · exact safe_resolve _ _ _
    · exact safe_stop _ _
  empty n := by
    refine ⟨?_, safe_done _ _⟩
    rw [expr]
    exact safe_stop _ _
  name n x := by
    refine ⟨?_, safe_done _ _⟩
    rw [expr]
    exact safe_named _ _ _
  variableRef n x := by
    refine ⟨?_, safe_done _ _⟩
    rw [expr]
    exact safe_named _ _ _
  constantRef n x := by
    refine ⟨?_, safe_done _ _⟩
    rw [expr]
    exact safe_named _ _ _
  member n target x ih := by
    constructor
    · rw [expr]
      exact ih.1.within fun target ty ↦ safe_check fun b ↦ safe_resolve _ _ _
    · rw [owner]
      exact ih.1.within fun target ty ↦ safe_done _ _
  unary n op e place ih := safe_unary ih
  binary n op a b place iha ihb := by
    refine ⟨?_, safe_done _ _⟩
    rw [expr]
    exact iha.1.within fun a left ↦ ihb.1.within fun b right ↦ safe_check fun t ↦
      safe_fill fun e ↦ safe_resolve _ _ _
  coalesce n a b iha ihb := by
    refine ⟨?_, safe_done _ _⟩
    rw [expr]
    exact iha.1.within fun a ty ↦ ihb.1.within fun b _ ↦ safe_resolve _ _ _
  ternary n x a b place ihx iha ihb := ⟨safe_ternary ihx iha ihb, safe_done _ _⟩
  assign n target v place iht ihv := ⟨safe_assign iht ihv, safe_done _ _⟩
  call n target args place ih ihs := ⟨safe_call ih ihs, safe_done _ _⟩
  new n target args place ih ihs := ⟨safe_new ih ihs, safe_done _ _⟩
  index n target args place ih ihs := by
    refine ⟨?_, safe_done _ _⟩
    rw [expr]
    exact ih.1.within fun target ty ↦ (safe_args ihs).within fun args types ↦ safe_check fun t ↦
      safe_recordCall _ _ _ _
  declare n x written init place ih := ⟨safe_declare ih, safe_done _ _⟩
  array n written items place ih := by
    refine ⟨?_, safe_done _ _⟩
    rw [expr]
    exact safe_check fun declared ↦ (safe_args ih).within fun items types ↦ safe_check fun t ↦
      safe_fill fun e ↦ safe_resolve _ _ _
  lambda n params body ih := by
    refine ⟨?_, safe_done _ _⟩
    rw [expr]
    exact safe_check fun typed ↦ ((safe_statements ih).inBody _).within fun body r ↦
      safe_resolve _ _ _
  block n body ih := by
    refine ⟨?_, safe_done _ _⟩
    rw [expr]
    exact (safe_statements ih).inScope.within fun body _ ↦ safe_resolve _ _ _
  exprStatement e ih := by
    rw [statement]
    exact ih.1.within fun e _ ↦ safe_done _ _
  blockStatement l body ih := by
    rw [statement]
    exact (safe_statements ih).inScope.within fun body _ ↦ safe_done _ _
  cond l x a b ihx iha ihb := by
    rw [statement]
    exact ihx.1.within fun x ty ↦ safe_check fun _ ↦ iha.inScope.within fun a _ ↦
      (safe_alternative ihb).within fun b _ ↦ safe_done _ _
  ret l value place ih := safe_ret ih
  throw l value ih := by
    rw [statement]
    exact (safe_optional ih).within fun value _ ↦ safe_done _ _
  vars l declarations ih := by
    rw [statement]
    exact (safe_exprs ih).within fun es _ ↦ safe_done _ _
  function l signature body ih := safe_function (safe_statements ih)

theorem safe_program (p : Program) : (c.program p).Safe := by
  rw [program]
  refine (safe_statements fun st _ ↦ (tree_safe c).statement st).within fun p _ ↦ safe_done _ _

/-- One program after the other on one binder, whether they bind or not. -/
theorem keeps_programs (ps : List Program) (s : Binder) :
    s.Keeps (ps.foldl (fun s p ↦ (c.program p s).state) s) := by
  induction ps generalizing s with
  | nil => exact .refl s
  | cons p ps ih => exact (safe_program p s).trans (ih _)

/-- Whether it ends in an answer or in an error, at whatever depth, binding a statement or an
expression leaves the binder balanced, and so does binding any number of programs in turn. -/
theorem balanced_on_every_exit (c : BindContext) (s : Binder) :
    (∀ st, s.Balanced (c.statement st s).state) ∧ (∀ e, s.Balanced (c.expr e s).state) ∧
      ∀ ps : List Program, s.Balanced (ps.foldl (fun s p ↦ (c.program p s).state) s) := by
  refine ⟨fun st ↦ ?_, fun e ↦ ?_, fun ps ↦ (keeps_programs ps s).balanced⟩
  · exact ((tree_safe c).statement st s).balanced
  · exact (((tree_safe c).expr e).1 s).balanced

/-- A function whose body does not bind stays behind if its head says what it returns. It has no
locals, since its body was never completed, and the body and its scopes are gone. -/
example :
    (BindContext.statement ⟨.primitive, none⟩
      (.function .start ⟨"f", [], some ⟨"int", 0, .start⟩, .start⟩
        [.vars .start [.declare (.at .start) "x" none (some (.null (.at .start))) none]])
      .start).state = Binder.start.register ⟨"f", [], .int, [], .start⟩ := by decide +kernel

end BindContext

end Scriptlet
