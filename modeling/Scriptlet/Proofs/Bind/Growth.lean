import Scriptlet.Proofs.Bind.Success
import Scriptlet.Proofs.Table
import Scriptlet.Proofs.Tree.Induction

/-!
# What binding does to the binder

While a program is bound, the binder only learns: locals are added and never changed, a body's
return type is settled once, and functions are added and keep their heads. Whatever was true of a
local or a function when a node was bound is therefore still true at the end, and this is what lets
a whole tree be judged against the tables that are there when binding is over.
-/

namespace Scriptlet

/-- What a return type can still become: one that is not inferred yet becomes any, any other
stays. -/
def ReturnType.Settles (r r' : ReturnType) : Prop :=
  r' = r ∨ r = .inferred none ∧ ∃ ty, r' = .inferred (some ty)

theorem ReturnType.Settles.refl (r : ReturnType) : r.Settles r := .inl rfl

theorem ReturnType.Settles.trans {r₁ r₂ r₃ : ReturnType} (h : r₁.Settles r₂)
    (k : r₂.Settles r₃) : r₁.Settles r₃ := by
  rcases h with rfl | ⟨rfl, ty, rfl⟩
  · exact k
  · rcases k with rfl | ⟨h, -⟩
    · exact .inr ⟨rfl, ty, rfl⟩
    · cases h

/-- Once a return type is there, it is the type of the body. -/
theorem ReturnType.Settles.ty_eq {r r' : ReturnType} (h : r.Settles r') (hr : r ≠ .inferred none) :
    r'.ty = r.ty := by
  rcases h with rfl | ⟨rfl, -⟩
  · rfl
  · exact absurd rfl hr

/-- A function without its locals, which is what calls depend on. -/
def ScriptFunction.head (f : ScriptFunction) : ScriptFunction := { f with locals := [] }

/-- Every name in a scope denotes a local of the body with that name. -/
def Body.Scoped (b : Body) : Prop :=
  ∀ scope ∈ b.scopes, ∀ x slot, scope.get? x = some slot →
    slot.name = x ∧ b.locals[slot.index]? = some slot

/-- The binder `s'` knows all that `s` knows, about the same body. -/
structure Binder.Grows (s s' : Binder) : Prop where
  params : s'.body.params = s.body.params
  locals : s.body.locals <+: s'.body.locals
  ret : s.body.ret.Settles s'.body.ret
  outer : s'.outer = s.outer
  functions : s.functions.map ScriptFunction.head <+: s'.functions.map ScriptFunction.head
  scopes : s.body.Scoped → s'.body.Scoped

namespace Binder.Grows

variable {s s₁ s' : Binder}

theorem refl (s : Binder) : s.Grows s :=
  ⟨rfl, List.prefix_refl _, .refl _, rfl, List.prefix_refl _, id⟩

theorem trans (h : s.Grows s₁) (k : s₁.Grows s') : s.Grows s' :=
  ⟨k.params.trans h.params, h.locals.trans k.locals, h.ret.trans k.ret, k.outer.trans h.outer,
    h.functions.trans k.functions, k.scopes ∘ h.scopes⟩

end Binder.Grows

/-! ## Scopes and locals -/

namespace Body

variable {b : Body}

theorem Scoped.start (params : List (String × Ty)) (ret : ReturnType) :
    (Body.start params ret).Scoped := by
  intro scope hscope x slot h
  obtain rfl : scope = [] := by simpa [Body.start] using hscope
  cases h

theorem Scoped.pushScope (h : b.Scoped) : b.pushScope.Scoped := by
  intro scope hscope
  rcases List.mem_cons.mp hscope with rfl | hscope
  · intro x slot hx
    cases hx
  · exact h scope hscope

theorem Scoped.popScope (h : b.Scoped) : b.popScope.Scoped :=
  fun scope hscope ↦ h scope (List.mem_of_mem_tail hscope)

theorem Scoped.declare (h : b.Scoped) (x : String) (ty : Ty) : (b.declare x ty).Scoped := by
  -- an old slot keeps its place below the new one
  have hold : ∀ slot : Local, b.locals[slot.index]? = some slot →
      (b.declare x ty).locals[slot.index]? = some slot := by
    intro slot hslot
    obtain ⟨hlt, -⟩ := List.getElem?_eq_some_iff.mp hslot
    rw [Body.declare, List.getElem?_append_left hlt, hslot]
  have hnew : (b.declare x ty).locals[(b.nextLocal x ty).index]? = some (b.nextLocal x ty) := by
    simp [Body.declare, Body.nextLocal]
  intro scope hscope y slot hy
  rcases hs : b.scopes with _ | ⟨first, rest⟩
  · simp [Body.declare, hs] at hscope
  have hscopes : (b.declare x ty).scopes = first.put x (b.nextLocal x ty) :: rest := by
    simp [Body.declare, hs]
  rw [hscopes] at hscope
  rcases List.mem_cons.mp hscope with rfl | hscope
  · rw [Table.get?_put] at hy
    split at hy
    · rename_i hyx
      obtain rfl := Option.some.inj hy
      exact ⟨hyx.symm, hnew⟩
    · obtain ⟨hname, hslot⟩ := h first (by simp [hs]) y slot hy
      exact ⟨hname, hold slot hslot⟩
  · obtain ⟨hname, hslot⟩ := h scope (by simp [hs, hscope]) y slot hy
    exact ⟨hname, hold slot hslot⟩

end Body

namespace Binder

theorem grows_pushScope (s : Binder) : s.Grows (s.change Body.pushScope) :=
  ⟨rfl, List.prefix_refl _, .refl _, rfl, List.prefix_refl _, Body.Scoped.pushScope⟩

theorem grows_popScope (s : Binder) : s.Grows (s.change Body.popScope) :=
  ⟨rfl, List.prefix_refl _, .refl _, rfl, List.prefix_refl _, Body.Scoped.popScope⟩

theorem grows_declare (s : Binder) (x : String) (ty : Ty) :
    s.Grows (s.change fun b ↦ b.declare x ty) :=
  ⟨rfl, ⟨_, rfl⟩, .refl _, rfl, List.prefix_refl _, fun h ↦ h.declare x ty⟩

theorem grows_settle {s : Binder} {ret : ReturnType} (h : s.body.ret.Settles ret) :
    s.Grows (s.change fun b ↦ { b with ret := ret }) :=
  ⟨rfl, List.prefix_refl _, h, rfl, List.prefix_refl _, id⟩

/-- A step in a body of its own teaches the binder functions only. -/
theorem grows_leave {s s₁ : Binder} {b : Body} (h : (s.enter b).Grows s₁) : s.Grows s₁.leave := by
  have houter : s₁.outer = s.body :: s.outer := h.outer
  rw [leave_eq houter]
  exact ⟨rfl, List.prefix_refl _, .refl _, rfl, h.functions, id⟩

theorem grows_register (s : Binder) (f : ScriptFunction) : s.Grows (s.register f) :=
  ⟨rfl, List.prefix_refl _, .refl _, rfl, by simp, id⟩

theorem grows_recordLocals (s : Binder) (index : Nat) (locals : List Local) :
    s.Grows (s.recordLocals index locals) := by
  refine ⟨rfl, List.prefix_refl _, .refl _, rfl, ?_, id⟩
  have hheads : (s.recordLocals index locals).functions.map ScriptFunction.head
      = s.functions.map ScriptFunction.head := by
    refine List.ext_getElem? fun i ↦ ?_
    rw [functions_recordLocals, List.getElem?_map, List.getElem?_map, List.getElem?_modify]
    cases s.functions[i]? with
    | none => rfl
    | some f => by_cases hi : index = i <;> simp [hi, ScriptFunction.head]
  exact hheads ▸ List.prefix_refl _

end Binder

namespace BindContext

variable {c : BindContext}

theorem grows_registerEarly (signature : Signature) (params : List (String × Ty)) (ret : Option Ty)
    (s : Binder) : s.Grows (registerEarly signature params ret s) := by
  cases ret with
  | none => exact .refl s
  | some ret => exact s.grows_register _

theorem grows_registerLate (signature : Signature) (params : List (String × Ty)) (ret : Option Ty)
    (index : Nat) (body : Body) (s : Binder) :
    s.Grows (registerLate signature params ret index body s) := by
  cases ret with
  | none => exact s.grows_register _
  | some ret => exact s.grows_recordLocals index body.locals

/-- An assignment leaves the binder as it is, or it declares a variable of the value's type. -/
theorem of_declareByAssignment {target : Expr} {value : Ty} {s s' : Binder}
    (h : c.declareByAssignment target value s = .ok s') :
    s' = s ∨ value.isStorable ∧ ∃ x, s' = s.change fun b ↦ b.declare x value := by
  have hdeclare : ∀ x, (if value.isStorable then .ok (s.change fun b ↦ b.declare x value)
      else .error (.invalidDeclaration x target.location) : Except BindError Binder) = .ok s' →
      value.isStorable ∧ ∃ x, s' = s.change fun b ↦ b.declare x value := by
    intro x hx
    split at hx
    · rename_i hstorable
      exact ⟨hstorable, x, (Except.ok.inj hx).symm⟩
    · cases hx
  rw [declareByAssignment] at h
  split at h
  · split at h
    · exact .inl (Except.ok.inj h).symm
    · exact .inr (hdeclare _ h)
  · split at h
    · exact .inl (Except.ok.inj h).symm
    · exact .inr (hdeclare _ h)
  · exact .inl (Except.ok.inj h).symm

theorem grows_of_declareByAssignment {target : Expr} {value : Ty} {s s' : Binder}
    (h : c.declareByAssignment target value s = .ok s') : s.Grows s' := by
  rcases of_declareByAssignment h with rfl | ⟨-, x, rfl⟩
  · exact .refl _
  · exact s.grows_declare x value

/-- A return settles a return type that is not settled yet. Otherwise it leaves the type as it is,
and the value is converted to it, or both are the same. -/
theorem of_returned {r : Registry} {ret ret' : ReturnType} {value : Ty} {l : Location}
    {k : Option Conversion} (h : r.returned ret value l = .ok (ret', k)) :
    ret = .inferred none ∧ ret' = .inferred (some value) ∧ k = none ∨
      ret ≠ .inferred none ∧ ret' = ret ∧ (ret.ty = value ∧ k = none ∨
        ret.ty ≠ .void ∧ value ≠ .void ∧ r.convert value ret.ty l = .ok k) := by
  -- a type that is written and one that an earlier return has settled are compared alike
  have hagainst : ∀ expected : Ty,
      (if expected = .void ∨ value = .void then
        if expected = value then .ok (ret, none) else .error (.typeMismatch expected value l)
      else do return (ret, ← r.convert value expected l)) = Except.ok (ret', k) →
      ret' = ret ∧ (expected = value ∧ k = none ∨
        expected ≠ .void ∧ value ≠ .void ∧ r.convert value expected l = .ok k) := by
    intro expected he
    split at he
    · obtain ⟨heq, hk⟩ := of_ite_ok he
      obtain ⟨rfl, rfl⟩ := Prod.mk.inj hk
      exact ⟨rfl, .inl ⟨heq, rfl⟩⟩
    · rename_i hvoid
      obtain ⟨k', hk, he⟩ := of_bind_ok he
      obtain ⟨rfl, rfl⟩ := Prod.mk.inj (Except.ok.inj he)
      exact ⟨rfl, .inr ⟨fun h ↦ hvoid (.inl h), fun h ↦ hvoid (.inr h), hk⟩⟩
  unfold Registry.returned at h
  split at h
  · exact .inr ⟨nofun, hagainst _ h⟩
  · exact .inr ⟨nofun, hagainst _ h⟩
  · obtain ⟨rfl, rfl⟩ := Prod.mk.inj (Except.ok.inj h)
    exact .inl ⟨rfl, rfl, rfl⟩

theorem settles_of_returned {r : Registry} {ret ret' : ReturnType} {value : Ty} {l : Location}
    {k : Option Conversion} (h : r.returned ret value l = .ok (ret', k)) : ret.Settles ret' := by
  rcases of_returned h with ⟨rfl, rfl, -⟩ | ⟨-, rfl, -⟩
  · exact .inr ⟨rfl, value, rfl⟩
  · exact .refl _

/-! ## The walk -/

/-- Binding the expression, as a value or as what a method is called on, lets the binder grow. -/
def ExprGrows (c : BindContext) (e : Expr) : Prop :=
  (∀ {s s' e' ty}, (c.expr e).Gives s e' s' ty → s.Grows s') ∧
    ∀ {s s' e' o}, (c.owner e).Gives s e' s' o → s.Grows s'

/-- Binding the statement lets the binder grow. -/
def StatementGrows (c : BindContext) (st : Statement) : Prop :=
  ∀ {s s' st' u}, (c.statement st).Gives s st' s' u → s.Grows s'

theorem grows_of_done {T α : Type} {t t' : T} {a a' : α} {s s' : Binder}
    (h : (Pass.done t a).Gives s t' s' a') : s.Grows s' :=
  (Pass.gives_done.mp h).2.1 ▸ .refl s

theorem args_grows {es : List Expr} (hes : ∀ e ∈ es, ExprGrows c e) {s s' : Binder}
    {es' : List Expr} {tys : List Ty} (h : (c.args es).Gives s es' s' tys) : s.Grows s' := by
  induction es generalizing s es' tys with
  | nil => exact (of_gives_args_nil h).2.1 ▸ .refl s
  | cons e es ih =>
    obtain ⟨he, hes⟩ := List.forall_mem_cons.mp hes
    obtain ⟨e₁, es₁, s₁, ty, tys₁, h₁, h₂, -⟩ := of_gives_args_cons h
    exact (he.1 h₁).trans (ih hes h₂)

theorem exprs_grows {es : List Expr} (hes : ∀ e ∈ es, ExprGrows c e) {s s' : Binder}
    {es' : List Expr} {u : Unit} (h : (c.exprs es).Gives s es' s' u) : s.Grows s' := by
  induction es generalizing s es' u with
  | nil => exact (of_gives_exprs_nil h).2 ▸ .refl s
  | cons e es ih =>
    obtain ⟨he, hes⟩ := List.forall_mem_cons.mp hes
    obtain ⟨e₁, es₁, s₁, ty, h₁, h₂, -⟩ := of_gives_exprs_cons h
    exact (he.1 h₁).trans (ih hes h₂)

theorem optional_grows {o : Option Expr} (ho : ∀ e ∈ o, ExprGrows c e) {s s' : Binder}
    {o' : Option Expr} {t : Option Ty} (h : (c.optional o).Gives s o' s' t) : s.Grows s' := by
  cases o with
  | none => exact (of_gives_optional_none h).2.1 ▸ .refl s
  | some e =>
    obtain ⟨e₁, ty, he, -⟩ := of_gives_optional_some h
    exact (ho e rfl).1 he

theorem statements_grows_of {sts : List Statement} (hsts : ∀ st ∈ sts, StatementGrows c st)
    {s s' : Binder} {sts' : List Statement} {u : Unit}
    (h : (c.statements sts).Gives s sts' s' u) : s.Grows s' := by
  induction sts generalizing s sts' u with
  | nil => exact (of_gives_statements_nil h).2 ▸ .refl s
  | cons st sts ih =>
    obtain ⟨hst, hsts⟩ := List.forall_mem_cons.mp hsts
    obtain ⟨st₁, sts₁, s₁, h₁, h₂, -⟩ := of_gives_statements_cons h
    exact (hst h₁).trans (ih hsts h₂)

/-- A list of statements in a scope of its own. -/
theorem scope_grows {sts : List Statement} (hsts : ∀ st ∈ sts, StatementGrows c st)
    {s s₁ : Binder} {sts' : List Statement} {u : Unit}
    (h : (c.statements sts).Gives (s.change Body.pushScope) sts' s₁ u) :
    s.Grows (s₁.change Body.popScope) :=
  (s.grows_pushScope.trans (statements_grows_of hsts h)).trans s₁.grows_popScope

theorem branch_grows {st : Statement} (hst : StatementGrows c st) {s s₁ : Binder}
    {st' : Statement} {u : Unit}
    (h : (c.statement st).Gives (s.change Body.pushScope) st' s₁ u) :
    s.Grows (s₁.change Body.popScope) :=
  (s.grows_pushScope.trans (hst h)).trans s₁.grows_popScope

theorem alternative_grows {o : Option Statement} (ho : ∀ st ∈ o, StatementGrows c st)
    {s s' : Binder} {o' : Option Statement} {u : Unit} (h : (c.alternative o).Gives s o' s' u) :
    s.Grows s' := by
  cases o with
  | none => exact (of_gives_alternative_none h).2 ▸ .refl s
  | some st =>
    obtain ⟨st₁, s₁, hst, rfl, -⟩ := of_gives_alternative_some h
    exact branch_grows (ho st rfl) hst

theorem unary_grows {n : Node} {op : UnaryOp} {e : Expr} {t : Option OperatorTarget}
    (ih : ExprGrows c e) : ExprGrows c (.unary n op e t) := by
  rcases hop : op.methodName? with _ | method
  · obtain rfl := UnaryOp.methodName?_eq_none.mp hop
    refine ⟨fun h ↦ ?_, fun h ↦ ?_⟩
    · obtain ⟨e₁, he, -⟩ := of_gives_group h
      exact ih.1 he
    · obtain ⟨e₁, he, -⟩ := of_gives_owner_group h
      exact ih.2 he
  · refine ⟨fun h ↦ ?_, fun h ↦ ?_⟩
    · obtain ⟨e₁, operand, t, he, -⟩ := of_gives_unary hop h
      exact ih.1 he
    · cases op with
      | group => cases hop
      | _ => exact grows_of_done h

theorem call_grows {n : Node} {target : Expr} {args : List Expr} {t : Option CallTarget}
    (ih : ExprGrows c target) (ihs : ∀ e ∈ args, ExprGrows c e) {s s' : Binder} {e' : Expr}
    {ty : Ty} (h : (c.expr (.call n target args t)).Gives s e' s' ty) : s.Grows s' := by
  obtain ⟨args', types, s₁, target', t, hargs, -, -, hform⟩ := of_gives_call h
  refine (args_grows ihs hargs).trans ?_
  rcases hform with ⟨x, -, -, rfl, -⟩ | ⟨x, o, isType, -, ho, -⟩ | ⟨fty, -, hf, -⟩
  · exact .refl _
  · exact ih.2 ho
  · exact ih.1 hf

/-- Every form lets the binder grow if its parts do. -/
theorem tree_grows (c : BindContext) : Tree.Cases (ExprGrows c) (StatementGrows c) where
  literal n v := ⟨fun {s _ _ _} h ↦ (of_gives_literal h).2.1 ▸ .refl s,
    fun h ↦ grows_of_done h⟩
  null n := ⟨fun {s _ _ _} h ↦ (of_gives_null h).2.1 ▸ .refl s,
    fun h ↦ grows_of_done h⟩
  this n := ⟨fun {s _ _ _} h ↦ (of_gives_this h).2.1 ▸ .refl s,
    fun h ↦ grows_of_done h⟩
  empty n := ⟨fun h ↦ absurd h not_gives_empty, fun h ↦ grows_of_done h⟩
  name n x := by
    refine ⟨fun h ↦ ?_, fun h ↦ grows_of_done h⟩
    obtain ⟨b, -, -, rfl, -⟩ := of_gives_name h
    exact .refl _
  variableRef n x := by
    refine ⟨fun h ↦ ?_, fun h ↦ grows_of_done h⟩
    obtain ⟨b, -, -, rfl, -⟩ := of_gives_variableRef h
    exact .refl _
  constantRef n x := by
    refine ⟨fun h ↦ ?_, fun h ↦ grows_of_done h⟩
    obtain ⟨b, -, -, rfl, -⟩ := of_gives_constantRef h
    exact .refl _
  member n target x ih := by
    refine ⟨fun h ↦ ?_, fun h ↦ ?_⟩
    · obtain ⟨target', owner, b, ht, -⟩ := of_gives_member h
      exact ih.1 ht
    · obtain ⟨target', ht, -⟩ := of_gives_owner_member h
      exact ih.1 ht
  unary n op e t ih := unary_grows ih
  binary n op a b t iha ihb := by
    refine ⟨fun h ↦ ?_, fun h ↦ grows_of_done h⟩
    obtain ⟨a', b', s₁, left, right, t, ha, hb, -⟩ := of_gives_binary h
    exact (iha.1 ha).trans (ihb.1 hb)
  coalesce n a b iha ihb := by
    refine ⟨fun h ↦ ?_, fun h ↦ grows_of_done h⟩
    obtain ⟨a', b', s₁, right, ha, hb, -⟩ := of_gives_coalesce h
    exact (iha.1 ha).trans (ihb.1 hb)
  ternary n x a b v ihx iha ihb := by
    refine ⟨fun h ↦ ?_, fun h ↦ grows_of_done h⟩
    obtain ⟨x', a', b', s₁, s₂, onTrue, onFalse, v, hx, ha, hb, -⟩ := of_gives_ternary h
    exact ((ihx.1 hx).trans (iha.1 ha)).trans (ihb.1 hb)
  assign n target v k iht ihv := by
    refine ⟨fun h ↦ ?_, fun h ↦ grows_of_done h⟩
    obtain ⟨v', target', s₁, s₂, value, k, hv, hd, ht, -⟩ := of_gives_assign h
    exact ((ihv.1 hv).trans (grows_of_declareByAssignment hd)).trans (iht.1 ht)
  call n target args t ih ihs :=
    ⟨fun h ↦ call_grows ih ihs h, fun h ↦ grows_of_done h⟩
  new n target args t ih ihs := by
    refine ⟨fun h ↦ ?_, fun h ↦ grows_of_done h⟩
    obtain ⟨target', made, s₁, args', types, t, hargs, -, -, -, hmade⟩ := of_gives_new h
    rcases hmade with ⟨-, rfl, -⟩ | ⟨-, ht, -⟩
    · exact args_grows ihs hargs
    · exact (ih.1 ht).trans (args_grows ihs hargs)
  index n target args t ih ihs := by
    refine ⟨fun h ↦ ?_, fun h ↦ grows_of_done h⟩
    obtain ⟨target', s₁, container, args', types, t, ht, hargs, -⟩ := of_gives_index h
    exact (ih.1 ht).trans (args_grows ihs hargs)
  declare n x written init k ih := by
    refine ⟨fun h ↦ ?_, fun h ↦ grows_of_done h⟩
    obtain ⟨declared, init', s₁, initial, k, -, hi, -, rfl, -⟩ := of_gives_declare h
    exact (optional_grows ih hi).trans (s₁.grows_declare x _)
  array n written items cs ih := by
    refine ⟨fun h ↦ ?_, fun h ↦ grows_of_done h⟩
    obtain ⟨declared, items', types, element, cs, -, hitems, -⟩ := of_gives_array h
    exact args_grows ih hitems
  lambda n params body ih := by
    refine ⟨fun h ↦ ?_, fun h ↦ grows_of_done h⟩
    obtain ⟨typed, body', s₁, -, hb, rfl, -⟩ := of_gives_lambda h
    exact Binder.grows_leave (statements_grows_of ih hb)
  block n body ih := by
    refine ⟨fun h ↦ ?_, fun h ↦ grows_of_done h⟩
    obtain ⟨body', s₁, hb, rfl, -⟩ := of_gives_block h
    exact scope_grows ih hb
  exprStatement e ih := fun h ↦ by
    obtain ⟨e₁, ty, he, -⟩ := of_gives_expr_statement h
    exact ih.1 he
  blockStatement l body ih := fun h ↦ by
    obtain ⟨body', s₁, hb, rfl, -⟩ := of_gives_block_statement h
    exact scope_grows ih hb
  cond l x a b ihx iha ihb := fun h ↦ by
    obtain ⟨x', a', b', s₁, s₂, hx, ha, hb, -⟩ := of_gives_cond h
    exact ((ihx.1 hx).trans (branch_grows iha ha)).trans (alternative_grows ihb hb)
  ret l value k ih := fun h ↦ by
    obtain ⟨value', s₁, ty, ret, k, hv, hr, rfl, -⟩ := of_gives_ret h
    exact (optional_grows ih hv).trans (Binder.grows_settle (settles_of_returned hr))
  throw l value ih := fun h ↦ by
    obtain ⟨value', ty, hv, -⟩ := of_gives_throw h
    exact optional_grows ih hv
  vars l declarations ih := fun h ↦ by
    obtain ⟨declarations', hd, -⟩ := of_gives_vars h
    exact exprs_grows ih hd
  function l signature body ih := fun {s _ _ _} h ↦ by
    obtain ⟨params, ret, body', s₁, -, -, hb, rfl, -⟩ := of_gives_function h
    exact ((grows_registerEarly signature params ret s).trans
      (Binder.grows_leave (statements_grows_of ih hb))).trans (grows_registerLate _ _ _ _ _ _)

end BindContext

end Scriptlet
