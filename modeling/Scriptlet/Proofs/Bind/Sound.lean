import Scriptlet.Proofs.Bind.Meaning
import Scriptlet.Proofs.Parse.Written
import Scriptlet.Registry.Primitive
import Scriptlet.Proofs.Bind.Roles
import Scriptlet.Script

/-!
# Binding is sound

A program that is written and that binds is well typed, judged against the tables that are there
when binding is over. The walk goes through the tree once: each form is well typed if its parts are,
for every binder that has grown from the one that binding the form leaves.
-/

namespace Scriptlet

/-- The tables at the end of binding. -/
def Binder.tables (s : Binder) (c : BindContext) : Tables := ⟨c, s.functions⟩

/-- The expression is an access of a member. -/
def Expr.isAccess : Expr → Bool
  | .member .. => true
  | _ => false

/-! ## Names in front of arguments and behind `new` -/

theorem Node.has_resolve (l : Location) (ty : Ty) (b : Option Binding) :
    ((Node.at l).resolve ty b).Has ty b :=
  ⟨rfl, Option.or_none⟩

theorem Node.unbound_at (l : Location) : (Node.at l).Unbound := ⟨rfl, rfl⟩

theorem Expr.Written.isBareName {e : Expr} {n : Node} {x : String} (he : e.Written)
    (h : e.ungrouped = .name n x) : e.IsBareName x := by
  fun_induction Expr.ungrouped e with
  | case1 n e t ih =>
    cases he with
    | unary he => exact .group (Node.unbound_at _) (ih he h)
  | case2 e _ =>
    subst h
    cases he with
    | name _ => exact .name (Node.unbound_at _)

theorem Expr.IsChain.isBareChain {e : Expr} (h : e.IsChain) : e.IsBareChain := by
  induction h with
  | name _ => exact .name (Node.unbound_at _)
  | member _ _ ih => exact .member (Node.unbound_at _) ih

theorem CallForm.of_function {b : Body} {target : Expr} {x : String}
    (h : CallForm.of b target = .function x) : ∃ n, target.ungrouped = .name n x := by
  rw [CallForm.of] at h
  split at h
  · rename_i n y heq
    split at h
    · cases h
    · cases h
      exact ⟨n, heq⟩
  · cases h
  · cases h

theorem CallForm.of_method {b : Body} {target : Expr} {x : String}
    (h : CallForm.of b target = .method x) : ∃ n owner, target.ungrouped = .member n owner x := by
  rw [CallForm.of] at h
  split at h
  · split at h <;> cases h
  · rename_i n owner y heq
    cases h
    exact ⟨n, owner, heq⟩
  · cases h

namespace Registry

theorem HasMember.ne_typeName {r : Registry} {owner ty : Ty} {x : String} {d : Binding}
    (h : r.HasMember owner x d) : d ≠ .typeName ty := by
  rintro rfl
  exact h

/-- The written name behind `new` that denotes a type is the name of that type. -/
theorem namesType_of_isChain {r : Registry} {target : Expr} {ty : Ty} (ht : target.IsChain)
    (h : target.qualifiedName?.bind r.resolve? = some ty) :
    r.NamesType ty (target.setNode (target.node.resolve ty (some (.typeName ty)))) := by
  cases ht with
  | name _ => exact .name h (Node.has_resolve ..)
  | member he _ =>
    obtain ⟨q, hq, hty⟩ := Option.bind_eq_some_iff.mp h
    obtain ⟨q', hq', rfl⟩ := Option.map_eq_some_iff.mp hq
    exact .member he.isBareChain hq' hty (Node.has_resolve ..)

end Registry

namespace BindContext

variable {c : BindContext}

theorem name?_eq_typeName {s : Binder} {x : String} {ty : Ty} (hs : s.body.Scoped)
    (h : c.name? s.body x = some (.typeName ty)) : c.registry.resolve? x = some ty := by
  rcases denotes_of_name? hs h (.refl s) with hstores | ⟨this, -, hmember⟩ | ⟨ty', hty, hx⟩
  · exact hstores.elim
  · exact absurd rfl hmember.ne_typeName
  · cases hty
    exact hx

/-- A written name behind `new` that does not denote a type at once does not bind to one. -/
theorem not_isTypeName_of_isChain {s s' : Binder} {target target' : Expr} {ty : Ty}
    (ht : target.IsChain) (hs : s.body.Scoped)
    (h : target.qualifiedName?.bind c.registry.resolve? = none)
    (hbind : (c.expr target).Gives s target' s' ty) : ¬target'.isTypeName := by
  intro htype
  cases ht with
  | name _ =>
    obtain ⟨b, hb, rfl, -⟩ := of_gives_name hbind
    cases b with
    | typeName ty' => exact Option.some_ne_none _ ((name?_eq_typeName hs hb).symm.trans h)
    | _ => cases htype
  | member _ _ =>
    obtain ⟨owner', owner, b, -, hb, rfl, -⟩ := of_gives_member hbind
    cases b with
    | typeName ty' => exact (Registry.hasMember_of_member? hb).1.elim
    | _ => cases htype

/-! ## The walk -/

/-- Binding the expression, as a value, as a declaration or as what a method is called on, leaves it
well typed. -/
structure ExprSound (c : BindContext) (e : Expr) : Prop where
  typed : ∀ {s s' e' ty final}, e.Written → (c.expr e).Gives s e' s' ty → s.body.Scoped →
    s'.Grows final → (final.tables c).Typed final.body e' ty
  declared : ∀ {s s' e' ty final}, e.WrittenDeclaration → (c.expr e).Gives s e' s' ty →
    s.body.Scoped → s'.Grows final → (final.tables c).TypedDeclaration final.body e'
  owned : ∀ {s s' e' owner isType final n target x}, e.Written → e.ungrouped = .member n target x →
    (c.owner e).Gives s e' s' (owner, isType) → s.body.Scoped → s'.Grows final →
    (final.tables c).TypedOwner final.body e' x owner isType

/-- Binding the statement leaves it well typed. -/
def StatementSound (c : BindContext) (st : Statement) : Prop :=
  ∀ {s s' st' u final}, st.Written → (c.statement st).Gives s st' s' u → s.body.Scoped →
    s'.Grows final → (final.tables c).TypedStatement final.body st'

theorem expr_grows {e e' : Expr} {s s' : Binder} {ty : Ty} (h : (c.expr e).Gives s e' s' ty) :
    s.Grows s' :=
  ((tree_grows c).expr e).1 h

theorem statements_grows {sts sts' : List Statement} {s s' : Binder} {u : Unit}
    (h : (c.statements sts).Gives s sts' s' u) : s.Grows s' :=
  statements_grows_of (fun st _ ↦ (tree_grows c).statement st) h

theorem typedAll_of_args {es : List Expr} (hes : ∀ e ∈ es, ExprSound c e) (hw : WrittenItems es)
    {s s' final : Binder} {es' : List Expr} {tys : List Ty} (h : (c.args es).Gives s es' s' tys)
    (hs : s.body.Scoped) (hfinal : s'.Grows final) :
    (final.tables c).TypedAll final.body es' tys := by
  induction es generalizing s es' tys with
  | nil =>
    obtain ⟨rfl, -, rfl⟩ := of_gives_args_nil h
    exact .nil
  | cons e es ih =>
    obtain ⟨he, hes⟩ := List.forall_mem_cons.mp hes
    obtain ⟨hwe, hwes⟩ := List.forall_mem_cons.mp hw
    obtain ⟨e₁, es₁, s₁, ty, tys₁, h₁, h₂, rfl, rfl⟩ := of_gives_args_cons h
    have hwritten : e.Written := hwe fun ⟨l, hl⟩ ↦ not_gives_empty (hl ▸ h₁)
    have hrest : s₁.Grows s' := args_grows (fun e _ ↦ (tree_grows c).expr e) h₂
    exact .cons (he.typed hwritten h₁ hs (hrest.trans hfinal))
      (ih hes hwes h₂ ((expr_grows h₁).scopes hs))

theorem typedDeclarations_of {es : List Expr} (hes : ∀ e ∈ es, ExprSound c e)
    (hw : ∀ e ∈ es, e.WrittenDeclaration) {s s' final : Binder} {es' : List Expr} {u : Unit}
    (h : (c.exprs es).Gives s es' s' u) (hs : s.body.Scoped) (hfinal : s'.Grows final) :
    ∀ e ∈ es', (final.tables c).TypedDeclaration final.body e := by
  induction es generalizing s es' u with
  | nil =>
    obtain ⟨rfl, -⟩ := of_gives_exprs_nil h
    exact fun _ h ↦ absurd h List.not_mem_nil
  | cons e es ih =>
    obtain ⟨he, hes⟩ := List.forall_mem_cons.mp hes
    obtain ⟨hwe, hwes⟩ := List.forall_mem_cons.mp hw
    obtain ⟨e₁, es₁, s₁, ty, h₁, h₂, rfl⟩ := of_gives_exprs_cons h
    have hrest : s₁.Grows s' := exprs_grows (fun e _ ↦ (tree_grows c).expr e) h₂
    exact List.forall_mem_cons.mpr ⟨he.declared hwe h₁ hs (hrest.trans hfinal),
      ih hes hwes h₂ ((expr_grows h₁).scopes hs)⟩

theorem typedOption_of_optional {o : Option Expr} (ho : ∀ e ∈ o, ExprSound c e)
    (hw : ∀ e ∈ o, e.Written) {s s' final : Binder} {o' : Option Expr} {t : Option Ty}
    (h : (c.optional o).Gives s o' s' t) (hs : s.body.Scoped) (hfinal : s'.Grows final) :
    (final.tables c).TypedOption final.body o' t := by
  cases o with
  | none =>
    obtain ⟨rfl, -, rfl⟩ := of_gives_optional_none h
    exact .none
  | some e =>
    obtain ⟨e₁, ty, he, rfl, rfl⟩ := of_gives_optional_some h
    exact .some ((ho e rfl).typed (hw e rfl) he hs hfinal)

theorem typedStatements_of {sts : List Statement} (hsts : ∀ st ∈ sts, StatementSound c st)
    (hw : ∀ st ∈ sts, st.Written) {s s' final : Binder} {sts' : List Statement} {u : Unit}
    (h : (c.statements sts).Gives s sts' s' u) (hs : s.body.Scoped) (hfinal : s'.Grows final) :
    ∀ st ∈ sts', (final.tables c).TypedStatement final.body st := by
  induction sts generalizing s sts' u with
  | nil =>
    obtain ⟨rfl, -⟩ := of_gives_statements_nil h
    exact fun _ h ↦ absurd h List.not_mem_nil
  | cons st sts ih =>
    obtain ⟨hst, hsts⟩ := List.forall_mem_cons.mp hsts
    obtain ⟨hwst, hwsts⟩ := List.forall_mem_cons.mp hw
    obtain ⟨st₁, sts₁, s₁, h₁, h₂, rfl⟩ := of_gives_statements_cons h
    have hscoped : s₁.body.Scoped := ((tree_grows c).statement st h₁).scopes hs
    exact List.forall_mem_cons.mpr
      ⟨hst hwst h₁ hs ((statements_grows h₂).trans hfinal), ih hsts hwsts h₂ hscoped⟩

/-- The statements of a scope of its own are well typed in the body around it. -/
theorem typedScope_of {sts : List Statement} (hsts : ∀ st ∈ sts, StatementSound c st)
    (hw : ∀ st ∈ sts, st.Written) {s s₁ final : Binder} {sts' : List Statement} {u : Unit}
    (h : (c.statements sts).Gives (s.change Body.pushScope) sts' s₁ u) (hs : s.body.Scoped)
    (hfinal : (s₁.change Body.popScope).Grows final) :
    ∀ st ∈ sts', (final.tables c).TypedStatement final.body st :=
  typedStatements_of hsts hw h (s.grows_pushScope.scopes hs) (s₁.grows_popScope.trans hfinal)

theorem typedBranch_of {st : Statement} (hst : StatementSound c st) (hw : st.Written)
    {s s₁ final : Binder} {st' : Statement} {u : Unit}
    (h : (c.statement st).Gives (s.change Body.pushScope) st' s₁ u) (hs : s.body.Scoped)
    (hfinal : (s₁.change Body.popScope).Grows final) :
    (final.tables c).TypedStatement final.body st' :=
  hst hw h (s.grows_pushScope.scopes hs) (s₁.grows_popScope.trans hfinal)

theorem typedAlternative_of {o : Option Statement} (ho : ∀ st ∈ o, StatementSound c st)
    (hw : ∀ st ∈ o, st.Written) {s s' final : Binder} {o' : Option Statement} {u : Unit}
    (h : (c.alternative o).Gives s o' s' u) (hs : s.body.Scoped) (hfinal : s'.Grows final) :
    ∀ st ∈ o', (final.tables c).TypedStatement final.body st := by
  cases o with
  | none =>
    obtain ⟨rfl, -⟩ := of_gives_alternative_none h
    exact fun _ h ↦ absurd h (Option.not_mem_none _)
  | some st =>
    obtain ⟨st₁, s₁, hst, rfl, rfl⟩ := of_gives_alternative_some h
    intro _ hmem
    obtain rfl := Option.mem_some.mp hmem
    exact typedBranch_of (ho st rfl) (hw st rfl) hst hs hfinal

/-- The statements of a body of its own are well typed in that body, as it is at its end. -/
theorem typedBody_of {sts : List Statement} (hsts : ∀ st ∈ sts, StatementSound c st)
    (hw : ∀ st ∈ sts, st.Written) {s s₁ final : Binder} {sts' : List Statement} {u : Unit}
    {params : List (String × Ty)} {ret : ReturnType}
    (h : (c.statements sts).Gives (s.enter (.start params ret)) sts' s₁ u)
    (hfinal : s₁.leave.Grows final) :
    s₁.body.params = params ∧ ∀ st ∈ sts', (final.tables c).TypedStatement s₁.body st :=
  ⟨(statements_grows h).params,
    typedStatements_of hsts hw h (Body.Scoped.start params ret) hfinal.inner⟩

/-! ## Forms -/

/-- A form that is no declaration and no access of a member is bound as a value only. -/
theorem ExprSound.of_typed {e : Expr}
    (typed : ∀ {s s' e' ty final}, e.Written → (c.expr e).Gives s e' s' ty → s.body.Scoped →
      s'.Grows final → (final.tables c).Typed final.body e' ty)
    (hdeclare : ¬e.WrittenDeclaration) (hmember : e.ungrouped.isAccess = false) :
    ExprSound c e where
  typed := typed
  declared hw _ _ _ := absurd hw hdeclare
  owned _ hx _ _ _ := by
    rw [hx] at hmember
    cases hmember

theorem unary_sound {n : Node} {op : UnaryOp} {e : Expr} {t : Option OperatorTarget}
    (ih : ExprSound c e) : ExprSound c (.unary n op e t) where
  typed hw h hs hfinal := by
    cases hw with
    | unary he =>
      rcases hop : op.methodName? with _ | method
      · obtain rfl := UnaryOp.methodName?_eq_none.mp hop
        obtain ⟨e₁, he₁, rfl⟩ := of_gives_group h
        exact .group (ih.typed he he₁ hs hfinal) (Node.has_resolve ..)
      · obtain ⟨e₁, operand, t, he₁, ht, rfl⟩ := of_gives_unary hop h
        exact .unary (ih.typed he he₁ hs hfinal)
          (Registry.unaryMeaning_of_unary hop ht) (Node.has_resolve ..)
  declared hw _ _ _ := nomatch hw
  owned hw hx h hs hfinal := by
    cases hw with
    | unary he =>
      cases op with
      | group =>
        obtain ⟨e₁, he₁, rfl⟩ := of_gives_owner_group h
        exact .group (Node.unbound_at _) (ih.owned he hx he₁ hs hfinal)
      | _ => cases hx

theorem member_sound {n : Node} {target : Expr} {x : String} (ih : ExprSound c target) :
    ExprSound c (.member n target x) where
  typed hw h hs hfinal := by
    cases hw with
    | member ht _ =>
      obtain ⟨target', owner, b, ht', hb, rfl, rfl⟩ := of_gives_member h
      obtain ⟨hmember, hstatic⟩ := Registry.hasMember_of_member? hb
      exact .member (ih.typed ht ht' hs hfinal) hmember hstatic (Node.has_resolve ..)
  declared hw _ _ _ := nomatch hw
  owned hw hx h hs hfinal := by
    cases hw with
    | member ht _ =>
      cases hx
      obtain ⟨target', ht', htype, rfl⟩ := of_gives_owner_member h
      cases htype
      exact .member (Node.unbound_at _) (ih.typed ht ht' hs hfinal)

theorem call_typed {l : Location} {target : Expr} {args : List Expr} (ih : ExprSound c target)
    (ihs : ∀ e ∈ args, ExprSound c e) (ht : target.Written) (hargs : WrittenItems args)
    {s s' final : Binder} {e' : Expr} {ty : Ty}
    (h : (c.expr (.call (.at l) target args none)).Gives s e' s' ty) (hs : s.body.Scoped)
    (hfinal : s'.Grows final) : (final.tables c).Typed final.body e' ty := by
  obtain ⟨args', types, s₁, target', t, h₁, rfl, rfl, hform⟩ := of_gives_call h
  have hgrow : s.Grows s₁ := args_grows (fun e _ ↦ (tree_grows c).expr e) h₁
  have hs₁ := hgrow.scopes hs
  rcases hform with ⟨x, hx, rfl, rfl, ht'⟩ | ⟨x, owner, isType, hx, ho, ht'⟩ | ⟨fty, -, hf, ht'⟩
  · obtain ⟨n, hn⟩ := CallForm.of_function hx
    exact .callFunction (ht.isBareName hn) (typedAll_of_args ihs hargs h₁ hs hfinal)
      (functionMeaning_of_functionTarget ht' hfinal) (Node.has_resolve ..)
  · obtain ⟨n, o, ho'⟩ := CallForm.of_method hx
    have hgrow₁ : s₁.Grows s' := ((tree_grows c).expr target).2 ho
    exact .callMethod (ih.owned ht ho' ho hs₁ hfinal)
      (typedAll_of_args ihs hargs h₁ hs (hgrow₁.trans hfinal))
      (Registry.methodMeaning_of_methodTarget ht') (Node.has_resolve ..)
  · obtain ⟨params, ret, cs, rfl, hfit, rfl⟩ := Registry.of_valueTarget ht'
    exact .callValue (ih.typed ht hf hs₁ hfinal)
      (typedAll_of_args ihs hargs h₁ hs ((expr_grows hf).trans hfinal)) hfit
      (Node.has_resolve ..)

theorem new_typed {l : Location} {target : Expr} {args : List Expr}
    (ihs : ∀ e ∈ args, ExprSound c e) (ht : target.IsChain) (hargs : WrittenItems args)
    {s s' final : Binder} {e' : Expr} {ty : Ty}
    (h : (c.expr (.new (.at l) target args none)).Gives s e' s' ty) (hs : s.body.Scoped)
    (hfinal : s'.Grows final) : (final.tables c).Typed final.body e' ty := by
  obtain ⟨target', made, s₁, args', types, t, h₁, ht', rfl, rfl, hmade⟩ := of_gives_new h
  rcases hmade with ⟨hmade, rfl, rfl⟩ | ⟨hmade, hbind, htype⟩
  · exact .new (Registry.namesType_of_isChain ht hmade) (typedAll_of_args ihs hargs h₁ hs hfinal)
      (Registry.constructorMeaning_of_constructorTarget ht') (Node.has_resolve ..)
  · exact absurd htype (not_isTypeName_of_isChain ht hs hmade hbind)

/-- A function whose body is bound stands in the table in the end, with the return type of the
body. -/
theorem registered_of_grows {signature : Signature} {params : List (String × Ty)}
    {ret : Option Ty} {s s₁ final : Binder}
    (h : ((registerEarly signature params ret s).enter (.start params (returnOf ret))).Grows s₁)
    (hfinal : (registerLate signature params ret s.functions.length s₁.body s₁.leave).Grows final) :
    ∃ (i : Nat) (f : ScriptFunction), final.functions[i]? = some f ∧
      f.head = ⟨signature.name, params.map Prod.snd, s₁.body.ret.ty, [], signature.location⟩ ∧
      ∀ ty ∈ ret, ty = s₁.body.ret.ty := by
  cases ret with
  | none =>
    have hlast : (s₁.leave.register ⟨signature.name, params.map Prod.snd, s₁.body.ret.ty,
        s₁.body.locals, signature.location⟩).functions[s₁.leave.functions.length]?
        = some ⟨signature.name, params.map Prod.snd, s₁.body.ret.ty, s₁.body.locals,
          signature.location⟩ := by
      simp
    obtain ⟨f, hf, hhead⟩ := hfinal.function hlast
    exact ⟨_, f, hf, hhead, fun _ h ↦ absurd h (Option.not_mem_none _)⟩
  | some ty =>
    have hret : s₁.body.ret.ty = ty := h.ret.ty_eq (by rintro ⟨⟩)
    have hfirst : (registerEarly signature params (some ty) s).functions[s.functions.length]?
        = some ⟨signature.name, params.map Prod.snd, ty, [], signature.location⟩ := by
      simp [registerEarly]
    have hgrows := ((Binder.grows_leave h).trans (grows_registerLate signature params (some ty)
      s.functions.length s₁.body s₁.leave)).trans hfinal
    obtain ⟨f, hf, hhead⟩ := hgrows.function hfirst
    refine ⟨_, f, hf, hret ▸ hhead, ?_⟩
    rintro _ ⟨⟩
    exact hret.symm

theorem function_typed {l : Location} {signature : Signature} {body : List Statement}
    (ih : ∀ st ∈ body, StatementSound c st) (hw : ∀ st ∈ body, st.Written)
    {s s' final : Binder} {st' : Statement} {u : Unit}
    (h : (c.statement (.function l signature body)).Gives s st' s' u)
    (hfinal : s'.Grows final) : (final.tables c).TypedStatement final.body st' := by
  obtain ⟨params, ret, body', s₁, hp, hret, hb, rfl, rfl⟩ := of_gives_function h
  have hlate := grows_registerLate signature params ret s.functions.length s₁.body s₁.leave
  obtain ⟨hparams, hbody⟩ := typedBody_of ih hw hb (hlate.trans hfinal)
  obtain ⟨i, f, hf, hhead, hdeclared⟩ := registered_of_grows (statements_grows hb) hfinal
  rw [ScriptFunction.head, ScriptFunction.mk.injEq] at hhead
  obtain ⟨hname, hsig, hfret, -, hlocation⟩ := hhead
  exact .function hp hret hf hname hlocation hparams hsig hfret
    (fun ty hty ↦ (hdeclared ty hty).trans hfret.symm) hbody

/-- Every form is left well typed if its parts are. -/
theorem tree_sound (c : BindContext) : Tree.Cases (ExprSound c) (StatementSound c) where
  literal n v := .of_typed (fun hw h _ _ ↦ by
    cases hw with
    | literal _ =>
      obtain ⟨rfl, -, rfl⟩ := of_gives_literal h
      exact .literal (Node.has_resolve ..)) nofun rfl
  null n := .of_typed (fun hw h _ _ ↦ by
    cases hw with
    | null =>
      obtain ⟨rfl, -, rfl⟩ := of_gives_null h
      exact .null (Node.has_resolve ..)) nofun rfl
  this n := .of_typed (fun hw h _ _ ↦ by
    cases hw with
    | this =>
      obtain ⟨rfl, -, hthis⟩ := of_gives_this h
      exact .this hthis (Node.has_resolve ..)) nofun rfl
  empty n := .of_typed (fun hw _ _ _ ↦ nomatch hw) nofun rfl
  name n x := .of_typed (fun hw h hs hfinal ↦ by
    cases hw with
    | name _ =>
      obtain ⟨b, hb, rfl, rfl, rfl⟩ := of_gives_name h
      exact .name (denotes_of_name? hs hb hfinal) (Node.has_resolve ..)) nofun rfl
  variableRef n x := .of_typed (fun hw h hs hfinal ↦ by
    cases hw with
    | variableRef _ =>
      obtain ⟨b, hb, rfl, rfl, rfl⟩ := of_gives_variableRef h
      exact .variableRef (stores_of_storage? hs hb hfinal) (Node.has_resolve ..)) nofun rfl
  constantRef n x := .of_typed (fun hw h hs hfinal ↦ by
    cases hw with
    | constantRef _ =>
      obtain ⟨b, hb, rfl, rfl, rfl⟩ := of_gives_constantRef h
      obtain ⟨this, f, ty, hthis, rfl, hmember⟩ := of_constant? hb
      exact .constantRef hthis hmember (Node.has_resolve ..)) nofun rfl
  member n target x ih := member_sound ih
  unary n op e t ih := unary_sound ih
  binary n op a b t iha ihb := .of_typed (fun hw h hs hfinal ↦ by
    cases hw with
    | binary ha hb =>
      obtain ⟨a', b', s₁, left, right, t, ha', hb', ht, rfl⟩ := of_gives_binary h
      exact .binary (iha.typed ha ha' hs ((expr_grows hb').trans hfinal))
        (ihb.typed hb hb' ((expr_grows ha').scopes hs) hfinal)
        (Registry.binaryMeaning_of_binary ht) (Node.has_resolve ..)) nofun rfl
  coalesce n a b iha ihb := .of_typed (fun hw h hs hfinal ↦ by
    cases hw with
    | coalesce ha hb =>
      obtain ⟨a', b', s₁, right, ha', hb', rfl⟩ := of_gives_coalesce h
      exact .coalesce (iha.typed ha ha' hs ((expr_grows hb').trans hfinal))
        (ihb.typed hb hb' ((expr_grows ha').scopes hs) hfinal)
        (Node.has_resolve ..)) nofun rfl
  ternary n x a b v ihx iha ihb := .of_typed (fun hw h hs hfinal ↦ by
    cases hw with
    | ternary hx ha hb =>
      obtain ⟨x', a', b', s₁, s₂, onTrue, onFalse, v, hx', ha', hb', hv, rfl⟩ := of_gives_ternary h
      have hs₁ := (expr_grows hx').scopes hs
      have hfinal₂ := (expr_grows hb').trans hfinal
      rw [Option.or_none]
      exact .ternary (ihx.typed hx hx' hs ((expr_grows ha').trans hfinal₂))
        (iha.typed ha ha' hs₁ hfinal₂)
        (ihb.typed hb hb' ((expr_grows ha').scopes hs₁) hfinal)
        (Registry.joins_of_join hv) (Node.has_resolve ..)) nofun rfl
  assign n target v k iht ihv := .of_typed (fun hw h hs hfinal ↦ by
    cases hw with
    | assign ht hv =>
      obtain ⟨v', target', s₁, s₂, value, k, hv', hd, ht', hset, hk, rfl⟩ := of_gives_assign h
      have hgrow := grows_of_declareByAssignment hd
      have hfinal₁ := hgrow.trans ((expr_grows ht').trans hfinal)
      exact .assign (iht.typed ht ht' (hgrow.scopes ((expr_grows hv').scopes hs)) hfinal)
        (ihv.typed hv hv' hs hfinal₁) hset (Registry.fits_of_convert hk)
        (Node.has_resolve ..)) nofun rfl
  call n target args t ih ihs := .of_typed (fun hw h hs hfinal ↦ by
    cases hw with
    | call ht _ hargs => exact call_typed ih ihs ht hargs h hs hfinal) nofun rfl
  new n target args t _ ihs := .of_typed (fun hw h hs hfinal ↦ by
    cases hw with
    | new ht _ hargs => exact new_typed ihs ht hargs h hs hfinal) nofun rfl
  index n target args t ih ihs := .of_typed (fun hw h hs hfinal ↦ by
    cases hw with
    | index ht _ hargs =>
      obtain ⟨target', s₁, container, args', types, t, ht', hargs', hmeaning, rfl, rfl⟩ :=
        of_gives_index h
      have hgrow : s₁.Grows _ := args_grows (fun e _ ↦ (tree_grows c).expr e) hargs'
      exact .index (ih.typed ht ht' hs (hgrow.trans hfinal))
        (typedAll_of_args ihs hargs hargs' ((expr_grows ht').scopes hs) hfinal)
        (Registry.indexMeaning_of_indexTarget hmeaning) (Node.has_resolve ..)) nofun rfl
  declare n x written init k ih :=
    { typed := fun hw _ _ _ ↦ nomatch hw
      declared := fun hw h hs hfinal ↦ by
        cases hw with
        | declare _ hinit =>
          obtain ⟨declared, init', s₁, initial, k, hty, hi, hd, rfl, rfl⟩ := of_gives_declare h
          refine .declare hty
            (typedOption_of_optional ih hinit hi hs ((s₁.grows_declare x _).trans hfinal))
            ?_ (hfinal.stores (s₁.stores_declare x _)) (Node.has_resolve ..)
          exact Registry.declares_of_declared hd
      owned := fun hw _ _ _ _ ↦ nomatch hw }
  array n written items cs ih := .of_typed (fun hw h hs hfinal ↦ by
    cases hw with
    | array _ hitems =>
      obtain ⟨declared, items', types, element, cs, hty, hitems', helement, hcs, rfl, rfl⟩ :=
        of_gives_array h
      have htyped := typedAll_of_args ih hitems hitems' hs hfinal
      exact .array hty htyped (elementOf_of_elementTy helement)
        (Registry.fitAll_of_convertItems (by rw [List.length_map, htyped.length_eq]) hcs)
        (Node.has_resolve ..)) nofun rfl
  lambda n params body ih := .of_typed (fun hw h hs hfinal ↦ by
    cases hw with
    | lambda hbody =>
      obtain ⟨typed, body', s₁, hp, hb, rfl, rfl, rfl⟩ := of_gives_lambda h
      obtain ⟨hparams, hbody'⟩ := typedBody_of ih hbody hb hfinal
      exact .lambda hp hparams hbody' (Node.has_resolve ..)) nofun rfl
  block n body ih := .of_typed (fun hw h hs hfinal ↦ by
    cases hw with
    | block hbody =>
      obtain ⟨body', s₁, hb, rfl, rfl, rfl⟩ := of_gives_block h
      exact .block (typedScope_of ih hbody hb hs hfinal) (Node.has_resolve ..)) nofun rfl
  exprStatement e ih := fun hw h hs hfinal ↦ by
    cases hw with
    | expr he =>
      obtain ⟨e₁, ty, he', rfl⟩ := of_gives_expr_statement h
      exact .expr (ih.typed he he' hs hfinal)
  blockStatement l body ih := fun hw h hs hfinal ↦ by
    cases hw with
    | block hbody =>
      obtain ⟨body', s₁, hb, rfl, rfl⟩ := of_gives_block_statement h
      exact .block (typedScope_of ih hbody hb hs hfinal)
  cond l x a b ihx iha ihb := fun hw h hs hfinal ↦ by
    cases hw with
    | cond hx ha hb =>
      obtain ⟨x', a', b', s₁, s₂, hx', ha', hb', rfl⟩ := of_gives_cond h
      have hs₁ := (expr_grows hx').scopes hs
      have hbranch := branch_grows ((tree_grows c).statement a) ha'
      have halt := alternative_grows (fun st _ ↦ (tree_grows c).statement st) hb'
      have hfinal₂ := halt.trans hfinal
      exact .cond (ihx.typed hx hx' hs (hbranch.trans hfinal₂))
        (typedBranch_of iha ha ha' hs₁ hfinal₂)
        (typedAlternative_of ihb hb hb' (hbranch.scopes hs₁) hfinal)
  ret l value k ih := fun hw h hs hfinal ↦ by
    cases hw with
    | ret hvalue =>
      obtain ⟨value', s₁, ty, ret, k, hv, hr, rfl, rfl⟩ := of_gives_ret h
      have hsettle := Binder.grows_settle (settles_of_returned hr)
      exact .ret (typedOption_of_optional ih hvalue hv hs (hsettle.trans hfinal))
        (Registry.returns_of_returned hr hfinal.ret)
  throw l value ih := fun hw h hs hfinal ↦ by
    cases hw with
    | throw hvalue =>
      obtain ⟨value', ty, hv, rfl⟩ := of_gives_throw h
      exact .throw (typedOption_of_optional ih hvalue hv hs hfinal)
  vars l declarations ih := fun hw h hs hfinal ↦ by
    cases hw with
    | vars hd =>
      obtain ⟨declarations', hd', rfl⟩ := of_gives_vars h
      exact .vars (typedDeclarations_of ih hd hd' hs hfinal)
  function l signature body ih := fun hw h _ hfinal ↦ by
    cases hw with
    | function hbody => exact function_typed ih hbody h hfinal

/-- A step that gives something and a run that has the answer are the same. -/
theorem gives_bindProgram {p : Program} {ty : Ty} (h : (bindProgram c p).answer = .ok ty) :
    (c.program p).Gives .start (bindProgram c p).tree (bindProgram c p).state ty :=
  congrArg (Bound.mk _ _) h

theorem typedProgram_of_gives {p q : Program} {s : Binder} {ty : Ty}
    (hp : ∀ st ∈ p, st.Written) (h : (c.program p).Gives .start q s ty) :
    (s.tables c).TypedProgram s.body q ∧ ty = trailingTy q := by
  simp only [program, Pass.gives_within, Pass.gives_done] at h
  obtain ⟨q', s', _, hq, rfl, rfl, rfl⟩ := h
  have hscoped : Binder.start.body.Scoped := Body.Scoped.start [] _
  exact ⟨typedStatements_of (fun st _ ↦ (tree_sound c).statement st) hp hq hscoped (.refl _), rfl⟩

end BindContext

/-- Whatever the registry and the own type, a program that parses and binds is well typed: every
statement is, against the functions and the body that binding leaves, and the answer is the type of
its last expression. In the tree that is left, every expression that stands for a value has its
type, and so has the type behind `new`; and wherever a storage is recorded, it has the type of its
expression. -/
theorem typed_of_bindProgram (c : BindContext) {source : String} {p : Program} {ty : Ty}
    (hparse : parseProgram source = .ok p) (hbind : (bindProgram c p).answer = .ok ty) :
    ((bindProgram c p).state.tables c).TypedProgram (bindProgram c p).state.body
        (bindProgram c p).tree ∧
      ty = trailingTy (bindProgram c p).tree ∧
      ∀ q ∈ statementsRoles (bindProgram c p).tree,
        (q.1 = .value ∨ q.1 = .typeName → q.2.node.ty.isSome) ∧
        ∀ d ∈ q.2.node.binding, q.2.node.ty = some d.ty := by
  obtain ⟨htyped, hty⟩ := BindContext.typedProgram_of_gives (written_of_parseProgram hparse)
    (BindContext.gives_bindProgram hbind)
  refine ⟨htyped, hty, fun q hq ↦ ?_⟩
  rcases (htyped.fits q hq).settled_or_unbound with ⟨t, ht, hd⟩ | ⟨hrole, hty, hnone⟩
  · exact ⟨fun _ ↦ by rw [ht, Option.isSome_some], fun d h ↦ by rw [ht, hd d h]⟩
  · refine ⟨fun h ↦ ?_, fun d h ↦ ?_⟩
    · rcases hrole with hrole | hrole <;> simp [hrole] at h
    · simp [hnone] at h

/-- A program with a function that calls for a conversion, and a branch that does. -/
theorem typed_of_bindProgram_conversions :
    ∃ p, parseProgram "function f(x: double): double => x; true ? f(1) : 2" = .ok p ∧
      (bindProgram ⟨.primitive, none⟩ p).answer = .ok .double ∧
      ((bindProgram ⟨.primitive, none⟩ p).state.tables ⟨.primitive, none⟩).TypedProgram
        (bindProgram ⟨.primitive, none⟩ p).state.body (bindProgram ⟨.primitive, none⟩ p).tree := by
  have hrun : (parseProgram "function f(x: double): double => x; true ? f(1) : 2").toOption.any
      (fun p ↦ (bindProgram ⟨.primitive, none⟩ p).answer.toOption == some .double) = true := by
    decide +kernel
  obtain ⟨p, hp, hty⟩ := (Option.any_eq_true _ _).mp hrun
  have hparse := ok_of_toOption hp
  have hbind := ok_of_toOption (beq_iff_eq.mp hty)
  exact ⟨p, hparse, hbind, (typed_of_bindProgram _ hparse hbind).1⟩

end Scriptlet
