import Scriptlet.Proofs.Bind.Sound
import Scriptlet.Proofs.Bind.Values
import Scriptlet.Proofs.Tree.Everywhere

/-!
# Binding stores values only

If the registry mentions `void` only as what methods and function values return, and a program
writes it only as the return type of a function, then binding never gives a variable, a parameter or
an element of an array the type `void`. An expression may still have the type `void`: that of a
call.
-/

namespace Scriptlet

/-! ## What is written -/

/-- The names of the types of parameters. -/
def paramTypeNames (params : List Param) : List String :=
  params.filterMap fun p ↦ p.typeExpr.map TypeExpr.name

/-- The names of the types that the expression itself writes. -/
def Expr.typeNames : Expr → List String
  | .declare _ _ t _ _ | .array _ t _ _ => (t.map TypeExpr.name).toList
  | .lambda _ params _ => paramTypeNames params
  | .new _ target _ _ => target.qualifiedName?.toList
  | _ => []

/-- The names of the types that the statement itself writes, but for a return type. -/
def Statement.typeNames : Statement → List String
  | .function _ signature _ => paramTypeNames signature.params
  | _ => []

/-- The return type that the statement itself writes. -/
def Statement.returnType? : Statement → Option TypeExpr
  | .function _ signature _ => signature.ret
  | _ => none

namespace BindContext

/-- No type that the expression itself writes is `void`. -/
def WritesValues (c : BindContext) (e : Expr) : Prop :=
  ∀ x ∈ e.typeNames, c.registry.resolve? x ≠ some .void

/-- Of the types that the statement itself writes, only a whole return type is `void`. -/
def SignsValues (c : BindContext) (st : Statement) : Prop :=
  (∀ x ∈ st.typeNames, c.registry.resolve? x ≠ some .void) ∧
    ∀ t ∈ st.returnType?, c.registry.resolve? t.name ≠ some .void ∨ t.rank = 0

instance (c : BindContext) : DecidablePred c.WritesValues := fun e ↦
  inferInstanceAs (Decidable (∀ x ∈ e.typeNames, c.registry.resolve? x ≠ some .void))

instance (c : BindContext) : DecidablePred c.SignsValues := fun st ↦
  inferInstanceAs (Decidable ((∀ x ∈ st.typeNames, c.registry.resolve? x ≠ some .void) ∧
    ∀ t ∈ st.returnType?, c.registry.resolve? t.name ≠ some .void ∨ t.rank = 0))

/-- In the program `void` is written as the return type of functions only. -/
def VoidOnlyReturned (c : BindContext) (p : Program) : Prop :=
  statementsEverywhere c.WritesValues c.SignsValues p

instance (c : BindContext) : DecidablePred c.VoidOnlyReturned := fun p ↦
  inferInstanceAs (Decidable (statementsEverywhere c.WritesValues c.SignsValues p))

variable {c : BindContext} (hr : c.registry.VoidOnlyReturned)
include hr

theorem isValue_of_resolve? {x : String} {ty : Ty} (h : c.registry.resolve? x = some ty)
    (hx : c.registry.resolve? x ≠ some .void) : ty.isValue := by
  refine Ty.isValue_of_isResult (hr.isResult_of_resolve? h) ?_
  rintro rfl
  exact hx h

theorem isValue_of_tyOf {t : TypeExpr} {ty : Ty} (h : c.tyOf t = .ok ty)
    (ht : c.registry.resolve? t.name ≠ some .void) : ty.isValue := by
  rw [tyOf] at h
  split at h
  · rename_i ty' hty'
    obtain rfl := Except.ok.inj h
    exact Ty.isValue_arrayOf (isValue_of_resolve? hr hty' ht) t.rank
  · cases h

theorem isValue_of_tyOf? {o : Option TypeExpr} {declared : Option Ty}
    (h : c.tyOf? o = .ok declared)
    (ho : ∀ x ∈ (o.map TypeExpr.name).toList, c.registry.resolve? x ≠ some .void) :
    ∀ ty ∈ declared, ty.isValue := by
  cases o with
  | none =>
    obtain rfl := Except.ok.inj h
    exact fun _ hty ↦ absurd hty (Option.not_mem_none _)
  | some t =>
    rcases ht : c.tyOf t with _ | ty
    · simp [tyOf?, ht, Except.map] at h
    obtain rfl : some ty = declared := by simpa [tyOf?, ht, Except.map] using h
    intro ty' hty'
    obtain rfl := Option.mem_some.mp hty'
    exact isValue_of_tyOf hr ht (ho _ (by simp))

theorem isResult_of_tyOf? {o : Option TypeExpr} {declared : Option Ty}
    (h : c.tyOf? o = .ok declared)
    (ho : ∀ t ∈ o, c.registry.resolve? t.name ≠ some .void ∨ t.rank = 0) :
    ∀ ty ∈ declared, ty.isResult := by
  cases o with
  | none =>
    obtain rfl := Except.ok.inj h
    exact fun _ hty ↦ absurd hty (Option.not_mem_none _)
  | some t =>
    rcases ht : c.tyOf t with _ | ty
    · simp [tyOf?, ht, Except.map] at h
    obtain rfl : some ty = declared := by simpa [tyOf?, ht, Except.map] using h
    intro ty' hty'
    obtain rfl := Option.mem_some.mp hty'
    rcases ho t rfl with hname | hrank
    · exact Ty.isResult_of_isValue (isValue_of_tyOf hr ht hname)
    · rw [tyOf, hrank] at ht
      split at ht
      · rename_i hname
        obtain rfl := Except.ok.inj ht
        exact hr.isResult_of_resolve? hname
      · cases ht

theorem isValue_of_typedParams {l : Location} {params : List Param} {typed : List (String × Ty)}
    (h : c.typedParams l params = .ok typed)
    (hparams : ∀ x ∈ paramTypeNames params, c.registry.resolve? x ≠ some .void) :
    ∀ p ∈ typed, p.2.isValue := by
  induction params generalizing typed with
  | nil =>
    obtain rfl := Except.ok.inj h
    exact fun _ hp ↦ absurd hp List.not_mem_nil
  | cons p params ih =>
    obtain ⟨t, ty, rest, ht, hty, hrest, rfl⟩ := of_typedParams_cons h
    have hnames : paramTypeNames (p :: params) = t.name :: paramTypeNames params := by
      simp [paramTypeNames, ht]
    rw [hnames] at hparams
    obtain ⟨hname, hparams⟩ := List.forall_mem_cons.mp hparams
    exact List.forall_mem_cons.mpr ⟨isValue_of_tyOf hr hty hname, ih hrest hparams⟩

end BindContext

/-! ## Binders that store values only -/

/-- The storage of the body holds values, and the names in its scopes denote this storage. -/
structure Body.Valued (b : Body) : Prop where
  scopes : b.Scoped
  params : ∀ p ∈ b.params, p.2.isValue
  locals : ∀ slot ∈ b.locals, slot.ty.isValue
  ret : b.ret.ty.isResult

/-- The function takes values. -/
def ScriptFunction.Valued (f : ScriptFunction) : Prop :=
  (∀ ty ∈ f.params, ty.isValue) ∧ f.ret.isResult

/-- All storage that the binder knows holds values. -/
structure Binder.Valued (s : Binder) : Prop where
  body : s.body.Valued
  outer : ∀ b ∈ s.outer, b.Valued
  functions : ∀ f ∈ s.functions, f.Valued

theorem Body.Valued.start {params : List (String × Ty)} {ret : ReturnType}
    (hparams : ∀ p ∈ params, p.2.isValue) (hret : ret.ty.isResult) :
    (Body.start params ret).Valued :=
  ⟨.start params ret, hparams, fun _ h ↦ absurd h List.not_mem_nil, hret⟩

/-- Whatever is stored in the body is a value. -/
theorem Body.Valued.isValue_of_stores {b : Body} (hb : b.Valued) {x : String} {d : Binding}
    (h : b.Stores x d) : d.ty.isValue := by
  cases d with
  | «variable» slot => exact hb.locals slot (List.mem_of_getElem? h.2)
  | parameter index ty => exact hb.params (x, ty) (List.mem_of_getElem? h)
  | _ => exact h.elim

namespace Binder.Valued

theorem start : Binder.start.Valued :=
  ⟨.start (fun _ h ↦ absurd h List.not_mem_nil) rfl, fun _ h ↦ absurd h List.not_mem_nil,
    fun _ h ↦ absurd h List.not_mem_nil⟩

variable {s : Binder} (hs : s.Valued)
include hs

theorem enter {b : Body} (hb : b.Valued) : (s.enter b).Valued :=
  ⟨hb, List.forall_mem_cons.mpr ⟨hs.body, hs.outer⟩, hs.functions⟩

theorem leave : s.leave.Valued := by
  rw [Binder.leave]
  split
  · exact hs
  · rename_i b bs houter
    obtain ⟨hb, hbs⟩ := List.forall_mem_cons.mp (houter ▸ hs.outer)
    exact ⟨hb, hbs, hs.functions⟩

theorem pushScope : (s.change Body.pushScope).Valued :=
  ⟨⟨hs.body.scopes.pushScope, hs.body.params, hs.body.locals, hs.body.ret⟩, hs.outer, hs.functions⟩

theorem popScope : (s.change Body.popScope).Valued :=
  ⟨⟨hs.body.scopes.popScope, hs.body.params, hs.body.locals, hs.body.ret⟩, hs.outer, hs.functions⟩

theorem declare (x : String) {ty : Ty} (hty : ty.isValue) :
    (s.change fun b ↦ b.declare x ty).Valued := by
  refine ⟨⟨hs.body.scopes.declare x ty, hs.body.params, ?_, hs.body.ret⟩, hs.outer, hs.functions⟩
  exact List.forall_mem_append.mpr ⟨hs.body.locals, List.forall_mem_singleton.mpr hty⟩

theorem settle {ret : ReturnType} (hret : ret.ty.isResult) :
    (s.change fun b ↦ { b with ret := ret }).Valued :=
  ⟨⟨hs.body.scopes, hs.body.params, hs.body.locals, hret⟩, hs.outer, hs.functions⟩

theorem register {f : ScriptFunction} (hf : f.Valued) : (s.register f).Valued :=
  ⟨hs.body, hs.outer,
    List.forall_mem_append.mpr ⟨hs.functions, List.forall_mem_singleton.mpr hf⟩⟩

theorem recordLocals (index : Nat) (locals : List Local) :
    (s.recordLocals index locals).Valued := by
  refine ⟨hs.body, hs.outer, fun f hf ↦ ?_⟩
  obtain ⟨i, hi⟩ := List.mem_iff_getElem?.mp hf
  rw [Binder.functions_recordLocals, List.getElem?_modify, Option.map_eq_map,
    Option.map_eq_some_iff] at hi
  obtain ⟨f', hf', rfl⟩ := hi
  have hvalued := hs.functions f' (List.mem_of_getElem? hf')
  split <;> exact hvalued

end Binder.Valued

/-! ## Trees that store values only -/

/-- The expression is a construction. -/
def Expr.isConstruction : Expr → Bool
  | .new .. => true
  | _ => false

/-- What is recorded at the node of the expression keeps to it: the type is one of results, the
storage holds a value, and a construction makes one. -/
structure Expr.Valued (e : Expr) : Prop where
  result : ∀ ty ∈ e.node.ty, ty.isResult
  storage : ∀ d ∈ e.node.binding, d.isStorage → d.ty.isValue
  made : e.isConstruction → ∀ ty ∈ e.node.ty, ty.isValue

/-- The same of all nodes in the expression. -/
abbrev Expr.AllValued (e : Expr) : Prop := e.Everywhere Expr.Valued fun _ ↦ True

/-- The same of all nodes in the statement. -/
abbrev Statement.AllValued (st : Statement) : Prop := st.Everywhere Expr.Valued fun _ ↦ True

namespace Expr

theorem valued_of_has {e : Expr} {ty : Ty} {b : Option Binding} (hn : e.node.Has ty b)
    (hty : ty.isResult) (hb : ∀ d ∈ b, d.isStorage → d.ty.isValue)
    (hnew : e.isConstruction = false) : e.Valued := by
  refine ⟨fun ty' hty' ↦ ?_, hn.2 ▸ hb, fun h ↦ absurd h (by simp [hnew])⟩
  cases hn.1.symm.trans hty'
  exact hty

theorem valued_of_result {e : Expr} {ty : Ty} (hn : e.node.Has ty none) (hty : ty.isResult)
    (hnew : e.isConstruction = false) : e.Valued :=
  valued_of_has hn hty (fun _ h ↦ absurd h (Option.not_mem_none _)) hnew

theorem valued_of_unbound {e : Expr} (hn : e.node.Unbound)
    (hnew : e.isConstruction = false) : e.Valued :=
  ⟨fun _ h ↦ absurd h (by simp [hn.1]), fun _ h ↦ absurd h (by simp [hn.2]),
    fun h ↦ absurd h (by simp [hnew])⟩

theorem IsBareName.allValued {e : Expr} {x : String} (h : e.IsBareName x) : e.AllValued := by
  induction h with
  | name hn => exact valued_of_unbound hn rfl
  | group hn _ ih => exact ⟨valued_of_unbound hn rfl, ih⟩

theorem IsBareChain.allValued {e : Expr} (h : e.IsBareChain) : e.AllValued := by
  induction h with
  | name hn => exact valued_of_unbound hn rfl
  | member hn _ ih => exact ⟨valued_of_unbound hn rfl, ih⟩

theorem allValued_of_namesType {r : Registry} {e : Expr} {ty : Ty} (h : r.NamesType ty e)
    (hty : ty.isResult) : e.AllValued := by
  have hstorage : ∀ d ∈ some (Binding.typeName ty), d.isStorage → d.ty.isValue := by
    intro d hd hstorage
    obtain rfl := Option.mem_some.mp hd
    cases hstorage
  cases h with
  | name _ hn => exact valued_of_has hn hty hstorage rfl
  | member he _ _ hn => exact ⟨valued_of_has hn hty hstorage rfl, he.allValued⟩

/-- The parts whose values the expression takes without a look at their types. -/
def demanded : Expr → List Expr
  | .coalesce _ a b => [a, b]
  | .array _ _ items _ => items
  | _ => []

/-- No part whose value the expression takes without a look is of type `void`. -/
def DemandsValues (e : Expr) : Prop := ∀ x ∈ e.demanded, x.node.ty ≠ some .void

instance : DecidablePred DemandsValues := fun e ↦
  inferInstanceAs (Decidable (∀ x ∈ e.demanded, x.node.ty ≠ some .void))

end Expr

namespace Statement

/-- The parts whose values the statement takes without a look at their types. -/
def demanded : Statement → List Expr
  | .throw _ value => value.toList
  | _ => []

/-- No part whose value the statement takes without a look is of type `void`. -/
def DemandsValues (st : Statement) : Prop := ∀ x ∈ st.demanded, x.node.ty ≠ some .void

instance : DecidablePred DemandsValues := fun st ↦
  inferInstanceAs (Decidable (∀ x ∈ st.demanded, x.node.ty ≠ some .void))

end Statement

/-- No part in the expression whose value is taken without a look is of type `void`. -/
abbrev Expr.AllDemand (e : Expr) : Prop := e.Everywhere Expr.DemandsValues Statement.DemandsValues

/-- No part in the statement whose value is taken without a look is of type `void`. -/
abbrev Statement.AllDemand (st : Statement) : Prop :=
  st.Everywhere Expr.DemandsValues Statement.DemandsValues

/-! ## Results of the choices -/

namespace Registry.VoidOnlyReturned

variable {r : Registry} (hr : r.VoidOnlyReturned)
include hr

theorem isValue_of_unaryMeaning {op : UnaryOp} {b : Option Binding} {operand ty : Ty}
    {t : OperatorTarget} (h : r.UnaryMeaning op b operand t ty) : ty.isValue := by
  cases h with
  | method hop hm _ _ => exact (hr.of_operator hm (UnaryOp.mem_operatorNames hop)).2

theorem isValue_of_binaryMeaning {op : BinaryOp} {left right ty : Ty} {t : OperatorTarget}
    (h : r.BinaryMeaning op left right t ty) : ty.isValue := by
  cases h with
  | method hop hm _ =>
    rcases hm with hm | hm
    · exact (hr.of_operator hm (BinaryOp.mem_operatorNames hop)).2
    · exact (hr.of_operator hm (BinaryOp.mem_operatorNames hop)).2
  | identity => rfl
  | logical => rfl

theorem isResult_of_methodMeaning {owner : Ty} {isType : Bool} {x : String} {args : List Ty}
    {t : CallTarget} (h : r.MethodMeaning owner isType x args t) : t.ret.isResult := by
  cases h with
  | method hm _ _ => exact (hr.of_hasMethod hm).2.2

theorem isResult_of_indexMeaning {container : Ty} {args : List Ty} {t : CallTarget}
    (h : r.IndexMeaning container args t) (hc : container.isResult) : t.ret.isResult := by
  cases h with
  | element harray _ =>
    subst harray
    exact Ty.isResult_of_isValue (by simpa using hc)
  | indexer hm _ _ => exact (hr.of_hasMethod hm).2.2

end Registry.VoidOnlyReturned

theorem Registry.Declares.isValue {r : Registry} {written initial : Option Ty} {ty : Ty}
    {c : Option Conversion} (h : r.Declares written initial ty c)
    (hw : ∀ ty ∈ written, ty.isValue) (hi : ∀ ty ∈ initial, ty.isResult) : ty.isValue := by
  cases h with
  | written => exact hw _ rfl
  | converted _ => exact hw _ rfl
  | inferred hstorable => exact Ty.isValue_of_isStorable (hi _ rfl) hstorable

theorem Registry.Joins.isResult {r : Registry} {onTrue onFalse ty : Ty}
    {v : Option BranchConversion} (h : r.Joins onTrue onFalse ty v) (ha : onTrue.isResult)
    (hb : onFalse.isResult) : ty.isResult := by
  cases h with
  | same _ => exact ha
  | first _ _ => exact hb
  | second _ _ => exact ha

theorem Registry.ConstructorMeaning.ret_eq {r : Registry} {ty : Ty} {args : List Ty}
    {t : CallTarget} (h : r.ConstructorMeaning ty args t) : t.ret = ty := by
  cases h <;> rfl

/-- The type of a trailing expression is recorded at its node. -/
theorem isResult_trailingTy {body : List Statement} (h : ∀ st ∈ body, st.AllValued) :
    (trailingTy body).isResult := by
  rw [trailingTy]
  split
  · rfl
  · rename_i e _ hlast
    have hvalued := (h _ (List.mem_of_getLast? hlast)).2.here
    rcases hty : e.node.ty with _ | ty
    · rfl
    · exact hvalued.result ty hty
  · rfl

/-- Types that the nodes of expressions do not have are not among their types. -/
theorem Tables.TypedAll.ne_void {Γ : Tables} {b : Body} {es : List Expr} {tys : List Ty}
    (h : Γ.TypedAll b es tys) (hes : ∀ e ∈ es, e.node.ty ≠ some .void) :
    ∀ ty ∈ tys, ty ≠ .void := by
  induction es generalizing tys with
  | nil =>
    cases h
    exact fun _ h ↦ absurd h List.not_mem_nil
  | cons e es ih =>
    obtain ⟨he, hes⟩ := List.forall_mem_cons.mp hes
    cases h with
    | cons head tail =>
      refine List.forall_mem_cons.mpr ⟨?_, ih tail hes⟩
      rintro rfl
      exact he head.node_ty

namespace BindContext

variable {c : BindContext} (hr : c.registry.VoidOnlyReturned)

include hr in
/-- What a plain name denotes is a value, or the name of a type. -/
theorem valued_of_name? {s : Binder} (hs : s.Valued) {x : String} {d : Binding}
    (h : c.name? s.body x = some d) : d.ty.isResult ∧ (d.isStorage → d.ty.isValue) := by
  rcases denotes_of_name? hs.body.scopes h (.refl s) with hstores | ⟨this, -, hm⟩ | ⟨ty, rfl, hx⟩
  · have hvalue := hs.body.isValue_of_stores hstores
    exact ⟨Ty.isResult_of_isValue hvalue, fun _ ↦ hvalue⟩
  · have hvalue := (hr.of_hasMember hm).2
    exact ⟨Ty.isResult_of_isValue hvalue, fun _ ↦ hvalue⟩
  · exact ⟨hr.isResult_of_resolve? hx, nofun⟩

include hr in
theorem isResult_of_functionTarget {s : Binder} (hs : s.Valued) {x : String} {args : List Ty}
    {l l' : Location} {t : CallTarget} (h : c.functionTarget s x args l l' = .ok t) :
    t.ret.isResult := by
  cases functionMeaning_of_functionTarget h (.refl s) with
  | script hf _ _ => exact (hs.functions _ (List.mem_of_getElem? hf)).2
  | method _ hm _ => exact (hr.of_hasMethod hm).2.2

theorem valued_of_declareByAssignment {target : Expr} {value : Ty} {s s' : Binder} (hs : s.Valued)
    (hvalue : value.isResult) (h : c.declareByAssignment target value s = .ok s') : s'.Valued := by
  rcases of_declareByAssignment h with rfl | ⟨hstorable, x, rfl⟩
  · exact hs
  · exact hs.declare x (Ty.isValue_of_isStorable hvalue hstorable)

theorem isResult_of_returned {ret ret' : ReturnType} {value : Ty} {l : Location}
    {k : Option Conversion} (h : c.registry.returned ret value l = .ok (ret', k))
    (hret : ret.ty.isResult) (hvalue : value.isResult) : ret'.ty.isResult := by
  rcases of_returned h with ⟨-, rfl, -⟩ | ⟨-, rfl, -⟩
  · exact hvalue
  · exact hret

/-! ## The walk -/

/-- Binding the expression, as a value or as what a method is called on, stores values only, if it
starts so. -/
structure ExprValued (c : BindContext) (e : Expr) : Prop where
  typed : ∀ {s s' e' ty}, e.Written ∨ e.WrittenDeclaration →
    e.Everywhere c.WritesValues c.SignsValues → (c.expr e).Gives s e' s' ty → s.Valued →
    e'.AllDemand → s'.Valued ∧ ty.isResult ∧ e'.AllValued
  owned : ∀ {s s' e' o n target x}, e.Written → e.ungrouped = .member n target x →
    e.Everywhere c.WritesValues c.SignsValues → (c.owner e).Gives s e' s' o → s.Valued →
    e'.AllDemand → s'.Valued ∧ o.1.isResult ∧ e'.AllValued

/-- Binding the statement stores values only, if it starts so. -/
def StatementValued (c : BindContext) (st : Statement) : Prop :=
  ∀ {s s' st' u}, st.Written → st.Everywhere c.WritesValues c.SignsValues →
    (c.statement st).Gives s st' s' u → s.Valued → st'.AllDemand → s'.Valued ∧ st'.AllValued

theorem args_valued {es : List Expr} (hes : ∀ e ∈ es, ExprValued c e) (hw : WrittenItems es)
    (hv : exprsEverywhere c.WritesValues c.SignsValues es) {s s' : Binder} {es' : List Expr}
    {tys : List Ty} (h : (c.args es).Gives s es' s' tys) (hs : s.Valued)
    (hd : exprsEverywhere Expr.DemandsValues Statement.DemandsValues es') :
    s'.Valued ∧ (∀ ty ∈ tys, ty.isResult) ∧ exprsEverywhere Expr.Valued (fun _ ↦ True) es' := by
  induction es generalizing s es' tys with
  | nil =>
    obtain ⟨rfl, rfl, rfl⟩ := of_gives_args_nil h
    exact ⟨hs, fun _ h ↦ absurd h List.not_mem_nil, trivial⟩
  | cons e es ih =>
    obtain ⟨he, hes⟩ := List.forall_mem_cons.mp hes
    obtain ⟨hwe, hwes⟩ := List.forall_mem_cons.mp hw
    obtain ⟨e₁, es₁, s₁, ty, tys₁, h₁, h₂, rfl, rfl⟩ := of_gives_args_cons h
    have hwritten : e.Written := hwe fun ⟨l, hl⟩ ↦ not_gives_empty (hl ▸ h₁)
    obtain ⟨hs₁, hty, hvalued⟩ := he.typed (.inl hwritten) hv.1 h₁ hs hd.1
    obtain ⟨hs', htys, hvalueds⟩ := ih hes hwes hv.2 h₂ hs₁ hd.2
    exact ⟨hs', List.forall_mem_cons.mpr ⟨hty, htys⟩, hvalued, hvalueds⟩

theorem exprs_valued {es : List Expr} (hes : ∀ e ∈ es, ExprValued c e)
    (hw : ∀ e ∈ es, e.WrittenDeclaration) (hv : exprsEverywhere c.WritesValues c.SignsValues es)
    {s s' : Binder} {es' : List Expr} {u : Unit} (h : (c.exprs es).Gives s es' s' u) (hs : s.Valued)
    (hd : exprsEverywhere Expr.DemandsValues Statement.DemandsValues es') :
    s'.Valued ∧ exprsEverywhere Expr.Valued (fun _ ↦ True) es' := by
  induction es generalizing s es' u with
  | nil =>
    obtain ⟨rfl, rfl⟩ := of_gives_exprs_nil h
    exact ⟨hs, trivial⟩
  | cons e es ih =>
    obtain ⟨he, hes⟩ := List.forall_mem_cons.mp hes
    obtain ⟨hwe, hwes⟩ := List.forall_mem_cons.mp hw
    obtain ⟨e₁, es₁, s₁, ty, h₁, h₂, rfl⟩ := of_gives_exprs_cons h
    obtain ⟨hs₁, -, hvalued⟩ := he.typed (.inr hwe) hv.1 h₁ hs hd.1
    obtain ⟨hs', hvalueds⟩ := ih hes hwes hv.2 h₂ hs₁ hd.2
    exact ⟨hs', hvalued, hvalueds⟩

theorem optional_valued {o : Option Expr} (ho : ∀ e ∈ o, ExprValued c e)
    (hw : ∀ e ∈ o, e.Written) (hv : optionEverywhere c.WritesValues c.SignsValues o)
    {s s' : Binder} {o' : Option Expr} {t : Option Ty} (h : (c.optional o).Gives s o' s' t)
    (hs : s.Valued) (hd : optionEverywhere Expr.DemandsValues Statement.DemandsValues o') :
    s'.Valued ∧ (∀ ty ∈ t, ty.isResult) ∧ optionEverywhere Expr.Valued (fun _ ↦ True) o' := by
  cases o with
  | none =>
    obtain ⟨rfl, rfl, rfl⟩ := of_gives_optional_none h
    exact ⟨hs, fun _ h ↦ absurd h (Option.not_mem_none _), trivial⟩
  | some e =>
    obtain ⟨e₁, ty, he, rfl, rfl⟩ := of_gives_optional_some h
    obtain ⟨hs', hty, hvalued⟩ := (ho e rfl).typed (.inl (hw e rfl)) hv he hs hd
    refine ⟨hs', fun ty' hty' ↦ ?_, hvalued⟩
    obtain rfl := Option.mem_some.mp hty'
    exact hty

theorem statements_valued {sts : List Statement} (hsts : ∀ st ∈ sts, StatementValued c st)
    (hw : ∀ st ∈ sts, st.Written) (hv : statementsEverywhere c.WritesValues c.SignsValues sts)
    {s s' : Binder} {sts' : List Statement} {u : Unit} (h : (c.statements sts).Gives s sts' s' u)
    (hs : s.Valued)
    (hd : statementsEverywhere Expr.DemandsValues Statement.DemandsValues sts') :
    s'.Valued ∧ statementsEverywhere Expr.Valued (fun _ ↦ True) sts' := by
  induction sts generalizing s sts' u with
  | nil =>
    obtain ⟨rfl, rfl⟩ := of_gives_statements_nil h
    exact ⟨hs, trivial⟩
  | cons st sts ih =>
    obtain ⟨hst, hsts⟩ := List.forall_mem_cons.mp hsts
    obtain ⟨hwst, hwsts⟩ := List.forall_mem_cons.mp hw
    obtain ⟨st₁, sts₁, s₁, h₁, h₂, rfl⟩ := of_gives_statements_cons h
    obtain ⟨hs₁, hvalued⟩ := hst hwst hv.1 h₁ hs hd.1
    obtain ⟨hs', hvalueds⟩ := ih hsts hwsts hv.2 h₂ hs₁ hd.2
    exact ⟨hs', hvalued, hvalueds⟩

theorem alternative_valued {o : Option Statement} (ho : ∀ st ∈ o, StatementValued c st)
    (hw : ∀ st ∈ o, st.Written) (hv : alternativeEverywhere c.WritesValues c.SignsValues o)
    {s s' : Binder} {o' : Option Statement} {u : Unit} (h : (c.alternative o).Gives s o' s' u)
    (hs : s.Valued)
    (hd : alternativeEverywhere Expr.DemandsValues Statement.DemandsValues o') :
    s'.Valued ∧ alternativeEverywhere Expr.Valued (fun _ ↦ True) o' := by
  cases o with
  | none =>
    obtain ⟨rfl, rfl⟩ := of_gives_alternative_none h
    exact ⟨hs, trivial⟩
  | some st =>
    obtain ⟨st₁, s₁, hst, rfl, rfl⟩ := of_gives_alternative_some h
    obtain ⟨hs', hvalued⟩ := ho st rfl (hw st rfl) hv hst hs.pushScope hd
    exact ⟨hs'.popScope, hvalued⟩

/-! ## Forms -/

/-- A form that is no declaration and no access of a member is bound as a value only. -/
theorem ExprValued.of_typed {e : Expr}
    (typed : ∀ {s s' e' ty}, e.Written → e.Everywhere c.WritesValues c.SignsValues →
      (c.expr e).Gives s e' s' ty → s.Valued → e'.AllDemand →
      s'.Valued ∧ ty.isResult ∧ e'.AllValued)
    (hdeclare : ¬e.WrittenDeclaration) (hmember : e.ungrouped.isAccess = false) :
    ExprValued c e where
  typed hw := typed (hw.resolve_right hdeclare)
  owned _ hx _ _ _ _ := by
    rw [hx] at hmember
    cases hmember

include hr

theorem unary_valued {n : Node} {op : UnaryOp} {e : Expr} {t : Option OperatorTarget}
    (ih : ExprValued c e) : ExprValued c (.unary n op e t) where
  typed hw hv h hs hd := by
    cases hw.resolve_right nofun with
    | unary he =>
      rcases hop : op.methodName? with _ | method
      · obtain rfl := UnaryOp.methodName?_eq_none.mp hop
        obtain ⟨e₁, he₁, rfl⟩ := of_gives_group h
        obtain ⟨hs', hty, hvalued⟩ := ih.typed (.inl he) hv.2 he₁ hs hd.2
        -- parentheses have the storage of what they hold
        exact ⟨hs', hty,
          Expr.valued_of_has (Node.has_resolve ..) hty hvalued.here.storage rfl, hvalued⟩
      · obtain ⟨e₁, operand, t, he₁, ht, rfl⟩ := of_gives_unary hop h
        obtain ⟨hs', -, hvalued⟩ := ih.typed (.inl he) hv.2 he₁ hs hd.2
        have hty := Ty.isResult_of_isValue
          (hr.isValue_of_unaryMeaning (Registry.unaryMeaning_of_unary hop ht))
        exact ⟨hs', hty, Expr.valued_of_result (Node.has_resolve ..) hty rfl, hvalued⟩
  owned hw hx hv h hs hd := by
    cases hw with
    | unary he =>
      cases op with
      | group =>
        obtain ⟨e₁, he₁, rfl⟩ := of_gives_owner_group h
        obtain ⟨hs', ho, hvalued⟩ := ih.owned he hx hv.2 he₁ hs hd.2
        exact ⟨hs', ho, Expr.valued_of_unbound (Node.unbound_at _) rfl, hvalued⟩
      | _ => cases hx

theorem member_valued {n : Node} {target : Expr} {x : String} (ih : ExprValued c target) :
    ExprValued c (.member n target x) where
  typed hw hv h hs hd := by
    cases hw.resolve_right nofun with
    | member ht _ =>
      obtain ⟨target', owner, b, ht', hb, rfl, rfl⟩ := of_gives_member h
      obtain ⟨hs', -, hvalued⟩ := ih.typed (.inl ht) hv.2 ht' hs hd.2
      have hvalue := (hr.of_hasMember (Registry.hasMember_of_member? hb).1).2
      have hty := Ty.isResult_of_isValue hvalue
      refine ⟨hs', hty, Expr.valued_of_has (Node.has_resolve ..) hty (fun d hd _ ↦ ?_) rfl,
        hvalued⟩
      obtain rfl := Option.mem_some.mp hd
      exact hvalue
  owned hw hx hv h hs hd := by
    cases hw with
    | member ht _ =>
      obtain ⟨target', ht', -, rfl⟩ := of_gives_owner_member h
      obtain ⟨hs', hty, hvalued⟩ := ih.typed (.inl ht) hv.2 ht' hs hd.2
      exact ⟨hs', hty, Expr.valued_of_unbound (Node.unbound_at _) rfl, hvalued⟩

theorem call_valued {l : Location} {target : Expr} {args : List Expr} (ih : ExprValued c target)
    (ihs : ∀ e ∈ args, ExprValued c e) (ht : target.Written) (hargs : WrittenItems args)
    (hv : (Expr.call (.at l) target args none).Everywhere c.WritesValues c.SignsValues)
    {s s' : Binder} {e' : Expr} {ty : Ty}
    (h : (c.expr (.call (.at l) target args none)).Gives s e' s' ty) (hs : s.Valued)
    (hd : e'.AllDemand) : s'.Valued ∧ ty.isResult ∧ e'.AllValued := by
  obtain ⟨args', types, s₁, target', t, h₁, rfl, rfl, hform⟩ := of_gives_call h
  obtain ⟨hs₁, -, hvalueds⟩ := args_valued ihs hargs hv.2.2 h₁ hs hd.2.2
  -- whatever is called, its return type is that of a result
  have hcall : ∀ {target'}, t.ret.isResult → target'.AllValued →
      (Expr.call ((Node.at l).resolve t.ret none) target' args' (some t)).AllValued :=
    fun hty hvalued ↦ ⟨Expr.valued_of_result (Node.has_resolve ..) hty rfl, hvalued, hvalueds⟩
  rcases hform with ⟨x, hx, rfl, rfl, ht'⟩ | ⟨x, owner, isType, hx, ho, ht'⟩ | ⟨fty, -, hf, ht'⟩
  · obtain ⟨n, hn⟩ := CallForm.of_function hx
    have hty := isResult_of_functionTarget hr hs₁ ht'
    exact ⟨hs₁, hty, hcall hty (ht.isBareName hn).allValued⟩
  · obtain ⟨n, o, ho'⟩ := CallForm.of_method hx
    obtain ⟨hs', -, hvalued⟩ := ih.owned ht ho' hv.2.1 ho hs₁ hd.2.1
    have hty := hr.isResult_of_methodMeaning (Registry.methodMeaning_of_methodTarget ht')
    exact ⟨hs', hty, hcall hty hvalued⟩
  · obtain ⟨hs', hfty, hvalued⟩ := ih.typed (.inl ht) hv.2.1 hf hs₁ hd.2.1
    obtain ⟨params, ret, cs, rfl, -, rfl⟩ := Registry.of_valueTarget ht'
    have hty := (Ty.isValue_delegate.mp (Ty.isValue_of_isResult hfty nofun)).2
    exact ⟨hs', hty, hcall hty hvalued⟩

theorem new_valued {l : Location} {target : Expr} {args : List Expr}
    (ihs : ∀ e ∈ args, ExprValued c e) (ht : target.IsChain) (hargs : WrittenItems args)
    (hv : (Expr.new (.at l) target args none).Everywhere c.WritesValues c.SignsValues)
    {s s' : Binder} {e' : Expr} {ty : Ty}
    (h : (c.expr (.new (.at l) target args none)).Gives s e' s' ty) (hs : s.Valued)
    (hd : e'.AllDemand) : s'.Valued ∧ ty.isResult ∧ e'.AllValued := by
  obtain ⟨target', made, s₁, args', types, t, h₁, ht', rfl, rfl, hmade⟩ := of_gives_new h
  rcases hmade with ⟨hmade, rfl, rfl⟩ | ⟨hmade, hbind, htype⟩
  · obtain ⟨hs', -, hvalueds⟩ := args_valued ihs hargs hv.2.2 h₁ hs hd.2.2
    obtain ⟨x, hx, hty⟩ := Option.bind_eq_some_iff.mp hmade
    have hvalue : made.isValue := isValue_of_resolve? hr hty (hv.1 x (by simp [Expr.typeNames, hx]))
    have hret : t.ret.isValue :=
      (Registry.constructorMeaning_of_constructorTarget ht').ret_eq ▸ hvalue
    have hnode : (Expr.new ((Node.at l).resolve t.ret none)
        (target.setNode (target.node.resolve made (some (.typeName made)))) args'
        (some t)).Valued := by
      refine ⟨fun ty hty ↦ ?_, fun _ h ↦ absurd h (Option.not_mem_none _), ?_⟩
      · obtain rfl := Option.mem_some.mp hty
        exact Ty.isResult_of_isValue hret
      · intro _ ty hty
        obtain rfl := Option.mem_some.mp hty
        exact hret
    exact ⟨hs', Ty.isResult_of_isValue hret, hnode,
      Expr.allValued_of_namesType (Registry.namesType_of_isChain ht hmade)
        (Ty.isResult_of_isValue hvalue), hvalueds⟩
  · exact absurd htype (not_isTypeName_of_isChain ht hs.body.scopes hmade hbind)

theorem array_valued {l : Location} {written : Option TypeExpr} {items : List Expr}
    (ih : ∀ e ∈ items, ExprValued c e) (hitems : WrittenItems items)
    (hv : (Expr.array (.at l) written items none).Everywhere c.WritesValues c.SignsValues)
    {s s' : Binder} {e' : Expr} {ty : Ty}
    (h : (c.expr (.array (.at l) written items none)).Gives s e' s' ty) (hs : s.Valued)
    (hd : e'.AllDemand) : s'.Valued ∧ ty.isResult ∧ e'.AllValued := by
  obtain ⟨declared, items', types, element, cs, hw, hitems', helement, -, rfl, rfl⟩ :=
    of_gives_array h
  obtain ⟨hs', htypes, hvalueds⟩ := args_valued ih hitems hv.2 hitems' hs hd.2
  have htyped := typedAll_of_args (fun e _ ↦ (tree_sound c).expr e) hitems hitems' hs.body.scopes
    (.refl s')
  -- a written element type is no `void`, and neither is that of the first item
  have hvalue : element.isValue := by
    cases elementOf_of_elementTy helement with
    | written => exact isValue_of_tyOf? hr hw hv.1 _ rfl
    | first _ =>
      exact Ty.isValue_of_isResult (htypes _ List.mem_cons_self)
        (htyped.ne_void hd.1 _ List.mem_cons_self)
  have hty : (Ty.array element).isResult :=
    Ty.isResult_of_isValue (by rwa [Ty.isValue_array])
  exact ⟨hs', hty, Expr.valued_of_result (Node.has_resolve ..) hty rfl, hvalueds⟩

theorem function_valued {l : Location} {signature : Signature} {body : List Statement}
    (ih : ∀ st ∈ body, StatementValued c st) (hw : ∀ st ∈ body, st.Written)
    (hv : (Statement.function l signature body).Everywhere c.WritesValues c.SignsValues)
    {s s' : Binder} {st' : Statement} {u : Unit}
    (h : (c.statement (.function l signature body)).Gives s st' s' u) (hs : s.Valued)
    (hd : st'.AllDemand) : s'.Valued ∧ st'.AllValued := by
  obtain ⟨params, ret, body', s₁, hp, hret, hb, rfl, rfl⟩ := of_gives_function h
  have hparams := isValue_of_typedParams hr hp hv.1.1
  have hresult := isResult_of_tyOf? hr hret hv.1.2
  have htypes : ∀ ty ∈ params.map Prod.snd, ty.isValue := List.forall_mem_map.mpr hparams
  have hbody : ∀ {s₀ : Binder}, s₀.Valued →
      (s₀.enter (.start params (returnOf ret))).Valued := by
    intro s₀ hs₀
    refine hs₀.enter (.start hparams ?_)
    cases ret with
    | none => rfl
    | some ty => exact hresult ty rfl
  cases ret with
  | none =>
    obtain ⟨hs₁, hvalueds⟩ := statements_valued ih hw hv.2 hb (hbody hs) hd.2
    exact ⟨hs₁.leave.register ⟨htypes, hs₁.body.ret⟩, trivial, hvalueds⟩
  | some ty =>
    have hs₀ := hs.register (f := ⟨signature.name, params.map Prod.snd, ty, [], signature.location⟩)
      ⟨htypes, hresult ty rfl⟩
    obtain ⟨hs₁, hvalueds⟩ := statements_valued ih hw hv.2 hb (hbody hs₀) hd.2
    exact ⟨hs₁.leave.recordLocals _ _, trivial, hvalueds⟩

/-- Every form stores values only if its parts do. -/
theorem tree_valued (hthis : ∀ ty ∈ c.this, ty.isValue) :
    Tree.Cases (ExprValued c) (StatementValued c) where
  literal n v := .of_typed (fun hw _ h hs _ ↦ by
    cases hw with
    | literal _ =>
      obtain ⟨rfl, rfl, rfl⟩ := of_gives_literal h
      have hty : v.ty.isResult := by cases v <;> rfl
      exact ⟨hs, hty, Expr.valued_of_result (Node.has_resolve ..) hty rfl⟩) nofun rfl
  null n := .of_typed (fun hw _ h hs _ ↦ by
    cases hw with
    | null =>
      obtain ⟨rfl, rfl, rfl⟩ := of_gives_null h
      exact ⟨hs, rfl, Expr.valued_of_result (Node.has_resolve ..) rfl rfl⟩) nofun rfl
  this n := .of_typed (fun hw _ h hs _ ↦ by
    cases hw with
    | this =>
      obtain ⟨rfl, rfl, hty⟩ := of_gives_this h
      have hty := Ty.isResult_of_isValue (hthis _ hty)
      exact ⟨hs, hty, Expr.valued_of_result (Node.has_resolve ..) hty rfl⟩) nofun rfl
  empty n := .of_typed (fun hw _ _ _ _ ↦ nomatch hw) nofun rfl
  name n x := .of_typed (fun hw _ h hs _ ↦ by
    cases hw with
    | name _ =>
      obtain ⟨b, hb, rfl, rfl, rfl⟩ := of_gives_name h
      obtain ⟨hty, hstorage⟩ := valued_of_name? hr hs hb
      refine ⟨hs, hty, Expr.valued_of_has (Node.has_resolve ..) hty (fun d hd ↦ ?_) rfl⟩
      exact Option.mem_some.mp hd ▸ hstorage) nofun rfl
  variableRef n x := .of_typed (fun hw _ h hs _ ↦ by
    cases hw with
    | variableRef _ =>
      obtain ⟨b, hb, rfl, rfl, rfl⟩ := of_gives_variableRef h
      have hvalue := hs.body.isValue_of_stores (Body.stores_of_storage? hs.body.scopes hb)
      have hty := Ty.isResult_of_isValue hvalue
      refine ⟨hs, hty, Expr.valued_of_has (Node.has_resolve ..) hty (fun d hd _ ↦ ?_) rfl⟩
      exact Option.mem_some.mp hd ▸ hvalue) nofun rfl
  constantRef n x := .of_typed (fun hw _ h hs _ ↦ by
    cases hw with
    | constantRef _ =>
      obtain ⟨b, hb, rfl, rfl, rfl⟩ := of_gives_constantRef h
      obtain ⟨this, f, ty, -, rfl, hmember⟩ := of_constant? hb
      have hvalue := (hr.of_hasMember hmember).2
      have hty := Ty.isResult_of_isValue hvalue
      refine ⟨hs, hty, Expr.valued_of_has (Node.has_resolve ..) hty (fun d hd _ ↦ ?_) rfl⟩
      exact Option.mem_some.mp hd ▸ hvalue) nofun rfl
  member n target x ih := member_valued hr ih
  unary n op e t ih := unary_valued hr ih
  binary n op a b t iha ihb := .of_typed (fun hw hv h hs hd ↦ by
    cases hw with
    | binary ha hb =>
      obtain ⟨a', b', s₁, left, right, t, ha', hb', ht, rfl⟩ := of_gives_binary h
      obtain ⟨hs₁, -, hva⟩ := iha.typed (.inl ha) hv.2.1 ha' hs hd.2.1
      obtain ⟨hs', -, hvb⟩ := ihb.typed (.inl hb) hv.2.2 hb' hs₁ hd.2.2
      have hty := Ty.isResult_of_isValue
        (hr.isValue_of_binaryMeaning (Registry.binaryMeaning_of_binary ht))
      exact ⟨hs', hty, Expr.valued_of_result (Node.has_resolve ..) hty rfl, hva, hvb⟩)
    nofun rfl
  coalesce n a b iha ihb := .of_typed (fun hw hv h hs hd ↦ by
    cases hw with
    | coalesce ha hb =>
      obtain ⟨a', b', s₁, right, ha', hb', rfl⟩ := of_gives_coalesce h
      obtain ⟨hs₁, hty, hva⟩ := iha.typed (.inl ha) hv.2.1 ha' hs hd.2.1
      obtain ⟨hs', -, hvb⟩ := ihb.typed (.inl hb) hv.2.2 hb' hs₁ hd.2.2
      exact ⟨hs', hty, Expr.valued_of_result (Node.has_resolve ..) hty rfl, hva, hvb⟩)
    nofun rfl
  ternary n x a b v ihx iha ihb := .of_typed (fun hw hv h hs hd ↦ by
    cases hw with
    | ternary hx ha hb =>
      obtain ⟨x', a', b', s₁, s₂, onTrue, onFalse, v, hx', ha', hb', hj, rfl⟩ := of_gives_ternary h
      obtain ⟨hs₁, -, hvx⟩ := ihx.typed (.inl hx) hv.2.1 hx' hs hd.2.1
      obtain ⟨hs₂, htrue, hva⟩ := iha.typed (.inl ha) hv.2.2.1 ha' hs₁ hd.2.2.1
      obtain ⟨hs', hfalse, hvb⟩ := ihb.typed (.inl hb) hv.2.2.2 hb' hs₂ hd.2.2.2
      have hty := (Registry.joins_of_join hj).isResult htrue hfalse
      exact ⟨hs', hty, Expr.valued_of_result (Node.has_resolve ..) hty rfl, hvx, hva, hvb⟩)
    nofun rfl
  assign n target v k iht ihv := .of_typed (fun hw hv h hs hd ↦ by
    cases hw with
    | assign ht hval =>
      obtain ⟨v', target', s₁, s₂, value, k, hv', hdecl, ht', -, -, rfl⟩ := of_gives_assign h
      obtain ⟨hs₁, hvalue, hvv⟩ := ihv.typed (.inl hval) hv.2.2 hv' hs hd.2.2
      have hs₂ := valued_of_declareByAssignment hs₁ hvalue hdecl
      obtain ⟨hs', hty, hvt⟩ := iht.typed (.inl ht) hv.2.1 ht' hs₂ hd.2.1
      exact ⟨hs', hty, Expr.valued_of_result (Node.has_resolve ..) hty rfl, hvt, hvv⟩)
    nofun rfl
  call n target args t ih ihs := .of_typed (fun hw hv h hs hd ↦ by
    cases hw with
    | call ht _ hargs => exact call_valued hr ih ihs ht hargs hv h hs hd) nofun rfl
  new n target args t _ ihs := .of_typed (fun hw hv h hs hd ↦ by
    cases hw with
    | new ht _ hargs => exact new_valued hr ihs ht hargs hv h hs hd) nofun rfl
  index n target args t ih ihs := .of_typed (fun hw hv h hs hd ↦ by
    cases hw with
    | index ht _ hargs =>
      obtain ⟨target', s₁, container, args', types, t, ht', hargs', hmeaning, rfl, rfl⟩ :=
        of_gives_index h
      obtain ⟨hs₁, hc, hvt⟩ := ih.typed (.inl ht) hv.2.1 ht' hs hd.2.1
      obtain ⟨hs', -, hvargs⟩ := args_valued ihs hargs hv.2.2 hargs' hs₁ hd.2.2
      have hty := hr.isResult_of_indexMeaning (Registry.indexMeaning_of_indexTarget hmeaning) hc
      exact ⟨hs', hty, Expr.valued_of_result (Node.has_resolve ..) hty rfl, hvt, hvargs⟩)
    nofun rfl
  declare n x written init k ih :=
    { typed := fun hw hv h hs hd ↦ by
        cases hw.resolve_left nofun with
        | declare _ hinit =>
          obtain ⟨declared, init', s₁, initial, k, hty, hi, hdecl, rfl, rfl⟩ := of_gives_declare h
          obtain ⟨hs₁, hinitial, hvi⟩ := optional_valued ih hinit hv.2 hi hs hd.2
          have hvalue := (Registry.declares_of_declared hdecl).isValue
            (isValue_of_tyOf? hr hty hv.1) hinitial
          have hresult := Ty.isResult_of_isValue hvalue
          refine ⟨hs₁.declare x hvalue, hresult,
            Expr.valued_of_has (Node.has_resolve ..) hresult (fun d hd _ ↦ ?_) rfl, hvi⟩
          exact Option.mem_some.mp hd ▸ hvalue
      owned := fun hw _ _ _ _ _ ↦ nomatch hw }
  array n written items cs ih := .of_typed (fun hw hv h hs hd ↦ by
    cases hw with
    | array _ hitems => exact array_valued hr ih hitems hv h hs hd) nofun rfl
  lambda n params body ih := .of_typed (fun hw hv h hs hd ↦ by
    cases hw with
    | lambda hbody =>
      obtain ⟨typed, body', s₁, hp, hb, rfl, rfl, rfl⟩ := of_gives_lambda h
      have hparams := isValue_of_typedParams hr hp hv.1
      obtain ⟨hs₁, hvb⟩ := statements_valued ih hbody hv.2 hb (hs.enter (.start hparams rfl)) hd.2
      have hty := Ty.isResult_of_isValue
        (Ty.isValue_delegate.mpr ⟨List.forall_mem_map.mpr hparams, hs₁.body.ret⟩)
      exact ⟨hs₁.leave, hty, Expr.valued_of_result (Node.has_resolve ..) hty rfl, hvb⟩)
    nofun rfl
  block n body ih := .of_typed (fun hw hv h hs hd ↦ by
    cases hw with
    | block hbody =>
      obtain ⟨body', s₁, hb, rfl, rfl, rfl⟩ := of_gives_block h
      obtain ⟨hs₁, hvb⟩ := statements_valued ih hbody hv.2 hb hs.pushScope hd.2
      have hty := isResult_trailingTy (statementsEverywhere_iff.mp hvb)
      exact ⟨hs₁.popScope, hty, Expr.valued_of_result (Node.has_resolve ..) hty rfl, hvb⟩)
    nofun rfl
  exprStatement e ih := fun hw hv h hs hd ↦ by
    cases hw with
    | expr he =>
      obtain ⟨e₁, ty, he', rfl⟩ := of_gives_expr_statement h
      obtain ⟨hs', -, hve⟩ := ih.typed (.inl he) hv.2 he' hs hd.2
      exact ⟨hs', trivial, hve⟩
  blockStatement l body ih := fun hw hv h hs hd ↦ by
    cases hw with
    | block hbody =>
      obtain ⟨body', s₁, hb, rfl, rfl⟩ := of_gives_block_statement h
      obtain ⟨hs₁, hvb⟩ := statements_valued ih hbody hv.2 hb hs.pushScope hd.2
      exact ⟨hs₁.popScope, trivial, hvb⟩
  cond l x a b ihx iha ihb := fun hw hv h hs hd ↦ by
    cases hw with
    | cond hx ha hb =>
      obtain ⟨x', a', b', s₁, s₂, hx', ha', hb', rfl⟩ := of_gives_cond h
      obtain ⟨hs₁, -, hvx⟩ := ihx.typed (.inl hx) hv.2.1 hx' hs hd.2.1
      obtain ⟨hs₂, hva⟩ := iha ha hv.2.2.1 ha' hs₁.pushScope hd.2.2.1
      obtain ⟨hs', hvb⟩ := alternative_valued ihb hb hv.2.2.2 hb' hs₂.popScope hd.2.2.2
      exact ⟨hs', trivial, hvx, hva, hvb⟩
  ret l value k ih := fun hw hv h hs hd ↦ by
    cases hw with
    | ret hvalue =>
      obtain ⟨value', s₁, ty, ret, k, hv', hreturned, rfl, rfl⟩ := of_gives_ret h
      obtain ⟨hs₁, hty, hvv⟩ := optional_valued ih hvalue hv.2 hv' hs hd.2
      have hresult : (ty.getD .void).isResult := by
        cases ty with
        | none => rfl
        | some ty => exact hty ty rfl
      exact ⟨hs₁.settle (isResult_of_returned hreturned hs₁.body.ret hresult), trivial, hvv⟩
  throw l value ih := fun hw hv h hs hd ↦ by
    cases hw with
    | throw hvalue =>
      obtain ⟨value', ty, hv', rfl⟩ := of_gives_throw h
      obtain ⟨hs', -, hvv⟩ := optional_valued ih hvalue hv.2 hv' hs hd.2
      exact ⟨hs', trivial, hvv⟩
  vars l declarations ih := fun hw hv h hs hd ↦ by
    cases hw with
    | vars hdecls =>
      obtain ⟨declarations', hd', rfl⟩ := of_gives_vars h
      obtain ⟨hs', hvd⟩ := exprs_valued ih hdecls hv.2 hd' hs hd.2
      exact ⟨hs', trivial, hvd⟩
  function l signature body ih := fun hw hv h hs hd ↦ by
    cases hw with
    | function hbody => exact function_valued hr ih hbody hv h hs hd

/-- A program that binds stores values only. -/
theorem valued_of_gives {p q : Program} {s : Binder} {ty : Ty}
    (hthis : ∀ ty ∈ c.this, ty.isValue) (hp : ∀ st ∈ p, st.Written) (hv : c.VoidOnlyReturned p)
    (h : (c.program p).Gives .start q s ty)
    (hd : statementsEverywhere Expr.DemandsValues Statement.DemandsValues q) :
    s.Valued ∧ statementsEverywhere Expr.Valued (fun _ ↦ True) q := by
  simp only [program, Pass.gives_within, Pass.gives_done] at h
  obtain ⟨q', s', _, hq, rfl, rfl, rfl⟩ := h
  exact statements_valued (fun st _ ↦ (tree_valued hr hthis).statement st) hp hv hq .start hd

end BindContext

end Scriptlet
