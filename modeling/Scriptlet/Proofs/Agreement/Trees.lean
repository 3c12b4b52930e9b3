import Scriptlet.Proofs.Agreement.Actions
import Scriptlet.Proofs.Bind.Bare
import Scriptlet.Proofs.Bind.Primitive
import Scriptlet.Proofs.Eval.Callees
import Scriptlet.Proofs.Tree.Everywhere

/-!
# Well typed trees keep types

The actions of a well typed tree in which binding converts only where running does keep the types of
the program: an expression comes to a value of its type, and a statement to a value of the type that
it leaves, or to a return of what its body returns. What runs is the bare tree, which is the one
that was written; what is judged is the tree that binding has filled.
-/

namespace Scriptlet

/-- The tables that a program with these types is judged against, where nothing is declared. -/
def ProgramTypes.tables (W : ProgramTypes) : Tables := ⟨⟨.primitive, none⟩, W.functions⟩

/-- Nothing is converted anywhere in the expression. -/
abbrev Expr.Unconverted (e : Expr) : Prop :=
  e.Everywhere (fun e ↦ e.unconverted = true) fun st ↦ st.unconverted = true

/-- Nothing is converted anywhere in the statement. -/
abbrev Statement.Unconverted (st : Statement) : Prop :=
  st.Everywhere (fun e ↦ e.unconverted = true) fun st ↦ st.unconverted = true

/-- The site is in a body of the program, behind the parameters. -/
structure Site.Of (W : ProgramTypes) (b : Body) (C : Site) : Prop where
  body : C.body = b.types
  mem : b.types ∈ W.bodies
  known : ∀ p ∈ b.params, p.1 ∈ C.known

/-- A statement or a block ends with a value of the one type, or with a return of the other, if it
can end with a return. -/
def Flow.Ends (ret ty : Ty) (returns : Bool) : Flow → Prop
  | .normal v => v.Is ty
  | .returning v => returns ∧ v.Is ret

/-- Where no value is wanted any value will do. -/
theorem Flow.Ends.void {ret ty : Ty} {returns returns' : Bool} {flow : Flow}
    (h : flow.Ends ret ty returns) (hreturns : returns → returns') :
    flow.Ends ret .void returns' := by
  cases flow with
  | normal v => exact Value.is_void v
  | returning v => exact ⟨hreturns h.1, h.2⟩

/-- Without a return the value is that of the last statement. -/
theorem Flow.Ends.value {ret ty : Ty} {returns : Bool} {flow : Flow} (h : flow.Ends ret ty returns)
    (hreturns : returns = false) : flow.value.Is ty := by
  cases flow with
  | normal v => exact h
  | returning v => cases hreturns.symm.trans h.1

variable {W : ProgramTypes} {C : Site} {b : Body} {x : String} {v : Value} {l : Location}

/-! ## Names -/

namespace Site.Of

theorem inside (hC : C.Of W b) (ends : Flow → Prop) : (C.inside ends).Of W b :=
  ⟨hC.body, hC.mem, hC.known⟩

/-- What binding knows of a variable: its type, and whether it can be taken for a global one. -/
theorem of_stores (hC : C.Of W b) (hW : W.Unambiguous) {d : Binding} (hd : b.Stores x d) :
    (x, d.ty) ∈ C.body.variables ∧
      (C.Settled x ∨ ∀ ty, (x, ty) ∈ W.top.variables → ty = d.ty) := by
  rw [hC.body]
  cases d with
  | «variable» slot =>
    have hmem : (x, slot.ty) ∈ b.types.locals :=
      List.mem_map.mpr ⟨slot, List.mem_of_getElem? hd.2, Prod.ext hd.1 rfl⟩
    exact ⟨List.mem_append_right _ hmem,
      .inr fun ty hty ↦ hW.shared _ hC.mem _ hmem _ hty rfl⟩
  | parameter index ty =>
    have hmem : (x, ty) ∈ b.params := List.mem_of_getElem? hd
    refine ⟨List.mem_append_left _ hmem, .inl ⟨hC.known _ hmem, ?_⟩⟩
    rw [hC.body]
    exact List.mem_map_of_mem hmem
  | _ => cases hd

/-- A variable that is found has a value of its type. -/
theorem is_of_valueOf? (hC : C.Of W b) (hW : W.Unambiguous) {d : Binding} (hd : b.Stores x d)
    {env : Environment} (henv : env.Shows W C) (hv : env.valueOf? x = some v) : v.Is d.ty := by
  obtain ⟨hmem, hglobal⟩ := hC.of_stores hW hd
  rcases henv.of_valueOf? hv with ⟨ty, hty, hv⟩ | ⟨hsettled, ty, hty, hv⟩
  · rw [hC.body] at hmem hty
    have hsame : ty = d.ty := hW.names _ hC.mem _ hmem _ hty rfl
    rwa [← hsame]
  · rwa [← hglobal.resolve_left hsettled ty hty]

/-- The name of a type is not that of a variable. -/
theorem valueOf?_eq_none (hC : C.Of W b) (hW : W.Unambiguous) {ty : Ty}
    (hx : Registry.primitive.resolve? x = some ty) {env : Environment} (henv : env.Shows W C) :
    env.valueOf? x = none := by
  have hnone : ∀ {body : BodyTypes} {t : Ty}, body ∈ W.bodies → (x, t) ∉ body.variables := by
    intro body t hbody hmem
    rw [hW.types body hbody _ hmem] at hx
    cases hx
  cases hv : env.valueOf? x with
  | none => rfl
  | some v =>
    rcases henv.of_valueOf? hv with ⟨t, ht, -⟩ | ⟨-, t, ht, -⟩
    · exact absurd (hC.body ▸ ht) (hnone hC.mem)
    · exact absurd ht (hnone List.mem_cons_self)

end Site.Of

namespace Action

/-- A name has a value of its type, and only if it is not the name of a type. -/
theorem keeps_lookupName (hC : C.Of W b) (hW : W.Unambiguous) {d : Binding}
    (hd : W.tables.Denotes b x d) :
    Course.Keeps W C (fun v ↦ v.Is d.ty ∧ b.Stores x d) (lookupName x l) := by
  intro next hnext env henv
  have hconstant := henv.constant?_eq_none x
  cases hv : env.valueOf? x with
  | none =>
    simp only [hv, hconstant, Option.orElse_none]
    exact keeps_fail W _ C
  | some v =>
    simp only [hv, Option.orElse_some]
    rcases hd with hd | ⟨this, hthis, -⟩ | ⟨ty, rfl, hx⟩
    · exact hnext v ⟨hC.is_of_valueOf? hW hd henv hv, hd⟩
    · cases hthis
    · rw [hC.valueOf?_eq_none hW hx henv] at hv
      cases hv

/-- The write of a variable, wherever it is found. -/
theorem keeps_assign (hC : C.Of W b) (hW : W.Unambiguous) {d : Binding} (hd : b.Stores x d)
    (hv : v.Is d.ty) {next : Action} (hnext : next.Keeps W C) :
    (Action.assign x v next).Keeps W C := by
  obtain ⟨hmem, hglobal⟩ := hC.of_stores hW hd
  refine ⟨⟨_, hmem, hv⟩, hglobal.imp_right fun h ty hty ↦ ?_, hnext⟩
  rwa [h ty hty]

theorem keeps_writeName (hC : C.Of W b) (hW : W.Unambiguous) {d : Binding} (hd : b.Stores x d)
    (hv : v.Is d.ty) {next : Action} (hnext : next.Keeps W C) :
    (writeName x v l next).Keeps W C := by
  intro env henv
  have hconstant := henv.constant?_eq_none x
  simp only [hconstant, Option.isSome_none, Bool.and_false, Bool.false_eq_true, if_false]
  exact keeps_assign hC hW hd hv hnext

/-! ## Written types -/

theorem keeps_fit {kind : Option Kind} {op : String} {P : Value → Prop} (hnone : kind = none → P v)
    (hnull : v.isNull → P v) (hsome : ∀ k ∈ kind, ∀ w : Value, w.kind = k → P w) :
    Course.Keeps W C P (fit kind v op l) := by
  intro next hnext
  cases kind with
  | none => exact hnext v (hnone rfl)
  | some k =>
    simp only [fit]
    split
    · rename_i hv
      exact hnext v (hnull hv)
    · cases hw : v.convertTo k with
      | some w => exact hnext w (hsome k rfl w (Value.kind_of_convertTo hw))
      | none => exact keeps_fail W _ C

/-- A written type names a kind of values, or it is none that values are converted to. -/
theorem kind?_of_tyOf? {written : Option TypeExpr} {ty : Ty}
    (h : W.tables.tyOf? written = .ok (some ty)) :
    TypeExpr.kind? written = ty.kind? ∧ (ty.kind? = none → ty.rank? = none) := by
  have hnames : ∀ p ∈ Registry.primitive.names, Kind.ofTypeName? p.1 = p.2.kind? ∧
      (p.2.kind? = none → p.2.rank? = none) := by
    decide +kernel
  cases written with
  | none => cases h
  | some t =>
    rw [BindContext.tyOf?, BindContext.tyOf] at h
    split at h
    · rename_i element helement
      obtain rfl := Option.some.inj (Except.ok.inj h)
      obtain ⟨name, rank, place⟩ := t
      cases rank with
      | zero => exact hnames _ (Table.mem_of_get? helement)
      | succ rank => exact ⟨rfl, fun _ ↦ rfl⟩
    · cases h

theorem eq_none_of_tyOf? {written : Option TypeExpr} (h : W.tables.tyOf? written = .ok none) :
    written = none := by
  have hsome := BindContext.isSome_of_tyOf? h
  exact Option.isSome_eq_false_iff.mp hsome |> Option.isNone_iff_eq_none.mp

/-- A value that fits a written type is brought to it. -/
theorem keeps_fit_written {written : Option TypeExpr} {source ty : Ty} {c : Option Conversion}
    {op : String} (hw : W.tables.tyOf? written = .ok (some ty)) (hv : v.Is source)
    (hfit : Registry.primitive.Fits source ty c) :
    Course.Keeps W C (·.Is ty) (fit (TypeExpr.kind? written) v op l) := by
  obtain ⟨hkind, hrank⟩ := kind?_of_tyOf? hw
  rw [hkind]
  refine keeps_fit (fun hnone ↦ ?_) (fun hnull ↦ ?_) fun k hk w hw ↦ ?_
  · exact Value.is_of_fitsAsIs hv (Primitive.asIs_of_fits hfit (hrank hnone))
  · cases v <;> first | exact Value.is_null ty | cases hnull
  · exact Value.is_of_kind (hw ▸ hk)

theorem zero_is {written : Option TypeExpr} {ty : Ty}
    (hw : W.tables.tyOf? written = .ok (some ty)) :
    (((TypeExpr.kind? written).map Kind.zero).getD .null).Is ty := by
  rw [(kind?_of_tyOf? hw).1]
  cases ty <;> trivial

/-! ## Expressions and statements -/

/-- The expression as a value, as the target of a write, as a declaration and in front of the
arguments of a method. Only what is no name of a type has a value. -/
structure ExprKeeps (W : ProgramTypes) (e : Expr) : Prop where
  value : ∀ {b ty C}, W.tables.Typed b e ty → e.Unconverted → C.Of W b →
    Course.Keeps W C (fun v ↦ v.Is ty ∧ e.isTypeName = false) (expr e.bare)
  target : ∀ {b ty C}, W.tables.Typed b e ty → e.Unconverted → C.Of W b → e.isTypeName = false →
    ∀ {v l next}, v.Is ty → next.Keeps W C → (write e.bare v l next).Keeps W C
  declared : ∀ {b C}, W.tables.TypedDeclaration b e → e.Unconverted → C.Of W b →
    Course.Keeps W C (fun _ ↦ True) (expr e.bare)
  owned : ∀ {b x owner isType C},
    W.tables.TypedOwner b e x owner isType → e.Unconverted → C.Of W b →
    ∀ {args l} {P : Value → Prop}, Course.Keeps W C (fun _ ↦ True) args →
      (∀ v vs w, Value.method v x vs l = .ok w → P w) → Course.Keeps W C P (called e.bare args l)

/-- The statement. -/
def StatementKeeps (W : ProgramTypes) (st : Statement) : Prop :=
  ∀ {b C}, W.tables.TypedStatement b st → st.Unconverted → C.Of W b →
    Course.Keeps W C (Flow.Ends b.ret.ty (trailingTy [st]) st.returns) (statement st.bare)

/-- A form that is a value only. -/
theorem ExprKeeps.of_value {e : Expr}
    (value : ∀ {b ty C}, W.tables.Typed b e ty → e.Unconverted → C.Of W b →
      Course.Keeps W C (·.Is ty) (expr e.bare))
    (target : ∀ v l next, write e.bare v l next = fail (.invalidTarget l))
    (hname : ∀ {b ty}, W.tables.Typed b e ty → e.isTypeName = false)
    (hdeclare : ∀ {b}, ¬W.tables.TypedDeclaration b e)
    (howner : ∀ {b x owner isType}, ¬W.tables.TypedOwner b e x owner isType) : ExprKeeps W e where
  value ht hu hC next hnext := value ht hu hC next fun v hv ↦ hnext v ⟨hv, hname ht⟩
  target _ _ _ _ v l next _ _ := by
    rw [target]
    exact keeps_fail W _ _
  declared h _ _ := absurd h hdeclare
  owned h _ _ := absurd h howner

theorem isTypeName_of_has {e : Expr} {ty : Ty} (h : e.node.Has ty none) : e.isTypeName = false := by
  rw [Expr.isTypeName, h.2]

/-! ### Lists and options -/

theorem keeps_exprs {es : List Expr} {types : List Ty} (hes : ∀ e ∈ es, ExprKeeps W e)
    (ht : W.tables.TypedAll b es types) (hu : ∀ e ∈ es, e.Unconverted) (hC : C.Of W b) :
    Course.Keeps W C (fun vs ↦ List.Forall₂ Value.Is vs types) (exprs (exprsBare es)) := by
  induction es generalizing types with
  | nil =>
    cases ht
    exact keeps_pure .nil
  | cons e es ih =>
    cases ht with
    | cons head tail =>
      obtain ⟨he, hes⟩ := List.forall_mem_cons.mp hes
      obtain ⟨hue, hues⟩ := List.forall_mem_cons.mp hu
      intro next hnext
      exact he.value head hue hC _ fun v hv ↦ ih hes tail hues _ fun vs hvs ↦
        hnext (v :: vs) (.cons hv.1 hvs)

/-- Each item fits the element type once it is brought to the written kind. -/
theorem keeps_items {kind : Option Kind} {element : Ty} {es : List Expr} {types : List Ty}
    {cs : Conversions} (hes : ∀ e ∈ es, ExprKeeps W e) (ht : W.tables.TypedAll b es types)
    (hu : ∀ e ∈ es, e.Unconverted) (hC : C.Of W b)
    (hcs : Registry.primitive.FitAll types (List.replicate types.length element) cs)
    (hfit : ∀ {v source c op l}, v.Is source → Registry.primitive.Fits source element c → c ∈ cs →
      Course.Keeps W C (·.Is element) (fit kind v op l)) :
    Course.Keeps W C (fun vs ↦ ∀ v ∈ vs, v.Is element) (items kind (exprsBare es)) := by
  induction es generalizing types cs with
  | nil => exact keeps_pure fun _ h ↦ absurd h List.not_mem_nil
  | cons e es ih =>
    cases ht with
    | cons head tail =>
      cases hcs with
      | cons first rest =>
        obtain ⟨he, hes⟩ := List.forall_mem_cons.mp hes
        obtain ⟨hue, hues⟩ := List.forall_mem_cons.mp hu
        intro next hnext
        refine he.value head hue hC _ fun v hv ↦ hfit hv.1 first List.mem_cons_self _ fun w hw ↦ ?_
        refine ih hes tail hues rest (fun hv hs hc ↦ hfit hv hs (List.mem_cons_of_mem _ hc)) _
          fun ws hws ↦ hnext (w :: ws) (List.forall_mem_cons.mpr ⟨hw, hws⟩)

theorem keeps_indexArg {es : List Expr} {types : List Ty} (l : Location)
    (hes : ∀ e ∈ es, ExprKeeps W e) (ht : W.tables.TypedAll b es types)
    (hu : ∀ e ∈ es, e.Unconverted) (hC : C.Of W b) :
    Course.Keeps W C (fun _ ↦ True) (indexArg (exprsBare es) l) := by
  match es, ht, hes, hu with
  | [], _, _, _ => exact fun _ _ ↦ keeps_fail W _ C
  | [e], .cons head _, hes, hu =>
    intro next hnext
    exact (hes e List.mem_cons_self).value head (hu e List.mem_cons_self) hC _ fun v _ ↦
      keeps_attempt (fun _ _ ↦ trivial) _ hnext
  | _ :: _ :: _, _, _, _ => exact fun _ _ ↦ keeps_fail W _ C

theorem keeps_optionalExpr {o : Option Expr} {ty : Option Ty} (ho : ∀ e ∈ o, ExprKeeps W e)
    (ht : W.tables.TypedOption b o ty) (hu : ∀ e ∈ o, e.Unconverted) (hC : C.Of W b) :
    Course.Keeps W C (fun v ↦ ∀ t ∈ ty, v.Is t) (optionalExpr (optionBare o)) := by
  cases ht with
  | none => exact keeps_pure fun _ h ↦ absurd h (Option.not_mem_none _)
  | some he =>
    intro next hnext
    refine (ho _ rfl).value he (hu _ rfl) hC _ fun v hv ↦ hnext v ?_
    rintro t ⟨⟩
    exact hv.1

theorem keeps_initial {written : Option TypeExpr} {declared initial : Option Ty} {ty : Ty}
    {c : Option Conversion} {o : Option Expr} (ho : ∀ e ∈ o, ExprKeeps W e)
    (hw : W.tables.tyOf? written = .ok declared) (ht : W.tables.TypedOption b o initial)
    (hd : Registry.primitive.Declares declared initial ty c) (hu : ∀ e ∈ o, e.Unconverted)
    (hC : C.Of W b) :
    Course.Keeps W C (·.Is ty) (Action.initial (TypeExpr.kind? written) l (optionBare o)) := by
  cases hd with
  | written =>
    cases ht
    exact keeps_pure (zero_is hw)
  | converted hfit =>
    cases ht with
    | some he =>
      intro next hnext
      exact (ho _ rfl).value he (hu _ rfl) hC _ fun v hv ↦ keeps_fit_written hw hv.1 hfit _ hnext
  | inferred _ =>
    cases ht with
    | some he =>
      intro next hnext
      refine (ho _ rfl).value he (hu _ rfl) hC _ fun v hv ↦ ?_
      rw [eq_none_of_tyOf? hw]
      exact hnext v hv.1

theorem keeps_lastOf {last : Value} {es : List Expr} (hes : ∀ e ∈ es, ExprKeeps W e)
    (ht : ∀ e ∈ es, W.tables.TypedDeclaration b e) (hu : ∀ e ∈ es, e.Unconverted) (hC : C.Of W b) :
    Course.Keeps W C (fun _ ↦ True) (lastOf last (exprsBare es)) := by
  induction es generalizing last with
  | nil => exact keeps_pure trivial
  | cons e es ih =>
    obtain ⟨he, hes⟩ := List.forall_mem_cons.mp hes
    obtain ⟨hte, htes⟩ := List.forall_mem_cons.mp ht
    obtain ⟨hue, hues⟩ := List.forall_mem_cons.mp hu
    intro next hnext
    exact he.declared hte hue hC _ fun v _ ↦ ih hes htes hues next hnext

theorem trailingTy_cons {st : Statement} {sts : List Statement} (h : sts ≠ []) :
    trailingTy (st :: sts) = trailingTy sts := by
  rw [trailingTy, trailingTy, List.getLast?_cons, List.getLast?_eq_some_getLast h, Option.getD_some]

theorem keeps_statements {last : Value} {sts : List Statement}
    (hsts : ∀ st ∈ sts, StatementKeeps W st) (ht : ∀ st ∈ sts, W.tables.TypedStatement b st)
    (hu : ∀ st ∈ sts, st.Unconverted) (hC : C.Of W b) :
    Course.Keeps W C (Flow.Ends b.ret.ty (trailingTy sts) (anyReturns sts))
      (statements last (statementsBare sts)) := by
  induction sts generalizing last with
  | nil => exact keeps_pure (Value.is_void last)
  | cons st sts ih =>
    obtain ⟨hst, hsts⟩ := List.forall_mem_cons.mp hsts
    obtain ⟨htst, htsts⟩ := List.forall_mem_cons.mp ht
    obtain ⟨hust, husts⟩ := List.forall_mem_cons.mp hu
    intro next hnext
    refine hst htst hust hC _ fun flow hflow ↦ ?_
    cases flow with
    | returning v =>
      refine hnext _ ⟨?_, hflow.2⟩
      rw [anyReturns, hflow.1, Bool.true_or]
    | normal v =>
      by_cases hnil : sts = []
      · subst hnil
        exact hnext _ hflow
      · refine ih hsts htsts husts next fun flow hflow ↦ hnext flow ?_
        rw [trailingTy_cons hnil]
        cases flow with
        | normal w => exact hflow
        | returning w =>
          refine ⟨?_, hflow.2⟩
          rw [anyReturns, hflow.1, Bool.or_true]

/-- The statements of a block, in a frame of their own. -/
theorem keeps_block {body : List Statement} {P : Flow → Prop}
    (hbody : ∀ st ∈ body, StatementKeeps W st) (ht : ∀ st ∈ body, W.tables.TypedStatement b st)
    (hu : ∀ st ∈ body, st.Unconverted) (hC : C.Of W b)
    (hP : ∀ flow, Flow.Ends b.ret.ty (trailingTy body) (anyReturns body) flow → P flow) :
    Course.Keeps W C P fun next ↦ .block (statements .null (statementsBare body) finish) next := by
  intro next hnext
  refine ⟨Flow.Ends b.ret.ty (trailingTy body) (anyReturns body), ?_, fun flow hflow ↦
    hnext flow (hP flow hflow)⟩
  refine keeps_statements hbody ht hu (hC.inside _) finish fun flow hflow flow' hflow' ↦ ?_
  obtain rfl := Except.ok.inj hflow'
  exact hflow

theorem keeps_optionalStatement {o : Option Statement} (ho : ∀ st ∈ o, StatementKeeps W st)
    (ht : ∀ st ∈ o, W.tables.TypedStatement b st) (hu : ∀ st ∈ o, st.Unconverted) (hC : C.Of W b) :
    Course.Keeps W C (Flow.Ends b.ret.ty .void (alternativeReturns o))
      (optionalStatement (alternativeBare o)) := by
  cases o with
  | none => exact keeps_pure (Value.is_void _)
  | some st =>
    intro next hnext
    exact ho st rfl (ht st rfl) (hu st rfl) hC next fun flow hflow ↦ hnext flow (hflow.void id)

/-! ### Forms -/

theorem isTypeName_group {n : Node} {e : Expr} {t : Option OperatorTarget}
    (h : n.binding = e.node.binding) : (Expr.unary n .group e t).isTypeName = e.isTypeName := by
  rw [Expr.isTypeName, Expr.isTypeName, ← h]
  rfl

theorem isTypeName_of_settable {e : Expr} (h : ∃ d, e.node.binding = some d ∧ d.isSettable) :
    e.isTypeName = false := by
  obtain ⟨d, hd, hset⟩ := h
  rw [Expr.isTypeName, hd]
  cases d <;> first | rfl | cases hset

theorem keeps_unary {n : Node} {op : UnaryOp} {e : Expr} {t : Option OperatorTarget}
    (ih : ExprKeeps W e) : ExprKeeps W (.unary n op e t) where
  value {b ty C} ht hu hC next hnext := by
    cases ht with
    | group he hn =>
      exact ih.value he hu.2 hC _ fun v hv ↦ hnext v ⟨hv.1, (isTypeName_group hn.2).trans hv.2⟩
    | unary he hmeaning hn =>
      rename_i operand t
      have hname : (Expr.unary n op e (some t)).isTypeName = false := isTypeName_of_has hn
      refine ih.value he hu.2 hC _ fun v hv ↦ keeps_attempt
        (P := fun w ↦ w.Is ty ∧ (op.isMutating → ty = operand))
        (fun w hw ↦ Value.unary_is hv.1 hmeaning hw) _ fun w hw ↦ ?_
      split
      · rename_i hmutates
        obtain ⟨-, -, -, hset⟩ := hmeaning
        have hsame := hw.2 hmutates
        refine ih.target he hu.2 hC (isTypeName_of_settable (hset hmutates)) (hsame ▸ hw.1)
          (hnext _ ⟨?_, hname⟩)
        split
        · exact hsame ▸ hv.1
        · exact hw.1
      · exact hnext w ⟨hw.1, hname⟩
  target ht hu hC hname v l next hv hnext := by
    cases op with
    | group =>
      cases ht with
      | group he hn =>
        exact ih.target he hu.2 hC ((isTypeName_group hn.2).symm.trans hname) hv hnext
      | unary he hmeaning hn =>
        obtain ⟨hop, -, -, -⟩ := hmeaning
        cases hop
    | _ => exact keeps_fail W _ _
  declared h := nomatch h
  owned h hu hC args l P hargs hP := by
    cases h with
    | group hn he => exact ih.owned he hu.2 hC hargs hP

/-- Only variables are found under a name that is no name of a type. -/
theorem stores_of_denotes {e : Expr} {d : Binding} (hd : W.tables.Denotes b x d)
    (hn : e.node.binding = some d) (hname : e.isTypeName = false) : b.Stores x d := by
  rcases hd with hd | ⟨this, hthis, -⟩ | ⟨ty, rfl, -⟩
  · exact hd
  · cases hthis
  · rw [Expr.isTypeName, hn] at hname
    cases hname

theorem isTypeName_of_stores {e : Expr} {d : Binding} (hd : b.Stores x d)
    (hn : e.node.binding = some d) : e.isTypeName = false := by
  refine isTypeName_of_settable ⟨d, hn, ?_⟩
  cases d <;> first | rfl | cases hd

theorem isTypeName_of_isAssignable {e : Expr} {ty : Ty} (ht : W.tables.Typed b e ty)
    (h : e.isAssignable) : e.isTypeName = false := by
  fun_induction Expr.ungrouped e with
  | case1 n e t ih =>
    cases ht with
    | group he hn => exact (isTypeName_group hn.2).trans (ih he h)
    | unary he hmeaning hn =>
      obtain ⟨hop, -, -, -⟩ := hmeaning
      cases hop
  | case2 e hne =>
    have hungrouped : e.ungrouped = e := by
      rw [Expr.ungrouped.eq_def]
      split
      · exact absurd rfl (hne _ _ _)
      · rfl
    rw [Expr.isAssignable, hungrouped] at h
    split at h
    · cases ht with
      | index _ _ _ hn => exact isTypeName_of_has hn
    · exact isTypeName_of_settable (Option.any_eq_true _ _ |>.mp h)

theorem keeps_name (hW : W.Unambiguous) (n : Node) (x : String) : ExprKeeps W (.name n x) where
  value ht hu hC next hnext := by
    cases ht with
    | name hd hn =>
      exact keeps_lookupName hC hW hd next fun v hv ↦ hnext v ⟨hv.1, isTypeName_of_stores hv.2 hn.2⟩
  target ht hu hC hname v l next hv hnext := by
    cases ht with
    | name hd hn =>
      exact keeps_writeName hC hW (stores_of_denotes (e := .name n x) hd hn.2 hname) hv hnext
  declared h := nomatch h
  owned h := nomatch h

theorem keeps_variableRef (hW : W.Unambiguous) (n : Node) (x : String) :
    ExprKeeps W (.variableRef n x) where
  value ht hu hC next hnext := by
    cases ht with
    | variableRef hd hn =>
      intro env henv
      refine hnext _ ⟨?_, isTypeName_of_stores hd hn.2⟩
      cases hv : env.valueOf? x with
      | none => exact Value.is_null _
      | some v => exact hC.is_of_valueOf? hW hd henv hv
  target ht hu hC hname v l next hv hnext := by
    cases ht with
    | variableRef hd hn => exact keeps_assign hC hW hd hv hnext
  declared h := nomatch h
  owned h := nomatch h

theorem keeps_binary {n : Node} {op : BinaryOp} {x y : Expr} {t : Option OperatorTarget}
    (ihx : ExprKeeps W x) (ihy : ExprKeeps W y) : ExprKeeps W (.binary n op x y t) := by
  refine .of_value (fun {b ty C} ht hu hC next hnext ↦ ?_) (fun _ _ _ ↦ rfl) (fun ht ↦ ?_)
    nofun nofun
  · cases ht with
    | binary hx hy hmeaning hn =>
      -- what the two logical operators give without a look at the right operand
      have hbool : op.methodName? = none → ∀ v, (Value.bool v).Is ty := by
        intro hop v
        cases hmeaning with
        | method hm _ _ => cases hop.symm.trans hm
        | identity _ _ _ => trivial
        | logical _ _ => trivial
      refine ihx.value hx hu.2.1 hC _ fun a ha ↦ ?_
      split
      · rename_i hand
        exact hnext _ (hbool (hand.1 ▸ rfl) _)
      · split
        · rename_i hor
          exact hnext _ (hbool (hor.1 ▸ rfl) _)
        · exact ihy.value hy hu.2.2 hC _ fun b hb ↦
            keeps_attempt (fun w hw ↦ Value.binary_is ha.1 hb.1 hmeaning hw) _ hnext
  · cases ht with
    | binary _ _ _ hn => exact isTypeName_of_has hn

theorem keeps_coalesce {n : Node} {x y : Expr} (ihx : ExprKeeps W x) (ihy : ExprKeeps W y) :
    ExprKeeps W (.coalesce n x y) := by
  refine .of_value (fun {b ty C} ht hu hC next hnext ↦ ?_) (fun _ _ _ ↦ rfl) (fun ht ↦ ?_)
    nofun nofun
  · cases ht with
    | coalesce hx hy hn =>
      rename_i right
      have hright : right = ty ∨ right = .null := by
        have here := hu.1
        simpa [Expr.unconverted, hx.node_ty, hy.node_ty] using here
      refine ihx.value hx hu.2.1 hC _ fun v hv ↦ ?_
      split
      · refine ihy.value hy hu.2.2 hC _ fun w hw ↦ ?_
        have hwty : w.Is ty := by
          rcases hright with rfl | rfl
          · exact hw.1
          · exact Value.is_of_null hw.1
        split
        · exact ihx.target hx hu.2.1 hC hv.2 hwty (hnext w hwty)
        · exact hnext w hwty
      · exact hnext v hv.1
  · cases ht with
    | coalesce _ _ hn => exact isTypeName_of_has hn

theorem keeps_ternary {n : Node} {x y z : Expr} {v : Option BranchConversion} (ihx : ExprKeeps W x)
    (ihy : ExprKeeps W y) (ihz : ExprKeeps W z) : ExprKeeps W (.ternary n x y z v) := by
  refine .of_value (fun {b ty C} ht hu hC next hnext ↦ ?_) (fun _ _ _ ↦ rfl) (fun ht ↦ ?_)
    nofun nofun
  · cases ht with
    | ternary hx hy hz hjoins hn =>
      rename_i onTrue onFalse
      have hfits : onTrue.FitsAsIs ty ∧ onFalse.FitsAsIs ty := by
        have here := hu.1
        cases hjoins with
        | same heq => exact ⟨.inl rfl, .inl heq.symm⟩
        | first _ hfit =>
          obtain rfl := Option.isNone_iff_eq_none.mp here
          exact ⟨hfit, .inl rfl⟩
        | second _ hfit =>
          obtain rfl := Option.isNone_iff_eq_none.mp here
          exact ⟨.inl rfl, hfit⟩
      refine ihx.value hx hu.2.1 hC _ fun v _ ↦ ?_
      split
      · exact ihy.value hy hu.2.2.1 hC _ fun w hw ↦ hnext w (Value.is_of_fitsAsIs hw.1 hfits.1)
      · exact ihz.value hz hu.2.2.2 hC _ fun w hw ↦ hnext w (Value.is_of_fitsAsIs hw.1 hfits.2)
  · cases ht with
    | ternary _ _ _ _ hn => exact isTypeName_of_has hn

theorem keeps_assignment {n : Node} {target v : Expr} {k : Option (Option Conversion)}
    (iht : ExprKeeps W target) (ihv : ExprKeeps W v) : ExprKeeps W (.assign n target v k) := by
  refine .of_value (fun {b ty C} ht hu hC next hnext ↦ ?_) (fun _ _ _ ↦ rfl) (fun ht ↦ ?_)
    nofun nofun
  · cases ht with
    | assign ht hv hset hfit hn =>
      obtain rfl := Option.isNone_iff_eq_none.mp hu.1
      refine ihv.value hv hu.2.2 hC _ fun w hw ↦ ?_
      have hwty := Value.is_of_fitsAsIs hw.1 hfit
      exact iht.target ht hu.2.1 hC (isTypeName_of_isAssignable ht hset) hwty (hnext w hwty)
  · cases ht with
    | assign _ _ _ _ hn => exact isTypeName_of_has hn

theorem isBareName_bare {e : Expr} (h : e.IsBareName x) : e.bare.IsBareName x := by
  induction h with
  | name hn => exact .name ⟨rfl, rfl⟩
  | group hn _ ih => exact .group ⟨rfl, rfl⟩ ih

theorem forall₂_is_of_fitAll {vs : List Value} {types params : List Ty} {cs : Conversions}
    (hvs : List.Forall₂ Value.Is vs types) (hfit : Registry.primitive.FitAll types params cs)
    (hcs : cs.all Option.isNone) : List.Forall₂ Value.Is vs params := by
  induction hfit generalizing vs with
  | nil => exact hvs
  | cons head _ ih =>
    rw [List.all_cons, Bool.and_eq_true] at hcs
    obtain rfl := Option.isNone_iff_eq_none.mp hcs.1
    cases hvs with
    | cons hv hvs => exact .cons (Value.is_of_fitsAsIs hv head) (ih hvs hcs.2)

theorem keeps_call {n : Node} {target : Expr} {args : List Expr} {t : Option CallTarget}
    (ih : ExprKeeps W target) (ihs : ∀ e ∈ args, ExprKeeps W e) :
    ExprKeeps W (.call n target args t) := by
  refine .of_value (fun {b ty C} ht hu hC next hnext ↦ ?_) (fun _ _ _ ↦ rfl) (fun ht ↦ ?_)
    nofun nofun
  · have huargs := exprsEverywhere_iff.mp hu.2.2
    cases ht with
    | callFunction hx hargs hmeaning hn =>
      cases hmeaning with
      | method hthis _ _ => cases hthis
      | script hf hname hfit =>
        rw [Expr.bare, expr, called_of_isBareName (isBareName_bare hx)]
        refine keeps_exprs ihs hargs huargs hC _ fun vs hvs ↦ ?_
        refine ⟨_, List.mem_of_getElem? hf, hname, forall₂_is_of_fitAll hvs hfit hu.1,
          fun e ↦ keeps_fail W e C, hnext⟩
    | callMethod howner hargs hmeaning hn =>
      cases hmeaning with
      | method hm _ _ =>
        have hall := keeps_exprs ihs hargs huargs hC
        exact ih.owned howner hu.2.1 hC (fun next hnext ↦ hall next fun vs _ ↦ hnext vs trivial)
          (fun _ _ _ hw ↦ Value.method_is hm hw) next hnext
    | callValue _ _ _ _ => cases hu.1
  · cases ht with
    | callFunction _ _ _ hn => exact isTypeName_of_has hn
    | callMethod _ _ _ hn => exact isTypeName_of_has hn
    | callValue _ _ _ hn => exact isTypeName_of_has hn

theorem keeps_index {n : Node} {target : Expr} {args : List Expr} {t : Option CallTarget}
    (ih : ExprKeeps W target) (ihs : ∀ e ∈ args, ExprKeeps W e) :
    ExprKeeps W (.index n target args t) where
  value ht hu hC next hnext := by
    cases ht with
    | index hc hargs hmeaning hn =>
      refine ih.value hc hu.2.1 hC _ fun v hv ↦ ?_
      refine keeps_indexArg _ ihs hargs (exprsEverywhere_iff.mp hu.2.2) hC _ fun i _ ↦ ?_
      exact keeps_attempt (fun w hw ↦ Value.element_is hv.1 hmeaning hw) _ fun w hw ↦
        hnext w ⟨hw, isTypeName_of_has hn⟩
  target ht hu hC _ v l next hv hnext := by
    cases ht with
    | index hc hargs hmeaning hn =>
      refine ih.value hc hu.2.1 hC _ fun container hcontainer ↦ ?_
      refine keeps_indexArg _ ihs hargs (exprsEverywhere_iff.mp hu.2.2) hC _ fun i _ ↦ ?_
      exact keeps_attempt (fun w hw ↦ Value.setElement_is hcontainer.1 hmeaning hv hw) _ fun w hw ↦
        ih.target hc hu.2.1 hC hcontainer.2 hw hnext
  declared h := nomatch h
  owned h := nomatch h

theorem keeps_member {n : Node} {target : Expr} {x : String} (ih : ExprKeeps W target) :
    ExprKeeps W (.member n target x) where
  value ht hu hC next hnext := by
    cases ht with
    | member ht hd _ hn =>
      refine ih.value ht hu.2 hC _ fun v _ ↦ ?_
      refine keeps_attempt (fun w hw ↦ Value.member_is hd hw) _ fun w hw ↦ hnext w ⟨hw, ?_⟩
      rw [Expr.isTypeName, Expr.node, hn.2]
      split
      · rename_i heq
        cases heq
        cases hd
      · rfl
  target _ _ _ _ _ _ _ _ _ := keeps_fail W _ _
  declared h := nomatch h
  owned h hu hC args l P hargs hP next hnext := by
    cases h with
    | member _ ht =>
      exact ih.value ht hu.2 hC _ fun v _ ↦ hargs _ fun vs _ ↦
        keeps_attempt (fun w hw ↦ hP v vs w hw) _ hnext

theorem keeps_declare {n : Node} {x : String} {ty : Option TypeExpr} {init : Option Expr}
    {k : Option (Option Conversion)} (hW : W.Unambiguous) (ih : ∀ e ∈ init, ExprKeeps W e) :
    ExprKeeps W (.declare n x ty init k) where
  value ht := nomatch ht
  target ht := nomatch ht
  declared h hu hC next hnext := by
    cases h with
    | declare hw hinit hd hslot hn =>
      refine keeps_initial ih hw hinit hd (optionEverywhere_iff.mp hu.2) hC _ fun v hv ↦ ?_
      exact ⟨⟨_, (hC.of_stores hW hslot).1, hv⟩, (hnext v trivial).mono (.of_know _ x)⟩
  owned h := nomatch h

theorem keeps_array {n : Node} {written : Option TypeExpr} {es : List Expr}
    {cs : Option Conversions} (ih : ∀ e ∈ es, ExprKeeps W e) :
    ExprKeeps W (.array n written es cs) := by
  refine .of_value (fun {b ty C} ht hu hC next hnext ↦ ?_) (fun _ _ _ ↦ rfl) (fun ht ↦ ?_)
    nofun nofun
  · cases ht with
    | array hw hitems helement hfit hn =>
      refine keeps_items ih hitems (exprsEverywhere_iff.mp hu.2) hC hfit (fun hv hfit hc ↦ ?_) _
        fun vs hvs ↦ hnext (.array vs) hvs
      cases helement with
      | written => exact keeps_fit_written hw hv hfit
      | first _ =>
        obtain rfl := eq_none_of_tyOf? hw
        obtain rfl := Option.isNone_iff_eq_none.mp (List.all_eq_true.mp hu.1 _ hc)
        exact keeps_pure (Value.is_of_fitsAsIs hv hfit)
  · cases ht with
    | array _ _ _ _ hn => exact isTypeName_of_has hn

theorem keeps_blockExpr {n : Node} {body : List Statement} (ih : ∀ st ∈ body, StatementKeeps W st) :
    ExprKeeps W (.block n body) := by
  refine .of_value (fun {b ty C} ht hu hC next hnext ↦ ?_) (fun _ _ _ ↦ rfl) (fun ht ↦ ?_)
    nofun nofun
  · cases ht with
    | block hbody hn =>
      have hreturns : anyReturns body = false := by simpa [Expr.unconverted] using hu.1
      exact keeps_block (P := fun flow ↦ flow.value.Is (trailingTy body)) ih hbody
        (statementsEverywhere_iff.mp hu.2) hC (fun _ hflow ↦ hflow.value hreturns) _
        fun _ hflow ↦ hnext _ hflow
  · cases ht with
    | block _ hn => exact isTypeName_of_has hn

theorem trailingTy_expr {e : Expr} {ty : Ty} (ht : W.tables.Typed b e ty) :
    trailingTy [.expr e] = ty := by
  rw [trailingTy, List.getLast?_singleton]
  split
  · rename_i heq
    cases heq
    cases ht
  · rename_i heq
    cases heq
    rw [ht.node_ty, Option.getD_some]
  · rename_i hne
    exact absurd rfl (hne e)

theorem keeps_ret {value : Option Expr} {k : Option (Option Conversion)}
    (ih : ∀ e ∈ value, ExprKeeps W e) : StatementKeeps W (.ret l value k) := by
  intro b C ht hu hC next hnext
  cases ht with
  | ret hv hreturns =>
    obtain rfl := Option.isNone_iff_eq_none.mp hu.1
    refine keeps_optionalExpr ih hv (optionEverywhere_iff.mp hu.2) hC _ fun v hv ↦ hnext _ ⟨rfl, ?_⟩
    rename_i ty _
    cases ty with
    | none =>
      rw [hreturns.2.mp rfl]
      exact Value.is_void v
    | some ty => exact Value.is_of_fitsAsIs (hv ty rfl) hreturns.1

theorem keeps_cond {x : Expr} {st : Statement} {alternative : Option Statement}
    (ihx : ExprKeeps W x) (ihst : StatementKeeps W st)
    (ihalt : ∀ st ∈ alternative, StatementKeeps W st) :
    StatementKeeps W (.cond l x st alternative) := by
  intro b C ht hu hC next hnext
  cases ht with
  | cond hx hst halt =>
    refine ihx.value hx hu.2.1 hC _ fun v _ ↦ ?_
    split
    · refine ihst hst hu.2.2.1 hC next fun flow hflow ↦ hnext flow (hflow.void fun h ↦ ?_)
      rw [Statement.returns, h, Bool.true_or]
    · refine keeps_optionalStatement ihalt halt (alternativeEverywhere_iff.mp hu.2.2.2) hC next
        fun flow hflow ↦ hnext flow (hflow.void fun h ↦ ?_)
      rw [Statement.returns, h, Bool.or_true]

/-- Every form keeps types if its parts do. -/
theorem tree_keeps (hW : W.Unambiguous) : Tree.Cases (ExprKeeps W) (StatementKeeps W) where
  literal n v := by
    refine .of_value (fun ht _ _ ↦ ?_) (fun _ _ _ ↦ rfl) (fun ht ↦ ?_) nofun nofun
    · cases ht with
      | literal hn => exact keeps_pure (by cases v <;> trivial)
    · cases ht with
      | literal hn => exact isTypeName_of_has hn
  null n := by
    refine .of_value (fun ht _ _ ↦ keeps_pure (Value.is_null _)) (fun _ _ _ ↦ rfl) (fun ht ↦ ?_)
      nofun nofun
    cases ht with
    | null hn => exact isTypeName_of_has hn
  empty n := .of_value nofun (fun _ _ _ ↦ rfl) nofun nofun nofun
  this n := by
    refine .of_value (fun _ _ _ _ _ ↦ keeps_fail W _ _) (fun _ _ _ ↦ rfl) (fun ht ↦ ?_) nofun nofun
    cases ht with
    | this hthis _ => cases hthis
  lambda n params body _ := by
    refine .of_value (fun _ _ _ _ _ ↦ keeps_fail W _ _) (fun _ _ _ ↦ rfl) (fun ht ↦ ?_) nofun nofun
    cases ht with
    | lambda _ _ _ hn => exact isTypeName_of_has hn
  new n target args t _ _ := by
    refine .of_value (fun _ _ _ _ _ ↦ keeps_fail W _ _) (fun _ _ _ ↦ rfl) (fun ht ↦ ?_) nofun nofun
    cases ht with
    | new _ _ _ hn => exact isTypeName_of_has hn
  name n x := keeps_name hW n x
  variableRef n x := keeps_variableRef hW n x
  constantRef n x := by
    -- there is no own type whose constants could be meant
    refine ⟨fun ht ↦ ?_, fun ht ↦ ?_, nofun, nofun⟩ <;>
    · cases ht with
      | constantRef hthis _ _ => cases hthis
  unary n op e t ih := keeps_unary ih
  binary n op x y t ihx ihy := keeps_binary ihx ihy
  coalesce n x y ihx ihy := keeps_coalesce ihx ihy
  ternary n x y z v ihx ihy ihz := keeps_ternary ihx ihy ihz
  assign n target v k iht ihv := keeps_assignment iht ihv
  call n target args t ih ihs := keeps_call ih ihs
  index n target args t ih ihs := keeps_index ih ihs
  member n target x ih := keeps_member ih
  declare n x ty init k ih := keeps_declare hW ih
  array n ty items cs ih := keeps_array ih
  block n body ih := keeps_blockExpr ih
  exprStatement e ih := by
    intro b C ht hu hC next hnext
    cases ht with
    | expr he =>
      refine ih.value he hu.2 hC _ fun v hv ↦ hnext (.normal v) ?_
      rw [trailingTy_expr he]
      exact hv.1
  blockStatement l body ih := by
    intro b C ht hu hC
    cases ht with
    | block hbody =>
      exact keeps_block ih hbody (statementsEverywhere_iff.mp hu.2) hC
        fun flow hflow ↦ hflow.void id
  cond l x st alternative ihx ihst ihalt := keeps_cond ihx ihst ihalt
  ret l value k ih := keeps_ret ih
  throw l value ih := by
    intro b C ht hu hC next hnext
    cases ht with
    | throw hv =>
      exact keeps_optionalExpr ih hv (optionEverywhere_iff.mp hu.2) hC _ fun v _ ↦ keeps_fail W _ C
  vars l declarations ih := by
    intro b C ht hu hC next hnext
    cases ht with
    | vars hd =>
      exact keeps_lastOf ih hd (exprsEverywhere_iff.mp hu.2) hC _ fun v _ ↦
        hnext (.normal v) (Value.is_void v)
  function l signature body _ := fun _ _ _ _ hnext ↦ hnext (.normal .null) (Value.is_null _)

/-- Statements that are well typed in a body keep types up to the end of their frame. -/
theorem keeps_ended (hW : W.Unambiguous) (last : Value) {sts : List Statement}
    (ht : ∀ st ∈ sts, W.tables.TypedStatement b st) (hu : ∀ st ∈ sts, st.Unconverted)
    (hC : C.Of W b)
    (hends : ∀ flow, Flow.Ends b.ret.ty (trailingTy sts) (anyReturns sts) flow → C.ends flow) :
    (statements last (statementsBare sts) finish).Keeps W C := by
  refine keeps_statements (fun st _ ↦ (tree_keeps hW).statement st) ht hu hC finish
    fun flow hflow flow' hflow' ↦ ?_
  obtain rfl := Except.ok.inj hflow'
  exact hends flow hflow

end Action

end Scriptlet
