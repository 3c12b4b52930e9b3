import Scriptlet.Proofs.Bind.Valued
import Scriptlet.Proofs.Code.Storage

/-!
# The code of each form of expression

Each form of expression puts the code of its parts together in its own way: it skips code, keeps a
copy of a value below what a store takes, or stores the items of an array one by one. The lemmas
here say, form by form, that the pieces fit if those of the parts do.
-/

namespace Scriptlet

/-! ## Invoked function values -/

namespace Code

mutual

/-- The return types of the function values that the code of an expression invokes, in the order of
the code. -/
def invoked (r : Registry) : Expr → List Ty
  | .member n target _ => if n.binding.any Binding.needsInstance then invoked r target else []
  | .unary _ op e _ => if op.isMutating then [] else invoked r e
  | .binary _ _ a b _ | .coalesce _ a b => invoked r a ++ invoked r b
  | .ternary _ x a b _ => invoked r x ++ invoked r a ++ invoked r b
  | .assign _ target v _ => targetInvoked r target ++ invoked r v
  | .call _ target args (some ⟨.method m, _, _⟩) =>
    (if (r.method? m).any MethodDef.isStatic then [] else ownerInvoked r target)
      ++ exprsInvoked r args
  | .call _ target args (some ⟨.delegate, ret, _⟩) =>
    invoked r target ++ exprsInvoked r args ++ [ret]
  | .call _ _ args _ | .new _ _ args _ => exprsInvoked r args
  | .index _ target args _ => invoked r target ++ exprsInvoked r args
  | .declare _ _ _ init _ => optionInvoked r init
  | .array _ _ items _ => exprsInvoked r items
  | .block _ body => statementsInvoked r body
  | .literal .. | .null _ | .this _ | .empty _ | .lambda .. | .name .. | .variableRef ..
  | .constantRef .. => []

/-- The same of what is loaded for an assignment to the target. -/
def targetInvoked (r : Registry) : Expr → List Ty
  | .unary _ .group e _ => targetInvoked r e
  | .index _ target args _ => invoked r target ++ exprsInvoked r args
  | .member n target _ => if n.binding.any Binding.needsInstance then invoked r target else []
  | _ => []

/-- The same of what a method is called on. -/
def ownerInvoked (r : Registry) : Expr → List Ty
  | .unary _ .group e _ => ownerInvoked r e
  | .member _ target _ => invoked r target
  | _ => []

/-- The same of the expressions of a list. -/
def exprsInvoked (r : Registry) : List Expr → List Ty
  | [] => []
  | e :: es => invoked r e ++ exprsInvoked r es

/-- The same of an expression that may be missing. -/
def optionInvoked (r : Registry) : Option Expr → List Ty
  | none => []
  | some e => invoked r e

/-- The same of a statement. -/
def statementInvoked (r : Registry) : Statement → List Ty
  | .expr e => invoked r e
  | .block _ body => statementsInvoked r body
  | .cond _ x a b => invoked r x ++ statementInvoked r a ++ alternativeInvoked r b
  | .ret _ value _ | .throw _ value => optionInvoked r value
  | .vars _ declarations => exprsInvoked r declarations
  | .function .. => []

/-- The same of the statements of a list. -/
def statementsInvoked (r : Registry) : List Statement → List Ty
  | [] => []
  | st :: sts => statementInvoked r st ++ statementsInvoked r sts

/-- The same of a statement that may be missing. -/
def alternativeInvoked (r : Registry) : Option Statement → List Ty
  | none => []
  | some st => statementInvoked r st

end

section

-- The equations of the walks are derived here, so that no two proofs below wait for the same ones.
attribute [local simp] expr assign owner arguments elements blockValue statement exprs statements
attribute [local simp] invoked targetInvoked ownerInvoked exprsInvoked optionInvoked
  statementInvoked statementsInvoked alternativeInvoked

end

end Code

/-! ## The walk -/

namespace Tables

variable {Γ : Tables} {b : Body} {h : Nat}

/-- The code of the expression is balanced: as a value, as a declaration, as what a method is called
on, and as what is assigned to, given balanced code of the value. -/
structure ExprBalances (Γ : Tables) (e : Expr) : Prop where
  typed : ∀ {b ty}, Γ.Typed b e ty → e.AllValued → e.AllDemand → ∀ h,
    Γ.Balances (Code.invoked Γ.registry e) (Code.expr Γ.registry e) h (h + ty.cells)
  declared : ∀ {b}, Γ.TypedDeclaration b e → e.AllValued → e.AllDemand → ∀ h,
    Γ.Balances (Code.invoked Γ.registry e) (Code.expr Γ.registry e) h h
  owned : ∀ {b x owner isType}, Γ.TypedOwner b e x owner isType → owner ≠ .void →
    e.AllValued → e.AllDemand → ∀ h,
    Γ.Balances (Code.ownerInvoked Γ.registry e) (Code.owner Γ.registry e) h (h + 1)
  assigned : ∀ {b ty rets value l}, Γ.Typed b e ty → e.isAssignable → e.AllValued →
    e.AllDemand → (∀ h, Γ.Balances rets value h (h + 1)) → ∀ h,
    Γ.Balances (Code.targetInvoked Γ.registry e ++ rets) (Code.assign Γ.registry l value e)
      h (h + 1)

/-- The code of the statement is balanced, and so is that of the expression that it may be. -/
structure StatementBalances (Γ : Tables) (st : Statement) : Prop where
  typed : ∀ {b}, Γ.TypedStatement b st → st.AllValued → st.AllDemand → ∀ h,
    Γ.Balances (Code.statementInvoked Γ.registry st) (Code.statement Γ.registry st) h h
  value : ∀ e, st = .expr e → ExprBalances Γ e

/-- The code of an assignment to a storage that is not reached through an expression. -/
def storing (l : Location) (value : Emit) (d : Binding) : Emit :=
  if d.needsInstance then .put .loadThis ++ value ++ .put (.dupUnder 1) ++ d.store l
  else value ++ .put .dup ++ d.store l

theorem storing_balances {rets : List Ty} {value : Emit} {l : Location} {d : Binding}
    (hlive : d.Live Γ.registry) (hvalue : ∀ h, Γ.Balances rets value h (h + 1)) :
    Γ.Balances rets (storing l value d) h (h + 1) := by
  have hstore := store_balances (h := h + 1) (l := l) hlive
  rw [storing]
  split
  · rename_i hinstance
    rw [Binding.ownerCells, if_pos hinstance] at hstore
    exact (((Balances.put (e := ⟨0, 1⟩) rfl rfl rfl).behind (hvalue _)).before
      (.put (h := h) (e := ⟨2, 3⟩) rfl rfl rfl)).before hstore
  · rename_i hinstance
    rw [Binding.ownerCells, if_neg hinstance] at hstore
    exact ((hvalue _).before (.put (h := h) (e := ⟨1, 2⟩) rfl rfl rfl)).before hstore

/-- A form that is a value only, and that is assigned to through its storage. -/
theorem ExprBalances.of_typed {e : Expr}
    (typed : ∀ {b ty}, Γ.Typed b e ty → e.AllValued → e.AllDemand → ∀ h,
      Γ.Balances (Code.invoked Γ.registry e) (Code.expr Γ.registry e) h (h + ty.cells))
    (hdeclare : ∀ {b}, ¬Γ.TypedDeclaration b e)
    (howner : ∀ {b x owner isType}, ¬Γ.TypedOwner b e x owner isType)
    (htarget : Code.targetInvoked Γ.registry e = [])
    (hassign : ∀ l value, Code.assign Γ.registry l value e
      = .require e.node.binding l (storing l value)) : ExprBalances Γ e where
  typed := typed
  declared hd := absurd hd hdeclare
  owned ho := absurd ho howner
  assigned ht _ _ _ hvalue h := by
    rw [htarget, hassign]
    exact .require fun d hd ↦ storing_balances (ht.live_of_binding hd) hvalue

/-! ## Lists -/

section Lists

variable (hr : Γ.registry.VoidOnlyReturned) {cs cs' : Conversions} {index : Nat}

include hr in
/-- An expression with its conversion, where a value is wanted. -/
theorem argument_balances (cs : Conversions) (index : Nat) {e : Expr} {ty param : Ty}
    {c : Option Conversion}
    (he : ExprBalances Γ e) (ht : Γ.Typed b e ty) (hfit : Γ.registry.Fits ty param c)
    (hparam : param.isValue) (hc : cs[index]? = some c) (hv : e.AllValued) (hd : e.AllDemand) :
    Γ.Balances (Code.invoked Γ.registry e)
      (Code.expr Γ.registry e ++ .argConversion cs index) h (h + 1) := by
  rw [Emit.argConversion, hc, Option.join_some]
  have hconversion := conversion_balances (h := h) hr hfit
  rw [Ty.cells_of_ne_void (Ty.ne_void_of_isValue hparam)] at hconversion
  exact (he.typed ht hv hd h).before hconversion

include hr in
/-- The arguments of a call take one cell each. -/
theorem arguments_balances {es : List Expr} {types params : List Ty}
    (hes : ∀ e ∈ es, ExprBalances Γ e) (ht : Γ.TypedAll b es types)
    (hfit : Γ.registry.FitAll types params cs') (hparams : ∀ ty ∈ params, ty.isValue)
    (hcs : ∀ i, cs[index + i]? = cs'[i]?) (hv : exprsEverywhere Expr.Valued (fun _ ↦ True) es)
    (hd : exprsEverywhere Expr.DemandsValues Statement.DemandsValues es) :
    Γ.Balances (Code.exprsInvoked Γ.registry es) (Code.arguments Γ.registry cs index es) h
      (h + params.length) := by
  induction es generalizing types params cs' index h with
  | nil =>
    cases ht
    cases hfit
    exact .nothing
  | cons e es ih =>
    obtain ⟨he, hes⟩ := List.forall_mem_cons.mp hes
    cases ht with
    | cons head tail =>
      cases hfit with
      | cons hfit hfits =>
        obtain ⟨hparam, hparams⟩ := List.forall_mem_cons.mp hparams
        have hrest : ∀ i, cs[index + 1 + i]? = _ := fun i ↦ by
          rw [Nat.add_assoc, Nat.add_comm 1 i, hcs, List.getElem?_cons_succ]
        have hc : cs[index]? = some _ := hcs 0
        have harg := argument_balances hr cs index (h := h) he head hfit hparam hc hv.1 hd.1
        have hargs := ih (h := h + 1) hes tail hfits hparams hrest hv.2 hd.2
        rw [List.length_cons, Nat.add_comm _ 1, ← Nat.add_assoc]
        exact harg.append hargs

include hr in
/-- The items of an array are stored into it one by one. -/
theorem elements_balances {es : List Expr} {types params : List Ty}
    (hes : ∀ e ∈ es, ExprBalances Γ e) (ht : Γ.TypedAll b es types)
    (hfit : Γ.registry.FitAll types params cs') (hparams : ∀ ty ∈ params, ty.isValue)
    (hcs : ∀ i, cs[index + i]? = cs'[i]?) (hv : exprsEverywhere Expr.Valued (fun _ ↦ True) es)
    (hd : exprsEverywhere Expr.DemandsValues Statement.DemandsValues es) :
    Γ.Balances (Code.exprsInvoked Γ.registry es) (Code.elements Γ.registry cs index es) (h + 1)
      (h + 1) := by
  induction es generalizing types params cs' index with
  | nil => exact .nothing
  | cons e es ih =>
    obtain ⟨he, hes⟩ := List.forall_mem_cons.mp hes
    cases ht with
    | cons head tail =>
      cases hfit with
      | cons hfit hfits =>
        obtain ⟨hparam, hparams⟩ := List.forall_mem_cons.mp hparams
        have hrest : ∀ i, cs[index + 1 + i]? = _ := fun i ↦ by
          rw [Nat.add_assoc, Nat.add_comm 1 i, hcs, List.getElem?_cons_succ]
        have hc : cs[index]? = some _ := hcs 0
        have hitem := argument_balances hr cs index (h := h + 3) he head hfit hparam hc hv.1 hd.1
        have hdup : Γ.Balances [] (.put .dup) (h + 1) (h + 2) :=
          .put (h := h) (e := ⟨1, 2⟩) rfl rfl rfl
        have hindex : Γ.Balances [] (.put (.loadConstant (.int (Int64.ofNat index)))) (h + 2)
            (h + 3) := .put (h := h + 2) (e := ⟨0, 1⟩) rfl rfl rfl
        have hstore : Γ.Balances [] (.put .storeElement) (h + 4) (h + 1) :=
          .put (h := h + 1) (e := ⟨3, 0⟩) rfl rfl rfl
        have hall := (((hdup.behind hindex).behind hitem).before hstore).append
          (ih hes tail hfits hparams hrest hv.2 hd.2)
        simpa only [Code.elements, Code.exprsInvoked, Emit.append_assoc] using hall

theorem exprs_balances {es : List Expr} (hes : ∀ e ∈ es, ExprBalances Γ e)
    (ht : ∀ e ∈ es, Γ.TypedDeclaration b e) (hv : exprsEverywhere Expr.Valued (fun _ ↦ True) es)
    (hd : exprsEverywhere Expr.DemandsValues Statement.DemandsValues es) :
    Γ.Balances (Code.exprsInvoked Γ.registry es) (Code.exprs Γ.registry es) h h := by
  induction es with
  | nil => exact .nothing
  | cons e es ih =>
    obtain ⟨he, hes⟩ := List.forall_mem_cons.mp hes
    obtain ⟨hte, htes⟩ := List.forall_mem_cons.mp ht
    exact (he.declared hte hv.1 hd.1 h).append (ih hes htes hv.2 hd.2)

theorem statements_balances {sts : List Statement} (hsts : ∀ st ∈ sts, StatementBalances Γ st)
    (ht : ∀ st ∈ sts, Γ.TypedStatement b st)
    (hv : statementsEverywhere Expr.Valued (fun _ ↦ True) sts)
    (hd : statementsEverywhere Expr.DemandsValues Statement.DemandsValues sts) :
    Γ.Balances (Code.statementsInvoked Γ.registry sts) (Code.statements Γ.registry sts) h h := by
  induction sts with
  | nil => exact .nothing
  | cons st sts ih =>
    obtain ⟨hst, hsts⟩ := List.forall_mem_cons.mp hsts
    obtain ⟨htst, htsts⟩ := List.forall_mem_cons.mp ht
    exact (hst.typed htst hv.1 hd.1 h).append (ih hsts htsts hv.2 hd.2)

theorem trailingTy_of_typed {e : Expr} {ty : Ty} (ht : Γ.Typed b e ty) :
    trailingTy [.expr e] = ty := by
  have hty := ht.node_ty
  cases ht <;> simp_all [trailingTy, Expr.node]

/-- The value of an expression at the end of a block stays. -/
theorem blockValue_balances {sts : List Statement} (hsts : ∀ st ∈ sts, StatementBalances Γ st)
    (ht : ∀ st ∈ sts, Γ.TypedStatement b st)
    (hv : statementsEverywhere Expr.Valued (fun _ ↦ True) sts)
    (hd : statementsEverywhere Expr.DemandsValues Statement.DemandsValues sts) :
    Γ.Balances (Code.statementsInvoked Γ.registry sts) (Code.blockValue Γ.registry sts) h
      (h + (trailingTy sts).cells) := by
  induction sts with
  | nil => exact .nothing
  | cons st sts ih =>
    obtain ⟨hst, hsts⟩ := List.forall_mem_cons.mp hsts
    obtain ⟨htst, htsts⟩ := List.forall_mem_cons.mp ht
    rcases sts with _ | ⟨st', rest⟩
    · cases st with
      | expr e =>
        cases htst with
        | expr he =>
          rw [trailingTy_of_typed he, Code.statementsInvoked, Code.statementsInvoked,
            List.append_nil]
          exact (hst.value e rfl).typed he hv.1.2 hd.1.2 h
      | _ => exact (hst.typed htst hv.1 hd.1 h).append .nothing
    · have hcode : Code.blockValue Γ.registry (st :: st' :: rest)
          = Code.statement Γ.registry st ++ Code.blockValue Γ.registry (st' :: rest) := by
        cases st <;> rfl
      have htrailing : trailingTy (st :: st' :: rest) = trailingTy (st' :: rest) := by
        rw [trailingTy, trailingTy, List.getLast?_cons_cons]
      rw [hcode, htrailing]
      exact (hst.typed htst hv.1 hd.1 h).append (ih hsts htsts hv.2 hd.2)

end Lists

/-! ## Forms -/

section Forms

variable (hr : Γ.registry.VoidOnlyReturned)

theorem name_balances {n : Node} {l : Location} {d : Binding} (hlive : d.Live Γ.registry)
    (hn : n.Has d.ty (some d)) (hvalue : ∀ d ∈ n.binding, d.isStorage → d.ty.isValue) :
    Γ.Balances [] (.require n.binding l fun d ↦
      (if d.needsInstance then .put .loadThis else .nothing) ++ d.load l) h (h + d.ty.cells) := by
  rw [hn.2, Emit.require_some]
  refine Balances.before (g := h + d.ownerCells) ?_ (load_balances hlive (hvalue d hn.2))
  rw [Binding.ownerCells]
  split
  · exact .put (e := ⟨0, 1⟩) rfl rfl rfl
  · exact .nothing

include hr in
theorem member_balances {n : Node} {target : Expr} {x : String} (ih : ExprBalances Γ target) :
    ExprBalances Γ (.member n target x) where
  typed ht hv hd h := by
    cases ht with
    | @member _ _ _ _ owner d ht hmember hstatic hn =>
      have hload := load_balances (h := h) (l := n.location) hmember.live
        (hv.here.storage d hn.2)
      have htarget := ih.typed ht hv.2 hd.2 h
      rw [Ty.cells_of_ne_void (hr.of_hasMember hmember).1] at htarget
      rw [Code.expr, Code.invoked, hn.2, Option.any_some, Emit.require_some]
      by_cases hinstance : d.needsInstance
      · rw [Binding.ownerCells, if_pos hinstance] at hload
        rw [if_pos hinstance, if_pos hinstance]
        exact htarget.before hload
      · rw [Binding.ownerCells, if_neg hinstance] at hload
        rw [if_neg hinstance, if_neg hinstance]
        exact Balances.nothing.behind hload
  declared ht := nomatch ht
  owned ho hne hv hd h := by
    cases ho with
    | member hn ht =>
      have htarget := ih.typed ht hv.2 hd.2 h
      rw [Ty.cells_of_ne_void hne] at htarget
      exact htarget
  assigned {b ty rets value l} ht _ hv hd hvalue h := by
    cases ht with
    | @member _ _ _ _ owner d ht hmember hstatic hn =>
      have hstore := store_balances (h := h + 1) (l := l) hmember.live
      have htarget := ih.typed ht hv.2 hd.2 h
      rw [Ty.cells_of_ne_void (hr.of_hasMember hmember).1] at htarget
      rw [Code.assign, Code.targetInvoked, hn.2, Option.any_some, Emit.require_some]
      -- a copy of the value stays as the result, below the owner where there is one
      by_cases hinstance : d.needsInstance
      · rw [Binding.ownerCells, if_pos hinstance] at hstore
        rw [if_pos hinstance, if_pos hinstance]
        exact ((htarget.append (hvalue _)).before (.put (h := h) (e := ⟨2, 3⟩) rfl rfl rfl)).before
          hstore
      · rw [Binding.ownerCells, if_neg hinstance] at hstore
        rw [if_neg hinstance, if_neg hinstance]
        exact ((hvalue _).before (.put (h := h) (e := ⟨1, 2⟩) rfl rfl rfl)).before hstore

include hr in
/-- The code of an operator on one operand, behind the operand. -/
theorem unaryMethod_balances {op : UnaryOp} {name : String} {operand : Ty} {m : MethodRef}
    {d : MethodDef} {c : Option Conversion} (hop : op.methodName? = some name)
    (hm : Γ.registry.HasMethod operand name m d) (hfit : Γ.registry.FitAll [operand] d.params [c]) :
    Γ.Balances [] (.argConversion [c] 0 ++ .call (.method m)) (h + operand.cells)
      (h + d.ret.cells) := by
  have hparams := (hr.of_hasMethod hm).2.1
  have hcall := operator_balances (h := h) hr hm (UnaryOp.mem_operatorNames hop)
  generalize d.params = params at hfit hparams hcall
  cases hfit with
  | cons hfit hfits =>
    cases hfits
    have hconversion := conversion_balances (h := h) hr hfit
    rw [Ty.cells_of_ne_void (Ty.ne_void_of_isValue (hparams _ List.mem_cons_self))] at hconversion
    exact hconversion.before hcall

/-- An operator that writes back loads its operand and stores the result; one of the two values
stays. -/
theorem mutation_balances {l : Location} {d : Binding} {apply : Emit} {post : Prop} [Decidable post]
    (hlive : d.Live Γ.registry) (hstorage : d.isStorage → d.ty.isValue)
    (hinstance : ¬d.needsInstance) (hne : d.ty ≠ .void)
    (happly : ∀ h, Γ.Balances [] apply (h + 1) (h + 1)) :
    Γ.Balances [] (d.load l ++ (if post then .put .dup ++ apply else apply ++ .put .dup)
      ++ d.store l) h (h + 1) := by
  have hload := load_balances (h := h) (l := l) hlive hstorage
  have hstore := store_balances (h := h + 1) (l := l) hlive
  rw [Binding.ownerCells, if_neg hinstance, Ty.cells_of_ne_void hne] at hload
  rw [Binding.ownerCells, if_neg hinstance] at hstore
  have hdup : Γ.Balances [] (.put .dup) (h + 1) (h + 2) := .put (h := h) (e := ⟨1, 2⟩) rfl rfl rfl
  split
  · exact (hload.before (hdup.before (happly (h + 1)))).before hstore
  · exact (hload.before ((happly h).before hdup)).before hstore

include hr in
theorem unary_balances {n : Node} {op : UnaryOp} {e : Expr} {t : Option OperatorTarget}
    (ih : ExprBalances Γ e) : ExprBalances Γ (.unary n op e t) where
  typed ht hv hd h := by
    cases ht with
    | group he hn => exact ih.typed he hv.2 hd.2 h
    | unary he ht hn =>
      cases ht with
      | method hop hm hfit hset =>
        obtain ⟨hne, -, -⟩ := hr.of_hasMethod hm
        obtain ⟨-, hret⟩ := hr.of_operator hm (UnaryOp.mem_operatorNames hop)
        have happly : ∀ h, Γ.Balances [] _ (h + _) (h + _) := fun h ↦
          unaryMethod_balances (h := h) hr hop hm hfit
        rw [Ty.cells_of_ne_void hne, Ty.cells_of_ne_void (Ty.ne_void_of_isValue hret)] at happly
        rw [Ty.cells_of_ne_void (Ty.ne_void_of_isValue hret), Code.invoked, Code.expr,
          Emit.require_some]
        · simp only
          split
          · refine .require fun d hd ↦ ?_
            have hty := he.ty_of_binding hd
            split
            · exact .fail
            · rename_i hinstance
              exact mutation_balances (he.live_of_binding hd) (hv.2.here.storage d hd) hinstance
                (hty ▸ hne) happly
          · have hcode := ih.typed he hv.2 hd.2 h
            rw [Ty.cells_of_ne_void hne] at hcode
            exact hcode.before (happly h)
        · rintro rfl
          cases hop
  declared ht := nomatch ht
  owned ho hne hv hd h := by
    cases ho with
    | group hn he => exact ih.owned he hne hv.2 hd.2 h
  assigned {b ty rets value l} ht hset hv hd hvalue h := by
    cases ht with
    | group he hn => exact ih.assigned he hset hv.2 hd.2 hvalue h
    | unary he ht hn =>
      cases ht with
      | method hop hm hfit hset =>
        have hcode : ∀ t, Code.assign Γ.registry l value (.unary n op e t)
            = .require n.binding l (storing l value) := by
          cases op <;> first | cases hop; done | exact fun _ ↦ rfl
        rw [hcode, hn.2]
        exact .fail

theorem cells_of_isReference {ty : Ty} (hty : ty.isReference) : ty.cells = 1 := by
  cases ty <;> first | rfl | cases hty

include hr in
theorem binary_balances {n : Node} {op : BinaryOp} {x y : Expr} {t : Option OperatorTarget}
    (ihx : ExprBalances Γ x) (ihy : ExprBalances Γ y) : ExprBalances Γ (.binary n op x y t) := by
  refine .of_typed (fun ht hv hd h ↦ ?_) nofun nofun rfl fun _ _ ↦ rfl
  cases ht with
  | binary hx hy ht hn =>
    rw [Code.invoked, Code.expr, Emit.require_some]
    cases ht with
    | @method name m d cs hop hm hfit =>
      obtain ⟨owner, hm⟩ : ∃ owner, Γ.registry.HasMethod owner name m d := hm.elim (⟨_, ·⟩) (⟨_, ·⟩)
      have hparams := (hr.of_hasMethod hm).2.1
      have hcall := operator_balances (h := h) hr hm (BinaryOp.mem_operatorNames hop)
      obtain ⟨p, q, c₁, c₂, hpq, rfl, hfit₁, hfit₂⟩ := hfit.of_pair
      rw [hpq] at hparams hcall
      simp only [List.forall_mem_cons] at hparams
      have hleft := argument_balances hr [c₁, c₂] 0 (h := h) ihx hx hfit₁ hparams.1 rfl hv.2.1
        hd.2.1
      have hright := argument_balances hr [c₁, c₂] 1 (h := h + 1) ihy hy hfit₂ hparams.2.1 rfl
        hv.2.2 hd.2.2
      simpa only [Emit.append_assoc] using (hleft.append hright).before hcall
    | identity hop hleft hright =>
      have hx := ihx.typed hx hv.2.1 hd.2.1 h
      have hy := ihy.typed hy hv.2.2 hd.2.2 (h + 1)
      rw [cells_of_isReference hleft] at hx
      rw [cells_of_isReference hright] at hy
      exact (hx.append hy).before (.put (h := h) (e := ⟨2, 1⟩) rfl rfl rfl)
    | logical hop hfit =>
      obtain ⟨p, q, c₁, c₂, hpq, rfl, hfit₁, hfit₂⟩ := hfit.of_pair
      obtain ⟨rfl, rfl⟩ : Ty.bool = p ∧ Ty.bool = q := by simpa using hpq
      have hleft := argument_balances hr [c₁, c₂] 0 (h := h) ihx hx hfit₁ rfl rfl hv.2.1 hd.2.1
      have hright := argument_balances hr [c₁, c₂] 1 (h := h) ihy hy hfit₂ rfl rfl hv.2.2 hd.2.2
      have hbranch : (if op = .and then BranchCondition.ifFalse else .ifTrue) ≠ .always := by
        split <;> nofun
      rw [show Ty.bool.cells = 1 from rfl]
      simpa only [Emit.append_assoc] using Balances.skip hbranch hleft hright

theorem cells_of_node {e : Expr} {ty : Ty} (ht : Γ.Typed b e ty) (hty : e.node.ty ≠ some .void) :
    ty.cells = 1 := by
  refine Ty.cells_of_ne_void ?_
  rintro rfl
  exact hty ht.node_ty

theorem coalesce_balances {n : Node} {x y : Expr} (ihx : ExprBalances Γ x)
    (ihy : ExprBalances Γ y) : ExprBalances Γ (.coalesce n x y) := by
  refine .of_typed (fun ht hv hd h ↦ ?_) nofun nofun rfl fun _ _ ↦ rfl
  cases ht with
  | coalesce hx hy hn =>
    have hleft := ihx.typed hx hv.2.1 hd.2.1 h
    have hright := ihy.typed hy hv.2.2 hd.2.2 h
    -- both operands are asked for a value, whatever their types
    have hcells := cells_of_node hx (hd.1 x List.mem_cons_self)
    rw [hcells] at hleft ⊢
    rw [cells_of_node hy (hd.1 y (List.mem_cons_of_mem _ List.mem_cons_self))] at hright
    exact Balances.skip nofun hleft hright

include hr in
theorem ternary_balances {n : Node} {x y z : Expr} {v : Option BranchConversion}
    (ihx : ExprBalances Γ x) (ihy : ExprBalances Γ y) (ihz : ExprBalances Γ z) :
    ExprBalances Γ (.ternary n x y z v) := by
  refine .of_typed (fun ht hv hd h ↦ ?_) nofun nofun rfl fun _ _ ↦ rfl
  cases ht with
  | ternary hx hy hz hj hn =>
    obtain ⟨hthen, helse⟩ := branchConversion_balances (h := h) hr hj
    have hx := ihx.typed hx hv.2.1 hd.2.1 h
    have hy := (ihy.typed hy hv.2.2.1 hd.2.2.1 h).before hthen
    have hz := (ihz.typed hz hv.2.2.2 hd.2.2.2 h).before helse
    simpa only [Emit.append_assoc, Code.expr, Code.invoked] using Balances.either hx hy hz

/-- What can be assigned to has the type of a value. -/
theorem isValue_of_isAssignable {e : Expr} {ty : Ty} (ht : Γ.Typed b e ty) (hset : e.isAssignable)
    (hv : e.AllValued) : ty.isValue := by
  -- parentheses have the storage of what they hold, so the recursion is through them
  fun_induction Expr.ungrouped e with
  | case1 n e t ih =>
    cases ht with
    | group he hn => exact ih he hset hv.2
    | unary he ht hn =>
      cases ht with
      | method hop _ _ _ => cases hop
  | case2 e hne =>
    rw [Expr.isAssignable, Expr.ungrouped.eq_2 e hne] at hset
    split at hset
    · cases ht with
      | index hc hargs hm hn =>
        cases hm with
        | element harray _ =>
          have hresult := hv.2.1.here.result _ hc.node_ty
          rw [harray] at hresult
          simpa using hresult
        | indexer => cases hset
    · obtain ⟨d, hd, hset⟩ := (Option.any_eq_true _ _).mp hset
      have hstorage : d.isStorage := by cases d <;> first | rfl | cases hset
      exact ht.ty_of_binding hd ▸ hv.here.storage d hd hstorage

include hr in
theorem assign_balances {n : Node} {target v : Expr} {k : Option (Option Conversion)}
    (iht : ExprBalances Γ target) (ihv : ExprBalances Γ v) :
    ExprBalances Γ (.assign n target v k) := by
  refine .of_typed (fun ht hv hd h ↦ ?_) nofun nofun rfl fun _ _ ↦ rfl
  cases ht with
  | assign ht hval hset hc hn =>
    have hcells := Ty.cells_of_ne_void
      (Ty.ne_void_of_isValue (isValue_of_isAssignable ht hset hv.2.1))
    rw [hcells, Code.expr, Code.invoked]
    refine iht.assigned ht hset hv.2.1 hd.2.1 (fun h ↦ ?_) h
    have hconversion := conversion_balances (h := h) hr hc
    rw [hcells] at hconversion
    exact (ihv.typed hval hv.2.2 hd.2.2 h).before hconversion

include hr in
theorem index_balances {n : Node} {target : Expr} {args : List Expr} {t : Option CallTarget}
    (ih : ExprBalances Γ target) (ihs : ∀ e ∈ args, ExprBalances Γ e) :
    ExprBalances Γ (.index n target args t) where
  typed ht hv hd h := by
    cases ht with
    | index hc hargs hm hn =>
      have htarget := ih.typed hc hv.2.1 hd.2.1 h
      rw [Code.expr, Code.invoked, Emit.require_some]
      cases hm with
      | element harray hfit =>
        subst harray
        have hpassed := arguments_balances (h := h + 1) hr ihs hargs hfit
          (List.forall_mem_singleton.mpr rfl) (fun i ↦ by rw [Nat.zero_add]) hv.2.2 hd.2.2
        have hresult := hv.2.1.here.result _ hc.node_ty
        rw [Ty.cells_of_ne_void (Ty.ne_void_of_isValue (by simpa using hresult))]
        exact (htarget.append hpassed).before (.put (h := h) (e := ⟨2, 1⟩) rfl rfl rfl)
      | @indexer m d cs hm hstatic hfit =>
        obtain ⟨hne, hparams, -⟩ := hr.of_hasMethod hm
        rw [Ty.cells_of_ne_void hne] at htarget
        have hpassed := arguments_balances (h := h + 1) hr ihs hargs hfit hparams
          (fun i ↦ by rw [Nat.zero_add]) hv.2.2 hd.2.2
        have hcall := method_balances (h := h) hm.live
        rw [hstatic, if_neg Bool.false_ne_true, ← Nat.add_assoc] at hcall
        exact (htarget.append hpassed).before hcall
  declared ht := nomatch ht
  owned ho := nomatch ho
  assigned {b ty rets value l} ht hset hv hd hvalue h := by
    cases ht with
    | index hc hargs hm hn =>
      cases hm with
      | element harray hfit =>
        subst harray
        have htarget := ih.typed hc hv.2.1 hd.2.1 h
        have hpassed := arguments_balances (h := h + 1) hr ihs hargs hfit
          (List.forall_mem_singleton.mpr rfl) (fun i ↦ by rw [Nat.zero_add]) hv.2.2 hd.2.2
        have hlength : args.length = 1 := by
          rw [hargs.length_eq, ← hfit.length_eq.2, List.length_singleton]
        rw [Code.assign, Code.targetInvoked, Emit.require_some, hlength]
        -- a copy of the value goes below array and index, and the store takes the other three
        exact (((htarget.append hpassed).append (hvalue _)).before
          (.put (h := h) (e := ⟨3, 4⟩) rfl rfl rfl)).before (.put (e := ⟨3, 0⟩) rfl rfl rfl)
      | indexer => cases hset

theorem bareOwner_balances {e : Expr} {x : String} (hx : e.IsBareName x) :
    Γ.Balances (Code.ownerInvoked Γ.registry e) (Code.owner Γ.registry e) h (h + 1) := by
  induction hx with
  | name hn => exact .put (e := ⟨0, 1⟩) rfl rfl rfl
  | group hn _ ih => exact ih

/-- The call of a method takes what it is called on, unless it is static, and its arguments. -/
theorem methodCall_balances {n : Node} {target : Expr} {args : List Expr} {m : MethodRef}
    {d : MethodDef} {ret : Ty} {cs : Conversions} (hd : Γ.registry.method? m = some d)
    (howner : d.isStatic = false → Γ.Balances (Code.ownerInvoked Γ.registry target)
      (Code.owner Γ.registry target) h (h + 1))
    (hpassed : ∀ h, Γ.Balances (Code.exprsInvoked Γ.registry args)
      (Code.arguments Γ.registry cs 0 args) h (h + d.params.length)) :
    Γ.Balances (Code.invoked Γ.registry (.call n target args (some ⟨.method m, ret, cs⟩)))
      (Code.expr Γ.registry (.call n target args (some ⟨.method m, ret, cs⟩)))
      h (h + d.ret.cells) := by
  have hcall := method_balances (h := h) hd
  rw [Code.invoked, Code.expr, Emit.require_some]
  simp only [hd, Emit.require_some, Option.any_some]
  cases hstatic : d.isStatic with
  | false =>
    rw [hstatic, if_neg Bool.false_ne_true, ← Nat.add_assoc] at hcall
    rw [if_neg Bool.false_ne_true, if_neg Bool.false_ne_true]
    exact ((howner hstatic).append (hpassed _)).before hcall
  | true =>
    rw [hstatic, if_pos rfl, Nat.zero_add] at hcall
    rw [if_pos rfl, if_pos rfl]
    exact (Balances.nothing.append (hpassed _)).before hcall

include hr in
theorem call_balances {n : Node} {target : Expr} {args : List Expr} {t : Option CallTarget}
    (hfunctions : ∀ f ∈ Γ.functions, f.Valued) (ih : ExprBalances Γ target)
    (ihs : ∀ e ∈ args, ExprBalances Γ e) : ExprBalances Γ (.call n target args t) := by
  refine .of_typed (fun ht hv hd h ↦ ?_) nofun nofun rfl fun _ _ ↦ rfl
  -- whatever is called takes values
  have hpassed : ∀ {b types params cs}, Γ.TypedAll b args types →
      Γ.registry.FitAll types params cs → (∀ ty ∈ params, ty.isValue) → ∀ h,
      Γ.Balances (Code.exprsInvoked Γ.registry args) (Code.arguments Γ.registry cs 0 args) h
        (h + params.length) := fun hargs hfit hparams h ↦
    arguments_balances hr ihs hargs hfit hparams (fun i ↦ by rw [Nat.zero_add]) hv.2.2 hd.2.2
  cases ht with
  | callFunction hx hargs ht hn =>
    cases ht with
    | @script i f cs hf hname hfit =>
      have hparams := (hfunctions f (List.mem_of_getElem? hf)).1
      exact (hpassed hargs hfit hparams h).before (.put (e := ⟨f.params.length, f.ret.cells⟩)
        (by simp [effect, callEffect, hf]) rfl rfl)
    | method hthis hm hfit =>
      exact methodCall_balances hm.live (fun _ ↦ bareOwner_balances hx)
        (hpassed hargs hfit (hr.of_hasMethod hm).2.1)
  | callMethod ho hargs ht hn =>
    cases ht with
    | method hm hstatic hfit =>
      obtain ⟨hne, hparams, -⟩ := hr.of_hasMethod hm
      exact methodCall_balances hm.live (fun _ ↦ ih.owned ho hne hv.2.1 hd.2.1 h)
        (hpassed hargs hfit hparams)
  | @callValue _ _ _ _ params ret types cs hf hargs hfit hn =>
    have hdelegate := hv.2.1.here.result _ hf.node_ty
    have hparams := (Ty.isValue_delegate.mp (Ty.isValue_of_isResult hdelegate (by rintro ⟨⟩))).1
    have hlength : args.length = params.length := by
      rw [hargs.length_eq, ← hfit.length_eq.2]
    have hinvoke : ∀ ty, Γ.Balances [ty] (.call (.delegate args.length)) (h + 1 + params.length)
        (h + ty.cells) := by
      intro ty
      rw [← hlength, Nat.add_assoc, Nat.add_comm 1]
      exact .invoke ty args.length
    rw [Code.invoked, Code.expr, Emit.require_some]
    exact ((ih.typed hf hv.2.1 hd.2.1 h).append (hpassed hargs hfit hparams _)).append (hinvoke _)

include hr in
theorem new_balances {n : Node} {target : Expr} {args : List Expr} {t : Option CallTarget}
    (ihs : ∀ e ∈ args, ExprBalances Γ e) : ExprBalances Γ (.new n target args t) := by
  refine .of_typed (fun ht hv hd h ↦ ?_) nofun nofun rfl fun _ _ ↦ rfl
  cases ht with
  | new hname hargs ht hn =>
    rw [Ty.cells_of_ne_void (Ty.ne_void_of_isValue (hv.here.made rfl _ hn.1)),
      Code.invoked, Code.expr, Emit.require_some]
    cases ht with
    | default hnone htypes =>
      subst htypes
      have hnil : args = [] := List.length_eq_zero_iff.mp hargs.length_eq
      subst hnil
      exact Balances.nothing.before (.put (e := ⟨0, 1⟩) rfl rfl rfl)
    | @constructor m d cs hm hfit =>
      have hpassed := arguments_balances (h := h) hr ihs hargs hfit (hr.of_hasConstructor hm)
        (fun i ↦ by rw [Nat.zero_add]) hv.2.2 hd.2.2
      exact hpassed.before (.put (e := ⟨d.params.length, 1⟩)
        (by simp [effect, callEffect, hm.live]) rfl rfl)

theorem fits_of_declares {r : Registry} {written : Option Ty} {initial ty : Ty}
    {c : Option Conversion} (hd : r.Declares written (some initial) ty c) :
    r.Fits initial ty c := by
  cases hd with
  | converted hfit => exact hfit
  | inferred _ => exact .inl rfl

include hr in
theorem declare_balances {n : Node} {x : String} {written : Option TypeExpr} {init : Option Expr}
    {k : Option (Option Conversion)} (ih : ∀ e ∈ init, ExprBalances Γ e) :
    ExprBalances Γ (.declare n x written init k) where
  typed ht := nomatch ht
  declared ht hv hd h := by
    cases ht with
    | @declare _ _ _ _ _ declared initial slot c hw hinit hdeclares hslot hn =>
      rw [Code.expr, Code.invoked, hn.2, Emit.require_some]
      cases hinit with
      | none => exact .nothing
      | some he =>
        have hconversion := conversion_balances (h := h) hr (fits_of_declares hdeclares)
        have hvalue : slot.ty.isValue := hv.here.storage _ hn.2 rfl
        rw [Ty.cells_of_ne_void (Ty.ne_void_of_isValue hvalue)] at hconversion
        exact (((ih _ rfl).typed he hv.2 hd.2 h).before hconversion).before
          (.put (h := h) (e := ⟨1, 0⟩) rfl rfl rfl)
  owned ho := nomatch ho
  assigned ht := nomatch ht

include hr in
theorem array_balances {n : Node} {written : Option TypeExpr} {items : List Expr}
    {cs : Option Conversions} (ih : ∀ e ∈ items, ExprBalances Γ e) :
    ExprBalances Γ (.array n written items cs) := by
  refine .of_typed (fun ht hv hd h ↦ ?_) nofun nofun rfl fun _ _ ↦ rfl
  cases ht with
  | @array _ _ _ _ declared types element cs hw hitems he hfit hn =>
    have hresult := hv.here.result _ hn.1
    have helement : element.isValue := by simpa using hresult
    have hstored := elements_balances (h := h) hr ih hitems hfit
      (fun ty hty ↦ List.eq_of_mem_replicate hty ▸ helement) (fun i ↦ by rw [Nat.zero_add])
      hv.2 hd.2
    rw [Code.expr, Code.invoked, hn.1, Emit.require_some, Ty.element?, Emit.require_some,
      Emit.require_some]
    exact (Balances.put (e := ⟨0, 1⟩) rfl rfl rfl).behind hstored

end Forms

end Tables

end Scriptlet
