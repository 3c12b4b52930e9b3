import Scriptlet.Proofs.Code.Forms

/-!
# The code of expressions is balanced

The code of a well typed expression leaves one cell on the stack, or none if its type is `void` or
it is a declaration; the code of a statement leaves the stack as it is. So it is along every path:
whichever branches are taken, nothing is taken from the stack that the code did not put there, and
paths that meet have put the same number of cells.
-/

namespace Scriptlet

namespace Tables

variable {Γ : Tables} {b : Body} {h : Nat}

/-! ## Statements -/

/-- A well typed expression takes as many cells as its code is said to leave. -/
theorem Typed.cells_eq {e : Expr} {ty : Ty} (ht : Γ.Typed b e ty) :
    ty.cells = if e.producesValue then 1 else 0 := by
  have hdeclare : ∀ n x t init k, e = .declare n x t init k → False := by
    rintro n x t init k rfl
    cases ht
  rw [Expr.producesValue.eq_2 e hdeclare, ht.node_ty, Option.any_some]
  by_cases hvoid : ty = .void
  · subst hvoid
    rfl
  · rw [Ty.cells_of_ne_void hvoid, if_pos (by simpa using hvoid)]

theorem exprStatement_balances {e : Expr} (ih : ExprBalances Γ e) :
    StatementBalances Γ (.expr e) where
  typed ht hv hd h := by
    cases ht with
    | expr he =>
      have hcode := ih.typed he hv.2 hd.2 h
      rw [he.cells_eq] at hcode
      refine hcode.before ?_
      split
      · exact .put (e := ⟨1, 0⟩) rfl rfl rfl
      · exact .nothing
  value e' he := by
    cases he
    exact ih

theorem cond_balances {l : Location} {x : Expr} {st : Statement} {alternative : Option Statement}
    (ihx : ExprBalances Γ x) (ih : StatementBalances Γ st)
    (ihs : ∀ st ∈ alternative, StatementBalances Γ st) :
    StatementBalances Γ (.cond l x st alternative) where
  typed ht hv hd h := by
    cases ht with
    | cond hx hst halt =>
      have hcond := ihx.typed hx hv.2.1 hd.2.1 h
      have hthen := ih.typed hst hv.2.2.1 hd.2.2.1 h
      cases alternative with
      | none => exact .either hcond hthen .nothing
      | some st' =>
        exact .either hcond hthen ((ihs st' rfl).typed (halt st' rfl) hv.2.2.2 hd.2.2.2 h)
  value := nofun

/-- What is returned is converted; nothing is asked of the height behind it. -/
theorem ret_balances (hr : Γ.registry.VoidOnlyReturned) {l : Location} {value : Option Expr}
    {k : Option (Option Conversion)} (ih : ∀ e ∈ value, ExprBalances Γ e) :
    StatementBalances Γ (.ret l value k) where
  typed ht hv hd h := by
    cases ht with
    | ret hvalue hc =>
      cases hvalue with
      | none => exact .behind .nothing .ret
      | some he =>
        exact (((ih _ rfl).typed he hv.2 hd.2 h).before (conversion_balances hr hc.1)).before .ret
  value := nofun

theorem throw_balances {l : Location} {value : Option Expr} (ih : ∀ e ∈ value, ExprBalances Γ e) :
    StatementBalances Γ (.throw l value) where
  typed ht hv hd h := by
    cases ht with
    | throw hvalue =>
      cases hvalue with
      | none => exact .behind (.put (e := ⟨0, 1⟩) rfl rfl rfl) (.throw (h := h))
      | some he =>
        have hcode := (ih _ rfl).typed he hv.2 hd.2 h
        rw [cells_of_node he (hd.1 _ List.mem_cons_self)] at hcode
        exact hcode.before .throw
  value := nofun

/-! ## The walk -/

/-- Well typed trees have balanced code, whatever the own type and the functions are, as long as
`void` is only returned. -/
theorem tree_balances (hr : Γ.registry.VoidOnlyReturned) (hthis : ∀ ty ∈ Γ.this, ty.isValue)
    (hfunctions : ∀ f ∈ Γ.functions, f.Valued) :
    Tree.Cases (ExprBalances Γ) (StatementBalances Γ) where
  literal n v := .of_typed (fun ht _ _ h ↦ by
    cases ht with
    | literal hn =>
      have hcells : v.ty.cells = 1 := by cases v <;> rfl
      exact hcells ▸ .put (e := ⟨0, 1⟩) rfl rfl rfl) nofun nofun rfl fun _ _ ↦ rfl
  null n := .of_typed (fun ht _ _ h ↦ by
    cases ht with
    | null hn => exact .put (e := ⟨0, 1⟩) rfl rfl rfl) nofun nofun rfl fun _ _ ↦ rfl
  this n := .of_typed (fun ht _ _ h ↦ by
    cases ht with
    | this hty hn =>
      rw [Ty.cells_of_ne_void (Ty.ne_void_of_isValue (hthis _ hty))]
      exact .put (e := ⟨0, 1⟩) rfl rfl rfl) nofun nofun rfl fun _ _ ↦ rfl
  empty n := .of_typed (fun ht ↦ nomatch ht) nofun nofun rfl fun _ _ ↦ rfl
  name n x := .of_typed (fun ht hv _ h ↦ by
    cases ht with
    | name hd hn => exact name_balances hd.live hn hv.here.storage)
    nofun nofun rfl fun _ _ ↦ rfl
  variableRef n x := .of_typed (fun ht hv _ h ↦ by
    cases ht with
    | variableRef hd hn => exact name_balances hd.live hn hv.here.storage)
    nofun nofun rfl fun _ _ ↦ rfl
  constantRef n x := .of_typed (fun ht hv _ h ↦ by
    cases ht with
    | constantRef _ hd hn => exact name_balances hd.live hn hv.here.storage)
    nofun nofun rfl fun _ _ ↦ rfl
  member n target x ih := member_balances hr ih
  unary n op e t ih := unary_balances hr ih
  binary n op x y t ihx ihy := binary_balances hr ihx ihy
  coalesce n x y ihx ihy := coalesce_balances ihx ihy
  ternary n x y z v ihx ihy ihz := ternary_balances hr ihx ihy ihz
  assign n target v k iht ihv := assign_balances hr iht ihv
  call n target args t ih ihs := call_balances hr hfunctions ih ihs
  new n target args t _ ihs := new_balances hr ihs
  index n target args t ih ihs := index_balances hr ih ihs
  declare n x written init k ih := declare_balances hr ih
  array n written items cs ih := array_balances hr ih
  lambda n params body _ := .of_typed (fun _ _ _ _ ↦ .fail) nofun nofun rfl fun _ _ ↦ rfl
  block n body ih := .of_typed (fun ht hv hd h ↦ by
    cases ht with
    | block hbody hn => exact blockValue_balances ih hbody hv.2 hd.2)
    nofun nofun rfl fun _ _ ↦ rfl
  exprStatement e ih := exprStatement_balances ih
  blockStatement l body ih :=
    { typed := fun ht hv hd h ↦ by
        cases ht with
        | block hbody => exact statements_balances ih hbody hv.2 hd.2
      value := nofun }
  cond l x st alternative ihx ih ihs := cond_balances ihx ih ihs
  ret l value k ih := ret_balances hr ih
  throw l value ih := throw_balances ih
  vars l declarations ih :=
    { typed := fun ht hv hd h ↦ by
        cases ht with
        | vars hdeclarations => exact exprs_balances ih hdeclarations hv.2 hd.2
      value := nofun }
  function l signature body _ := { typed := fun _ _ _ _ ↦ .nothing, value := nofun }

/-! ## Expressions that are no values

There is no code of a name or an access that stays unbound, or of one that is the name of a type. -/

section NoCode

variable {rets : List Ty} {out : Nat} {e : Expr}

theorem bareName_balances {x : String} (hx : e.IsBareName x) :
    Γ.Balances rets (Code.expr Γ.registry e) h out := by
  induction hx with
  | name hn =>
    rw [Code.expr, hn.2]
    exact .fail
  | group hn _ ih => exact ih

theorem bareChain_balances (he : e.IsBareChain) :
    Γ.Balances rets (Code.expr Γ.registry e) h out := by
  cases he with
  | name hn =>
    rw [Code.expr, hn.2]
    exact .fail
  | member hn _ =>
    rw [Code.expr, hn.2]
    exact .fail

theorem owner_balances {x : String} {owner : Ty} {isType : Bool}
    (ho : Γ.TypedOwner b e x owner isType) : Γ.Balances rets (Code.expr Γ.registry e) h out := by
  fun_induction Expr.ungrouped e with
  | case1 n e t ih =>
    cases ho with
    | group hn he => exact ih he
  | case2 e hne =>
    cases ho with
    | group hn he => exact absurd rfl (hne _ _ _)
    | member hn ht =>
      rw [Code.expr, hn.2]
      exact .fail

theorem namesType_balances {ty : Ty} (hty : Γ.registry.NamesType ty e) :
    Γ.Balances rets (Code.expr Γ.registry e) h out := by
  cases hty with
  | name _ hn =>
    rw [Code.expr, hn.2]
    exact .behind .nothing .fail
  | member _ _ _ hn =>
    rw [Code.expr, hn.2]
    exact .behind .nothing .fail

end NoCode

/-- Whatever fits its role has balanced code, if it has any. -/
theorem Fits.balances (hr : Γ.registry.VoidOnlyReturned) (hthis : ∀ ty ∈ Γ.this, ty.isValue)
    (hfunctions : ∀ f ∈ Γ.functions, f.Valued) {q : Role × Expr} (hq : Γ.Fits q)
    (hv : q.2.AllValued) (hd : q.2.AllDemand) :
    Γ.Balances (Code.invoked Γ.registry q.2) (Code.expr Γ.registry q.2) h
      (h + if q.2.producesValue then 1 else 0) := by
  have hbalances := (tree_balances hr hthis hfunctions).expr q.2
  cases hq with
  | value ht => exact ht.cells_eq ▸ hbalances.typed ht hv hd h
  | declaration ht =>
    have hcode := hbalances.declared ht hv hd h
    cases ht with
    | declare => exact hcode
  | typeName hty => exact namesType_balances hty
  | bareName hx => exact bareName_balances hx
  | owned ho => exact owner_balances ho
  | bareChain he => exact bareChain_balances he

end Tables

/-! ## Bound programs -/

/-- The code of every expression of a bound program is balanced, provided that `void` is mentioned
by the registry only as what methods and function values return, never by operators, that the own
type is one of values, that the program writes `void` only as the return type of functions, and that
nothing of type `void` is an operand of `??`, an item of an array or thrown. Whatever depth the code
starts at, no path goes below it, and every path that is at the end has left one cell if the
expression is no declaration and its type is not `void`, and none otherwise. -/
theorem stackBalanced_of_bindProgram (c : BindContext) {source : String} {p : Program} {ty : Ty}
    (hr : c.registry.VoidOnlyReturned) (hthis : ∀ ty ∈ c.this, ty.isValue)
    (hparse : parseProgram source = .ok p) (hvoid : c.VoidOnlyReturned p)
    (hbind : (bindProgram c p).answer = .ok ty)
    (hdemand : statementsEverywhere Expr.DemandsValues Statement.DemandsValues
      (bindProgram c p).tree) :
    ∀ q ∈ statementsRoles (bindProgram c p).tree, ∀ n,
      (Code.expr c.registry q.2 n).failure = none →
      ∃ effects, ((bindProgram c p).state.tables c).Effects (Code.expr c.registry q.2 n).code
          (Code.invoked c.registry q.2) effects ∧
        StackBalanced (Code.expr c.registry q.2 n).code effects
          (if q.2.producesValue then 1 else 0) := by
  intro q hq n hemitted
  have hwritten := written_of_parseProgram hparse
  have hgives := BindContext.gives_bindProgram hbind
  obtain ⟨htyped, -⟩ := BindContext.typedProgram_of_gives hwritten hgives
  obtain ⟨hs, hvalued⟩ := BindContext.valued_of_gives hr hthis hwritten hvoid hgives hdemand
  have hbalances := (htyped.fits q hq).balances (h := 0) hr hthis hs.functions
    (everywhere_of_mem_roles hvalued q hq) (everywhere_of_mem_roles hdemand q hq)
  rw [Nat.zero_add] at hbalances
  exact (hbalances _ _ _ (Emit.gives_of_failure hemitted)).stackBalanced

/-- A program that skips code, converts one branch, increments in place and stores an element. -/
theorem stackBalanced_of_bindProgram_branches :
    ∃ p, parseProgram ("function f(x: double): double => x; n = 1; a = [1.5, 2.5]; " ++
        "a[0] = n < 2 && true ? f(n++) : 2; a[1] ?? n") = .ok p ∧
      (∃ q ∈ statementsRoles (bindProgram ⟨.primitive, none⟩ p).tree,
        q.2.producesValue ∧ (Code.expr .primitive q.2 0).failure = none) ∧
      ∀ q ∈ statementsRoles (bindProgram ⟨.primitive, none⟩ p).tree, ∀ n,
        (Code.expr .primitive q.2 n).failure = none →
        ∃ effects, ((bindProgram ⟨.primitive, none⟩ p).state.tables ⟨.primitive, none⟩).Effects
            (Code.expr .primitive q.2 n).code (Code.invoked .primitive q.2) effects ∧
          StackBalanced (Code.expr .primitive q.2 n).code effects
            (if q.2.producesValue then 1 else 0) := by
  have hrun : (parseProgram ("function f(x: double): double => x; n = 1; a = [1.5, 2.5]; " ++
      "a[0] = n < 2 && true ? f(n++) : 2; a[1] ?? n")).toOption.any (fun p ↦
        (bindProgram ⟨.primitive, none⟩ p).answer.toOption == some .double &&
        decide (BindContext.VoidOnlyReturned ⟨.primitive, none⟩ p) &&
        decide (statementsEverywhere Expr.DemandsValues Statement.DemandsValues
          (bindProgram ⟨.primitive, none⟩ p).tree) &&
        (statementsRoles (bindProgram ⟨.primitive, none⟩ p).tree).any (fun q ↦
          q.2.producesValue && (Code.expr .primitive q.2 0).failure.isNone)) = true := by
    decide +kernel
  obtain ⟨p, hp, hrun⟩ := (Option.any_eq_true _ _).mp hrun
  simp only [Bool.and_eq_true, beq_iff_eq, decide_eq_true_eq, List.any_eq_true,
    Option.isNone_iff_eq_none] at hrun
  obtain ⟨⟨⟨hty, hvoid⟩, hdemand⟩, hvalue⟩ := hrun
  have hparse := ok_of_toOption hp
  have hr : Registry.primitive.VoidOnlyReturned := by decide +kernel
  exact ⟨p, hparse, hvalue, stackBalanced_of_bindProgram ⟨.primitive, none⟩ hr nofun hparse hvoid
    (ok_of_toOption hty) hdemand⟩

/-- An own type of values is asked for because elements count as values whatever their type: where
the own type is `void[]`, the code of `this[0]` leaves the element although its type is `void`. -/
theorem not_stackBalanced_of_void_elements :
    ∃ p, parseProgram "this[0]; 1" = .ok p ∧ Ty.array .void ≠ .void ∧
      Registry.primitive.VoidOnlyReturned ∧
      BindContext.VoidOnlyReturned ⟨.primitive, some (.array .void)⟩ p ∧
      (bindProgram ⟨.primitive, some (.array .void)⟩ p).answer = .ok .int ∧
      statementsEverywhere Expr.DemandsValues Statement.DemandsValues
        (bindProgram ⟨.primitive, some (.array .void)⟩ p).tree ∧
      ∃ q ∈ statementsRoles (bindProgram ⟨.primitive, some (.array .void)⟩ p).tree,
        q.2.node.ty = some .void ∧ (Code.expr .primitive q.2 0).failure = none ∧
        (Code.expr .primitive q.2 0).code = [.loadThis, .loadConstant (.int 0), .loadElement] ∧
        ¬ ∃ effects, ((bindProgram ⟨.primitive, some (.array .void)⟩ p).state.tables
              ⟨.primitive, some (.array .void)⟩).Effects
            (Code.expr .primitive q.2 0).code (Code.invoked .primitive q.2) effects ∧
          StackBalanced (Code.expr .primitive q.2 0).code effects
            (if q.2.producesValue then 1 else 0) := by
  have hrun : (parseProgram "this[0]; 1").toOption.any (fun p ↦
      (bindProgram ⟨.primitive, some (.array .void)⟩ p).answer.toOption == some .int &&
      decide (BindContext.VoidOnlyReturned ⟨.primitive, some (.array .void)⟩ p) &&
      decide (statementsEverywhere Expr.DemandsValues Statement.DemandsValues
        (bindProgram ⟨.primitive, some (.array .void)⟩ p).tree) &&
      (statementsRoles (bindProgram ⟨.primitive, some (.array .void)⟩ p).tree).any (fun q ↦
        q.2.node.ty == some .void && (Code.expr .primitive q.2 0).failure.isNone &&
        (Code.expr .primitive q.2 0).code == [.loadThis, .loadConstant (.int 0), .loadElement] &&
        (Code.invoked .primitive q.2).isEmpty && !q.2.producesValue)) = true := by
    decide +kernel
  obtain ⟨p, hp, hrun⟩ := (Option.any_eq_true _ _).mp hrun
  simp only [Bool.and_eq_true, beq_iff_eq, decide_eq_true_eq, List.any_eq_true,
    Option.isNone_iff_eq_none, List.isEmpty_iff, Bool.not_eq_true'] at hrun
  obtain ⟨⟨⟨hty, hvoid⟩, hdemand⟩, q, hq, ⟨⟨⟨hvoidq, hemitted⟩, hcode⟩, hinvoked⟩, hnone⟩ := hrun
  refine ⟨p, ok_of_toOption hp, nofun, by decide +kernel, hvoid, ok_of_toOption hty, hdemand, q, hq,
    hvoidq, hemitted, hcode, ?_⟩
  rintro ⟨effects, heffects, hbalanced⟩
  rw [hcode, hinvoked] at heffects
  rw [hcode, hnone] at hbalanced
  obtain rfl := heffects.unique (.plain rfl (.plain rfl (.plain rfl .nil)))
  -- the three instructions leave one cell, and none is to be left
  have hdepth := hbalanced.arrives (d := 0) (.tail (.tail (.single (.next rfl rfl rfl))
    (.next rfl rfl rfl)) (.next rfl rfl rfl))
  exact absurd hdepth (by decide)

end Scriptlet
