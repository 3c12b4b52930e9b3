import Scriptlet.Proofs.Environment.Values
import Scriptlet.Proofs.Eval.Action
import Scriptlet.Proofs.Tree.Everywhere
import Scriptlet.Proofs.Value.Ordinary

/-!
# What holds of all that a tree does

The actions of a tree are of few kinds: it reads and writes names, defines the functions that it
says, makes calls that it does not go on from when they fail, opens blocks, and fails for reasons of
its own, which are never that calls nest too deep. A property that goes through each of these from
what comes next therefore holds of all that a tree does. This is one induction on trees for all such
properties: that errors are passed on is one, and which functions are defined is another.

Where the property is about values, these have a property of their own. The values in a tree have
it, the ones that the tree reads have it, and whatever operators, conversions and methods make of
such values has it again.
-/

namespace Scriptlet

/-- The name, the parameters and the body are those of a definition with the property. -/
def DefinedBy (D : Definition → Prop) (name : String) (params : List String)
    (body : List Statement) : Prop :=
  ∃ d, D d ∧ d.head.name = name ∧ d.head.params.map Param.name = params ∧ d.body = body

/-- The value of a literal has the property. -/
def Expr.LiteralIs (V : Value → Prop) : Expr → Prop
  | .literal _ v => V v.value
  | _ => True

/-- The values of all literals in the expression have the property. -/
abbrev Expr.LiteralsAre (V : Value → Prop) (e : Expr) : Prop :=
  e.Everywhere (Expr.LiteralIs V) fun _ ↦ True

/-- The values of all literals in the statement have the property. -/
abbrev Statement.LiteralsAre (V : Value → Prop) (st : Statement) : Prop :=
  st.Everywhere (Expr.LiteralIs V) fun _ ↦ True

/-- The values of all literals in the statements have the property. -/
abbrev LiteralsAre (V : Value → Prop) (sts : List Statement) : Prop :=
  statementsEverywhere (Expr.LiteralIs V) (fun _ ↦ True) sts

/-- What a tree makes of values with the property has it, too. -/
structure ValueProperty (V : Value → Prop) : Prop where
  bool : ∀ b, V (.bool b)
  zero : ∀ k : Kind, V k.zero
  unary : ∀ {op v w l}, V v → v.unary op l = .ok w → V w
  binary : ∀ {op v w x l}, V v → V w → v.binary op w l = .ok x → V x
  convertTo : ∀ {v w k}, V v → v.convertTo k = some w → V w
  element : ∀ {v w i l}, V v → v.element i l = .ok w → V w
  setElement : ∀ {v w x i l}, V v → V x → v.setElement i x l = .ok w → V w
  member : ∀ {v w x l}, V v → v.member x l = .ok w → V w
  method : ∀ {v w x vs l}, V v → (∀ w ∈ vs, V w) → v.method x vs l = .ok w → V w
  array : ∀ {vs}, (∀ v ∈ vs, V v) → V (.array vs)

theorem ValueProperty.null {V : Value → Prop} (hV : ValueProperty V) : V .null := hV.zero .null

/-- What is read as null where there is nothing. -/
theorem ValueProperty.getD {V : Value → Prop} (hV : ValueProperty V) {o : Option Value}
    (ho : ∀ v, o = some v → V v) : V (o.getD .null) := by
  cases o with
  | none => exact hV.null
  | some v => exact ho v rfl

/-- The property goes through whatever is done by a tree whose definitions are as `D` says, with
values as `V` says. -/
structure TreeProperty (D : Definition → Prop) (V : Value → Prop) (Q : Action → Prop) : Prop where
  values : ValueProperty V
  finish : ∀ flow : Flow, V flow.value → Q (.finish flow)
  fail : ∀ e : EvalError, e.Ordinary → Q (.fail e)
  look : ∀ next, (∀ env : Environment, env.Values V → Q (next env)) → Q (.look next)
  define : ∀ x v next, V v → Q next → Q (.define x v next)
  assign : ∀ x v next, V v → Q next → Q (.assign x v next)
  setConstant : ∀ x v l next, V v → Q next → Q (.setConstant x v l next)
  defineFunction : ∀ x params body next, DefinedBy D x params body → Q next →
    Q (.defineFunction x params body next)
  call : ∀ f vs l next, (∀ v ∈ vs, V v) → (∀ v, V v → Q (next v)) →
    Q (.call f vs l fun r ↦ .attempt r next)
  block : ∀ body next, Q body → (∀ flow : Flow, V flow.value → Q (next flow)) → Q (.block body next)

/-- Whatever the course does has the property if what comes after it has, for all that the course
brings. -/
def Course.Has {α : Type} (Q : Action → Prop) (P : α → Prop) (a : Course α) : Prop :=
  ∀ next, (∀ x, P x → Q (next x)) → Q (a next)

namespace Action

variable {α : Type} {D : Definition → Prop} {V : Value → Prop} {Q : Action → Prop}

variable (V Q) in
/-- What the expression does has the property, as a value, as the target of a write and in front of
arguments. -/
structure ExprHas (e : Expr) : Prop where
  value : Course.Has Q V (expr e)
  target : ∀ v l next, V v → Q next → Q (write e v l next)
  called : ∀ args l, Course.Has Q (fun vs ↦ ∀ v ∈ vs, V v) args → Course.Has Q V (called e args l)

variable (V Q) in
/-- What the statement does has the property. -/
def StatementHas (st : Statement) : Prop := Course.Has Q (fun flow ↦ V flow.value) (statement st)

/-! ## Lists and options -/

theorem has_exprs {es : List Expr} (hes : ∀ e ∈ es, ExprHas V Q e) :
    Course.Has Q (fun vs ↦ ∀ v ∈ vs, V v) (exprs es) := by
  induction es with
  | nil => exact fun next hnext ↦ hnext [] fun _ h ↦ absurd h List.not_mem_nil
  | cons e es ih =>
    obtain ⟨he, hes⟩ := List.forall_mem_cons.mp hes
    exact fun next hnext ↦ he.value _ fun v hv ↦ ih hes _ fun vs hvs ↦
      hnext (v :: vs) (List.forall_mem_cons.mpr ⟨hv, hvs⟩)

theorem has_lastOf {last : Value} {es : List Expr} (hlast : V last)
    (hes : ∀ e ∈ es, ExprHas V Q e) :
    Course.Has Q V (lastOf last es) := by
  induction es generalizing last with
  | nil => exact fun next hnext ↦ hnext last hlast
  | cons e es ih =>
    obtain ⟨he, hes⟩ := List.forall_mem_cons.mp hes
    exact fun next hnext ↦ he.value _ fun v hv ↦ ih hv hes next hnext

theorem has_optionalExpr {o : Option Expr} (hnull : V .null) (ho : ∀ e ∈ o, ExprHas V Q e) :
    Course.Has Q V (optionalExpr o) := by
  cases o with
  | none => exact fun next hnext ↦ hnext .null hnull
  | some e => exact (ho e rfl).value

theorem has_statements {last : Value} {sts : List Statement} (hlast : V last)
    (hsts : ∀ st ∈ sts, StatementHas V Q st) :
    Course.Has Q (fun flow ↦ V flow.value) (statements last sts) := by
  induction sts generalizing last with
  | nil => exact fun next hnext ↦ hnext (.normal last) hlast
  | cons st sts ih =>
    obtain ⟨hst, hsts⟩ := List.forall_mem_cons.mp hsts
    intro next hnext
    refine hst _ fun flow hflow ↦ ?_
    cases flow with
    | normal v => exact ih hflow hsts next hnext
    | returning v => exact hnext (.returning v) hflow

theorem has_optionalStatement {o : Option Statement} (hnull : V .null)
    (ho : ∀ st ∈ o, StatementHas V Q st) :
    Course.Has Q (fun flow ↦ V flow.value) (optionalStatement o) := by
  cases o with
  | none => exact fun next hnext ↦ hnext (.normal .null) hnull
  | some st => exact ho st rfl

theorem has_cond {l : Location} {x : Expr} {st : Statement} {alternative : Option Statement}
    (hnull : V .null) (ihx : ExprHas V Q x) (ih : StatementHas V Q st)
    (ihs : ∀ st ∈ alternative, StatementHas V Q st) :
    StatementHas V Q (.cond l x st alternative) := by
  refine fun next hnext ↦ ihx.value _ fun v _ ↦ ?_
  split
  · exact ih next hnext
  · exact has_optionalStatement hnull ihs next hnext

/-! ## Forms -/

variable (hQ : TreeProperty D V Q)
include hQ

theorem has_attempt {r : Except EvalError α} {P : α → Prop} (hr : Ordinary r)
    (hP : ∀ x, r = .ok x → P x) : Course.Has Q P (attempt r) := by
  intro next hnext
  cases r with
  | ok a => exact hnext a (hP a rfl)
  | error e => exact hQ.fail e (hr e rfl)

theorem has_fit (kind : Option Kind) {v : Value} (hv : V v) (op : String) (l : Location) :
    Course.Has Q V (fit kind v op l) := by
  intro next hnext
  cases kind with
  | none => exact hnext v hv
  | some k =>
    simp only [fit]
    by_cases hnull : v.isNull
    · rw [if_pos hnull]
      exact hnext v hv
    · rw [if_neg hnull]
      cases hw : v.convertTo k with
      | some w => exact hnext w (hQ.values.convertTo hv hw)
      | none => exact hQ.fail _ (by rintro k l ⟨⟩)

theorem has_items {kind : Option Kind} {es : List Expr} (hes : ∀ e ∈ es, ExprHas V Q e) :
    Course.Has Q (fun vs ↦ ∀ v ∈ vs, V v) (items kind es) := by
  induction es with
  | nil => exact fun next hnext ↦ hnext [] fun _ h ↦ absurd h List.not_mem_nil
  | cons e es ih =>
    obtain ⟨he, hes⟩ := List.forall_mem_cons.mp hes
    exact fun next hnext ↦ he.value _ fun v hv ↦ has_fit hQ _ hv _ _ _ fun w hw ↦
      ih hes _ fun ws hws ↦ hnext (w :: ws) (List.forall_mem_cons.mpr ⟨hw, hws⟩)

theorem has_initial {kind : Option Kind} {l : Location} {o : Option Expr}
    (ho : ∀ e ∈ o, ExprHas V Q e) : Course.Has Q V (initial kind l o) := by
  cases o with
  | none =>
    refine fun next hnext ↦ hnext _ ?_
    cases kind with
    | none => exact hQ.values.null
    | some k => exact hQ.values.zero k
  | some e => exact fun next hnext ↦ (ho e rfl).value _ fun v hv ↦ has_fit hQ _ hv _ _ _ hnext

theorem has_indexArg {es : List Expr} (l : Location) (hes : ∀ e ∈ es, ExprHas V Q e) :
    Course.Has Q (fun _ ↦ True) (indexArg es l) := by
  match es, hes with
  | [], _ => exact fun _ _ ↦ hQ.fail _ nofun
  | [e], hes =>
    exact fun next hnext ↦ (hes e List.mem_cons_self).value _ fun v _ ↦
      has_attempt hQ (Value.ordinary_intArg _ v l) (fun _ _ ↦ trivial) _ hnext
  | _ :: _ :: _, _ => exact fun _ _ ↦ hQ.fail _ nofun

theorem has_block {body : List Statement} (hbody : ∀ st ∈ body, StatementHas V Q st) :
    Course.Has Q (fun flow ↦ V flow.value) fun next ↦ .block (statements .null body finish) next :=
  fun _ hnext ↦ hQ.block _ _ (has_statements hQ.values.null hbody finish hQ.finish) hnext

/-- A form that can neither be written nor called. -/
theorem ExprHas.of_value {e : Expr} (value : Course.Has Q V (expr e))
    (target : ∀ v l next, write e v l next = fail (.invalidTarget l))
    (called : ∀ args l next, Action.called e args l next = fail (.notImplemented .computedCall l)) :
    ExprHas V Q e where
  value := value
  target v l next _ _ := by
    rw [target]
    exact hQ.fail _ nofun
  called args l _ next _ := by
    rw [called]
    exact hQ.fail _ nofun

theorem has_name (n : Node) (x : String) : ExprHas V Q (.name n x) where
  value next hnext := by
    refine hQ.look _ fun env henv ↦ ?_
    split
    · rename_i v hv
      refine hnext v ?_
      rcases Option.or_eq_some_iff.mp ((Option.orElse_eq_or ..).symm.trans hv) with hv | ⟨-, hv⟩
      · exact henv.of_valueOf? hv
      · exact henv.of_constant? hv
    · exact hQ.fail _ nofun
  target v l next hv hnext := by
    refine hQ.look _ fun env _ ↦ ?_
    split
    · exact hQ.setConstant _ _ _ _ hv hnext
    · exact hQ.assign _ _ _ hv hnext
  called args l hargs next hnext := hargs _ fun vs hvs ↦ hQ.call _ _ _ _ hvs hnext

theorem has_unary {n : Node} {op : UnaryOp} {e : Expr} {t : Option OperatorTarget}
    (ih : ExprHas V Q e) : ExprHas V Q (.unary n op e t) where
  value next hnext := by
    refine ih.value _ fun v hv ↦ has_attempt hQ (Value.ordinary_unary op v _)
      (fun _ ↦ hQ.values.unary hv) _ fun w hw ↦ ?_
    split
    · refine ih.target _ _ _ hw (hnext _ ?_)
      split
      · exact hv
      · exact hw
    · exact hnext w hw
  target v l next hv hnext := by
    cases op with
    | group => exact ih.target v l next hv hnext
    | _ => exact hQ.fail _ nofun
  called args l hargs next hnext := by
    cases op with
    | group => exact ih.called args l hargs next hnext
    | _ => exact hQ.fail _ nofun

theorem has_binary {n : Node} {op : BinaryOp} {a b : Expr} {t : Option OperatorTarget}
    (iha : ExprHas V Q a) (ihb : ExprHas V Q b) : ExprHas V Q (.binary n op a b t) := by
  refine .of_value hQ (fun next hnext ↦ iha.value _ fun v hv ↦ ?_) (fun _ _ _ ↦ rfl) fun _ _ _ ↦ rfl
  split
  · exact hnext _ (hQ.values.bool false)
  · split
    · exact hnext _ (hQ.values.bool true)
    · exact ihb.value _ fun w hw ↦ has_attempt hQ (Value.ordinary_binary op v w _)
        (fun _ ↦ hQ.values.binary hv hw) _ hnext

theorem has_coalesce {n : Node} {a b : Expr} (iha : ExprHas V Q a) (ihb : ExprHas V Q b) :
    ExprHas V Q (.coalesce n a b) := by
  refine .of_value hQ (fun next hnext ↦ iha.value _ fun v hv ↦ ?_) (fun _ _ _ ↦ rfl) fun _ _ _ ↦ rfl
  split
  · refine ihb.value _ fun w hw ↦ ?_
    split
    · exact iha.target _ _ _ hw (hnext w hw)
    · exact hnext w hw
  · exact hnext v hv

theorem has_ternary {n : Node} {x a b : Expr} {v : Option BranchConversion} (ihx : ExprHas V Q x)
    (iha : ExprHas V Q a) (ihb : ExprHas V Q b) : ExprHas V Q (.ternary n x a b v) := by
  refine .of_value hQ (fun next hnext ↦ ihx.value _ fun v _ ↦ ?_) (fun _ _ _ ↦ rfl) fun _ _ _ ↦ rfl
  split
  · exact iha.value next hnext
  · exact ihb.value next hnext

theorem has_index {n : Node} {target : Expr} {args : List Expr} {t : Option CallTarget}
    (ih : ExprHas V Q target) (ihs : ∀ e ∈ args, ExprHas V Q e) :
    ExprHas V Q (.index n target args t) where
  value _ hnext := ih.value _ fun v hv ↦ has_indexArg hQ _ ihs _ fun i _ ↦
    has_attempt hQ (Value.ordinary_element v i _) (fun _ ↦ hQ.values.element hv) _ hnext
  target v l next hv hnext := ih.value _ fun container hcontainer ↦
    has_indexArg hQ l ihs _ fun i _ ↦
    has_attempt hQ (Value.ordinary_setElement container i v l)
      (fun _ ↦ hQ.values.setElement hcontainer hv) _ fun updated hupdated ↦
        ih.target updated l next hupdated hnext
  called _ _ _ _ _ := hQ.fail _ nofun

theorem has_member {n : Node} {target : Expr} {x : String} (ih : ExprHas V Q target) :
    ExprHas V Q (.member n target x) where
  value _ hnext := ih.value _ fun v hv ↦
    has_attempt hQ (Value.ordinary_member v x _) (fun _ ↦ hQ.values.member hv) _ hnext
  target _ _ _ _ _ := hQ.fail _ nofun
  called _ l hargs _ hnext := ih.value _ fun v hv ↦ hargs _ fun vs hvs ↦
    has_attempt hQ (Value.ordinary_method v x vs l) (fun _ ↦ hQ.values.method hv hvs) _ hnext

omit hQ

/-! ## Trees with their definitions and literals -/

variable (D V Q) in
/-- The expression has the property if the definitions in it are as `D` says and the values of its
literals as `V` says. -/
def ExprHasOwn (e : Expr) : Prop :=
  (∀ d ∈ e.definitions, D d) → e.LiteralsAre V → ExprHas V Q e

variable (D V Q) in
/-- The same for a statement. -/
def StatementHasOwn (st : Statement) : Prop :=
  (∀ d ∈ st.definitions, D d) → st.LiteralsAre V → StatementHas V Q st

theorem exprs_haveOwn {es : List Expr} (hes : ∀ e ∈ es, ExprHasOwn D V Q e)
    (h : ∀ d ∈ exprsDefinitions es, D d)
    (hl : exprsEverywhere (Expr.LiteralIs V) (fun _ ↦ True) es) : ∀ e ∈ es, ExprHas V Q e := by
  induction es with
  | nil => exact fun e he ↦ absurd he List.not_mem_nil
  | cons e es ih =>
    obtain ⟨he, hes⟩ := List.forall_mem_cons.mp hes
    obtain ⟨hd, hds⟩ := List.forall_mem_append.mp h
    exact List.forall_mem_cons.mpr ⟨he hd hl.1, ih hes hds hl.2⟩

theorem option_hasOwn {o : Option Expr} (ho : ∀ e ∈ o, ExprHasOwn D V Q e)
    (h : ∀ d ∈ optionDefinitions o, D d)
    (hl : optionEverywhere (Expr.LiteralIs V) (fun _ ↦ True) o) : ∀ e ∈ o, ExprHas V Q e := by
  rintro e ⟨⟩
  exact ho e rfl h hl

theorem statements_haveOwn {sts : List Statement} (hsts : ∀ st ∈ sts, StatementHasOwn D V Q st)
    (h : ∀ d ∈ statementsDefinitions sts, D d)
    (hl : LiteralsAre V sts) :
    ∀ st ∈ sts, StatementHas V Q st := by
  induction sts with
  | nil => exact fun st hst ↦ absurd hst List.not_mem_nil
  | cons st sts ih =>
    obtain ⟨hst, hsts⟩ := List.forall_mem_cons.mp hsts
    obtain ⟨hd, hds⟩ := List.forall_mem_append.mp h
    exact List.forall_mem_cons.mpr ⟨hst hd hl.1, ih hsts hds hl.2⟩

theorem alternative_hasOwn {o : Option Statement} (ho : ∀ st ∈ o, StatementHasOwn D V Q st)
    (h : ∀ d ∈ alternativeDefinitions o, D d)
    (hl : alternativeEverywhere (Expr.LiteralIs V) (fun _ ↦ True) o) :
    ∀ st ∈ o, StatementHas V Q st := by
  rintro st ⟨⟩
  exact ho st rfl h hl

include hQ

/-- Every form has the property if its parts have it and what it has of itself is as `D` and `V`
say. -/
theorem tree_hasOwn : Tree.Cases (ExprHasOwn D V Q) (StatementHasOwn D V Q) where
  literal n v _ hl := .of_value hQ (fun _ hnext ↦ hnext _ hl) (fun _ _ _ ↦ rfl) fun _ _ _ ↦ rfl
  null n _ _ :=
    .of_value hQ (fun _ hnext ↦ hnext _ hQ.values.null) (fun _ _ _ ↦ rfl) fun _ _ _ ↦ rfl
  empty n _ _ :=
    .of_value hQ (fun _ hnext ↦ hnext _ hQ.values.null) (fun _ _ _ ↦ rfl) fun _ _ _ ↦ rfl
  this n _ _ := .of_value hQ (fun _ _ ↦ hQ.fail _ nofun) (fun _ _ _ ↦ rfl) fun _ _ _ ↦ rfl
  lambda n params body _ _ _ :=
    .of_value hQ (fun _ _ ↦ hQ.fail _ nofun) (fun _ _ _ ↦ rfl) fun _ _ _ ↦ rfl
  new n target args t _ _ _ _ :=
    .of_value hQ (fun _ _ ↦ hQ.fail _ nofun) (fun _ _ _ ↦ rfl) fun _ _ _ ↦ rfl
  name n x _ _ := has_name hQ n x
  variableRef n x _ _ := ⟨fun _ hnext ↦ hQ.look _ fun env henv ↦
      hnext _ (hQ.values.getD fun _ ↦ henv.of_valueOf?),
    fun _ _ _ hv hnext ↦ hQ.assign _ _ _ hv hnext, fun _ _ _ _ _ ↦ hQ.fail _ nofun⟩
  constantRef n x _ _ := ⟨fun _ hnext ↦ hQ.look _ fun env henv ↦
      hnext _ (hQ.values.getD fun _ ↦ henv.of_constant?),
    fun _ _ _ hv hnext ↦ hQ.setConstant _ _ _ _ hv hnext, fun _ _ _ _ _ ↦ hQ.fail _ nofun⟩
  unary n op e t ih h hl := has_unary hQ (ih h hl.2)
  binary n op a b t iha ihb h hl := by
    obtain ⟨ha, hb⟩ := List.forall_mem_append.mp h
    exact has_binary hQ (iha ha hl.2.1) (ihb hb hl.2.2)
  coalesce n a b iha ihb h hl := by
    obtain ⟨ha, hb⟩ := List.forall_mem_append.mp h
    exact has_coalesce hQ (iha ha hl.2.1) (ihb hb hl.2.2)
  ternary n x a b v ihx iha ihb h hl := by
    obtain ⟨hxa, hb⟩ := List.forall_mem_append.mp h
    obtain ⟨hx, ha⟩ := List.forall_mem_append.mp hxa
    obtain ⟨-, hlx, hla, hlb⟩ := hl
    exact has_ternary hQ (ihx hx hlx) (iha ha hla) (ihb hb hlb)
  assign n target v k iht ihv h hl := by
    obtain ⟨hv, ht⟩ := List.forall_mem_append.mp h
    obtain ⟨-, hlt, hlv⟩ := hl
    exact .of_value hQ (fun _ hnext ↦ (ihv hv hlv).value _ fun v hv ↦
      (iht ht hlt).target v _ _ hv (hnext v hv)) (fun _ _ _ ↦ rfl) fun _ _ _ ↦ rfl
  call n target args t ih ihs h hl := by
    obtain ⟨hargs, ht⟩ := List.forall_mem_append.mp h
    obtain ⟨-, hlt, hlargs⟩ := hl
    exact .of_value hQ ((ih ht hlt).called _ _ (has_exprs (exprs_haveOwn ihs hargs hlargs)))
      (fun _ _ _ ↦ rfl) fun _ _ _ ↦ rfl
  index n target args t ih ihs h hl := by
    obtain ⟨ht, hargs⟩ := List.forall_mem_append.mp h
    obtain ⟨-, hlt, hlargs⟩ := hl
    exact has_index hQ (ih ht hlt) (exprs_haveOwn ihs hargs hlargs)
  member n target x ih h hl := has_member hQ (ih h hl.2)
  declare n x ty init k ih h hl :=
    .of_value hQ (fun _ hnext ↦ has_initial hQ (option_hasOwn ih h hl.2) _ fun v hv ↦
      hQ.define _ _ _ hv (hnext v hv)) (fun _ _ _ ↦ rfl) fun _ _ _ ↦ rfl
  array n ty items cs ih h hl :=
    .of_value hQ (fun _ hnext ↦ has_items hQ (exprs_haveOwn ih h hl.2) _ fun vs hvs ↦
      hnext _ (hQ.values.array hvs)) (fun _ _ _ ↦ rfl) fun _ _ _ ↦ rfl
  block n body ih h hl :=
    .of_value hQ (fun _ hnext ↦ has_block hQ (statements_haveOwn ih h hl.2) _ fun flow hflow ↦
      hnext _ hflow) (fun _ _ _ ↦ rfl) fun _ _ _ ↦ rfl
  exprStatement e ih h hl := fun _ hnext ↦ (ih h hl.2).value _ fun v hv ↦ hnext _ hv
  blockStatement l body ih h hl := has_block hQ (statements_haveOwn ih h hl.2)
  cond l x a b ihx iha ihb h hl := by
    obtain ⟨hxa, hb⟩ := List.forall_mem_append.mp h
    obtain ⟨hx, ha⟩ := List.forall_mem_append.mp hxa
    obtain ⟨-, hlx, hla, hlb⟩ := hl
    exact has_cond hQ.values.null (ihx hx hlx) (iha ha hla) (alternative_hasOwn ihb hb hlb)
  ret l value k ih h hl := fun _ hnext ↦
    has_optionalExpr hQ.values.null (option_hasOwn ih h hl.2) _ fun v hv ↦ hnext _ hv
  throw l value ih h hl := fun _ _ ↦
    has_optionalExpr hQ.values.null (option_hasOwn ih h hl.2) _
      fun v _ ↦ hQ.fail (.thrown v l) nofun
  vars l declarations ih h hl := fun _ hnext ↦
    has_lastOf hQ.values.null (exprs_haveOwn ih h hl.2) _ fun v hv ↦ hnext _ hv
  function l signature body _ h _ := fun _ hnext ↦ hQ.defineFunction _ _ _ _
    ⟨⟨signature, body⟩, h _ (mem_definitions_function.mpr (.inl rfl)), rfl, rfl, rfl⟩
    (hnext _ hQ.values.null)

/-- Whole statements have the property, up to the end of their frame, if all definitions and
literals in them are as `D` and `V` say. -/
theorem has_ended {sts : List Statement} (h : ∀ d ∈ statementsDefinitions sts, D d)
    (hl : LiteralsAre V sts) {last : Value} (hlast : V last) :
    Q (statements last sts finish) :=
  has_statements hlast (statements_haveOwn (fun st _ ↦ (tree_hasOwn hQ).statement st) h hl) finish
    hQ.finish

end Action

/-! ## No condition on values -/

/-- Nothing needs to be shown of values if nothing is asked of them. -/
theorem valueProperty_true : ValueProperty fun _ ↦ True := by
  constructor <;> intros <;> trivial

theorem literalsAre_true (sts : List Statement) : LiteralsAre (fun _ ↦ True) sts := by
  refine statementsEverywhere_of_forall (fun e ↦ ?_) (fun _ ↦ trivial) sts
  cases e <;> trivial

theorem Environment.values_true (env : Environment) : env.Values fun _ ↦ True :=
  fun _ _ ↦ ⟨fun _ _ _ ↦ trivial, fun _ _ _ ↦ trivial⟩

end Scriptlet
