import Scriptlet.Proofs.Code.Forms
import Scriptlet.Proofs.Error.Places
import Scriptlet.Proofs.Tree.Groups

/-!
# Code of trees and their parentheses

The code of a bound tree is that of the tree without its parentheses, provided that every pair of
parentheses carries what its operand carries. Where there is no code for the one there is none for
the other, and for the same reason; all instructions in front of the failure are the same.
-/

namespace Scriptlet

/-! ## Pieces that are alike -/

/-- The code, with the failure at its end moved to the start of the text. -/
def Emission.withoutPlace (e : Emission) : Emission :=
  { e with failure := e.failure.map EmitError.withoutPlace }

namespace Emit

/-- Two pieces are the same code, or fail for the same reason behind the same code. -/
def Alike (a a' : Emit) : Prop := ∀ n, (a n).withoutPlace = (a' n).withoutPlace

namespace Alike

variable {a a' b b' : Emit}

theorem refl (a : Emit) : Alike a a := fun _ ↦ rfl

theorem fail {e e' : EmitError} (h : e.withoutPlace = e'.withoutPlace) :
    Alike (fail e) (fail e') := by
  intro n
  simp only [Emit.fail, Emission.withoutPlace, Option.map_some, h]

theorem append (ha : Alike a a') (hb : Alike b b') : Alike (a ++ b) (a' ++ b') := by
  intro n
  obtain ⟨hcode, hlabels, hfailure⟩ := Emission.mk.inj (ha n)
  have happend : ∀ a b : Emit, (a ++ b) n = andThen a b n := fun _ _ ↦ rfl
  rw [happend, happend, andThen, andThen]
  -- a failure of the first piece hides the second one, and does so on both sides
  cases hf : (a n).failure with
  | some e =>
    rw [hf] at hfailure
    obtain ⟨e', he', -⟩ := Option.map_eq_some_iff.mp hfailure.symm
    rw [he']
    exact ha n
  | none =>
    rw [hf] at hfailure
    rw [Option.map_eq_none_iff.mp hfailure.symm, hcode, hlabels]
    obtain ⟨hcode', hlabels', hfailure'⟩ := Emission.mk.inj (hb (a' n).labels)
    simp only [Emission.withoutPlace, hcode', hlabels', hfailure']

theorem fresh {piece piece' : Nat → Emit} (h : ∀ l, Alike (piece l) (piece' l)) :
    Alike (fresh piece) (fresh piece') :=
  fun n ↦ h n (n + 1)

theorem require {α : Type} {o o' : Option α} (ho : o' = o) {l l' : Location}
    {piece piece' : α → Emit} (h : ∀ a, Alike (piece a) (piece' a)) :
    Alike (require o l piece) (require o' l' piece') := by
  subst ho
  cases o' with
  | none => exact fail rfl
  | some a => exact h a

theorem ite {p : Prop} [Decidable p] (ha : Alike a a') (hb : Alike b b') :
    Alike (if p then a else b) (if p then a' else b') := by
  by_cases hp : p
  · rwa [if_pos hp, if_pos hp]
  · rwa [if_neg hp, if_neg hp]

end Alike

end Emit

theorem Binding.alike_store (b : Binding) (l l' : Location) : (b.store l).Alike (b.store l') := by
  cases b with
  | property p ty isStatic writable => exact .ite (.refl _) (.fail rfl)
  | typeName ty => exact .fail rfl
  | _ => exact .refl _

/-- A group leaves a value if its operand does. -/
theorem Expr.GroupsMatch.producesValue_eq {e : Expr} (h : e.GroupsMatch) :
    e.withoutGroups.producesValue = e.producesValue := by
  have hvalue : ∀ e : Expr, e.producesValue = (!e.isDeclaration && e.node.ty.any (· ≠ .void)) := by
    intro e
    cases e <;> rfl
  rw [hvalue, hvalue, h.isDeclaration_eq, h.ty_eq]

/-! ## Trees -/

namespace Code

variable (r : Registry)

/-- The code of the expression is that of the expression without groups: as a value, as the target
of an assignment and as what a method is called on. -/
structure ExprAlike (e : Expr) : Prop where
  value : e.GroupsMatch → (expr r e).Alike (expr r e.withoutGroups)
  target : e.GroupsMatch → ∀ l l' value value', Emit.Alike value value' →
    (assign r l value e).Alike (assign r l' value' e.withoutGroups)
  owner : e.GroupsMatch → (owner r e).Alike (owner r e.withoutGroups)

/-- The code of the statement is that of the statement without groups. The last statement of a block
may be an expression whose value stays. -/
structure StatementAlike (st : Statement) : Prop where
  code : st.Everywhere Expr.GroupMatches (fun _ ↦ True) →
    (statement r st).Alike (statement r st.withoutGroups)
  value : ∀ e, st = .expr e → ExprAlike r e

variable {r}

theorem alike_arguments {cs : Conversions} {index : Nat} {es : List Expr}
    (hes : ∀ e ∈ es, ExprAlike r e) (hg : exprsEverywhere Expr.GroupMatches (fun _ ↦ True) es) :
    (arguments r cs index es).Alike (arguments r cs index (exprsWithoutGroups es)) := by
  induction es generalizing index with
  | nil => exact .refl _
  | cons e es ih =>
    obtain ⟨he, hes⟩ := List.forall_mem_cons.mp hes
    exact ((he.value hg.1).append (.refl _)).append (ih hes hg.2)

theorem alike_elements {cs : Conversions} {index : Nat} {es : List Expr}
    (hes : ∀ e ∈ es, ExprAlike r e) (hg : exprsEverywhere Expr.GroupMatches (fun _ ↦ True) es) :
    (elements r cs index es).Alike (elements r cs index (exprsWithoutGroups es)) := by
  induction es generalizing index with
  | nil => exact .refl _
  | cons e es ih =>
    obtain ⟨he, hes⟩ := List.forall_mem_cons.mp hes
    refine Emit.Alike.append ?_ (ih hes hg.2)
    exact (((Emit.Alike.refl _).append (he.value hg.1)).append (.refl _)).append (.refl _)

theorem alike_exprs {es : List Expr} (hes : ∀ e ∈ es, ExprAlike r e)
    (hg : exprsEverywhere Expr.GroupMatches (fun _ ↦ True) es) :
    (exprs r es).Alike (exprs r (exprsWithoutGroups es)) := by
  induction es with
  | nil => exact .refl _
  | cons e es ih =>
    obtain ⟨he, hes⟩ := List.forall_mem_cons.mp hes
    exact (he.value hg.1).append (ih hes hg.2)

theorem alike_statements {sts : List Statement} (hsts : ∀ st ∈ sts, StatementAlike r st)
    (hg : statementsEverywhere Expr.GroupMatches (fun _ ↦ True) sts) :
    (statements r sts).Alike (statements r (statementsWithoutGroups sts)) := by
  induction sts with
  | nil => exact .refl _
  | cons st sts ih =>
    obtain ⟨hst, hsts⟩ := List.forall_mem_cons.mp hsts
    exact (hst.code hg.1).append (ih hsts hg.2)

theorem blockValue_cons {st : Statement} {sts : List Statement}
    (h : ∀ e, st = .expr e → sts ≠ []) :
    blockValue r (st :: sts) = statement r st ++ blockValue r sts := by
  cases sts with
  | nil =>
    cases st with
    | expr e => exact absurd rfl (h e rfl)
    | _ => rfl
  | cons st' sts =>
    cases st with
    | _ => rfl

/-- A statement without groups is an expression only if the statement is one. -/
theorem exists_expr_of_withoutGroups {st : Statement} {e : Expr} (h : st.withoutGroups = .expr e) :
    ∃ e', st = .expr e' := by
  cases st with
  | expr e' => exact ⟨e', rfl⟩
  | _ => cases h

/-- Statements are one expression both with and without their groups, or neither. -/
theorem single_expr_or (st : Statement) (sts : List Statement) :
    (∃ e, st = .expr e ∧ sts = []) ∨
      (∀ e, st = .expr e → sts ≠ []) ∧
        ∀ e, st.withoutGroups = .expr e → statementsWithoutGroups sts ≠ [] := by
  by_cases hlast : ∃ e, st = .expr e ∧ sts = []
  · exact .inl hlast
  · refine .inr ⟨fun e he hnil ↦ hlast ⟨e, he, hnil⟩, fun e he hnil ↦ ?_⟩
    obtain ⟨e', he'⟩ := exists_expr_of_withoutGroups he
    rw [statementsWithoutGroups_eq_map, List.map_eq_nil_iff] at hnil
    exact hlast ⟨e', he', hnil⟩

theorem alike_blockValue {sts : List Statement} (hsts : ∀ st ∈ sts, StatementAlike r st)
    (hg : statementsEverywhere Expr.GroupMatches (fun _ ↦ True) sts) :
    (blockValue r sts).Alike (blockValue r (statementsWithoutGroups sts)) := by
  induction sts with
  | nil => exact .refl _
  | cons st sts ih =>
    obtain ⟨hst, hsts⟩ := List.forall_mem_cons.mp hsts
    -- an expression at the end leaves its value, so both blocks have to end in one
    rcases single_expr_or st sts with ⟨e, rfl, rfl⟩ | ⟨hcons, hcons'⟩
    · exact (hst.value e rfl).value hg.1.2
    · rw [statementsWithoutGroups, blockValue_cons hcons, blockValue_cons hcons']
      exact (hst.code hg.1).append (ih hsts hg.2)

/-! ## Expressions -/

theorem alike_storing {l l' : Location} {value value' : Emit} (h : value.Alike value')
    (b : Binding) : (Tables.storing l value b).Alike (Tables.storing l' value' b) := by
  refine .ite ?_ ?_
  · exact (((Emit.Alike.refl _).append h).append (.refl _)).append (b.alike_store l l')
  · exact (h.append (.refl _)).append (b.alike_store l l')

/-- A form that is assigned to through its storage, and that is not what a method is called on. -/
theorem ExprAlike.of_value {e : Expr}
    (value : e.GroupsMatch → (expr r e).Alike (expr r e.withoutGroups))
    (assign_eq : ∀ l v, assign r l v e = .require e.node.binding l (Tables.storing l v))
    (assign_eq' : ∀ l v, assign r l v e.withoutGroups =
      .require e.node.binding l (Tables.storing l v))
    (owner_eq : Code.owner r e.withoutGroups = Code.owner r e) : ExprAlike r e where
  value := value
  target _ l l' v v' hv := by
    rw [assign_eq, assign_eq']
    exact .require rfl fun b ↦ alike_storing hv b
  owner _ := by
    rw [owner_eq]
    exact .refl _

variable {n : Node} {e a b x target v : Expr} {es : List Expr}

/-- A group has the code of its operand, whatever it is used for. -/
theorem alike_group {t : Option OperatorTarget} (ih : ExprAlike r e) :
    ExprAlike r (.unary n .group e t) where
  value h := by
    rw [Expr.withoutGroups_group, expr]
    exact ih.value h.2
  target h l l' v v' hv := by
    rw [Expr.withoutGroups_group, assign]
    exact ih.target h.2 l l' v v' hv
  owner h := by
    rw [Expr.withoutGroups_group, owner]
    exact ih.owner h.2

/-- An increment looks at the storage that its operand names, which a group names too. -/
theorem alike_operator {op : UnaryOp} (hop : op ≠ .group) {t : Option OperatorTarget}
    (ih : ExprAlike r e) (h : e.GroupsMatch) :
    (expr r (.unary n op e t)).Alike (expr r (.unary n op e.withoutGroups t)) := by
  rw [expr.eq_def, expr.eq_def]
  cases op with
  | group => exact absurd rfl hop
  | _ =>
    refine .require rfl fun t ↦ ?_
    cases t.kind with
    | method m =>
      refine .ite (.require h.binding_eq fun b ↦ .refl _) ?_
      exact (ih.value h).append (.refl _)
    | _ => exact .fail rfl

theorem assign_operator {op : UnaryOp} (hop : op ≠ .group) (l : Location) (value : Emit) (n : Node)
    (e : Expr) (t : Option OperatorTarget) :
    assign r l value (.unary n op e t) = .require n.binding l (Tables.storing l value) := by
  cases op with
  | group => exact absurd rfl hop
  | _ => rfl

theorem owner_operator {op : UnaryOp} (hop : op ≠ .group) (n : Node) (e : Expr)
    (t : Option OperatorTarget) : owner r (.unary n op e t) = .put .loadThis := by
  cases op with
  | group => exact absurd rfl hop
  | _ => rfl

theorem alike_unary {op : UnaryOp} {t : Option OperatorTarget} (ih : ExprAlike r e) :
    ExprAlike r (.unary n op e t) := by
  by_cases hop : op = .group
  · subst hop
    exact alike_group ih
  · have hclear := Expr.withoutGroups_unary hop n e t
    refine .of_value (fun h ↦ ?_) (fun l v ↦ ?_) (fun l v ↦ ?_) ?_
    · rw [hclear]
      exact alike_operator hop ih h.2
    · exact assign_operator hop l v n e t
    · rw [hclear]
      exact assign_operator hop l v n e.withoutGroups t
    · rw [hclear, owner_operator hop, owner_operator hop]

theorem alike_binary {op : BinaryOp} {t : Option OperatorTarget} (iha : ExprAlike r a)
    (ihb : ExprAlike r b) (h : (Expr.binary n op a b t).GroupsMatch) :
    (expr r (.binary n op a b t)).Alike
      (expr r (.binary n op a.withoutGroups b.withoutGroups t)) := by
  have ha := iha.value h.2.1
  have hb := ihb.value h.2.2
  rw [expr, expr]
  refine .require rfl fun t ↦ ?_
  cases t.kind with
  | method m => exact (((ha.append (.refl _)).append hb).append (.refl _)).append (.refl _)
  | referenceEquality => exact (ha.append hb).append (.refl _)
  | logical =>
    refine .fresh fun stop ↦ ?_
    refine ((Emit.Alike.append ?_ hb).append (.refl _)).append (.refl _)
    exact (((ha.append (.refl _)).append (.refl _)).append (.refl _)).append (.refl _)
  | transparent => exact .fail rfl

theorem alike_coalesce (iha : ExprAlike r a) (ihb : ExprAlike r b)
    (h : (Expr.coalesce n a b).GroupsMatch) :
    (expr r (.coalesce n a b)).Alike (expr r (.coalesce n a.withoutGroups b.withoutGroups)) := by
  have ha := iha.value h.2.1
  have hb := ihb.value h.2.2
  rw [expr, expr]
  refine .fresh fun stop ↦ ?_
  exact ((((ha.append (.refl _)).append (.refl _)).append (.refl _)).append hb).append (.refl _)

theorem alike_ternary {c : Option BranchConversion} (ihx : ExprAlike r x) (iha : ExprAlike r a)
    (ihb : ExprAlike r b) (h : (Expr.ternary n x a b c).GroupsMatch) :
    (expr r (.ternary n x a b c)).Alike
      (expr r (.ternary n x.withoutGroups a.withoutGroups b.withoutGroups c)) := by
  have hx := ihx.value h.2.1
  have ha := iha.value h.2.2.1
  have hb := ihb.value h.2.2.2
  rw [expr, expr]
  refine .fresh fun other ↦ .fresh fun stop ↦ ?_
  refine ((Emit.Alike.append ?_ hb).append (.refl _)).append (.refl _)
  refine ((Emit.Alike.append ?_ (.refl _)).append (.refl _)).append (.refl _)
  exact (hx.append (.refl _)).append ha

theorem alike_call {t : Option CallTarget} (ih : ExprAlike r target)
    (ihs : ∀ e ∈ es, ExprAlike r e) (h : (Expr.call n target es t).GroupsMatch) :
    (expr r (.call n target es t)).Alike
      (expr r (.call n target.withoutGroups (exprsWithoutGroups es) t)) := by
  have hargs : ∀ cs, (arguments r cs 0 es).Alike (arguments r cs 0 (exprsWithoutGroups es)) :=
    fun cs ↦ alike_arguments ihs h.2.2
  rw [expr, expr]
  refine .require rfl fun t ↦ ?_
  cases t.callee with
  | method m =>
    refine .require rfl fun d ↦ ?_
    exact ((Emit.Alike.ite (.refl _) (ih.owner h.2.1)).append (hargs _)).append (.refl _)
  | script index => exact (hargs _).append (.refl _)
  | delegate =>
    rw [exprsWithoutGroups_eq_map, List.length_map, ← exprsWithoutGroups_eq_map]
    exact ((ih.value h.2.1).append (hargs _)).append (.refl _)
  | arrayElement => exact .fail rfl
  | defaultConstructor ty => exact .fail rfl

theorem alike_new {t : Option CallTarget} (ihs : ∀ e ∈ es, ExprAlike r e)
    (h : (Expr.new n target es t).GroupsMatch) :
    (expr r (.new n target es t)).Alike
      (expr r (.new n target.withoutGroups (exprsWithoutGroups es) t)) := by
  rw [expr, expr]
  exact .require rfl fun t ↦ (alike_arguments ihs h.2.2).append (.refl _)

theorem alike_index {t : Option CallTarget} (ih : ExprAlike r target)
    (ihs : ∀ e ∈ es, ExprAlike r e) : ExprAlike r (.index n target es t) where
  value h := by
    rw [Expr.withoutGroups, expr, expr]
    refine .require rfl fun t ↦ ?_
    exact ((ih.value h.2.1).append (alike_arguments ihs h.2.2)).append (.refl _)
  target h l l' v v' hv := by
    rw [Expr.withoutGroups, assign, assign]
    refine .require rfl fun t ↦ ?_
    rw [exprsWithoutGroups_eq_map, List.length_map, ← exprsWithoutGroups_eq_map]
    refine Emit.Alike.append (Emit.Alike.append ?_ (.refl _)) (.refl _)
    exact ((ih.value h.2.1).append (alike_arguments ihs h.2.2)).append hv
  owner _ := .refl _

theorem alike_member {m : String} (ih : ExprAlike r target) :
    ExprAlike r (.member n target m) where
  value h := by
    rw [Expr.withoutGroups, expr, expr]
    exact .require rfl fun b ↦ (Emit.Alike.ite (ih.value h.2) (.refl _)).append (.refl _)
  target h l l' v v' hv := by
    rw [Expr.withoutGroups, assign, assign]
    refine .require rfl fun b ↦ .ite ?_ ?_
    · exact (((ih.value h.2).append hv).append (.refl _)).append (b.alike_store l l')
    · exact (hv.append (.refl _)).append (b.alike_store l l')
  owner h := by
    rw [Expr.withoutGroups, owner, owner]
    exact ih.value h.2

theorem alike_declare {y : String} {written : Option TypeExpr} {init : Option Expr}
    {k : Option (Option Conversion)} (ih : ∀ e ∈ init, ExprAlike r e)
    (h : (Expr.declare n y written init k).GroupsMatch) :
    (expr r (.declare n y written init k)).Alike
      (expr r (.declare n y written (optionWithoutGroups init) k)) := by
  rw [expr.eq_def, expr.eq_def]
  refine .require rfl fun b ↦ ?_
  cases init with
  | none => exact .refl _
  | some e => exact (((ih e rfl).value h.2).append (.refl _)).append (.refl _)

theorem alike_array {written : Option TypeExpr} {cs : Option Conversions}
    (ihs : ∀ e ∈ es, ExprAlike r e) (h : (Expr.array n written es cs).GroupsMatch) :
    (expr r (.array n written es cs)).Alike
      (expr r (.array n written (exprsWithoutGroups es) cs)) := by
  rw [expr, expr]
  refine .require rfl fun ty ↦ .require rfl fun element ↦ .require rfl fun cs ↦ ?_
  rw [exprsWithoutGroups_eq_map, List.length_map, ← exprsWithoutGroups_eq_map]
  exact (Emit.Alike.refl _).append (alike_elements ihs h.2)

/-! ## Statements -/

theorem alike_cond {l : Location} {st : Statement} {alt : Option Statement}
    (ihx : ExprAlike r x) (ihst : StatementAlike r st) (ihalt : ∀ st ∈ alt, StatementAlike r st)
    (h : (Statement.cond l x st alt).Everywhere Expr.GroupMatches fun _ ↦ True) :
    (statement r (.cond l x st alt)).Alike
      (statement r (.cond l x.withoutGroups st.withoutGroups (alternativeWithoutGroups alt))) := by
  have hx := ihx.value h.2.1
  have hst := ihst.code h.2.2.1
  rw [statement.eq_def, statement.eq_def]
  refine .fresh fun other ↦ .fresh fun stop ↦ Emit.Alike.append ?_ (.refl _)
  refine Emit.Alike.append ?_ ?_
  · exact (((hx.append (.refl _)).append hst).append (.refl _)).append (.refl _)
  · cases alt with
    | none => exact .refl _
    | some alt => exact (ihalt alt rfl).code h.2.2.2

theorem alike_ret {l : Location} {value : Option Expr} {k : Option (Option Conversion)}
    (ih : ∀ e ∈ value, ExprAlike r e)
    (h : optionEverywhere Expr.GroupMatches (fun _ ↦ True) value) :
    (statement r (.ret l value k)).Alike (statement r (.ret l (optionWithoutGroups value) k)) := by
  rw [statement.eq_def, statement.eq_def]
  refine Emit.Alike.append ?_ (.refl _)
  cases value with
  | none => exact .refl _
  | some e => exact ((ih e rfl).value h).append (.refl _)

theorem alike_throw {l : Location} {value : Option Expr} (ih : ∀ e ∈ value, ExprAlike r e)
    (h : optionEverywhere Expr.GroupMatches (fun _ ↦ True) value) :
    (statement r (.throw l value)).Alike (statement r (.throw l (optionWithoutGroups value))) := by
  rw [statement.eq_def, statement.eq_def]
  refine Emit.Alike.append ?_ (.refl _)
  cases value with
  | none => exact .refl _
  | some e => exact (ih e rfl).value h

/-- The code of every form is that of the form without groups if that of its parts is. -/
theorem tree_alike : Tree.Cases (ExprAlike r) (StatementAlike r) where
  literal n v := .of_value (fun _ ↦ .refl _) (fun _ _ ↦ rfl) (fun _ _ ↦ rfl) rfl
  null n := .of_value (fun _ ↦ .refl _) (fun _ _ ↦ rfl) (fun _ _ ↦ rfl) rfl
  this n := .of_value (fun _ ↦ .refl _) (fun _ _ ↦ rfl) (fun _ _ ↦ rfl) rfl
  empty n := .of_value (fun _ ↦ .refl _) (fun _ _ ↦ rfl) (fun _ _ ↦ rfl) rfl
  name n x := .of_value (fun _ ↦ .refl _) (fun _ _ ↦ rfl) (fun _ _ ↦ rfl) rfl
  variableRef n x := .of_value (fun _ ↦ .refl _) (fun _ _ ↦ rfl) (fun _ _ ↦ rfl) rfl
  constantRef n x := .of_value (fun _ ↦ .refl _) (fun _ _ ↦ rfl) (fun _ _ ↦ rfl) rfl
  lambda n params body _ :=
    .of_value (fun _ ↦ .fail rfl) (fun _ _ ↦ rfl) (fun _ _ ↦ rfl) rfl
  unary n op e t ih := alike_unary ih
  binary n op a b t iha ihb :=
    .of_value (alike_binary iha ihb) (fun _ _ ↦ rfl) (fun _ _ ↦ rfl) rfl
  coalesce n a b iha ihb :=
    .of_value (alike_coalesce iha ihb) (fun _ _ ↦ rfl) (fun _ _ ↦ rfl) rfl
  ternary n x a b c ihx iha ihb :=
    .of_value (alike_ternary ihx iha ihb) (fun _ _ ↦ rfl) (fun _ _ ↦ rfl) rfl
  assign n target v k iht ihv :=
    .of_value (fun h ↦ iht.target h.2.1 _ _ _ _ ((ihv.value h.2.2).append (.refl _)))
      (fun _ _ ↦ rfl) (fun _ _ ↦ rfl) rfl
  call n target args t ih ihs :=
    .of_value (alike_call ih ihs) (fun _ _ ↦ rfl) (fun _ _ ↦ rfl) rfl
  new n target args t _ ihs := .of_value (alike_new ihs) (fun _ _ ↦ rfl) (fun _ _ ↦ rfl) rfl
  index n target args t ih ihs := alike_index ih ihs
  member n target x ih := alike_member ih
  declare n x written init k ih :=
    .of_value (alike_declare ih) (fun _ _ ↦ rfl) (fun _ _ ↦ rfl) rfl
  array n written items cs ih := .of_value (alike_array ih) (fun _ _ ↦ rfl) (fun _ _ ↦ rfl) rfl
  block n body ih :=
    .of_value (fun h ↦ alike_blockValue ih h.2) (fun _ _ ↦ rfl) (fun _ _ ↦ rfl) rfl
  exprStatement e ih :=
    { code := fun h ↦ by
        rw [Statement.withoutGroups, statement, statement,
          Expr.GroupsMatch.producesValue_eq h.2]
        exact (ih.value h.2).append (.refl _)
      value := fun e' he ↦ by
        cases he
        exact ih }
  blockStatement l body ih := ⟨fun h ↦ alike_statements ih h.2, nofun⟩
  cond l x a b ihx iha ihb := ⟨alike_cond ihx iha ihb, nofun⟩
  ret l value k ih := ⟨fun h ↦ alike_ret ih h.2, nofun⟩
  throw l value ih := ⟨fun h ↦ alike_throw ih h.2, nofun⟩
  vars l declarations ih := ⟨fun h ↦ alike_exprs ih h.2, nofun⟩
  function l signature body _ := ⟨fun _ ↦ .refl _, nofun⟩

/-! ## Programs -/

theorem program_cons {st : Statement} {sts : List Statement} (h : ∀ e, st = .expr e → sts ≠ []) :
    program r (st :: sts) = statement r st ++ program r sts := by
  cases sts with
  | nil =>
    cases st with
    | expr e => exact absurd rfl (h e rfl)
    | _ => rfl
  | cons st' sts =>
    cases st with
    | _ => rfl

theorem alike_single (ih : ExprAlike r e) (h : e.GroupsMatch) :
    (program r [.expr e]).Alike (program r [.expr e.withoutGroups]) := by
  have hvalue := ih.value h
  rw [program, program, h.producesValue_eq, h.ty_eq, statement, statement, h.producesValue_eq]
  exact .ite ((hvalue.append (.refl _)).append (.refl _))
    ((hvalue.append (.refl _)).append (.refl _))

theorem alike_program {p : Program}
    (h : statementsEverywhere Expr.GroupMatches (fun _ ↦ True) p) :
    (program r p).Alike (program r (statementsWithoutGroups p)) := by
  induction p with
  | nil => exact .refl _
  | cons st sts ih =>
    rcases single_expr_or st sts with ⟨e, rfl, rfl⟩ | ⟨hcons, hcons'⟩
    · exact alike_single (tree_alike.expr e) h.1.2
    · rw [statementsWithoutGroups, program_cons hcons, program_cons hcons']
      exact ((tree_alike.statement st).code h.1).append (ih h.2)

/-! ## Functions -/

theorem endsWithReturn_withoutGroups (body : List Statement) :
    endsWithReturn (statementsWithoutGroups body) = endsWithReturn body := by
  rw [endsWithReturn, endsWithReturn, statementsWithoutGroups_eq_map, List.getLast?_map]
  cases body.getLast? with
  | none => rfl
  | some st =>
    cases st with
    | _ => rfl

theorem alike_functionBody {body : List Statement}
    (h : statementsEverywhere Expr.GroupMatches (fun _ ↦ True) body) :
    (functionBody r body).Alike (functionBody r (statementsWithoutGroups body)) := by
  rw [functionBody, functionBody, endsWithReturn_withoutGroups]
  exact (alike_statements (fun st _ ↦ tree_alike.statement st) h).append (.refl _)

mutual

/-- A statement without its groups defines the same functions, each without the groups in its
body. -/
theorem definitionsIn_withoutGroups : ∀ st : Statement,
    definitionsIn st.withoutGroups
      = (definitionsIn st).map fun d ↦ (d.1, statementsWithoutGroups d.2)
  | .function _ signature body =>
    congrArg ((signature.location, statementsWithoutGroups body) :: ·)
      (definitions_withoutGroups body)
  | .block _ body => definitions_withoutGroups body
  | .cond _ _ a none => by
    have hnone : ∀ l x st, definitionsIn (.cond l x st none) = definitionsIn st :=
      fun _ _ _ ↦ List.append_nil _
    rw [Statement.withoutGroups, alternativeWithoutGroups, hnone, hnone,
      definitionsIn_withoutGroups a]
  | .cond _ _ a (some b) =>
    (congrArg₂ (· ++ ·) (definitionsIn_withoutGroups a) (definitionsIn_withoutGroups b)).trans
      List.map_append.symm
  | .expr _ | .ret .. | .throw .. | .vars .. => rfl

theorem definitions_withoutGroups : ∀ sts : List Statement,
    definitions (statementsWithoutGroups sts)
      = (definitions sts).map fun d ↦ (d.1, statementsWithoutGroups d.2)
  | [] => rfl
  | st :: sts => by
    rw [statementsWithoutGroups, definitions, definitions, List.map_append,
      definitionsIn_withoutGroups st, definitions_withoutGroups sts]

end

mutual

/-- What holds everywhere in a statement holds everywhere in the functions that it defines. -/
theorem everywhere_of_mem_definitionsIn {P : Expr → Prop} {Q : Statement → Prop} :
    ∀ {st : Statement}, st.Everywhere P Q → ∀ d ∈ definitionsIn st, statementsEverywhere P Q d.2
  | .function .., h =>
    List.forall_mem_cons.mpr ⟨h.2, everywhere_of_mem_definitions h.2⟩
  | .block .., h => everywhere_of_mem_definitions h.2
  | .cond _ _ _ none, h =>
    List.forall_mem_append.mpr ⟨everywhere_of_mem_definitionsIn h.2.2.1, nofun⟩
  | .cond _ _ _ (some _), h =>
    List.forall_mem_append.mpr
      ⟨everywhere_of_mem_definitionsIn h.2.2.1, everywhere_of_mem_definitionsIn h.2.2.2⟩
  | .expr _, _ | .ret .., _ | .throw .., _ | .vars .., _ => nofun

theorem everywhere_of_mem_definitions {P : Expr → Prop} {Q : Statement → Prop} :
    ∀ {sts : List Statement}, statementsEverywhere P Q sts →
      ∀ d ∈ definitions sts, statementsEverywhere P Q d.2
  | [], _ => nofun
  | _ :: _, h =>
    List.forall_mem_append.mpr
      ⟨everywhere_of_mem_definitionsIn h.1, everywhere_of_mem_definitions h.2⟩

end

/-- The bodies of functions are found at the same places with and without groups, and have the same
code. -/
theorem alike_functions {p : Program}
    (h : statementsEverywhere Expr.GroupMatches (fun _ ↦ True) p) (index : Nat)
    (fs : List ScriptFunction) :
    (functions r p index fs).Alike (functions r (statementsWithoutGroups p) index fs) := by
  induction fs generalizing index with
  | nil => exact .refl _
  | cons f fs ih =>
    have hfind : (definitions (statementsWithoutGroups p)).find? (fun d ↦ d.1 = f.location)
        = ((definitions p).find? fun d ↦ d.1 = f.location).map
          fun d ↦ (d.1, statementsWithoutGroups d.2) := by
      rw [definitions_withoutGroups, List.find?_map]
      rfl
    rw [functions, functions, hfind]
    cases hd : (definitions p).find? fun d ↦ d.1 = f.location with
    | none => exact .refl _
    | some d =>
      have hbody := everywhere_of_mem_definitions h d (List.mem_of_find?_eq_some hd)
      exact ((Emit.Alike.refl _).append (alike_functionBody hbody)).append (ih (index + 1))

end Code

end Scriptlet
