import Mathlib.Logic.Basic
import Scriptlet.Proofs.Tree.Erasure
import Scriptlet.Proofs.Tree.Everywhere

/-!
# Trees and their parentheses

What a tree without its parentheses has in common with the tree: everything but the groups, so each
form of node that is no group is still there, with what it carries. Taking the parentheses away a
second time changes nothing.
-/

namespace Scriptlet

/-! ## Lists -/

theorem exprsWithoutGroups_eq_map (es : List Expr) :
    exprsWithoutGroups es = es.map Expr.withoutGroups := by
  induction es with
  | nil => rfl
  | cons e es ih => rw [exprsWithoutGroups, ih, List.map_cons]

theorem statementsWithoutGroups_eq_map (sts : List Statement) :
    statementsWithoutGroups sts = sts.map Statement.withoutGroups := by
  induction sts with
  | nil => rfl
  | cons st sts ih => rw [statementsWithoutGroups, ih, List.map_cons]

/-! ## Groups -/

namespace Expr

@[simp] theorem withoutGroups_group (n : Node) (e : Expr) (t : Option OperatorTarget) :
    (Expr.unary n .group e t).withoutGroups = e.withoutGroups := by
  rw [withoutGroups, if_pos rfl]

theorem withoutGroups_unary {op : UnaryOp} (hop : op ≠ .group) (n : Node) (e : Expr)
    (t : Option OperatorTarget) :
    (Expr.unary n op e t).withoutGroups = .unary n op e.withoutGroups t := by
  rw [withoutGroups, if_neg hop]

/-- The expression is a group. -/
def isGroup : Expr → Bool
  | .unary _ op _ _ => decide (op = .group)
  | _ => false

theorem isGroup_unary {n : Node} {op : UnaryOp} {e : Expr} {t : Option OperatorTarget} :
    (Expr.unary n op e t).isGroup = false ↔ op ≠ .group :=
  decide_eq_false_iff_not

theorem ungrouped_of_isGroup {e : Expr} (h : e.isGroup = false) : e.ungrouped = e := by
  cases e with
  | unary n op e t =>
    cases op with
    | group => cases h
    | _ => rfl
  | _ => rfl

/-- Groups are peeled off one by one. -/
theorem ungroup_induction {P : Expr → Prop}
    (hgroup : ∀ n e t, P e → P (.unary n .group e t)) (hplain : ∀ e, e.isGroup = false → P e) :
    ∀ e, P e
  | .unary n .group e t => hgroup n e t (ungroup_induction hgroup hplain e)
  | .unary _ .neg _ _ | .unary _ .plus _ _ | .unary _ .not _ _ | .unary _ .preInc _ _
  | .unary _ .preDec _ _ | .unary _ .postInc _ _ | .unary _ .postDec _ _ | .literal .. | .name ..
  | .variableRef .. | .constantRef .. | .binary .. | .coalesce .. | .ternary .. | .assign ..
  | .call .. | .new .. | .index .. | .member .. | .declare .. | .array .. | .lambda .. | .this _
  | .null _ | .block .. | .empty _ => hplain _ rfl

theorem isGroup_ungrouped (e : Expr) : e.ungrouped.isGroup = false := by
  induction e using ungroup_induction with
  | hgroup n e t ih => exact ih
  | hplain e he => rwa [ungrouped_of_isGroup he]

@[simp] theorem withoutGroups_ungrouped (e : Expr) :
    e.ungrouped.withoutGroups = e.withoutGroups := by
  induction e using ungroup_induction with
  | hgroup n e t ih => rw [ungrouped, ih, withoutGroups_group]
  | hplain e he => rw [ungrouped_of_isGroup he]

/-- Without groups the node of an expression stays as it is, and so does the form. -/
theorem node_withoutGroups {e : Expr} (h : e.isGroup = false) :
    e.withoutGroups.node = e.node := by
  cases e with
  | unary n op e t =>
    rw [withoutGroups_unary (isGroup_unary.mp h)]
    rfl
  | _ => rfl

theorem isGroup_withoutGroups (e : Expr) : e.withoutGroups.isGroup = false := by
  induction e using ungroup_induction with
  | hgroup n e t ih => rwa [withoutGroups_group]
  | hplain e he =>
    cases e with
    | unary n op e t => rwa [withoutGroups_unary (isGroup_unary.mp he)]
    | _ => rfl

@[simp] theorem ungrouped_withoutGroups (e : Expr) :
    e.withoutGroups.ungrouped = e.withoutGroups :=
  ungrouped_of_isGroup e.isGroup_withoutGroups

/-- The name that an assignment writes is seen through any number of groups. -/
theorem assignableName?_withoutGroups (e : Expr) :
    e.withoutGroups.assignableName? = e.assignableName? := by
  have hplain := e.isGroup_ungrouped
  rw [assignableName?, assignableName?, ungrouped_withoutGroups, ← withoutGroups_ungrouped]
  generalize e.ungrouped = e at hplain
  cases e with
  | unary n op e t => rw [withoutGroups_unary (isGroup_unary.mp hplain)]
  | _ => rfl

/-! ## Groups that say what their operands say -/

/-- The expression is a declaration. -/
def isDeclaration : Expr → Bool
  | .declare .. => true
  | _ => false

/-- A group carries what its operand carries, and the operand is no declaration. -/
def GroupMatches : Expr → Prop
  | .unary n .group e _ =>
    n.ty = e.node.ty ∧ n.binding = e.node.binding ∧ e.isDeclaration = false
  | _ => True

/-- All groups in the expression carry what their operands carry. -/
abbrev GroupsMatch (e : Expr) : Prop := e.Everywhere GroupMatches fun _ ↦ True

theorem groupMatches_of_isGroup {e : Expr} (h : e.isGroup = false) : e.GroupMatches := by
  rw [GroupMatches.eq_def]
  split
  · cases h
  · trivial

variable {e : Expr}

theorem GroupsMatch.ty_eq (h : e.GroupsMatch) : e.withoutGroups.node.ty = e.node.ty := by
  induction e using ungroup_induction with
  | hgroup n e t ih => rw [withoutGroups_group, ih h.2, ← h.1.1, node]
  | hplain e he => rw [node_withoutGroups he]

theorem GroupsMatch.binding_eq (h : e.GroupsMatch) :
    e.withoutGroups.node.binding = e.node.binding := by
  induction e using ungroup_induction with
  | hgroup n e t ih => rw [withoutGroups_group, ih h.2, ← h.1.2.1, node]
  | hplain e he => rw [node_withoutGroups he]

theorem GroupsMatch.isDeclaration_eq (h : e.GroupsMatch) :
    e.withoutGroups.isDeclaration = e.isDeclaration := by
  induction e using ungroup_induction with
  | hgroup n e t ih =>
    rw [withoutGroups_group, ih h.2]
    exact h.1.2.2
  | hplain e he =>
    cases e with
    | unary n op e t =>
      rw [withoutGroups_unary (isGroup_unary.mp he)]
      rfl
    | _ => rfl

/-! ## Changing a node -/

theorem isGroup_setNode (n : Node) (e : Expr) : (e.setNode n).isGroup = e.isGroup := by
  cases e with
  | _ => rfl

theorem withoutGroups_setNode (h : e.isGroup = false) (n : Node) :
    (e.setNode n).withoutGroups = e.withoutGroups.setNode n := by
  cases e with
  | unary m op e t =>
    have hop := isGroup_unary.mp h
    rw [withoutGroups_unary hop, setNode, setNode, withoutGroups_unary hop]
  | _ => rfl

theorem GroupsMatch.setNode (h : e.GroupsMatch) (hplain : e.isGroup = false) (n : Node) :
    (e.setNode n).GroupsMatch := by
  cases e with
  | unary m op e t =>
    exact ⟨groupMatches_of_isGroup ((isGroup_setNode n _).trans hplain), h.2⟩
  | _ => exact h

end Expr

/-! ## Twice is once -/

/-- The expression loses nothing more when its groups are taken away again. -/
def Expr.Stable (e : Expr) : Prop := e.withoutGroups.withoutGroups = e.withoutGroups

/-- The statement loses nothing more when its groups are taken away again. -/
def Statement.Stable (st : Statement) : Prop := st.withoutGroups.withoutGroups = st.withoutGroups

theorem exprs_stable {es : List Expr} (hes : ∀ e ∈ es, e.Stable) :
    exprsWithoutGroups (exprsWithoutGroups es) = exprsWithoutGroups es := by
  rw [exprsWithoutGroups_eq_map, exprsWithoutGroups_eq_map, List.map_map]
  exact List.map_congr_left hes

theorem option_stable {o : Option Expr} (ho : ∀ e ∈ o, e.Stable) :
    optionWithoutGroups (optionWithoutGroups o) = optionWithoutGroups o := by
  cases o with
  | none => rfl
  | some e => exact congrArg some (ho e rfl)

theorem statements_stable {sts : List Statement} (hsts : ∀ st ∈ sts, st.Stable) :
    statementsWithoutGroups (statementsWithoutGroups sts) = statementsWithoutGroups sts := by
  rw [statementsWithoutGroups_eq_map, statementsWithoutGroups_eq_map, List.map_map]
  exact List.map_congr_left hsts

theorem alternative_stable {o : Option Statement} (ho : ∀ st ∈ o, st.Stable) :
    alternativeWithoutGroups (alternativeWithoutGroups o) = alternativeWithoutGroups o := by
  cases o with
  | none => rfl
  | some st => exact congrArg some (ho st rfl)

theorem unary_stable {op : UnaryOp} {e : Expr} (n : Node) (t : Option OperatorTarget)
    (ih : e.Stable) : (Expr.unary n op e t).Stable := by
  rw [Expr.Stable]
  by_cases hop : op = .group
  · subst hop
    rw [Expr.withoutGroups_group]
    exact ih
  · rw [Expr.withoutGroups_unary hop, Expr.withoutGroups_unary hop, ih]

theorem tree_stable : Tree.Cases Expr.Stable Statement.Stable where
  literal n v := rfl
  name n x := rfl
  variableRef n x := rfl
  constantRef n x := rfl
  this n := rfl
  null n := rfl
  empty n := rfl
  unary n op e t ih := unary_stable n t ih
  binary n op a b t iha ihb := congrArg₂ (Expr.binary n op · · t) iha ihb
  coalesce n a b iha ihb := congrArg₂ (Expr.coalesce n) iha ihb
  ternary n x a b v ihx iha ihb := by
    simp only [Expr.Stable, Expr.withoutGroups] at ihx iha ihb ⊢
    rw [ihx, iha, ihb]
  assign n target v k iht ihv := congrArg₂ (Expr.assign n · · k) iht ihv
  call n target args t ih ihs := congrArg₂ (Expr.call n · · t) ih (exprs_stable ihs)
  new n target args t ih ihs := congrArg₂ (Expr.new n · · t) ih (exprs_stable ihs)
  index n target args t ih ihs := congrArg₂ (Expr.index n · · t) ih (exprs_stable ihs)
  member n target x ih := congrArg (Expr.member n · x) ih
  declare n x ty init k ih := congrArg (Expr.declare n x ty · k) (option_stable ih)
  array n ty items cs ih := congrArg (Expr.array n ty · cs) (exprs_stable ih)
  lambda n params body ih := congrArg (Expr.lambda n params) (statements_stable ih)
  block n body ih := congrArg (Expr.block n) (statements_stable ih)
  exprStatement e ih := congrArg Statement.expr ih
  blockStatement l body ih := congrArg (Statement.block l) (statements_stable ih)
  cond l x a b ihx iha ihb := by
    simp only [Expr.Stable, Statement.Stable, Statement.withoutGroups] at ihx iha ⊢
    rw [ihx, iha, alternative_stable ihb]
  ret l value k ih := congrArg (Statement.ret l · k) (option_stable ih)
  throw l value ih := congrArg (Statement.throw l) (option_stable ih)
  vars l declarations ih := congrArg (Statement.vars l) (exprs_stable ih)
  function l signature body ih := congrArg (Statement.function l signature) (statements_stable ih)

theorem withoutGroups_withoutGroups (sts : List Statement) :
    statementsWithoutGroups (statementsWithoutGroups sts) = statementsWithoutGroups sts :=
  statements_stable fun st _ ↦ tree_stable.statement st

end Scriptlet
