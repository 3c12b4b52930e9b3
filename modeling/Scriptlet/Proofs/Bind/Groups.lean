import Scriptlet.Proofs.Bind.Sound
import Scriptlet.Proofs.Error.Places
import Scriptlet.Proofs.Tree.Groups

/-!
# Binding sees through parentheses

A tree of the grammar and the same without its parentheses are bound alike: both get the same type,
or both fail for the same reason, perhaps at different places. The binder keeps the same state in
both, and the tree that is left of the second is the tree that is left of the first without its
parentheses. Every pair of parentheses in the tree that is left carries what its operand carries,
which is what makes it transparent to whatever looks at the node and not at the form.
-/

namespace Scriptlet

variable {T U V W α β σ : Type}

/-! ## Steps that are alike -/

/-- What two steps leave is alike: the same answer and the same state with trees that are related,
or errors that differ in their places only. -/
inductive Bound.Alike (R : α → T → U → Prop) : Bound T α → Bound U α → Prop where
  | ok {t : T} {u : U} {s : Binder} {a : α} (h : R a t u) : Alike R ⟨t, s, .ok a⟩ ⟨u, s, .ok a⟩
  | error {t : T} {u : U} {s s' : Binder} {e e' : BindError}
      (h : e.withoutPlace = e'.withoutPlace) : Alike R ⟨t, s, .error e⟩ ⟨u, s', .error e'⟩

theorem Bound.Alike.answer_eq {R : α → T → U → Prop} {b : Bound T α} {b' : Bound U α}
    (h : b.Alike R b') : SameUpTo BindError.withoutPlace b.answer b'.answer := by
  cases h with
  | ok h => exact .refl _
  | error h => exact .error h

namespace Pass

/-- Two steps leave what is alike, from every state. -/
def Alike (R : α → T → U → Prop) (m : Pass T α) (m' : Pass U α) : Prop :=
  ∀ s, (m s).Alike R (m' s)

namespace Alike

variable {R : α → T → U → Prop} {S : β → V → W → Prop}

theorem done {t : T} {u : U} {a : α} (h : R a t u) : Alike R (done t a) (done u a) :=
  fun _ ↦ .ok h

theorem stop {t : T} {u : U} {e e' : BindError} (h : e.withoutPlace = e'.withoutPlace) :
    Alike R (stop t e) (stop u e') :=
  fun _ ↦ .error h

theorem within {m : Pass T α} {m' : Pass U α} {whole : T → V} {whole' : U → W}
    {next : T → α → Pass V β} {next' : U → α → Pass W β} (hm : Alike R m m')
    (hnext : ∀ a t u, R a t u → Alike S (next t a) (next' u a)) :
    Alike S (m.within whole next) (m'.within whole' next') := by
  intro s
  have hs := hm s
  rw [Pass.within, Pass.within]
  generalize m s = b at hs
  generalize m' s = b' at hs
  cases hs with
  | ok h => exact hnext _ _ _ h _
  | error h => exact .error h

theorem look {t : V} {u : W} {test test' : Binder → Except BindError α}
    {next : α → Pass V β} {next' : α → Pass W β}
    (htest : ∀ s, SameUpTo BindError.withoutPlace (test s) (test' s))
    (hnext : ∀ a, Alike S (next a) (next' a)) :
    Alike S (look t test next) (look u test' next') := by
  intro s
  rw [Pass.look, Pass.look]
  rcases (htest s).ok_or_error with ⟨a, ha, ha'⟩ | ⟨e, e', he, he', hsame⟩
  · rw [ha, ha']
    exact hnext a s
  · rw [he, he']
    exact .error hsame

theorem check {t : V} {u : W} {r r' : Except BindError α} {next : α → Pass V β}
    {next' : α → Pass W β} (hr : SameUpTo BindError.withoutPlace r r')
    (hnext : ∀ a, Alike S (next a) (next' a)) : Alike S (check t r next) (check u r' next') :=
  look (fun _ ↦ hr) hnext

theorem change {f : Binder → Binder} {next : Pass V β} {next' : Pass W β}
    (h : Alike S next next') : Alike S (change f next) (change f next') :=
  fun s ↦ h (f s)

theorem fill {place : Option σ} {v : σ} {l : Location} {node : Option σ → V}
    {node' : Option σ → W} {next : V → Pass V β} {next' : W → Pass W β}
    (h : Alike S (next (node (some v))) (next' (node' (some v)))) :
    Alike S (fill place v l node next) (fill place v l node' next') := by
  cases place with
  | none => exact h
  | some w => exact stop rfl

theorem inScope {m : Pass T α} {m' : Pass U α} (h : Alike R m m') :
    Alike R (inScope m) (inScope m') := by
  intro s
  have hs := h (s.change Body.pushScope)
  rw [Pass.inScope, Pass.inScope]
  generalize m (s.change Body.pushScope) = b at hs
  generalize m' (s.change Body.pushScope) = b' at hs
  cases hs with
  | ok h => exact .ok h
  | error h => exact .error h

theorem inBody {m : Pass T α} {m' : Pass U α} (body : Body) (h : Alike R m m') :
    Alike (fun r ↦ R r.1) (inBody body m) (inBody body m') := by
  intro s
  have hs := h (s.enter body)
  rw [Pass.inBody, Pass.inBody]
  generalize m (s.enter body) = b at hs
  generalize m' (s.enter body) = b' at hs
  cases hs with
  | ok h => exact .ok h
  | error h => exact .error h

/-- A step that is alike with itself leaves a tree that is related to itself. -/
theorem self {R : α → T → T → Prop} {m : Pass T α} (h : Alike R m m) :
    Alike (fun a t u ↦ R a t u ∧ u = t) m m := by
  intro s
  have hs := h s
  generalize m s = b at hs
  cases hs with
  | ok h => exact .ok ⟨h, rfl⟩
  | error h => exact .error rfl

end Alike

end Pass

/-! ## Trees that are left -/

/-- The first expression has the type, its groups carry what their operands carry, and the second
expression is the first without its groups. Whether it is a declaration is said beforehand. -/
structure Expr.Clears (declares : Bool) (ty : Ty) (e e' : Expr) : Prop where
  tree : e' = e.withoutGroups
  groups : e.GroupsMatch
  ty : e.node.ty = some ty
  declares : e.isDeclaration = declares

theorem Expr.Clears.isTypeName_eq {d : Bool} {ty : Ty} {e e' : Expr} (h : Clears d ty e e') :
    e'.isTypeName = e.isTypeName := by
  rw [h.tree, isTypeName, isTypeName, h.groups.binding_eq]

theorem Expr.isDeclaration_setNode (n : Node) (e : Expr) :
    (e.setNode n).isDeclaration = e.isDeclaration := by
  cases e <;> rfl

theorem Pass.alike_resolve (e : Expr) {e' : Expr} {d : Bool} (hplain : e.isGroup = false)
    (hgroups : e.GroupsMatch) (htree : e' = e.withoutGroups) (hd : e.isDeclaration = d) (ty : Ty)
    (b : Option Binding) : Alike (Expr.Clears d) (resolve e ty b) (resolve e' ty b) := by
  have hnode := Expr.node_withoutGroups hplain
  have hclears : ∀ n : Node, n.ty = some ty →
      Expr.Clears d ty (e.setNode n) (e.withoutGroups.setNode n) := by
    intro n hn
    refine ⟨(Expr.withoutGroups_setNode hplain n).symm, hgroups.setNode hplain n, ?_, ?_⟩
    · rwa [Expr.node_setNode]
    · rwa [Expr.isDeclaration_setNode]
  rw [htree, resolve, resolve, Expr.location, Expr.location, hnode]
  refine .fill ?_
  cases b with
  | none => exact .done (hclears _ rfl)
  | some b =>
    simp only [Expr.node_setNode, Expr.location, Expr.setNode_setNode]
    exact .fill (.done (hclears _ rfl))

/-! ## Choices that see through groups -/

theorem CallForm.of_withoutGroups (b : Body) (target : Expr) :
    CallForm.of b target.withoutGroups = CallForm.of b target := by
  have hplain := target.isGroup_ungrouped
  rw [CallForm.of, CallForm.of, Expr.ungrouped_withoutGroups, ← Expr.withoutGroups_ungrouped]
  generalize target.ungrouped = e at hplain
  cases e with
  | unary n op e t =>
    rw [Expr.withoutGroups_unary (Expr.isGroup_unary.mp hplain)]
  | _ => rfl

theorem Expr.isAssignable_withoutGroups (e : Expr) :
    e.withoutGroups.isAssignable = e.isAssignable := by
  have hplain := e.isGroup_ungrouped
  rw [isAssignable, isAssignable, ungrouped_withoutGroups, ← withoutGroups_ungrouped]
  generalize e.ungrouped = e at hplain
  cases e with
  | unary n op e t =>
    rw [withoutGroups_unary (isGroup_unary.mp hplain)]
    rfl
  | _ => rfl

theorem same_expectAssignable (target : Expr) :
    SameUpTo BindError.withoutPlace (expectAssignable target)
      (expectAssignable target.withoutGroups) := by
  rw [expectAssignable, expectAssignable, Expr.isAssignable_withoutGroups]
  split
  · exact .refl _
  · exact .error rfl

theorem same_expectBool (ty : Ty) (l l' : Location) :
    SameUpTo BindError.withoutPlace (expectBool ty l) (expectBool ty l') := by
  rw [expectBool, expectBool]
  split
  · exact .refl _
  · exact .error rfl

theorem Registry.same_convert (r : Registry) (found expected : Ty) (l l' : Location) :
    SameUpTo BindError.withoutPlace (r.convert found expected l) (r.convert found expected l') := by
  rw [convert, convert]
  cases r.fit found expected with
  | some c => exact .refl _
  | none => exact .error rfl

/-- The places of the items count for the errors only. -/
theorem Registry.same_convertItems (r : Registry) (element : Ty) (tys : List Ty)
    {ls ls' : List Location} (h : ls.length = ls'.length) :
    SameUpTo BindError.withoutPlace (r.convertItems element (tys.zip ls))
      (r.convertItems element (tys.zip ls')) := by
  induction tys generalizing ls ls' with
  | nil => exact .refl _
  | cons ty tys ih =>
    cases ls with
    | nil =>
      rw [List.eq_nil_of_length_eq_zero h.symm]
      exact .refl _
    | cons l ls =>
      cases ls' with
      | nil => cases h
      | cons l' ls' =>
        exact (r.same_convert ty element l l').bind fun c ↦
          (ih (Nat.succ.inj h)).bind fun cs ↦ .refl _

namespace BindContext

variable {c : BindContext}

theorem same_declareByAssignment (c : BindContext) (target : Expr) (value : Ty) (s : Binder) :
    SameUpTo BindError.withoutPlace (c.declareByAssignment target value s)
      (c.declareByAssignment target.withoutGroups value s) := by
  have hplain := target.isGroup_ungrouped
  rw [declareByAssignment, declareByAssignment, Expr.ungrouped_withoutGroups]
  generalize target.location = l
  generalize target.withoutGroups.location = l'
  rw [← Expr.withoutGroups_ungrouped]
  generalize target.ungrouped = e at hplain
  -- an assignment that declares fails alike at either place
  have hdeclared : ∀ x, SameUpTo BindError.withoutPlace
      (if value.isStorable then .ok (s.change fun b ↦ b.declare x value)
        else .error (.invalidDeclaration x l))
      (if value.isStorable then .ok (s.change fun b ↦ b.declare x value)
        else .error (.invalidDeclaration x l')) := by
    intro x
    split
    · exact .refl _
    · exact .error rfl
  cases e with
  | name n x =>
    simp only [Expr.withoutGroups]
    split
    · exact .refl _
    · exact hdeclared x
  | variableRef n x =>
    simp only [Expr.withoutGroups]
    split
    · exact .refl _
    · exact hdeclared x
  | unary n op e t =>
    rw [Expr.withoutGroups_unary (Expr.isGroup_unary.mp hplain)]
    exact .refl _
  | _ => exact .refl _

theorem same_functionTarget (c : BindContext) (s : Binder) (name : String) (args : List Ty)
    (target target' l : Location) :
    SameUpTo BindError.withoutPlace (c.functionTarget s name args target l)
      (c.functionTarget s name args target' l) := by
  rw [functionTarget, functionTarget]
  split
  · exact .error rfl
  · exact .refl _

/-! ## Lists -/

/-- What is left of the name of a method and its owner: the name stays unbound, with the groups
around it. -/
structure ClearsOwner (_ : Ty × Bool) (e e' : Expr) : Prop where
  tree : e' = e.withoutGroups
  groups : e.GroupsMatch
  node : ∃ l, e.node = .at l
  declares : e.isDeclaration = false

/-- A group around something unbound, unbound itself, carries what it carries. -/
theorem groupMatches_of_unbound {e : Expr} (hnode : ∃ l, e.node = .at l)
    (hdeclares : e.isDeclaration = false) (l : Location) (t : Option OperatorTarget) :
    (Expr.unary (.at l) .group e t).GroupMatches := by
  obtain ⟨l', hl'⟩ := hnode
  refine ⟨?_, ?_, hdeclares⟩
  · rw [hl']
    rfl
  · rw [hl']
    rfl

variable (c) in
/-- Binding the expression is like binding it without its groups: as a value, as a declaration and
as what a method is called on. -/
structure ExprAlike (e : Expr) : Prop where
  value : e.Written → Pass.Alike (Expr.Clears false) (c.expr e) (c.expr e.withoutGroups)
  declared : e.WrittenDeclaration →
    Pass.Alike (Expr.Clears true) (c.expr e) (c.expr e.withoutGroups)
  owned : ∀ n target x, e.Written → e.ungrouped = .member n target x →
    Pass.Alike ClearsOwner (c.owner e) (c.owner e.withoutGroups)

/-- The statements that are left: the groups in the first ones carry what their operands carry, and
the second ones are the first without their groups. -/
def ClearsAll (_ : Unit) (sts sts' : List Statement) : Prop :=
  sts' = statementsWithoutGroups sts ∧ statementsEverywhere Expr.GroupMatches (fun _ ↦ True) sts

variable (c) in
/-- Binding the statement is like binding it without its groups. -/
def StatementAlike (st : Statement) : Prop :=
  st.Written → Pass.Alike
    (fun _ st st' ↦ st' = st.withoutGroups ∧ st.Everywhere Expr.GroupMatches fun _ ↦ True)
    (c.statement st) (c.statement st.withoutGroups)

theorem args_cons {e : Expr} (he : ∀ n, e ≠ .empty n) (es : List Expr) :
    c.args (e :: es) = (c.expr e).within (· :: es) fun e ty ↦
      (c.args es).within (e :: ·) fun es tys ↦ .done (e :: es) (ty :: tys) := by
  cases e with
  | empty n => exact absurd rfl (he n)
  | _ => rfl

/-- A group of the grammar is never around something left out. -/
theorem ne_empty_of_written {e : Expr} (h : e.Written) : ∀ n, e.withoutGroups ≠ .empty n := by
  induction e using Expr.ungroup_induction with
  | hgroup n e t ih =>
    cases h with
    | unary he =>
      rw [Expr.withoutGroups_group]
      exact ih he
  | hplain e hplain =>
    cases h with
    | @unary l op e he =>
      rw [Expr.withoutGroups_unary (Expr.isGroup_unary.mp hplain)]
      exact nofun
    | _ => exact nofun

theorem alike_args {es : List Expr} (hes : ∀ e ∈ es, ExprAlike c e) (hw : WrittenItems es) :
    Pass.Alike (fun _ es es' ↦ es' = exprsWithoutGroups es ∧
        exprsEverywhere Expr.GroupMatches (fun _ ↦ True) es)
      (c.args es) (c.args (exprsWithoutGroups es)) := by
  induction es with
  | nil => exact .done ⟨rfl, trivial⟩
  | cons e es ih =>
    obtain ⟨he, hes⟩ := List.forall_mem_cons.mp hes
    obtain ⟨hwe, hwes⟩ := List.forall_mem_cons.mp hw
    by_cases homit : e.Omitted
    · obtain ⟨l, rfl⟩ := homit
      exact .stop rfl
    · have hempty : ∀ n, e ≠ .empty n := by
        rintro n rfl
        exact nomatch hwe homit
      rw [exprsWithoutGroups, args_cons hempty, args_cons (ne_empty_of_written (hwe homit))]
      refine (he.value (hwe homit)).within fun ty e e' h ↦ ?_
      refine (ih hes hwes).within fun tys es es' hes' ↦ .done ⟨?_, h.groups, hes'.2⟩
      rw [h.tree, hes'.1, exprsWithoutGroups]

theorem alike_exprs {es : List Expr} (hes : ∀ e ∈ es, ExprAlike c e)
    (hw : ∀ e ∈ es, e.WrittenDeclaration) :
    Pass.Alike (fun _ es es' ↦ es' = exprsWithoutGroups es ∧
        exprsEverywhere Expr.GroupMatches (fun _ ↦ True) es)
      (c.exprs es) (c.exprs (exprsWithoutGroups es)) := by
  induction es with
  | nil => exact .done ⟨rfl, trivial⟩
  | cons e es ih =>
    obtain ⟨he, hes⟩ := List.forall_mem_cons.mp hes
    obtain ⟨hwe, hwes⟩ := List.forall_mem_cons.mp hw
    refine (he.declared hwe).within fun ty e e' h ↦ ?_
    refine (ih hes hwes).within fun _ es es' hes' ↦ .done ⟨?_, h.groups, hes'.2⟩
    rw [h.tree, hes'.1, exprsWithoutGroups]

theorem alike_optional {o : Option Expr} (ho : ∀ e ∈ o, ExprAlike c e) (hw : ∀ e ∈ o, e.Written) :
    Pass.Alike (fun _ o o' ↦ o' = optionWithoutGroups o ∧
        optionEverywhere Expr.GroupMatches (fun _ ↦ True) o)
      (c.optional o) (c.optional (optionWithoutGroups o)) := by
  cases o with
  | none => exact .done ⟨rfl, trivial⟩
  | some e =>
    rw [optionWithoutGroups, optional, optional]
    refine ((ho e rfl).value (hw e rfl)).within fun ty e e' h ↦ ?_
    rw [h.tree]
    exact .done ⟨rfl, h.groups⟩

theorem alike_statements {sts : List Statement} (hsts : ∀ st ∈ sts, StatementAlike c st)
    (hw : ∀ st ∈ sts, st.Written) :
    Pass.Alike ClearsAll (c.statements sts) (c.statements (statementsWithoutGroups sts)) := by
  induction sts with
  | nil => exact .done ⟨rfl, trivial⟩
  | cons st sts ih =>
    obtain ⟨hst, hsts⟩ := List.forall_mem_cons.mp hsts
    obtain ⟨hwst, hwsts⟩ := List.forall_mem_cons.mp hw
    refine (hst hwst).within fun _ st st' h ↦ ?_
    refine (ih hsts hwsts).within fun _ sts sts' hsts' ↦ .done ⟨?_, h.2, hsts'.2⟩
    rw [h.1, hsts'.1, statementsWithoutGroups]

theorem alike_alternative {o : Option Statement} (ho : ∀ st ∈ o, StatementAlike c st)
    (hw : ∀ st ∈ o, st.Written) :
    Pass.Alike (fun _ o o' ↦ o' = alternativeWithoutGroups o ∧
        alternativeEverywhere Expr.GroupMatches (fun _ ↦ True) o)
      (c.alternative o) (c.alternative (alternativeWithoutGroups o)) := by
  cases o with
  | none => exact .done ⟨rfl, trivial⟩
  | some st =>
    refine (Pass.Alike.inScope (ho st rfl (hw st rfl))).within fun _ st st' h ↦ .done ⟨?_, h.2⟩
    rw [h.1, alternativeWithoutGroups]

/-! ## The type at the end -/

theorem trailingTy_eq (body : List Statement) :
    trailingTy body = match body.getLast? with
      | some (.expr e) => if e.isDeclaration then .void else e.node.ty.getD .void
      | _ => .void := by
  rw [trailingTy]
  rcases body.getLast? with _ | st
  · rfl
  · cases st with
    | expr e =>
      cases e with
      | _ => rfl
    | _ => rfl

/-- Groups around the last expression do not change its type. -/
theorem trailingTy_withoutGroups {body : List Statement}
    (h : statementsEverywhere Expr.GroupMatches (fun _ ↦ True) body) :
    trailingTy (statementsWithoutGroups body) = trailingTy body := by
  rw [trailingTy_eq, trailingTy_eq, statementsWithoutGroups_eq_map, List.getLast?_map]
  rcases hlast : body.getLast? with _ | st
  · rfl
  · have hst := statementsEverywhere_iff.mp h st (List.mem_of_getLast? hlast)
    cases st with
    | expr e =>
      have hgroups : e.GroupsMatch := hst.2
      simp only [Option.map_some, Statement.withoutGroups, hgroups.isDeclaration_eq, hgroups.ty_eq]
    | _ => rfl

/-! ## Expressions -/

theorem node_of_written {e : Expr} (h : e.Written) : ∃ l, e.node = .at l := by
  cases h <;> exact ⟨_, rfl⟩

theorem isDeclaration_of_written {e : Expr} (h : e.Written) : e.isDeclaration = false := by
  cases h <;> rfl

/-- A name that is called stays unbound, with the groups around it. -/
theorem groupsMatch_of_name {e : Expr} (h : e.Written) {n : Node} {x : String}
    (hx : e.ungrouped = .name n x) : e.GroupsMatch := by
  induction e using Expr.ungroup_induction with
  | hgroup m e t ih =>
    cases h with
    | unary he =>
      exact ⟨groupMatches_of_unbound (node_of_written he) (isDeclaration_of_written he) _ _,
        ih he hx⟩
  | hplain e hplain =>
    rw [Expr.ungrouped_of_isGroup hplain] at hx
    subst hx
    trivial

theorem withoutGroups_of_isChain {e : Expr} (h : e.IsChain) : e.withoutGroups = e := by
  induction h with
  | name hx => rfl
  | member _ hx ih => rw [Expr.withoutGroups, ih]

theorem groupsMatch_of_isChain {e : Expr} (h : e.IsChain) : e.GroupsMatch := by
  induction h with
  | name hx => trivial
  | member _ hx ih => exact ⟨trivial, ih⟩

theorem isGroup_of_isChain {e : Expr} (h : e.IsChain) : e.isGroup = false := by
  cases h <;> rfl

/-- A form that is neither a declaration nor what a method is called on. -/
theorem ExprAlike.of_value {e : Expr}
    (value : e.Written → Pass.Alike (Expr.Clears false) (c.expr e) (c.expr e.withoutGroups))
    (hdeclare : ¬e.WrittenDeclaration) (hmember : ∀ n target x, e.ungrouped ≠ .member n target x) :
    ExprAlike c e where
  value := value
  declared hw := absurd hw hdeclare
  owned n target x _ hx := absurd hx (hmember n target x)

/-- What is left of a group carries what is left of its operand. -/
theorem alike_group {l : Location} {e : Expr}
    (ih : Pass.Alike (Expr.Clears false) (c.expr e) (c.expr e.withoutGroups)) :
    Pass.Alike (Expr.Clears false) (c.expr (.unary (.at l) .group e none))
      (c.expr e.withoutGroups) := by
  intro s
  have hs := ih s
  have hexpr : c.expr (.unary (.at l) .group e none)
      = (c.expr e).within (.unary (.at l) .group · none) fun e ty ↦
        .resolve (.unary (.at l) .group e (some ⟨.transparent, []⟩)) ty e.node.binding := rfl
  rw [hexpr, Pass.within]
  generalize c.expr e s = b at hs
  generalize c.expr e.withoutGroups s = b' at hs
  cases hs with
  | @ok t u s ty h =>
    -- the node of the group is fresh, so recording the operand's type and storage cannot fail
    have hresolve : Pass.resolve (.unary (.at l) .group t (some ⟨.transparent, []⟩)) ty
        t.node.binding s = ⟨.unary ⟨l, some ty, t.node.binding⟩ .group t
          (some ⟨.transparent, []⟩), s, .ok ty⟩ := by
      refine Pass.gives_resolve.mpr ⟨rfl, fun _ ↦ rfl, ?_, rfl, rfl⟩
      simp [Expr.setNode, Expr.node, Node.resolve, Node.at]
    simp only [hresolve]
    exact .ok ⟨by rw [h.tree, Expr.withoutGroups_group], ⟨⟨h.ty.symm, rfl, h.declares⟩, h.groups⟩,
      rfl, rfl⟩
  | error h => exact .error h

theorem alike_named (e : Expr) (hplain : e.isGroup = false) (hgroups : e.GroupsMatch)
    (htree : e.withoutGroups = e) (hd : e.isDeclaration = false) (x : String)
    (find : Binder → Option Binding) :
    Pass.Alike (Expr.Clears false) (named e x find) (named e x find) :=
  .look (fun _ ↦ .refl _) fun b ↦ Pass.alike_resolve e hplain hgroups htree.symm hd b.ty (some b)

theorem alike_recordCall {place : Option CallTarget} {t : CallTarget} {l : Location}
    {node node' : Option CallTarget → Expr} (hplain : (node (some t)).isGroup = false)
    (hgroups : (node (some t)).GroupsMatch) (htree : node' (some t) = (node (some t)).withoutGroups)
    (hd : (node (some t)).isDeclaration = false) :
    Pass.Alike (Expr.Clears false) (recordCall place t l node) (recordCall place t l node') :=
  .fill (Pass.alike_resolve _ hplain hgroups htree hd t.ret none)

theorem alike_unary {n : Node} {op : UnaryOp} {e : Expr} {t : Option OperatorTarget}
    (ih : ExprAlike c e) : ExprAlike c (.unary n op e t) where
  value hw := by
    cases hw with
    | unary he =>
      rcases hop : op.methodName? with _ | method
      · obtain rfl := UnaryOp.methodName?_eq_none.mp hop
        rw [Expr.withoutGroups_group]
        exact alike_group (ih.value he)
      · have hgroup : op ≠ .group := by
          rintro rfl
          cases hop
        rw [Expr.withoutGroups_unary hgroup]
        simp only [expr, hop]
        refine (ih.value he).within fun ty e e' h ↦ .check ?_ fun r ↦ .fill ?_
        · rw [h.tree, h.groups.binding_eq]
          exact .refl _
        · obtain ⟨rfl, hgroups, -, -⟩ := h
          have hplain : ∀ n t, (Expr.unary n op e t).isGroup = false :=
            fun _ _ ↦ Expr.isGroup_unary.mpr hgroup
          exact Pass.alike_resolve _ (hplain _ _)
            ⟨Expr.groupMatches_of_isGroup (hplain _ _), hgroups⟩
            (Expr.withoutGroups_unary hgroup _ _ _).symm rfl _ _
  declared hw := nomatch hw
  owned m target x hw hx := by
    cases hw with
    | unary he =>
      cases op with
      | group =>
        rw [Expr.withoutGroups_group]
        intro s
        have hs := ih.owned m target x he hx s
        rw [owner, Pass.within]
        generalize c.owner e s = b at hs
        generalize c.owner e.withoutGroups s = b' at hs
        cases hs with
        | @ok t u s o h =>
          obtain ⟨rfl, hgroups, hnode, hdeclares⟩ := h
          exact .ok ⟨(Expr.withoutGroups_group _ t _).symm,
            ⟨groupMatches_of_unbound hnode hdeclares _ _, hgroups⟩, ⟨_, rfl⟩, rfl⟩
        | error h => exact .error h
      | _ => cases hx

theorem alike_member {n : Node} {target : Expr} {x : String} (ih : ExprAlike c target) :
    ExprAlike c (.member n target x) where
  value hw := by
    cases hw with
    | member ht _ =>
      refine (ih.value ht).within fun ty target target' h ↦ .check ?_ fun b ↦ ?_
      · rw [h.isTypeName_eq]
        exact .refl _
      · obtain ⟨rfl, hgroups, -, -⟩ := h
        exact Pass.alike_resolve (.member _ target x) rfl ⟨trivial, hgroups⟩ rfl rfl _ _
  declared hw := nomatch hw
  owned m o y hw hx := by
    cases hw with
    | member ht _ =>
      refine (ih.value ht).within fun ty target target' h ↦ ?_
      rw [h.isTypeName_eq]
      obtain ⟨rfl, hgroups, -, -⟩ := h
      exact .done ⟨rfl, ⟨trivial, hgroups⟩, ⟨_, rfl⟩, rfl⟩

theorem alike_binary {l : Location} {op : BinaryOp} {a b : Expr} (iha : ExprAlike c a)
    (ihb : ExprAlike c b) (ha : a.Written) (hb : b.Written) :
    Pass.Alike (Expr.Clears false) (c.expr (.binary (.at l) op a b none))
      (c.expr (.binary (.at l) op a.withoutGroups b.withoutGroups none)) := by
  refine (iha.value ha).within fun left a a' ha ↦ (ihb.value hb).within fun right b b' hb ↦ ?_
  obtain ⟨rfl, hga, -, -⟩ := ha
  obtain ⟨rfl, hgb, -, -⟩ := hb
  refine .check (.refl _) fun t ↦ .fill ?_
  exact Pass.alike_resolve (.binary _ op a b _) rfl ⟨trivial, hga, hgb⟩ rfl rfl _ _

theorem alike_coalesce {l : Location} {a b : Expr} (iha : ExprAlike c a) (ihb : ExprAlike c b)
    (ha : a.Written) (hb : b.Written) :
    Pass.Alike (Expr.Clears false) (c.expr (.coalesce (.at l) a b))
      (c.expr (.coalesce (.at l) a.withoutGroups b.withoutGroups)) := by
  refine (iha.value ha).within fun left a a' ha ↦ (ihb.value hb).within fun _ b b' hb ↦ ?_
  obtain ⟨rfl, hga, -, -⟩ := ha
  obtain ⟨rfl, hgb, -, -⟩ := hb
  exact Pass.alike_resolve (.coalesce _ a b) rfl ⟨trivial, hga, hgb⟩ rfl rfl _ _

theorem alike_ternary {l : Location} {x a b : Expr} (ihx : ExprAlike c x) (iha : ExprAlike c a)
    (ihb : ExprAlike c b) (hx : x.Written) (ha : a.Written) (hb : b.Written) :
    Pass.Alike (Expr.Clears false) (c.expr (.ternary (.at l) x a b none))
      (c.expr (.ternary (.at l) x.withoutGroups a.withoutGroups b.withoutGroups none)) := by
  refine (ihx.value hx).within fun ty x x' hx ↦ .check (same_expectBool _ _ _) fun _ ↦ ?_
  refine (iha.value ha).within fun left a a' ha ↦ (ihb.value hb).within fun right b b' hb ↦ ?_
  obtain ⟨rfl, hgx, -, -⟩ := hx
  obtain ⟨rfl, hga, -, -⟩ := ha
  obtain ⟨rfl, hgb, -, -⟩ := hb
  have hgroups : ∀ v, (Expr.ternary (.at l) x a b v).GroupsMatch := fun _ ↦
    ⟨trivial, hgx, hga, hgb⟩
  refine .check (.refl _) fun t ↦ ?_
  rcases t.2 with _ | v
  · exact Pass.alike_resolve (.ternary _ x a b _) rfl (hgroups _) rfl rfl _ _
  · exact .fill (Pass.alike_resolve (.ternary _ x a b _) rfl (hgroups _) rfl rfl _ _)

theorem alike_assign {l : Location} {target v : Expr} (iht : ExprAlike c target)
    (ihv : ExprAlike c v) (ht : target.Written) (hv : v.Written) :
    Pass.Alike (Expr.Clears false) (c.expr (.assign (.at l) target v none))
      (c.expr (.assign (.at l) target.withoutGroups v.withoutGroups none)) := by
  refine (ihv.value hv).within fun value v v' hv ↦ ?_
  refine .look (c.same_declareByAssignment target value) fun s ↦ .change ?_
  refine (iht.value ht).within fun ty target target' ht ↦ ?_
  obtain ⟨rfl, hgv, -, -⟩ := hv
  obtain ⟨rfl, hgt, -, -⟩ := ht
  refine .check (same_expectAssignable target) fun _ ↦ .check (.refl _) fun k ↦ .fill ?_
  exact Pass.alike_resolve (.assign _ target v _) rfl ⟨trivial, hgt, hgv⟩ rfl rfl _ _

/-- A call has the same form with and without groups around what is called. -/
theorem alike_call {l : Location} {target : Expr} {args : List Expr} (ih : ExprAlike c target)
    (ihs : ∀ e ∈ args, ExprAlike c e) (ht : target.Written) (hargs : WrittenItems args) :
    Pass.Alike (Expr.Clears false) (c.expr (.call (.at l) target args none))
      (c.expr (.call (.at l) target.withoutGroups (exprsWithoutGroups args) none)) := by
  refine (alike_args ihs hargs).within fun types args args' hargs ↦ fun s ↦ ?_
  obtain ⟨rfl, hgargs⟩ := hargs
  rw [CallForm.of_withoutGroups]
  cases hform : CallForm.of s.body target with
  | function x =>
    obtain ⟨n, hn⟩ := CallForm.of_function hform
    have hgroups := groupsMatch_of_name ht hn
    refine Pass.Alike.check (c.same_functionTarget s x types _ _ l) (fun t ↦ ?_) s
    exact alike_recordCall rfl ⟨trivial, hgroups, hgargs⟩ rfl rfl
  | method x =>
    obtain ⟨n, o, ho⟩ := CallForm.of_method hform
    refine Pass.Alike.within (ih.owned n o x ht ho) (fun owner target target' ht ↦ ?_) s
    obtain ⟨rfl, hgroups, -, -⟩ := ht
    refine .check (.refl _) fun t ↦ ?_
    exact alike_recordCall rfl ⟨trivial, hgroups, hgargs⟩ rfl rfl
  | value =>
    refine Pass.Alike.within (ih.value ht) (fun ty target target' ht ↦ ?_) s
    obtain ⟨rfl, hgroups, -, -⟩ := ht
    refine .check (.refl _) fun t ↦ ?_
    exact alike_recordCall rfl ⟨trivial, hgroups, hgargs⟩ rfl rfl

/-- The type behind `new` has no groups. -/
theorem alike_new {l : Location} {target : Expr} {args : List Expr} (ih : ExprAlike c target)
    (ihs : ∀ e ∈ args, ExprAlike c e) (ht : target.IsChain) (hargs : WrittenItems args) :
    Pass.Alike (Expr.Clears false) (c.expr (.new (.at l) target args none))
      (c.expr (.new (.at l) target.withoutGroups (exprsWithoutGroups args) none)) := by
  -- what is left of the type is related to itself, so it is the same tree on both sides
  have hconstructed : ∀ target ty, target.GroupsMatch → target = target.withoutGroups →
      Pass.Alike (Expr.Clears false)
        ((c.args args).within (.new (.at l) target · none) fun args types ↦
          .check (.new (.at l) target args none) (c.registry.constructorTarget ty types l)
            fun t ↦ recordCall none t l (.new (.at l) target args))
        ((c.args (exprsWithoutGroups args)).within (.new (.at l) target · none) fun args types ↦
          .check (.new (.at l) target args none) (c.registry.constructorTarget ty types l)
            fun t ↦ recordCall none t l (.new (.at l) target args)) := by
    intro target ty hgroups hsame
    refine (alike_args ihs hargs).within fun types args args' hargs ↦ ?_
    obtain ⟨rfl, hgargs⟩ := hargs
    refine .check (.refl _) fun t ↦ alike_recordCall rfl ⟨trivial, hgroups, hgargs⟩ ?_ rfl
    rw [Expr.withoutGroups, ← hsame]
  have hvalue := ih.value ht.written
  rw [withoutGroups_of_isChain ht] at hvalue ⊢
  rw [expr, expr]
  dsimp only
  cases target.qualifiedName?.bind c.registry.resolve? with
  | some ty =>
    have hresolve := (Pass.alike_resolve target (isGroup_of_isChain ht)
      (groupsMatch_of_isChain ht) (withoutGroups_of_isChain ht).symm rfl ty
      (some (.typeName ty))).self
    refine hresolve.within fun ty target target' h ↦ ?_
    obtain ⟨⟨htree, hgroups, -, -⟩, rfl⟩ := h
    exact hconstructed target' ty hgroups htree
  | none =>
    refine hvalue.self.within fun ty target target' h ↦ ?_
    obtain ⟨⟨htree, hgroups, -, -⟩, rfl⟩ := h
    exact .check (.refl _) fun _ ↦ hconstructed target' ty hgroups htree

theorem alike_index {l : Location} {target : Expr} {args : List Expr} (ih : ExprAlike c target)
    (ihs : ∀ e ∈ args, ExprAlike c e) (ht : target.Written) (hargs : WrittenItems args) :
    Pass.Alike (Expr.Clears false) (c.expr (.index (.at l) target args none))
      (c.expr (.index (.at l) target.withoutGroups (exprsWithoutGroups args) none)) := by
  refine (ih.value ht).within fun ty target target' ht ↦ ?_
  refine (alike_args ihs hargs).within fun types args args' hargs ↦ ?_
  obtain ⟨rfl, hgroups, -, -⟩ := ht
  obtain ⟨rfl, hgargs⟩ := hargs
  refine .check (.refl _) fun t ↦ ?_
  exact alike_recordCall rfl ⟨trivial, hgroups, hgargs⟩ rfl rfl

theorem alike_declare {l : Location} {x : String} {written : Option TypeExpr} {init : Option Expr}
    (ih : ∀ e ∈ init, ExprAlike c e) (hinit : ∀ e ∈ init, e.Written) :
    Pass.Alike (Expr.Clears true) (c.expr (.declare (.at l) x written init none))
      (c.expr (.declare (.at l) x written (optionWithoutGroups init) none)) := by
  refine .check (.refl _) fun declared ↦ ?_
  refine (alike_optional ih hinit).within fun initial init init' hinit ↦ ?_
  obtain ⟨rfl, hgroups⟩ := hinit
  refine .check (.refl _) fun t ↦ .fill (.look (fun _ ↦ .refl _) fun slot ↦ .change ?_)
  exact Pass.alike_resolve (.declare _ x written init _) rfl ⟨trivial, hgroups⟩ rfl rfl _ _

theorem alike_array {l : Location} {written : Option TypeExpr} {items : List Expr}
    (ih : ∀ e ∈ items, ExprAlike c e) (hitems : WrittenItems items) :
    Pass.Alike (Expr.Clears false) (c.expr (.array (.at l) written items none))
      (c.expr (.array (.at l) written (exprsWithoutGroups items) none)) := by
  refine .check (.refl _) fun declared ↦ ?_
  refine (alike_args ih hitems).within fun types items items' hitems ↦ ?_
  obtain ⟨rfl, hgroups⟩ := hitems
  refine .check ?_ fun t ↦ .fill ?_
  · refine (SameUpTo.refl _).bind fun element ↦ SameUpTo.bind ?_ fun cs ↦ .refl _
    refine c.registry.same_convertItems element types ?_
    rw [exprsWithoutGroups_eq_map, List.length_map, List.length_map, List.length_map]
  · exact Pass.alike_resolve (.array _ written items _) rfl ⟨trivial, hgroups⟩ rfl rfl _ _

theorem alike_lambda {l : Location} {params : List Param} {body : List Statement}
    (ih : ∀ st ∈ body, StatementAlike c st) (hbody : ∀ st ∈ body, st.Written) :
    Pass.Alike (Expr.Clears false) (c.expr (.lambda (.at l) params body))
      (c.expr (.lambda (.at l) params (statementsWithoutGroups body))) := by
  refine .check (.refl _) fun typed ↦ ?_
  refine (Pass.Alike.inBody _ (alike_statements ih hbody)).within fun r body body' hbody ↦ ?_
  obtain ⟨rfl, hgroups⟩ := hbody
  exact Pass.alike_resolve (.lambda _ params body) rfl ⟨trivial, hgroups⟩ rfl rfl _ _

theorem alike_block {l : Location} {body : List Statement}
    (ih : ∀ st ∈ body, StatementAlike c st) (hbody : ∀ st ∈ body, st.Written) :
    Pass.Alike (Expr.Clears false) (c.expr (.block (.at l) body))
      (c.expr (.block (.at l) (statementsWithoutGroups body))) := by
  refine (Pass.Alike.inScope (alike_statements ih hbody)).within fun _ body body' hbody ↦ ?_
  obtain ⟨rfl, hgroups⟩ := hbody
  rw [trailingTy_withoutGroups hgroups]
  exact Pass.alike_resolve (.block _ body) rfl ⟨trivial, hgroups⟩ rfl rfl _ _

/-! ## Statements -/

theorem alike_cond {l : Location} {x : Expr} {a : Statement} {b : Option Statement}
    (ihx : ExprAlike c x) (iha : StatementAlike c a) (ihb : ∀ st ∈ b, StatementAlike c st)
    (hx : x.Written) (ha : a.Written) (hb : ∀ st ∈ b, st.Written) :
    Pass.Alike
      (fun _ st st' ↦ st' = st.withoutGroups ∧ st.Everywhere Expr.GroupMatches fun _ ↦ True)
      (c.statement (.cond l x a b))
      (c.statement (.cond l x.withoutGroups a.withoutGroups (alternativeWithoutGroups b))) := by
  refine (ihx.value hx).within fun ty x x' hx ↦ .check (same_expectBool _ _ _) fun _ ↦ ?_
  refine (Pass.Alike.inScope (iha ha)).within fun _ a a' ha ↦ ?_
  refine (alike_alternative ihb hb).within fun _ b b' hb ↦ ?_
  obtain ⟨rfl, hgx, -, -⟩ := hx
  obtain ⟨rfl, hga⟩ := ha
  obtain ⟨rfl, hgb⟩ := hb
  exact .done ⟨rfl, trivial, hgx, hga, hgb⟩

theorem alike_ret {l : Location} {value : Option Expr} (ih : ∀ e ∈ value, ExprAlike c e)
    (hvalue : ∀ e ∈ value, e.Written) :
    Pass.Alike
      (fun _ st st' ↦ st' = st.withoutGroups ∧ st.Everywhere Expr.GroupMatches fun _ ↦ True)
      (c.statement (.ret l value none))
      (c.statement (.ret l (optionWithoutGroups value) none)) := by
  refine (alike_optional ih hvalue).within fun ty value value' hvalue ↦ ?_
  obtain ⟨rfl, hgroups⟩ := hvalue
  refine .look (fun _ ↦ .refl _) fun r ↦ .change (.fill ?_)
  exact .done ⟨rfl, trivial, hgroups⟩

theorem alike_function {l : Location} {signature : Signature} {body : List Statement}
    (ih : ∀ st ∈ body, StatementAlike c st) (hbody : ∀ st ∈ body, st.Written) :
    Pass.Alike
      (fun _ st st' ↦ st' = st.withoutGroups ∧ st.Everywhere Expr.GroupMatches fun _ ↦ True)
      (c.statement (.function l signature body))
      (c.statement (.function l signature (statementsWithoutGroups body))) := by
  refine .check (.refl _) fun params ↦ .check (.refl _) fun ret ↦ ?_
  refine .look (fun _ ↦ .refl _) fun index ↦ .change ?_
  refine (Pass.Alike.inBody _ (alike_statements ih hbody)).within fun r body body' hbody ↦ ?_
  obtain ⟨rfl, hgroups⟩ := hbody
  exact .change (.done ⟨rfl, trivial, hgroups⟩)

/-- Every form is bound like the form without groups if its parts are. -/
theorem tree_alike (c : BindContext) : Tree.Cases (ExprAlike c) (StatementAlike c) where
  literal n v := .of_value (fun _ ↦ Pass.alike_resolve (.literal n v) rfl trivial rfl rfl _ _)
    nofun nofun
  null n := .of_value (fun _ ↦ Pass.alike_resolve (.null n) rfl trivial rfl rfl _ _) nofun nofun
  this n := .of_value (fun _ ↦ by
    rw [Expr.withoutGroups, expr]
    cases c.this with
    | none => exact .stop rfl
    | some ty => exact Pass.alike_resolve (.this n) rfl trivial rfl rfl _ _) nofun nofun
  empty n := .of_value (fun hw ↦ nomatch hw) nofun nofun
  name n x := .of_value (fun _ ↦ alike_named (.name n x) rfl trivial rfl rfl _ _) nofun nofun
  variableRef n x :=
    .of_value (fun _ ↦ alike_named (.variableRef n x) rfl trivial rfl rfl _ _) nofun nofun
  constantRef n x :=
    .of_value (fun _ ↦ alike_named (.constantRef n x) rfl trivial rfl rfl _ _) nofun nofun
  member n target x ih := alike_member ih
  unary n op e t ih := alike_unary ih
  binary n op a b t iha ihb := .of_value (fun hw ↦ by
    cases hw with
    | binary ha hb => exact alike_binary iha ihb ha hb) nofun nofun
  coalesce n a b iha ihb := .of_value (fun hw ↦ by
    cases hw with
    | coalesce ha hb => exact alike_coalesce iha ihb ha hb) nofun nofun
  ternary n x a b v ihx iha ihb := .of_value (fun hw ↦ by
    cases hw with
    | ternary hx ha hb => exact alike_ternary ihx iha ihb hx ha hb) nofun nofun
  assign n target v k iht ihv := .of_value (fun hw ↦ by
    cases hw with
    | assign ht hv => exact alike_assign iht ihv ht hv) nofun nofun
  call n target args t ih ihs := .of_value (fun hw ↦ by
    cases hw with
    | call ht _ hargs => exact alike_call ih ihs ht hargs) nofun nofun
  new n target args t ih ihs := .of_value (fun hw ↦ by
    cases hw with
    | new ht _ hargs => exact alike_new ih ihs ht hargs) nofun nofun
  index n target args t ih ihs := .of_value (fun hw ↦ by
    cases hw with
    | index ht _ hargs => exact alike_index ih ihs ht hargs) nofun nofun
  declare n x written init k ih :=
    { value := fun hw ↦ nomatch hw
      declared := fun hw ↦ by
        cases hw with
        | declare _ hinit => exact alike_declare ih hinit
      owned := fun _ _ _ hw ↦ nomatch hw }
  array n written items cs ih := .of_value (fun hw ↦ by
    cases hw with
    | array _ hitems => exact alike_array ih hitems) nofun nofun
  lambda n params body ih := .of_value (fun hw ↦ by
    cases hw with
    | lambda hbody => exact alike_lambda ih hbody) nofun nofun
  block n body ih := .of_value (fun hw ↦ by
    cases hw with
    | block hbody => exact alike_block ih hbody) nofun nofun
  exprStatement e ih := fun hw ↦ by
    cases hw with
    | expr he =>
      refine (ih.value he).within fun ty e e' h ↦ .done ⟨?_, trivial, h.groups⟩
      rw [h.tree, Statement.withoutGroups]
  blockStatement l body ih := fun hw ↦ by
    cases hw with
    | block hbody =>
      refine (Pass.Alike.inScope (alike_statements ih hbody)).within fun _ body body' h ↦
        .done ⟨?_, trivial, h.2⟩
      rw [h.1, Statement.withoutGroups]
  cond l x a b ihx iha ihb := fun hw ↦ by
    cases hw with
    | cond hx ha hb => exact alike_cond ihx iha ihb hx ha hb
  ret l value k ih := fun hw ↦ by
    cases hw with
    | ret hvalue => exact alike_ret ih hvalue
  throw l value ih := fun hw ↦ by
    cases hw with
    | throw hvalue =>
      refine (alike_optional ih hvalue).within fun _ value value' h ↦ .done ⟨?_, trivial, h.2⟩
      rw [h.1, Statement.withoutGroups]
  vars l declarations ih := fun hw ↦ by
    cases hw with
    | vars hd =>
      refine (alike_exprs ih hd).within fun _ ds ds' h ↦ .done ⟨?_, trivial, h.2⟩
      rw [h.1, Statement.withoutGroups]
  function l signature body ih := fun hw ↦ by
    cases hw with
    | function hbody => exact alike_function ih hbody

/-- A program of the grammar is bound like the program without groups: with the same type, functions
and tree but for its groups, or with the same error but for its place. -/
theorem alike_program (c : BindContext) {p : Program} (hp : ∀ st ∈ p, st.Written) :
    Pass.Alike (fun _ ↦ ClearsAll ()) (c.program p) (c.program (statementsWithoutGroups p)) := by
  refine (alike_statements (fun st _ ↦ (tree_alike c).statement st) hp).within
    fun _ p p' h ↦ ?_
  obtain ⟨rfl, hgroups⟩ := h
  rw [trailingTy_withoutGroups hgroups]
  exact .done ⟨rfl, hgroups⟩

end BindContext

end Scriptlet
