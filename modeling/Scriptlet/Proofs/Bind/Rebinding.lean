import Scriptlet.Proofs.Bind.Places
import Scriptlet.Proofs.Tree.Everywhere
import Scriptlet.Proofs.Tree.Groups
import Scriptlet.Registry.Primitive
import Scriptlet.Script

/-!
# Binding a bound program again

A program that was bound cannot be bound once more. The walk comes upon a place that is filled
before it writes anything, and stops there. What stands before the first place, in the order of the
walk, are bodies of functions without a statement that binding records anything at, throws without a
value and the like; they come out the second time as they did the first time.

How the first binding went is given by its outcome, and the second binding is followed beside it.
The binder of the second one may know less: then a name can be unknown to it, or a call can be taken
for that of a function, and it stops earlier, but still without having written anything.
-/

namespace Scriptlet

/-! ## Programs without places -/

/-- The statement is a return. -/
def Statement.IsReturn : Statement → Prop
  | .ret .. => True
  | _ => False

instance : DecidablePred Statement.IsReturn
  | .ret .. => .isTrue trivial
  | .expr _ | .block .. | .cond .. | .throw .. | .vars .. | .function .. => .isFalse id

/-- There is no expression and no return in the statement. -/
def Statement.Silent (st : Statement) : Prop :=
  st.Everywhere (fun _ ↦ False) fun st ↦ ¬st.IsReturn

instance : DecidablePred Statement.Silent := Statement.decideEverywhere _ _

namespace Statement

variable {l : Location} {body : List Statement}

theorem silent_block : (Statement.block l body).Silent ↔ ∀ st ∈ body, st.Silent := by
  simp [Silent, IsReturn]

theorem silent_function {signature : Signature} :
    (Statement.function l signature body).Silent ↔ ∀ st ∈ body, st.Silent := by
  simp [Silent, IsReturn]

theorem not_silent_expr {e : Expr} : ¬(Statement.expr e).Silent :=
  fun h ↦ Expr.Everywhere.here h.2

theorem not_silent_cond {x : Expr} {a : Statement} {b : Option Statement} :
    ¬(Statement.cond l x a b).Silent :=
  fun h ↦ Expr.Everywhere.here h.2.1

theorem not_silent_ret {value : Option Expr} {k : Option (Option Conversion)} :
    ¬(Statement.ret l value k).Silent :=
  fun h ↦ h.1 trivial

theorem silent_throw {value : Option Expr} :
    (Statement.throw l value).Silent ↔ value = none := by
  cases value with
  | none => simp [Silent, IsReturn]
  | some e =>
    refine iff_of_false (fun h ↦ ?_) (Option.some_ne_none e)
    exact Expr.Everywhere.here (optionEverywhere_iff.mp h.2 e rfl)

theorem silent_vars {declarations : List Expr} :
    (Statement.vars l declarations).Silent ↔ declarations = [] := by
  cases declarations with
  | nil => simp [Silent, IsReturn]
  | cons e es =>
    refine iff_of_false (fun h ↦ ?_) (List.cons_ne_nil e es)
    exact Expr.Everywhere.here (exprsEverywhere_iff.mp h.2 e List.mem_cons_self)

end Statement

/-! ## Binders side by side -/

namespace Binder

variable {s s' s₁ s₁' : Binder}

/-- The names that are variables or parameters to the first binder are so to the second one. -/
def KnowsNoMore (s₁ s : Binder) : Prop :=
  ∀ x, (s₁.body.storage? x).isSome → (s.body.storage? x).isSome

theorem KnowsNoMore.refl (s : Binder) : s.KnowsNoMore s := fun _ h ↦ h

theorem KnowsNoMore.of_body (h : s₁.body = s.body) : s₁.KnowsNoMore s := by
  rw [KnowsNoMore, h]
  exact fun _ h ↦ h

theorem start_knowsNoMore (s : Binder) : start.KnowsNoMore s :=
  fun _ h ↦ absurd h Bool.false_ne_true

theorem KnowsNoMore.pushScope (h : s₁.KnowsNoMore s) :
    (s₁.change Body.pushScope).KnowsNoMore (s.change Body.pushScope) :=
  h

/-- Two bindings, from `s` to `s'` and from `s₁` to `s₁'`, left the bodies as they were, and did the
same if they began in the same state. -/
structure Beside (s s' s₁ s₁' : Binder) : Prop where
  body : s'.body = s.body
  outer : s'.outer = s.outer
  body' : s₁'.body = s₁.body
  outer' : s₁'.outer = s₁.outer
  same : s₁ = s → s₁' = s'

theorem Beside.refl (s s₁ : Binder) : Beside s s s₁ s₁ := ⟨rfl, rfl, rfl, rfl, id⟩

theorem Beside.knowsNoMore (hb : Beside s s' s₁ s₁') (h : s₁.KnowsNoMore s) :
    s₁'.KnowsNoMore s' := by
  rw [KnowsNoMore, hb.body, hb.body']
  exact h

theorem Beside.trans {s'' s₁'' : Binder} (h : Beside s s' s₁ s₁') (k : Beside s' s'' s₁' s₁'') :
    Beside s s'' s₁ s₁'' :=
  ⟨k.body.trans h.body, k.outer.trans h.outer, k.body'.trans h.body', k.outer'.trans h.outer',
    fun hs ↦ k.same (h.same hs)⟩

theorem Beside.scope (h : Beside (s.change Body.pushScope) s' (s₁.change Body.pushScope) s₁') :
    Beside s (s'.change Body.popScope) s₁ (s₁'.change Body.popScope) := by
  refine ⟨?_, h.outer, ?_, h.outer', fun hs ↦ by rw [h.same (by rw [hs])]⟩
  · rw [change, h.body]
    rfl
  · rw [change, h.body']
    rfl

theorem Beside.leave {b : Body} (h : Beside (s.enter b) s' (s₁.enter b) s₁') :
    Beside s s'.leave s₁ s₁'.leave := by
  refine ⟨?_, ?_, ?_, ?_, fun hs ↦ by rw [h.same (by rw [hs])]⟩
  · rw [leave_eq h.outer]
  · rw [leave_eq h.outer]
  · rw [leave_eq h.outer']
  · rw [leave_eq h.outer']

end Binder

/-! ## Steps that stop -/

namespace Pass

variable {T U α β σ : Type} {exact : Prop} {s s₁ : Binder}

/-- The step fails and gives the tree back that it was given. If the binders began in the same
state, the error is that a place was filled already. -/
structure Refuses (m : Pass T α) (s₁ : Binder) (tree : T) (exact : Prop) : Prop where
  tree : (m s₁).tree = tree
  answer : ∃ e, (m s₁).answer = .error e ∧ (exact → ∃ l, e = .alreadyResolved l)

theorem Refuses.mono {m : Pass T α} {tree : T} {exact' : Prop} (h : m.Refuses s₁ tree exact)
    (hexact : exact' → exact) : m.Refuses s₁ tree exact' := by
  obtain ⟨e, he, hl⟩ := h.answer
  exact ⟨h.tree, e, he, fun h ↦ hl (hexact h)⟩

theorem Refuses.of_eq {m m' : Pass T α} {tree : T} (h : m'.Refuses s₁ tree exact)
    (heq : m s₁ = m' s₁) : m.Refuses s₁ tree exact := by
  refine ⟨?_, ?_⟩ <;> rw [heq]
  · exact h.tree
  · exact h.answer

theorem Refuses.within {m : Pass T α} {whole : T → U} {next : T → α → Pass U β} {tree : T}
    (h : m.Refuses s₁ tree exact) : (m.within whole next).Refuses s₁ (whole tree) exact := by
  obtain ⟨e, he, hl⟩ := h.answer
  constructor
  · rw [Pass.within, he, h.tree]
  · exact ⟨e, by rw [Pass.within, he], hl⟩

theorem refuses_then {m : Pass T α} {whole : T → U} {next : T → α → Pass U β} {tree : T} {u : U}
    {s₂ : Binder} {a : α} (hm : m.Gives s₁ tree s₂ a) (h : (next tree a).Refuses s₂ u exact) :
    (m.within whole next).Refuses s₁ u exact := by
  rw [Gives] at hm
  obtain ⟨e, he, hl⟩ := h.answer
  constructor
  · rw [Pass.within, hm]
    exact h.tree
  · refine ⟨e, ?_, hl⟩
    rw [Pass.within, hm]
    exact he

theorem refuses_look {tree : U} {test : Binder → Except BindError α} {next : α → Pass U β}
    (hok : exact → ∃ a, test s₁ = .ok a)
    (hnext : ∀ a, test s₁ = .ok a → (next a).Refuses s₁ tree exact) :
    (look tree test next).Refuses s₁ tree exact := by
  rcases htest : test s₁ with e | a
  · refine ⟨by rw [look, htest], e, by rw [look, htest], fun h ↦ ?_⟩
    obtain ⟨a, ha⟩ := hok h
    rw [htest] at ha
    cases ha
  · obtain ⟨e, he, hl⟩ := (hnext a htest).answer
    constructor
    · rw [look, htest]
      exact (hnext a htest).tree
    · refine ⟨e, ?_, hl⟩
      rw [look, htest]
      exact he

theorem refuses_check {tree : U} {result : Except BindError α} {next : α → Pass U β}
    (hok : exact → ∃ a, result = .ok a)
    (hnext : ∀ a, result = .ok a → (next a).Refuses s₁ tree exact) :
    (check tree result next).Refuses s₁ tree exact :=
  refuses_look hok hnext

theorem refuses_change {f : Binder → Binder} {next : Pass U β} {tree : U}
    (h : next.Refuses (f s₁) tree exact) : (change f next).Refuses s₁ tree exact :=
  ⟨h.tree, h.answer⟩

/-- What was found the first time is found again. -/
theorem refuses_check_ok {tree : U} {result : Except BindError α} {a : α} {next : α → Pass U β}
    (ha : result = .ok a) (hnext : (next a).Refuses s₁ tree exact) :
    (check tree result next).Refuses s₁ tree exact := by
  refine refuses_check (fun _ ↦ ⟨a, ha⟩) fun b hb ↦ ?_
  obtain rfl := Except.ok.inj (ha.symm.trans hb)
  exact hnext

/-- A place that is filled is what a second binding comes upon. -/
theorem refuses_fill {place : Option σ} {old value : σ} {l : Location} {node : Option σ → U}
    {next : U → Pass U β} {tree : U} (h : place = some old) (htree : node place = tree) :
    (fill place value l node next).Refuses s₁ tree exact := by
  subst h htree
  exact ⟨rfl, _, rfl, fun _ ↦ ⟨l, rfl⟩⟩

theorem refuses_resolve {e : Expr} {old ty : Ty} {binding : Option Binding}
    (h : e.node.ty = some old) : (resolve e ty binding).Refuses s₁ e exact := by
  rw [resolve]
  refine refuses_fill h ?_
  cases e <;> rfl

theorem Refuses.inScope {m : Pass T α} {tree : T}
    (h : m.Refuses (s₁.change Body.pushScope) tree exact) :
    (Pass.inScope m).Refuses s₁ tree exact :=
  ⟨h.tree, h.answer⟩

theorem Refuses.inBody {body : Body} {m : Pass T α} {tree : T}
    (h : m.Refuses (s₁.enter body) tree exact) : (Pass.inBody body m).Refuses s₁ tree exact := by
  obtain ⟨e, he, hl⟩ := h.answer
  refine ⟨h.tree, e, ?_, hl⟩
  rw [Pass.inBody]
  simp only [he]
  rfl

/-- Beside a first binding from `s` to `s'`, the step refuses the tree if it has places, and does
nothing to it otherwise. -/
structure Repeats (m : Pass T Unit) (s s' s₁ : Binder) (tree : T) (silent : Prop) : Prop where
  refuses : ¬silent → m.Refuses s₁ tree (s₁ = s)
  runs : silent → ∃ s₁', m.Gives s₁ tree s₁' () ∧ Binder.Beside s s' s₁ s₁'

theorem Refuses.repeats {m : Pass T Unit} {s s' : Binder} {tree : T} {silent : Prop}
    (h : m.Refuses s₁ tree (s₁ = s)) (hs : ¬silent) : m.Repeats s s' s₁ tree silent :=
  ⟨fun _ ↦ h, fun hsilent ↦ absurd hsilent hs⟩

end Pass

/-! ## Fuller trees are read alike -/

theorem Expr.qualifiedName?_setNode (n : Node) (e : Expr) :
    (e.setNode n).qualifiedName? = e.qualifiedName? := by
  cases e <;> rfl

namespace Expr.FillsTo

variable {e q : Expr}

theorem ungrouped (h : e.FillsTo q) : e.ungrouped.FillsTo q.ungrouped := by
  induction e using ungroup_induction generalizing q with
  | hgroup n e t ih =>
    cases h with
    | unary hn he ht =>
      rw [Expr.ungrouped, Expr.ungrouped]
      exact ih he
  | hplain e he =>
    have hq : q.isGroup = false := by cases h <;> exact he
    rwa [ungrouped_of_isGroup he, ungrouped_of_isGroup hq]

theorem qualifiedName?_eq (h : e.FillsTo q) : q.qualifiedName? = e.qualifiedName? := by
  induction e using Expr.qualifiedName?.induct generalizing q with
  | case1 n x =>
    cases h
    rfl
  | case2 n f x ih =>
    cases h with
    | member hn hf => rw [Expr.qualifiedName?, Expr.qualifiedName?, ih hf]
  | case3 e hname hmember =>
    cases h <;> first | rfl | exact absurd rfl (hname _ _) | exact absurd rfl (hmember _ _ _)

/-- The form of a call does not depend on how full its target is. -/
theorem callForm_eq (h : e.FillsTo q) (b : Body) : CallForm.of b q = CallForm.of b e := by
  have hu := h.ungrouped
  rw [CallForm.of, CallForm.of]
  generalize e.ungrouped = u at hu
  generalize q.ungrouped = v at hu
  cases hu <;> rfl

theorem location_eq (h : e.FillsTo q) : q.location = e.location := h.node.location

end Expr.FillsTo

namespace CallForm

variable {s s₁ : Binder} {e : Expr} {x : String}

/-- What is the call of a function to a binder is so to one that knows no more. -/
theorem of_eq_function (h : s₁.KnowsNoMore s) (hform : of s.body e = .function x) :
    of s₁.body e = .function x := by
  rw [of] at hform ⊢
  split at hform
  · rename_i y hy
    split at hform
    · cases hform
    · rename_i hknown
      rw [if_neg (mt (h y) hknown)]
      exact hform
  · cases hform
  · cases hform

theorem of_eq_method (hform : of s.body e = .method x) : of s₁.body e = .method x := by
  rw [of] at hform ⊢
  split at hform
  · split at hform <;> cases hform
  · exact hform
  · cases hform

theorem exists_member (hform : of s.body e = .method x) :
    ∃ n f x, e.ungrouped = .member n f x := by
  rw [of] at hform
  split at hform
  · split at hform <;> cases hform
  · rename_i n f y hy
    exact ⟨n, f, y, hy⟩
  · cases hform

/-- What is the call of a value to a binder can be that of a function to one that knows less. -/
theorem of_ne_method (hform : of s.body e = .value) : ∀ x, of s₁.body e ≠ .method x := by
  intro x hx
  rw [of_eq_method hx] at hform
  cases hform

end CallForm

/-! ## The walk -/

namespace BindContext

open Pass

variable {c : BindContext} {s s' s₁ : Binder}

/-- Binding the expression refuses what binding left of it, or something fuller. So does binding it
as what a method is called on. -/
structure ExprRefuses (c : BindContext) (e : Expr) : Prop where
  expr : ∀ {s s' s₁ : Binder} {e' q : Expr} {ty : Ty}, (c.expr e).Gives s e' s' ty →
    e'.FillsTo q → s₁.KnowsNoMore s → (c.expr q).Refuses s₁ q (s₁ = s)
  owner : ∀ {s s' s₁ : Binder} {e' q : Expr} {o : Ty × Bool}, (c.owner e).Gives s e' s' o →
    (∃ n f x, e.ungrouped = .member n f x) → e'.FillsTo q → s₁.KnowsNoMore s →
    (c.owner q).Refuses s₁ q (s₁ = s)

/-- The same of a statement, unless it is silent. -/
def StatementRepeats (c : BindContext) (st : Statement) : Prop :=
  ∀ {s s' s₁ : Binder} {st' q : Statement}, (c.statement st).Gives s st' s' () →
    st'.FillsTo q → s₁.KnowsNoMore s → (c.statement q).Repeats s s' s₁ q st.Silent

theorem args_refuses {es es' qs : List Expr} {tys : List Ty} (hes : ∀ e ∈ es, ExprRefuses c e)
    (hne : es ≠ []) (h : (c.args es).Gives s es' s' tys) (hq : List.Forall₂ Expr.FillsTo es' qs)
    (hk : s₁.KnowsNoMore s) : (c.args qs).Refuses s₁ qs (s₁ = s) := by
  cases es with
  | nil => exact absurd rfl hne
  | cons e es =>
    obtain ⟨e₁, es₁, s₂, ty, tys₁, he, -, rfl, -⟩ := of_gives_args_cons h
    cases hq with
    | @cons _ q _ qs hfirst hrest =>
      have hrefuses := (hes e List.mem_cons_self).expr he hfirst hk
      cases q with
      | empty n =>
        obtain ⟨err, herr, hl⟩ := hrefuses.answer
        refine ⟨rfl, _, rfl, fun hsame ↦ ?_⟩
        obtain ⟨l, rfl⟩ := hl hsame
        cases herr
      | _ => exact hrefuses.within

theorem exprs_refuses {es es' qs : List Expr} {u : Unit} (hes : ∀ e ∈ es, ExprRefuses c e)
    (hne : es ≠ []) (h : (c.exprs es).Gives s es' s' u) (hq : List.Forall₂ Expr.FillsTo es' qs)
    (hk : s₁.KnowsNoMore s) : (c.exprs qs).Refuses s₁ qs (s₁ = s) := by
  cases es with
  | nil => exact absurd rfl hne
  | cons e es =>
    obtain ⟨e₁, es₁, s₂, ty, he, -, rfl⟩ := of_gives_exprs_cons h
    cases hq with
    | cons hfirst hrest =>
      have hrefuses := (hes e List.mem_cons_self).expr he hfirst hk
      exact hrefuses.within

theorem optional_refuses {e : Expr} {o' q : Option Expr} {ty : Option Ty} (he : ExprRefuses c e)
    (h : (c.optional (some e)).Gives s o' s' ty) (hq : Option.Rel Expr.FillsTo o' q)
    (hk : s₁.KnowsNoMore s) : (c.optional q).Refuses s₁ q (s₁ = s) := by
  obtain ⟨e₁, ty₁, he₁, rfl, -⟩ := of_gives_optional_some h
  cases hq with
  | some hfirst =>
    rw [optional]
    exact (he.expr he₁ hfirst hk).within

theorem statements_repeats {sts sts' qs : List Statement}
    (hsts : ∀ st ∈ sts, StatementRepeats c st) (h : (c.statements sts).Gives s sts' s' ())
    (hq : List.Forall₂ Statement.FillsTo sts' qs) (hk : s₁.KnowsNoMore s) :
    (c.statements qs).Repeats s s' s₁ qs (∀ st ∈ sts, st.Silent) := by
  induction sts generalizing s s₁ sts' qs with
  | nil =>
    obtain ⟨rfl, rfl⟩ := of_gives_statements_nil h
    cases hq
    exact ⟨fun hno ↦ absurd (fun _ hst ↦ absurd hst List.not_mem_nil) hno,
      fun _ ↦ ⟨s₁, rfl, .refl _ _⟩⟩
  | cons st sts ih =>
    obtain ⟨hst, hsts⟩ := List.forall_mem_cons.mp hsts
    obtain ⟨st₁, sts₁, s₂, hfirst, hrest, rfl⟩ := of_gives_statements_cons h
    cases hq with
    | cons hqfirst hqrest =>
    have hrepeats := hst hfirst hqfirst hk
    -- a silent statement is passed over, and from equal states to equal states
    by_cases hsilent : st.Silent
    · obtain ⟨s₁', hruns, hbeside⟩ := hrepeats.runs hsilent
      have hafter := ih hsts hrest hqrest (hbeside.knowsNoMore hk)
      constructor
      · intro hno
        have hmore : ¬∀ st ∈ sts, st.Silent :=
          fun hall ↦ hno (List.forall_mem_cons.mpr ⟨hsilent, hall⟩)
        exact refuses_then hruns ((hafter.refuses hmore).mono hbeside.same).within
      · intro hall
        obtain ⟨s₂', hruns', hbeside'⟩ := hafter.runs (List.forall_mem_cons.mp hall).2
        refine ⟨s₂', ?_, hbeside.trans hbeside'⟩
        rw [statements, gives_within]
        exact ⟨_, s₁', (), hruns, gives_within.mpr ⟨_, s₂', (), hruns', rfl⟩⟩
    · exact (hrepeats.refuses hsilent).within.repeats fun hall ↦
        hsilent (hall st List.mem_cons_self)

theorem owner_refuses_unary {n : Node} {op : UnaryOp} {e e' q : Expr} {t : Option OperatorTarget}
    {o : Ty × Bool} (ih : ExprRefuses c e) (h : (c.owner (.unary n op e t)).Gives s e' s' o)
    (hmember : ∃ m f x, (Expr.unary n op e t).ungrouped = .member m f x) (hq : e'.FillsTo q)
    (hk : s₁.KnowsNoMore s) : (c.owner q).Refuses s₁ q (s₁ = s) := by
  cases op with
  | group =>
    obtain ⟨e₁, he, rfl⟩ := of_gives_owner_group h
    cases hq with
    | unary hn hfirst ht =>
      have hrefuses := ih.owner he hmember hfirst hk
      exact hrefuses.within
  | _ =>
    obtain ⟨m, f, x, hx⟩ := hmember
    cases hx

theorem refuses_recordCall {place : Option CallTarget} {old t : CallTarget} {l : Location}
    {node : Option CallTarget → Expr} {exact : Prop} (h : place = some old) :
    (recordCall place t l node).Refuses s₁ (node place) exact :=
  refuses_fill h rfl

/-- Binding makes an expression fuller. -/
theorem fillsTo_of_gives_expr {e e' : Expr} {ty : Ty} (h : (c.expr e).Gives s e' s' ty) :
    e.FillsTo e' := by
  have hfills := ((tree_fills c).expr e).expr e (fillsTo_self.expr e) s
  rwa [h] at hfills

theorem fillsTo_of_gives_owner {e e' : Expr} {o : Ty × Bool} (h : (c.owner e).Gives s e' s' o) :
    e.FillsTo e' := by
  have hfills := ((tree_fills c).expr e).owner e (fillsTo_self.expr e) s
  rwa [h] at hfills

/-- A call without arguments that was bound, read by the second binder in the form that it takes the
call for. -/
theorem refuses_call_nil {m : Node} {f : Expr} {place : Option CallTarget} {old : CallTarget}
    {exact : Prop} (hplace : place = some old)
    (hfunction : ∀ x, CallForm.of s₁.body f = .function x → exact →
      ∃ t, c.functionTarget s₁ x [] f.location m.location = .ok t)
    (hmethod : ∀ x, CallForm.of s₁.body f = .method x → (c.owner f).Refuses s₁ f exact)
    (hvalue : CallForm.of s₁.body f = .value → (c.expr f).Refuses s₁ f exact) :
    (c.expr (.call m f [] place)).Refuses s₁ (.call m f [] place) exact := by
  have hargs : (c.args []).Gives s₁ [] s₁ [] := rfl
  rw [expr]
  refine refuses_then hargs ?_
  cases hform : CallForm.of s₁.body f with
  | function x =>
    have hcheck : (check (.call m f [] place)
        (c.functionTarget s₁ x [] f.location m.location) fun t ↦
          recordCall place t m.location (.call m f [])).Refuses s₁ (.call m f [] place) exact :=
      refuses_check (hfunction x hform) fun t _ ↦ refuses_recordCall hplace
    exact hcheck.of_eq (by simp only [hform])
  | method x => exact Refuses.of_eq (hmethod x hform).within (by simp only [hform]; rfl)
  | value => exact Refuses.of_eq (hvalue hform).within (by simp only [hform]; rfl)

/-- A call is refused at its first argument or, without arguments, at what is called. -/
theorem call_refuses {n : Node} {target : Expr} {args : List Expr} {t : Option CallTarget}
    {e' q : Expr} {ty : Ty} (ih : ExprRefuses c target) (ihs : ∀ e ∈ args, ExprRefuses c e)
    (h : (c.expr (.call n target args t)).Gives s e' s' ty) (hq : e'.FillsTo q)
    (hk : s₁.KnowsNoMore s) : (c.expr q).Refuses s₁ q (s₁ = s) := by
  obtain ⟨args', types, s₂, target', found, hargs, -, rfl, hcases⟩ := of_gives_call h
  cases hq with
  | @call _ m _ f _ qs _ place hn hf hqs ht =>
  by_cases hne : args = []
  · subst hne
    obtain ⟨rfl, rfl, rfl⟩ := of_gives_args_nil hargs
    cases hqs
    have hform := hf.callForm_eq s₁.body
    -- what was the call of a value may be that of a function to a binder that knows less, and then
    -- the function is unknown or the place of its target is filled
    rcases hcases with ⟨x, hx, rfl, rfl, hfound⟩ | ⟨x, owner, isType, hx, ho, -⟩ | ⟨fty, hx, he, -⟩
    · have hsecond := hform.trans (CallForm.of_eq_function hk hx)
      refine refuses_call_nil ht.eq_some (fun y hy hsame ↦ ⟨found, ?_⟩) (fun y hy ↦ ?_) fun hy ↦ ?_
      · subst hsame
        obtain rfl := CallForm.function.inj (hy.symm.trans hsecond)
        rw [hf.location_eq, hn.location]
        exact hfound
      · cases hy.symm.trans hsecond
      · cases hy.symm.trans hsecond
    · have hsecond := hform.trans (((fillsTo_of_gives_owner ho).callForm_eq _).trans
        (CallForm.of_eq_method hx))
      refine refuses_call_nil ht.eq_some (fun y hy ↦ ?_) (fun y hy ↦ ?_) fun hy ↦ ?_
      · cases hy.symm.trans hsecond
      · exact ih.owner ho (CallForm.exists_member hx) hf hk
      · cases hy.symm.trans hsecond
    · have hsecond := hform.trans ((fillsTo_of_gives_expr he).callForm_eq _)
      refine refuses_call_nil ht.eq_some (fun y hy hsame ↦ ?_) (fun y hy ↦ ?_) fun hy ↦ ?_
      · subst hsame
        cases hy.symm.trans (hsecond.trans hx)
      · exact absurd (hsecond.symm.trans hy) (CallForm.of_ne_method hx y)
      · exact ih.expr he hf hk
  · have hrefuses := args_refuses ihs hne hargs hqs hk
    exact hrefuses.within

theorem new_refuses {n : Node} {target : Expr} {args : List Expr} {t : Option CallTarget}
    {e' q : Expr} {ty : Ty} (ih : ExprRefuses c target)
    (h : (c.expr (.new n target args t)).Gives s e' s' ty) (hq : e'.FillsTo q)
    (hk : s₁.KnowsNoMore s) : (c.expr q).Refuses s₁ q (s₁ = s) := by
  obtain ⟨target', made, s₂, args', types, found, -, -, -, rfl, hcases⟩ := of_gives_new h
  cases hq with
  | @new _ m _ f _ qs _ place hn hf hqs ht =>
  rcases hcases with ⟨hmade, rfl, rfl⟩ | ⟨hmade, htarget, -⟩
  · have hname : f.qualifiedName?.bind c.registry.resolve? = some made := by
      rw [hf.qualifiedName?_eq, Expr.qualifiedName?_setNode, hmade]
    have hty : f.node.ty = some made := by
      have hnode := hf.node.ty
      rw [Expr.node_setNode] at hnode
      exact hnode.eq_some
    rw [expr]
    simp only [hname]
    exact (refuses_resolve hty).within
  · have hname : f.qualifiedName?.bind c.registry.resolve? = none := by
      rw [hf.qualifiedName?_eq, (fillsTo_of_gives_expr htarget).qualifiedName?_eq, hmade]
    rw [expr]
    simp only [hname]
    exact (ih.expr htarget hf hk).within

theorem declare_refuses {n : Node} {x : String} {written : Option TypeExpr} {init : Option Expr}
    {k : Option (Option Conversion)} {e' q : Expr} {ty : Ty} (ih : ∀ e ∈ init, ExprRefuses c e)
    (h : (c.expr (.declare n x written init k)).Gives s e' s' ty) (hq : e'.FillsTo q)
    (hk : s₁.KnowsNoMore s) : (c.expr q).Refuses s₁ q (s₁ = s) := by
  obtain ⟨declared, init', s₂, initial, conversion, hwritten, hinit, hdeclared, -, rfl⟩ :=
    of_gives_declare h
  cases hq with
  | @declare _ m _ _ _ init₁ _ place hn hqinit hplace =>
  rw [expr]
  refine refuses_check_ok hwritten ?_
  cases init with
  | none =>
    obtain ⟨rfl, rfl, rfl⟩ := of_gives_optional_none hinit
    cases hqinit
    have hnone : (c.optional none).Gives s₁ none s₁ none := rfl
    have hagain : c.registry.declared x declared none m.location = .ok (ty, conversion) := by
      rw [hn.location]
      exact hdeclared
    exact refuses_then hnone (refuses_check_ok hagain (refuses_fill hplace.eq_some rfl))
  | some e => exact (optional_refuses (ih e rfl) hinit hqinit hk).within

theorem array_refuses {n : Node} {written : Option TypeExpr} {items : List Expr}
    {cs : Option Conversions} {e' q : Expr} {ty : Ty} (ih : ∀ e ∈ items, ExprRefuses c e)
    (h : (c.expr (.array n written items cs)).Gives s e' s' ty) (hq : e'.FillsTo q)
    (hk : s₁.KnowsNoMore s) : (c.expr q).Refuses s₁ q (s₁ = s) := by
  obtain ⟨declared, items', types, element, conversions, hwritten, hitems, helement, hconvert, -,
    rfl⟩ := of_gives_array h
  cases hq with
  | @array _ m _ _ qs _ place hn hqs hplace =>
  rw [expr]
  refine refuses_check_ok hwritten ?_
  by_cases hne : items = []
  · subst hne
    obtain ⟨rfl, rfl, rfl⟩ := of_gives_args_nil hitems
    cases hqs
    have hargs : (c.args []).Gives s₁ [] s₁ [] := rfl
    have hagain : elementTy declared [] m.location = .ok element := by
      rw [hn.location]
      exact helement
    refine refuses_then hargs (refuses_check_ok (a := (element, [])) ?_
      (refuses_fill hplace.eq_some rfl))
    rw [hagain]
    rfl
  · exact (args_refuses ih hne hitems hqs hk).within

/-- An expression that has no owner to be bound. -/
theorem exprRefuses_of_expr {e : Expr}
    (h : ∀ {s s' s₁ : Binder} {e' q : Expr} {ty : Ty}, (c.expr e).Gives s e' s' ty →
      e'.FillsTo q → s₁.KnowsNoMore s → (c.expr q).Refuses s₁ q (s₁ = s))
    (hplain : ∀ n f x, e.ungrouped ≠ .member n f x) : ExprRefuses c e :=
  ⟨h, fun _ ⟨n, f, x, hx⟩ ↦ absurd hx (hplain n f x)⟩

/-- A name that was found is looked up again, and then there is its type already. -/
theorem named_refuses {e e' q : Expr} {name : String} {find : Binder → Option Binding} {ty : Ty}
    (h : (named e name find).Gives s e' s' ty) (hq : e'.FillsTo q) (s₁ : Binder) :
    (named q name find).Refuses s₁ q (s₁ = s) := by
  obtain ⟨b, hb, rfl, -, -⟩ := of_gives_named h
  have hty : q.node.ty = some ty := by
    have hnode := hq.node.ty
    rw [Expr.node_setNode] at hnode
    exact hnode.eq_some
  refine refuses_look (fun hsame ↦ ⟨b, ?_⟩) fun b' _ ↦ refuses_resolve hty
  rw [hsame, hb]
  rfl

theorem unary_refuses {n : Node} {op : UnaryOp} {e e' q : Expr} {t : Option OperatorTarget}
    {ty : Ty} (ih : ExprRefuses c e) (h : (c.expr (.unary n op e t)).Gives s e' s' ty)
    (hq : e'.FillsTo q) (hk : s₁.KnowsNoMore s) : (c.expr q).Refuses s₁ q (s₁ = s) := by
  have hparts : ∃ e₁ s₂ operand m found, (c.expr e).Gives s e₁ s₂ operand ∧
      e' = .unary m op e₁ found := by
    cases hop : op.methodName? with
    | none =>
      obtain rfl := UnaryOp.methodName?_eq_none.mp hop
      obtain ⟨e₁, he, rfl⟩ := of_gives_group h
      exact ⟨_, _, _, _, _, he, rfl⟩
    | some method =>
      obtain ⟨e₁, operand, found, he, -, rfl⟩ := of_gives_unary hop h
      exact ⟨_, _, _, _, _, he, rfl⟩
  obtain ⟨e₁, s₂, operand, m, found, he, rfl⟩ := hparts
  cases hq with
  | unary hn hqe ht => exact (ih.expr he hqe hk).within

theorem lambda_refuses {n : Node} {params : List Param} {body : List Statement} {e' q : Expr}
    {ty : Ty} (ih : ∀ st ∈ body, StatementRepeats c st)
    (h : (c.expr (.lambda n params body)).Gives s e' s' ty) (hq : e'.FillsTo q) :
    (c.expr q).Refuses s₁ q (s₁ = s) := by
  obtain ⟨typed, body', s₂, htyped, hbody, -, -, rfl⟩ := of_gives_lambda h
  cases hq with
  | @lambda _ m _ _ body₁ hn hqbody =>
  have hrepeats := statements_repeats ih hbody hqbody
    (.of_body rfl : (s₁.enter _).KnowsNoMore _)
  have hlocation : m.location = n.location := hn.location
  rw [← hlocation] at htyped
  rw [expr]
  refine refuses_check_ok htyped ?_
  by_cases hsilent : ∀ st ∈ body, st.Silent
  · obtain ⟨s₂', hruns, -⟩ := hrepeats.runs hsilent
    have hinside := (gives_inBody (r := ((), s₂'.body))).mpr ⟨s₂', hruns, rfl, rfl⟩
    exact refuses_then hinside (refuses_resolve hn.ty.eq_some)
  · exact ((hrepeats.refuses hsilent).mono fun hs ↦ by rw [hs]).inBody.within

theorem block_refuses {n : Node} {body : List Statement} {e' q : Expr} {ty : Ty}
    (ih : ∀ st ∈ body, StatementRepeats c st) (h : (c.expr (.block n body)).Gives s e' s' ty)
    (hq : e'.FillsTo q) (hk : s₁.KnowsNoMore s) : (c.expr q).Refuses s₁ q (s₁ = s) := by
  obtain ⟨body', s₂, hbody, -, -, rfl⟩ := of_gives_block h
  cases hq with
  | @block _ m _ body₁ hn hqbody =>
  have hrepeats := statements_repeats ih hbody hqbody hk.pushScope
  by_cases hsilent : ∀ st ∈ body, st.Silent
  · obtain ⟨s₂', hruns, -⟩ := hrepeats.runs hsilent
    exact refuses_then (gives_inScope.mpr ⟨s₂', hruns, rfl⟩) (refuses_resolve hn.ty.eq_some)
  · exact ((hrepeats.refuses hsilent).mono fun hs ↦ by rw [hs]).inScope.within

theorem ret_refuses {l : Location} {value : Option Expr} {k : Option (Option Conversion)}
    {st' q : Statement} (ih : ∀ e ∈ value, ExprRefuses c e)
    (h : (c.statement (.ret l value k)).Gives s st' s' ()) (hq : st'.FillsTo q)
    (hk : s₁.KnowsNoMore s) : (c.statement q).Refuses s₁ q (s₁ = s) := by
  obtain ⟨value', s₂, ty, ret, conversion, hvalue, hret, -, rfl⟩ := of_gives_ret h
  cases hq with
  | @ret _ _ value₁ _ place hqvalue hplace =>
  cases value with
  | none =>
    obtain ⟨rfl, rfl, rfl⟩ := of_gives_optional_none hvalue
    cases hqvalue
    have hnone : (c.optional none).Gives s₁ none s₁ none := rfl
    refine refuses_then hnone (refuses_look (fun hsame ↦ ⟨(ret, conversion), ?_⟩) fun r _ ↦
      refuses_change (refuses_fill hplace.eq_some rfl))
    rw [hsame]
    exact hret
  | some e => exact (optional_refuses (ih e rfl) hvalue hqvalue hk).within

theorem block_repeats {l : Location} {body : List Statement}
    (ih : ∀ st ∈ body, StatementRepeats c st) : StatementRepeats c (.block l body) := by
  intro s s' s₁ st' q h hq hk
  obtain ⟨body', s₂, hbody, rfl, rfl⟩ := of_gives_block_statement h
  cases hq with
  | @block _ _ body₁ hqbody =>
  have hrepeats := statements_repeats ih hbody hqbody hk.pushScope
  constructor
  · intro hsilent
    exact ((hrepeats.refuses (mt Statement.silent_block.mpr hsilent)).mono
      fun hs ↦ by rw [hs]).inScope.within
  · intro hsilent
    obtain ⟨s₂', hruns, hbeside⟩ := hrepeats.runs (Statement.silent_block.mp hsilent)
    exact ⟨_, gives_within.mpr ⟨_, _, (), gives_inScope.mpr ⟨s₂', hruns, rfl⟩, rfl⟩,
      hbeside.scope⟩

theorem beside_register {s₂ s₂' : Binder} (signature : Signature) (params : List (String × Ty))
    (ret : Option Ty) (body body' : Body) (hbody : s₁ = s → body' = body)
    (h : Binder.Beside (registerEarly signature params ret s) s₂
      (registerEarly signature params ret s₁) s₂') :
    Binder.Beside s (registerLate signature params ret s.functions.length body s₂) s₁
      (registerLate signature params ret s₁.functions.length body' s₂') := by
  refine ⟨?_, ?_, ?_, ?_, fun hs ↦ ?_⟩
  · cases ret <;> exact h.body
  · cases ret <;> exact h.outer
  · cases ret <;> exact h.body'
  · cases ret <;> exact h.outer'
  · rw [h.same (by rw [hs]), hbody hs, hs]

theorem function_repeats {l : Location} {signature : Signature} {body : List Statement}
    (ih : ∀ st ∈ body, StatementRepeats c st) :
    StatementRepeats c (.function l signature body) := by
  intro s s' s₁ st' q h hq _
  obtain ⟨params, ret, body', s₂, hparams, hret, hbody, rfl, rfl⟩ := of_gives_function h
  cases hq with
  | @function _ _ _ body₁ hqbody =>
  have hknows : ((registerEarly signature params ret s₁).enter
      (.start params (returnOf ret))).KnowsNoMore
      ((registerEarly signature params ret s).enter (.start params (returnOf ret))) :=
    .of_body rfl
  have hrepeats := statements_repeats ih hbody hqbody hknows
  constructor
  · intro hsilent
    refine refuses_check_ok hparams (refuses_check_ok hret (refuses_look (fun _ ↦ ⟨_, rfl⟩)
      fun index _ ↦ refuses_change ?_))
    exact ((hrepeats.refuses (mt Statement.silent_function.mpr hsilent)).mono
      fun hs ↦ by rw [hs]).inBody.within
  · intro hsilent
    obtain ⟨s₂', hruns, hbeside⟩ := hrepeats.runs (Statement.silent_function.mp hsilent)
    have hinside := (gives_inBody (r := ((), s₂'.body))).mpr ⟨s₂', hruns, rfl, rfl⟩
    refine ⟨_, gives_check.mpr ⟨params, hparams, gives_check.mpr ⟨ret, hret, gives_look.mpr
      ⟨s₁.functions.length, rfl, gives_change.mpr (gives_within.mpr ⟨_, _, _, hinside, rfl⟩)⟩⟩⟩, ?_⟩
    refine beside_register signature params ret _ _ (fun hs ↦ ?_) hbeside.leave
    rw [hbeside.same (by rw [hs])]

/-- Every form is refused that was bound. -/
theorem tree_refuses (c : BindContext) : Tree.Cases (ExprRefuses c) (StatementRepeats c) where
  literal n v := by
    refine exprRefuses_of_expr (fun h hq _ ↦ ?_) fun _ _ _ ↦ nofun
    obtain ⟨rfl, -, -⟩ := of_gives_literal h
    cases hq with
    | literal hn => exact refuses_resolve hn.ty.eq_some
  null n := by
    refine exprRefuses_of_expr (fun h hq _ ↦ ?_) fun _ _ _ ↦ nofun
    obtain ⟨rfl, -, -⟩ := of_gives_null h
    cases hq with
    | null hn => exact refuses_resolve hn.ty.eq_some
  this n := by
    refine exprRefuses_of_expr (fun h hq _ ↦ ?_) fun _ _ _ ↦ nofun
    obtain ⟨rfl, -, hthis⟩ := of_gives_this h
    cases hq with
    | this hn =>
      rw [expr]
      simp only [hthis]
      exact refuses_resolve hn.ty.eq_some
  empty n := exprRefuses_of_expr (fun h _ _ ↦ absurd h not_gives_empty) fun _ _ _ ↦ nofun
  name n x := by
    refine exprRefuses_of_expr (fun h hq _ ↦ ?_) fun _ _ _ ↦ nofun
    have hrefuses := named_refuses (by rwa [expr] at h) hq
    obtain ⟨b, -, rfl, -⟩ := of_gives_name h
    cases hq with
    | name hn => exact hrefuses _
  variableRef n x := by
    refine exprRefuses_of_expr (fun h hq _ ↦ ?_) fun _ _ _ ↦ nofun
    have hrefuses := named_refuses (by rwa [expr] at h) hq
    obtain ⟨b, -, rfl, -⟩ := of_gives_variableRef h
    cases hq with
    | variableRef hn => exact hrefuses _
  constantRef n x := by
    refine exprRefuses_of_expr (fun h hq _ ↦ ?_) fun _ _ _ ↦ nofun
    have hrefuses := named_refuses (by rwa [expr] at h) hq
    obtain ⟨b, -, rfl, -⟩ := of_gives_constantRef h
    cases hq with
    | constantRef hn => exact hrefuses _
  member n target x ih := by
    constructor
    · intro s s' s₁ e' q ty h hq hk
      obtain ⟨target', owner, b, htarget, -, rfl, -⟩ := of_gives_member h
      cases hq with
      | member hn hqf => exact (ih.expr htarget hqf hk).within
    · intro s s' s₁ e' q o h _ hq hk
      obtain ⟨target', htarget, -, rfl⟩ := of_gives_owner_member h
      cases hq with
      | member hn hqf => exact (ih.expr htarget hqf hk).within
  unary n op e t ih := ⟨unary_refuses ih, owner_refuses_unary ih⟩
  binary n op a b t iha _ := by
    refine exprRefuses_of_expr (fun h hq hk ↦ ?_) fun _ _ _ ↦ nofun
    obtain ⟨a', b', s₂, left, right, found, ha, -, -, rfl⟩ := of_gives_binary h
    cases hq with
    | binary hn hqa hqb ht => exact (iha.expr ha hqa hk).within
  coalesce n a b iha _ := by
    refine exprRefuses_of_expr (fun h hq hk ↦ ?_) fun _ _ _ ↦ nofun
    obtain ⟨a', b', s₂, right, ha, -, rfl⟩ := of_gives_coalesce h
    cases hq with
    | coalesce hn hqa hqb => exact (iha.expr ha hqa hk).within
  ternary n x a b v ihx _ _ := by
    refine exprRefuses_of_expr (fun h hq hk ↦ ?_) fun _ _ _ ↦ nofun
    obtain ⟨x', a', b', s₂, s₃, onTrue, onFalse, found, hx, -, -, -, rfl⟩ := of_gives_ternary h
    cases hq with
    | ternary hn hqx hqa hqb hv => exact (ihx.expr hx hqx hk).within
  assign n target v k _ ihv := by
    refine exprRefuses_of_expr (fun h hq hk ↦ ?_) fun _ _ _ ↦ nofun
    obtain ⟨v', target', s₂, s₃, value, found, hv, -, -, -, -, rfl⟩ := of_gives_assign h
    cases hq with
    | assign hn hqf hqv hqk => exact (ihv.expr hv hqv hk).within
  call n target args t ih ihs := exprRefuses_of_expr (call_refuses ih ihs) fun _ _ _ ↦ nofun
  new n target args t ih _ := exprRefuses_of_expr (new_refuses ih) fun _ _ _ ↦ nofun
  index n target args t ih _ := by
    refine exprRefuses_of_expr (fun h hq hk ↦ ?_) fun _ _ _ ↦ nofun
    obtain ⟨target', s₂, container, args', types, found, htarget, -, -, -, rfl⟩ := of_gives_index h
    cases hq with
    | index hn hqf hqs ht => exact (ih.expr htarget hqf hk).within
  declare n x written init k ih := exprRefuses_of_expr (declare_refuses ih) fun _ _ _ ↦ nofun
  array n written items cs ih := exprRefuses_of_expr (array_refuses ih) fun _ _ _ ↦ nofun
  lambda n params body ih :=
    exprRefuses_of_expr (fun h hq _ ↦ lambda_refuses ih h hq) fun _ _ _ ↦ nofun
  block n body ih := exprRefuses_of_expr (block_refuses ih) fun _ _ _ ↦ nofun
  exprStatement e ih s s' s₁ st' q h hq hk := by
    obtain ⟨e₁, ty, he, rfl⟩ := of_gives_expr_statement h
    cases hq with
    | expr hqe => exact (ih.expr he hqe hk).within.repeats Statement.not_silent_expr
  blockStatement l body ih := block_repeats ih
  cond l x a b ihx _ _ s s' s₁ st' q h hq hk := by
    obtain ⟨x', a', b', s₂, s₃, hx, -, -, rfl⟩ := of_gives_cond h
    cases hq with
    | cond hqx hqa hqb => exact (ihx.expr hx hqx hk).within.repeats Statement.not_silent_cond
  ret l value k ih s s' s₁ st' q h hq hk :=
    (ret_refuses ih h hq hk).repeats Statement.not_silent_ret
  throw l value ih s s' s₁ st' q h hq hk := by
    obtain ⟨value', ty, hvalue, rfl⟩ := of_gives_throw h
    cases hq with
    | throw hqvalue =>
    cases value with
    | none =>
      obtain ⟨rfl, rfl, -⟩ := of_gives_optional_none hvalue
      cases hqvalue
      exact ⟨fun hno ↦ absurd (Statement.silent_throw.mpr rfl) hno, fun _ ↦ ⟨s₁, rfl, .refl _ _⟩⟩
    | some e =>
      exact (optional_refuses (ih e rfl) hvalue hqvalue hk).within.repeats
        (Statement.silent_throw.not.mpr (Option.some_ne_none e))
  vars l declarations ih s s' s₁ st' q h hq hk := by
    obtain ⟨declarations', hdeclarations, rfl⟩ := of_gives_vars h
    cases hq with
    | vars hqs =>
    by_cases hne : declarations = []
    · subst hne
      obtain ⟨rfl, rfl⟩ := of_gives_exprs_nil hdeclarations
      cases hqs
      exact ⟨fun hno ↦ absurd (Statement.silent_vars.mpr rfl) hno, fun _ ↦ ⟨s₁, rfl, .refl _ _⟩⟩
    · exact (exprs_refuses ih hne hdeclarations hqs hk).within.repeats
        (Statement.silent_vars.not.mpr hne)
  function l signature body ih := function_repeats ih

/-! ## Programs -/

/-- A program after some bindings, each with its types and its binder. -/
def bindAll (passes : List (BindContext × Binder)) (p : Program) : Program :=
  passes.foldl (fun p pass ↦ (pass.1.program p pass.2).tree) p

theorem fillsTo_bindAll {p₀ p : Program} (h : p₀.FillsTo p) (passes : List (BindContext × Binder)) :
    p₀.FillsTo (bindAll passes p) := by
  induction passes generalizing p with
  | nil => exact h
  | cons pass passes ih => exact ih (program_fills pass.1 h pass.2)

/-- A program with an expression or a return in it that was bound is refused. -/
theorem program_refuses {p q : Program} {ty : Ty} (h : (c.program p s).answer = .ok ty)
    (hp : ¬∀ st ∈ p, st.Silent) (hq : (c.program p s).tree.FillsTo q) (hk : s₁.KnowsNoMore s) :
    (c.program q).Refuses s₁ q (s₁ = s) := by
  rcases hb : c.program p s with ⟨p', s', answer⟩
  rw [hb] at h hq
  obtain rfl : answer = .ok ty := h
  have hgives : (c.program p).Gives s p' s' ty := hb
  rw [program, gives_within] at hgives
  obtain ⟨p₁, s₂, u, hstatements, hdone⟩ := hgives
  obtain ⟨rfl, -, -⟩ := gives_done.mp hdone
  have hrepeats := statements_repeats (fun st _ ↦ (tree_refuses c).statement st) hstatements hq hk
  exact (hrepeats.refuses hp).within

/-- Along any bindings, successful or not and by any binders, a place that is filled stays as it is.
And a program with an expression or a return in it that was bound stops every further binding from
the state in which the first one began, a fresh binder or another, at a place that is filled
already; a fresh binder stops at an error in any case. Neither fills a place, then or after more
bindings. -/
theorem places_filled_once (c : BindContext) (p : Program) :
    (∀ before after, (bindAll before p).FillsTo (bindAll (before ++ after) p)) ∧
    ∀ s ty, (c.program p s).answer = .ok ty → (∃ st ∈ p, ¬st.Silent) →
      ∀ q after, q = bindAll after (c.program p s).tree →
        ((c.program q s).tree = q ∧ ∃ l, (c.program q s).answer = .error (.alreadyResolved l)) ∧
        (bindProgram c q).tree = q ∧ ∃ e, (bindProgram c q).answer = .error e := by
  refine ⟨fun before after ↦ ?_, fun s ty h ⟨st, hst, hplaces⟩ q after hq ↦ ?_⟩
  · rw [bindAll, bindAll, List.foldl_append]
    exact fillsTo_bindAll (.refl _) after
  · have hsilent : ¬∀ st ∈ p, st.Silent := fun hall ↦ hplaces (hall st hst)
    have hfuller : (c.program p s).tree.FillsTo q := by
      rw [hq]
      exact fillsTo_bindAll (.refl _) after
    have hsame := program_refuses h hsilent hfuller (.refl s)
    have hfresh := program_refuses h hsilent hfuller (Binder.start_knowsNoMore s)
    obtain ⟨e, he, hl⟩ := hsame.answer
    obtain ⟨l, rfl⟩ := hl rfl
    obtain ⟨e, he', -⟩ := hfresh.answer
    exact ⟨⟨hsame.tree, l, he⟩, hfresh.tree, e, he'⟩

/-- A program with a declaration, an operator and a call is bound. A binder that has no types fails
on the bound program, at the name of a type, and a fresh one that has them fails behind it, at a
place that is filled. -/
theorem places_filled_once_of_failed_pass :
    let c : BindContext := ⟨.primitive, none⟩
    let other : BindContext := ⟨⟨[], [], 0⟩, none⟩
    ∃ p, parseProgram "function f(a: int): int => a + 1; var x: int = f(2) * 3; x" = .ok p ∧
      (bindProgram c p).answer = .ok .int ∧ (∃ st ∈ p, ¬st.Silent) ∧
      (bindProgram other (bindProgram c p).tree).answer = .error (.unknownType "int" ⟨1, 15⟩) ∧
      let q := bindAll [(other, .start)] (bindProgram c p).tree
      (bindProgram c p).tree.FillsTo q ∧ (bindProgram c q).tree = q ∧
        ∃ l, (bindProgram c q).answer = .error (.alreadyResolved l) := by
  intro c other
  have hrun : (parseProgram
      "function f(a: int): int => a + 1; var x: int = f(2) * 3; x").toOption.any
      (fun p ↦ decide ((bindProgram c p).answer = .ok .int) && p.any (fun st ↦ decide ¬st.Silent) &&
        decide ((bindProgram other (bindProgram c p).tree).answer
          = .error (.unknownType "int" ⟨1, 15⟩))) = true := by
    decide +kernel
  obtain ⟨p, hp, hrun⟩ := (Option.any_eq_true _ _).mp hrun
  simp only [Bool.and_eq_true, List.any_eq_true, decide_eq_true_eq] at hrun
  obtain ⟨⟨hfirst, hplaces⟩, hother⟩ := hrun
  obtain ⟨hfills, hagain⟩ := places_filled_once c p
  obtain ⟨hsame, -⟩ := hagain .start .int hfirst hplaces _ [(other, .start)] rfl
  exact ⟨p, ok_of_toOption hp, hfirst, hplaces, hother,
    hfills [(c, .start)] [(other, .start)], hsame⟩

end BindContext

end Scriptlet
