import Mathlib.Data.List.Forall2
import Scriptlet.Proofs.Bind.Success
import Scriptlet.Proofs.Tree.Induction

/-!
# Places are filled once

Binding fills places of a tree, and nothing takes back what stands in a place: not a binding that
fails, and not another one that comes after it, with whatever binder. So along any number of
bindings a tree only becomes fuller. The order of trees that says this has one rule for each form.
-/

namespace Scriptlet

/-! ## Fuller trees -/

/-- What the first place holds the second holds too. -/
def Kept {σ : Type} (a b : Option σ) : Prop := ∀ v ∈ a, b = some v

section Option

variable {σ : Type} {a b : Option σ} {v : σ}

theorem Kept.refl (a : Option σ) : Kept a a := fun _ h ↦ h

/-- What is written into an empty place takes nothing back. -/
theorem Kept.of_none (h : Kept a none) (b : Option σ) : Kept a b :=
  fun v hv ↦ absurd (h v hv) (Option.some_ne_none v).symm

theorem Kept.eq_some (h : Kept (some v) b) : b = some v := h v rfl

end Option

/-- The same of the places that every expression has. -/
structure Node.Kept (n m : Node) : Prop where
  location : m.location = n.location
  ty : Scriptlet.Kept n.ty m.ty
  binding : Scriptlet.Kept n.binding m.binding

theorem Node.Kept.refl (n : Node) : n.Kept n := ⟨rfl, .refl _, .refl _⟩

mutual

/-- The second expression is the first with perhaps more places filled: the same form with the same
texts and written types, and what a place of the first holds the second has in the same place. -/
inductive Expr.FillsTo : Expr → Expr → Prop where
  | literal {n m : Node} {v : Literal} (hn : n.Kept m) : Expr.FillsTo (.literal n v) (.literal m v)
  | name {n m : Node} {x : String} (hn : n.Kept m) : Expr.FillsTo (.name n x) (.name m x)
  | variableRef {n m : Node} {x : String} (hn : n.Kept m) :
      Expr.FillsTo (.variableRef n x) (.variableRef m x)
  | constantRef {n m : Node} {x : String} (hn : n.Kept m) :
      Expr.FillsTo (.constantRef n x) (.constantRef m x)
  | unary {n m : Node} {op : UnaryOp} {e e' : Expr} {t t' : Option OperatorTarget}
      (hn : n.Kept m) (he : Expr.FillsTo e e') (ht : Kept t t') :
      Expr.FillsTo (.unary n op e t) (.unary m op e' t')
  | binary {n m : Node} {op : BinaryOp} {a a' b b' : Expr} {t t' : Option OperatorTarget}
      (hn : n.Kept m) (ha : Expr.FillsTo a a') (hb : Expr.FillsTo b b') (ht : Kept t t') :
      Expr.FillsTo (.binary n op a b t) (.binary m op a' b' t')
  | coalesce {n m : Node} {a a' b b' : Expr} (hn : n.Kept m) (ha : Expr.FillsTo a a')
      (hb : Expr.FillsTo b b') : Expr.FillsTo (.coalesce n a b) (.coalesce m a' b')
  | ternary {n m : Node} {x x' a a' b b' : Expr} {v v' : Option BranchConversion}
      (hn : n.Kept m) (hx : Expr.FillsTo x x') (ha : Expr.FillsTo a a') (hb : Expr.FillsTo b b')
      (hv : Kept v v') : Expr.FillsTo (.ternary n x a b v) (.ternary m x' a' b' v')
  | assign {n m : Node} {f f' v v' : Expr} {k k' : Option (Option Conversion)}
      (hn : n.Kept m) (hf : Expr.FillsTo f f') (hv : Expr.FillsTo v v') (hk : Kept k k') :
      Expr.FillsTo (.assign n f v k) (.assign m f' v' k')
  | call {n m : Node} {f f' : Expr} {args args' : List Expr} {t t' : Option CallTarget}
      (hn : n.Kept m) (hf : Expr.FillsTo f f') (hargs : List.Forall₂ Expr.FillsTo args args')
      (ht : Kept t t') : Expr.FillsTo (.call n f args t) (.call m f' args' t')
  | new {n m : Node} {f f' : Expr} {args args' : List Expr} {t t' : Option CallTarget}
      (hn : n.Kept m) (hf : Expr.FillsTo f f') (hargs : List.Forall₂ Expr.FillsTo args args')
      (ht : Kept t t') : Expr.FillsTo (.new n f args t) (.new m f' args' t')
  | index {n m : Node} {f f' : Expr} {args args' : List Expr} {t t' : Option CallTarget}
      (hn : n.Kept m) (hf : Expr.FillsTo f f') (hargs : List.Forall₂ Expr.FillsTo args args')
      (ht : Kept t t') : Expr.FillsTo (.index n f args t) (.index m f' args' t')
  | member {n m : Node} {f f' : Expr} {x : String} (hn : n.Kept m) (hf : Expr.FillsTo f f') :
      Expr.FillsTo (.member n f x) (.member m f' x)
  | declare {n m : Node} {x : String} {ty : Option TypeExpr} {init init' : Option Expr}
      {k k' : Option (Option Conversion)} (hn : n.Kept m)
      (hinit : Option.Rel Expr.FillsTo init init') (hk : Kept k k') :
      Expr.FillsTo (.declare n x ty init k) (.declare m x ty init' k')
  | array {n m : Node} {ty : Option TypeExpr} {items items' : List Expr}
      {cs cs' : Option Conversions} (hn : n.Kept m)
      (hitems : List.Forall₂ Expr.FillsTo items items') (hcs : Kept cs cs') :
      Expr.FillsTo (.array n ty items cs) (.array m ty items' cs')
  | lambda {n m : Node} {params : List Param} {body body' : List Statement}
      (hn : n.Kept m) (hbody : List.Forall₂ Statement.FillsTo body body') :
      Expr.FillsTo (.lambda n params body) (.lambda m params body')
  | this {n m : Node} (hn : n.Kept m) : Expr.FillsTo (.this n) (.this m)
  | null {n m : Node} (hn : n.Kept m) : Expr.FillsTo (.null n) (.null m)
  | block {n m : Node} {body body' : List Statement} (hn : n.Kept m)
      (hbody : List.Forall₂ Statement.FillsTo body body') :
      Expr.FillsTo (.block n body) (.block m body')
  | empty {n m : Node} (hn : n.Kept m) : Expr.FillsTo (.empty n) (.empty m)

/-- The same of statements. -/
inductive Statement.FillsTo : Statement → Statement → Prop where
  | expr {e e' : Expr} (he : e.FillsTo e') : Statement.FillsTo (.expr e) (.expr e')
  | block {l : Location} {body body' : List Statement}
      (hbody : List.Forall₂ Statement.FillsTo body body') :
      Statement.FillsTo (.block l body) (.block l body')
  | cond {l : Location} {x x' : Expr} {a a' : Statement} {b b' : Option Statement}
      (hx : x.FillsTo x') (ha : Statement.FillsTo a a') (hb : Option.Rel Statement.FillsTo b b') :
      Statement.FillsTo (.cond l x a b) (.cond l x' a' b')
  | ret {l : Location} {value value' : Option Expr} {k k' : Option (Option Conversion)}
      (hvalue : Option.Rel Expr.FillsTo value value') (hk : Kept k k') :
      Statement.FillsTo (.ret l value k) (.ret l value' k')
  | throw {l : Location} {value value' : Option Expr}
      (hvalue : Option.Rel Expr.FillsTo value value') :
      Statement.FillsTo (.throw l value) (.throw l value')
  | vars {l : Location} {declarations declarations' : List Expr}
      (hdeclarations : List.Forall₂ Expr.FillsTo declarations declarations') :
      Statement.FillsTo (.vars l declarations) (.vars l declarations')
  | function {l : Location} {signature : Signature} {body body' : List Statement}
      (hbody : List.Forall₂ Statement.FillsTo body body') :
      Statement.FillsTo (.function l signature body) (.function l signature body')

end

/-- The same of programs. -/
abbrev Program.FillsTo (p q : Program) : Prop := List.Forall₂ Statement.FillsTo p q

theorem rel_self {α : Type} {R : α → α → Prop} {o : Option α} (h : ∀ a ∈ o, R a a) :
    Option.Rel R o o := by
  cases o with
  | none => exact .none
  | some a => exact .some (h a rfl)

/-- A tree is no fuller than itself. -/
theorem fillsTo_self : Tree.Cases (fun e ↦ e.FillsTo e) (fun st ↦ st.FillsTo st) where
  literal n _ := .literal (.refl n)
  name n _ := .name (.refl n)
  variableRef n _ := .variableRef (.refl n)
  constantRef n _ := .constantRef (.refl n)
  unary n _ _ t he := .unary (.refl n) he (.refl t)
  binary n _ _ _ t ha hb := .binary (.refl n) ha hb (.refl t)
  coalesce n _ _ ha hb := .coalesce (.refl n) ha hb
  ternary n _ _ _ v hx ha hb := .ternary (.refl n) hx ha hb (.refl v)
  assign n _ _ k hf hv := .assign (.refl n) hf hv (.refl k)
  call n _ _ t hf hargs := .call (.refl n) hf (List.forall₂_same.mpr hargs) (.refl t)
  new n _ _ t hf hargs := .new (.refl n) hf (List.forall₂_same.mpr hargs) (.refl t)
  index n _ _ t hf hargs := .index (.refl n) hf (List.forall₂_same.mpr hargs) (.refl t)
  member n _ _ hf := .member (.refl n) hf
  declare n _ _ _ k hinit := .declare (.refl n) (rel_self hinit) (.refl k)
  array n _ _ cs hitems := .array (.refl n) (List.forall₂_same.mpr hitems) (.refl cs)
  lambda n _ _ hbody := .lambda (.refl n) (List.forall₂_same.mpr hbody)
  this n := .this (.refl n)
  null n := .null (.refl n)
  block n _ hbody := .block (.refl n) (List.forall₂_same.mpr hbody)
  empty n := .empty (.refl n)
  exprStatement _ he := .expr he
  blockStatement _ _ hbody := .block (List.forall₂_same.mpr hbody)
  cond _ _ _ _ hx ha hb := .cond hx ha (rel_self hb)
  ret _ _ k hvalue := .ret (rel_self hvalue) (.refl k)
  throw _ _ hvalue := .throw (rel_self hvalue)
  vars _ _ h := .vars (List.forall₂_same.mpr h)
  function _ _ _ hbody := .function (List.forall₂_same.mpr hbody)

theorem Program.FillsTo.refl (p : Program) : p.FillsTo p :=
  List.forall₂_same.mpr fun st _ ↦ fillsTo_self.statement st

namespace Expr.FillsTo

variable {e e' : Expr}

theorem node (h : e.FillsTo e') : e.node.Kept e'.node := by
  cases h <;> assumption

theorem setNode (h : e.FillsTo e') {m : Node} (hm : e.node.Kept m) :
    e.FillsTo (e'.setNode m) := by
  cases h <;> constructor <;> assumption

end Expr.FillsTo

/-! ## Steps -/

namespace Pass

variable {T U α β σ : Type}

/-- Whatever the step does, the tree that it leaves has the property. -/
def Ensures (m : Pass T α) (P : T → Prop) : Prop := ∀ s, P (m s).tree

variable {P : T → Prop} {Q : U → Prop}

theorem ensures_done {tree : T} {a : α} (h : P tree) : (done tree a).Ensures P := fun _ ↦ h

theorem ensures_stop {tree : T} {e : BindError} (h : P tree) :
    (stop tree e : Pass T α).Ensures P :=
  fun _ ↦ h

theorem Ensures.within {m : Pass T α} {whole : T → U} {next : T → α → Pass U β}
    (hm : m.Ensures P) (hwhole : ∀ t, P t → Q (whole t))
    (hnext : ∀ t a, P t → (next t a).Ensures Q) : (m.within whole next).Ensures Q := by
  intro s
  rw [Pass.within]
  split
  · exact hnext _ _ (hm s) _
  · exact hwhole _ (hm s)

theorem ensures_look {tree : U} {test : Binder → Except BindError α} {next : α → Pass U β}
    (htree : Q tree) (hnext : ∀ a, (next a).Ensures Q) : (look tree test next).Ensures Q := by
  intro s
  rw [look]
  split
  · exact hnext _ _
  · exact htree

theorem ensures_check {tree : U} {result : Except BindError α} {next : α → Pass U β}
    (htree : Q tree) (hnext : ∀ a, (next a).Ensures Q) : (check tree result next).Ensures Q :=
  ensures_look htree hnext

theorem Ensures.change {f : Binder → Binder} {next : Pass U β} (h : next.Ensures Q) :
    (Pass.change f next).Ensures Q :=
  fun s ↦ h (f s)

/-- A step that fills a place is one on a node whose place is at most fuller. -/
theorem ensures_fill {before place : Option σ} {value : σ} {l : Location}
    {node : Option σ → U} {next : U → Pass U β} (hplace : Kept before place)
    (hnode : ∀ place, Kept before place → Q (node place))
    (hnext : ∀ place, Kept before place → (next (node place)).Ensures Q) :
    (fill place value l node next).Ensures Q := by
  cases place with
  | none => exact hnext (some value) (hplace.of_none _)
  | some old => exact ensures_stop (hnode (some old) hplace)

theorem Ensures.inScope {m : Pass T α} (h : m.Ensures P) : (Pass.inScope m).Ensures P :=
  fun s ↦ h (s.change Body.pushScope)

theorem Ensures.inBody {body : Body} {m : Pass T α} (h : m.Ensures P) :
    (Pass.inBody body m).Ensures P :=
  fun s ↦ h (s.enter body)

theorem ensures_resolve {e₀ e : Expr} (h : e₀.FillsTo e) (ty : Ty) (binding : Option Binding) :
    (resolve e ty binding).Ensures e₀.FillsTo := by
  have hnode := h.node
  refine ensures_fill hnode.ty (fun t ht ↦ h.setNode ⟨hnode.location, ht, hnode.binding⟩)
    fun t ht ↦ ?_
  split
  · exact ensures_done (h.setNode ⟨hnode.location, ht, hnode.binding⟩)
  · simp only [Expr.setNode_setNode, Expr.node_setNode]
    exact ensures_fill hnode.binding (fun b hb ↦ h.setNode ⟨hnode.location, ht, hb⟩)
      fun b hb ↦ ensures_done (h.setNode ⟨hnode.location, ht, hb⟩)

end Pass

/-! ## The walk -/

namespace BindContext

variable {c : BindContext} {e₀ : Expr}

theorem ensures_named {e : Expr} {name : String} {find : Binder → Option Binding}
    (h : e₀.FillsTo e) : (named e name find).Ensures e₀.FillsTo :=
  Pass.ensures_look h fun _ ↦ Pass.ensures_resolve h _ _

theorem ensures_recordCall {before place : Option CallTarget} {t : CallTarget} {l : Location}
    {node : Option CallTarget → Expr} (hplace : Kept before place)
    (h : ∀ place, Kept before place → e₀.FillsTo (node place)) :
    (recordCall place t l node).Ensures e₀.FillsTo :=
  Pass.ensures_fill hplace h fun _ hplace ↦ Pass.ensures_resolve (h _ hplace) _ _

/-- Binding the expression, as a value or as what a method is called on, takes nothing back of what
stood in the expression earlier. -/
structure ExprFills (c : BindContext) (e : Expr) : Prop where
  expr : ∀ e₀ : Expr, e₀.FillsTo e → (c.expr e).Ensures e₀.FillsTo
  owner : ∀ e₀ : Expr, e₀.FillsTo e → (c.owner e).Ensures e₀.FillsTo

/-- The same of a statement. -/
def StatementFills (c : BindContext) (st : Statement) : Prop :=
  ∀ st₀ : Statement, st₀.FillsTo st → (c.statement st).Ensures st₀.FillsTo

theorem args_fills {es es₀ : List Expr} (hes : ∀ e ∈ es, ExprFills c e)
    (h : List.Forall₂ Expr.FillsTo es₀ es) :
    (c.args es).Ensures (List.Forall₂ Expr.FillsTo es₀) := by
  induction h with
  | nil => exact Pass.ensures_done .nil
  | @cons e₀ e es₀ es he hrest ih =>
    obtain ⟨hfirst, hes⟩ := List.forall_mem_cons.mp hes
    have hwalk : ((c.expr e).within (· :: es) fun e ty ↦ (c.args es).within (e :: ·)
        fun es tys ↦ .done (e :: es) (ty :: tys)).Ensures
          (List.Forall₂ Expr.FillsTo (e₀ :: es₀)) := by
      refine (hfirst.expr _ he).within (fun t ht ↦ .cons ht hrest) fun t ty ht ↦ ?_
      exact (ih hes).within (fun ts hts ↦ .cons ht hts) fun ts tys hts ↦
        Pass.ensures_done (.cons ht hts)
    cases e with
    | empty n => exact Pass.ensures_stop (.cons he hrest)
    | _ => exact hwalk

theorem exprs_fills {es es₀ : List Expr} (hes : ∀ e ∈ es, ExprFills c e)
    (h : List.Forall₂ Expr.FillsTo es₀ es) :
    (c.exprs es).Ensures (List.Forall₂ Expr.FillsTo es₀) := by
  induction h with
  | nil => exact Pass.ensures_done .nil
  | cons he hrest ih =>
    obtain ⟨hfirst, hes⟩ := List.forall_mem_cons.mp hes
    refine (hfirst.expr _ he).within (fun t ht ↦ .cons ht hrest) fun t ty ht ↦ ?_
    exact (ih hes).within (fun ts hts ↦ .cons ht hts) fun ts u hts ↦
      Pass.ensures_done (.cons ht hts)

theorem optional_fills {o o₀ : Option Expr} (ho : ∀ e ∈ o, ExprFills c e)
    (h : Option.Rel Expr.FillsTo o₀ o) : (c.optional o).Ensures (Option.Rel Expr.FillsTo o₀) := by
  cases h with
  | none => exact Pass.ensures_done .none
  | some he =>
    exact ((ho _ rfl).expr _ he).within (fun t ht ↦ .some ht) fun t ty ht ↦
      Pass.ensures_done (.some ht)

theorem statements_fills {sts sts₀ : List Statement} (hsts : ∀ st ∈ sts, StatementFills c st)
    (h : List.Forall₂ Statement.FillsTo sts₀ sts) :
    (c.statements sts).Ensures (List.Forall₂ Statement.FillsTo sts₀) := by
  induction h with
  | nil => exact Pass.ensures_done .nil
  | cons hst hrest ih =>
    obtain ⟨hfirst, hsts⟩ := List.forall_mem_cons.mp hsts
    refine (hfirst _ hst).within (fun t ht ↦ .cons ht hrest) fun t u ht ↦ ?_
    exact (ih hsts).within (fun ts hts ↦ .cons ht hts) fun ts u hts ↦
      Pass.ensures_done (.cons ht hts)

theorem alternative_fills {o o₀ : Option Statement} (ho : ∀ st ∈ o, StatementFills c st)
    (h : Option.Rel Statement.FillsTo o₀ o) :
    (c.alternative o).Ensures (Option.Rel Statement.FillsTo o₀) := by
  cases h with
  | none => exact Pass.ensures_done .none
  | some hst =>
    exact (ho _ rfl _ hst).inScope.within (fun t ht ↦ .some ht) fun t u ht ↦
      Pass.ensures_done (.some ht)

theorem unary_fills {n : Node} {op : UnaryOp} {e : Expr} {t : Option OperatorTarget}
    (ih : ExprFills c e) : ExprFills c (.unary n op e t) := by
  constructor
  · intro e₀ h
    cases h with
    | unary hn he ht =>
    refine (ih.expr _ he).within (fun e' he' ↦ .unary hn he' ht) fun e' ty he' ↦ ?_
    split
    · exact Pass.ensures_fill ht (fun t' ht' ↦ .unary hn he' ht') fun t' ht' ↦
        Pass.ensures_resolve (.unary hn he' ht') _ _
    · refine Pass.ensures_check (.unary hn he' ht) fun target ↦ ?_
      exact Pass.ensures_fill ht (fun t' ht' ↦ .unary hn he' ht') fun t' ht' ↦
        Pass.ensures_resolve (.unary hn he' ht') _ _
  · intro e₀ h
    cases op with
    | group =>
      cases h with
      | unary hn he ht =>
        exact (ih.owner _ he).within (fun e' he' ↦ .unary hn he' ht) fun e' o he' ↦
          Pass.ensures_done (.unary hn he' ht)
    | _ => exact Pass.ensures_done h

theorem call_fills {n : Node} {target : Expr} {args : List Expr} {t : Option CallTarget}
    (ih : ExprFills c target) (ihs : ∀ e ∈ args, ExprFills c e)
    (h : e₀.FillsTo (.call n target args t)) :
    (c.expr (.call n target args t)).Ensures e₀.FillsTo := by
  cases h with
  | call hn hf hargs ht =>
    refine (args_fills ihs hargs).within (fun as has ↦ .call hn hf has ht) fun as types has s ↦ ?_
    split
    · exact Pass.ensures_check (.call hn hf has ht)
        (fun _ ↦ ensures_recordCall ht fun t' ht' ↦ .call hn hf has ht') s
    · refine (ih.owner _ hf).within (fun f hf' ↦ .call hn hf' has ht) (fun f o hf' ↦ ?_) s
      exact Pass.ensures_check (.call hn hf' has ht) fun _ ↦
        ensures_recordCall ht fun t' ht' ↦ .call hn hf' has ht'
    · refine (ih.expr _ hf).within (fun f hf' ↦ .call hn hf' has ht) (fun f ty hf' ↦ ?_) s
      exact Pass.ensures_check (.call hn hf' has ht) fun _ ↦
        ensures_recordCall ht fun t' ht' ↦ .call hn hf' has ht'

theorem new_fills {n : Node} {target : Expr} {args : List Expr} {t : Option CallTarget}
    (ih : ExprFills c target) (ihs : ∀ e ∈ args, ExprFills c e)
    (h : e₀.FillsTo (.new n target args t)) :
    (c.expr (.new n target args t)).Ensures e₀.FillsTo := by
  cases h with
  | @new n₀ _ f₀ _ args₀ _ t₀ _ hn hf hargs ht =>
    have hmade : ∀ (f : Expr) (ty : Ty), f₀.FillsTo f →
        ((c.args args).within (.new n f · t) fun as types ↦
          .check (.new n f as t) (c.registry.constructorTarget ty types n.location)
            fun t' ↦ recordCall t t' n.location (.new n f as)).Ensures
          (Expr.new n₀ f₀ args₀ t₀).FillsTo := by
      intro f ty hf
      refine (args_fills ihs hargs).within (fun as has ↦ .new hn hf has ht) fun as types has ↦ ?_
      exact Pass.ensures_check (.new hn hf has ht) fun _ ↦
        ensures_recordCall ht fun t' ht' ↦ .new hn hf has ht'
    rw [BindContext.expr]
    split
    · exact (Pass.ensures_resolve hf _ _).within (fun f hf ↦ .new hn hf hargs ht) hmade
    · refine (ih.expr _ hf).within (fun f hf ↦ .new hn hf hargs ht) fun f ty hf ↦ ?_
      exact Pass.ensures_check (.new hn hf hargs ht) fun _ ↦ hmade f ty hf

theorem index_fills {n : Node} {target : Expr} {args : List Expr} {t : Option CallTarget}
    (ih : ExprFills c target) (ihs : ∀ e ∈ args, ExprFills c e)
    (h : e₀.FillsTo (.index n target args t)) :
    (c.expr (.index n target args t)).Ensures e₀.FillsTo := by
  cases h with
  | index hn hf hargs ht =>
    refine (ih.expr _ hf).within (fun f hf ↦ .index hn hf hargs ht) fun f ty hf ↦ ?_
    refine (args_fills ihs hargs).within (fun as has ↦ .index hn hf has ht) fun as types has ↦ ?_
    exact Pass.ensures_check (.index hn hf has ht) fun _ ↦
      ensures_recordCall ht fun t' ht' ↦ .index hn hf has ht'

/-- No form takes anything back if its parts do not. -/
theorem tree_fills (c : BindContext) : Tree.Cases (ExprFills c) (StatementFills c) where
  literal n v :=
    ⟨fun _ h ↦ Pass.ensures_resolve h _ _, fun _ h ↦ Pass.ensures_done h⟩
  null n := ⟨fun _ h ↦ Pass.ensures_resolve h _ _, fun _ h ↦ Pass.ensures_done h⟩
  this n := by
    refine ⟨fun e₀ h ↦ ?_, fun _ h ↦ Pass.ensures_done h⟩
    rw [BindContext.expr]
    split
    · exact Pass.ensures_resolve h _ _
    · exact Pass.ensures_stop h
  empty n := ⟨fun _ h ↦ Pass.ensures_stop h, fun _ h ↦ Pass.ensures_done h⟩
  name n x := ⟨fun _ h ↦ ensures_named h, fun _ h ↦ Pass.ensures_done h⟩
  variableRef n x := ⟨fun _ h ↦ ensures_named h, fun _ h ↦ Pass.ensures_done h⟩
  constantRef n x := ⟨fun _ h ↦ ensures_named h, fun _ h ↦ Pass.ensures_done h⟩
  member n target x ih := by
    constructor
    · intro e₀ h
      cases h with
      | member hn hf =>
      refine (ih.expr _ hf).within (fun f hf ↦ .member hn hf) fun f ty hf ↦ ?_
      exact Pass.ensures_check (.member hn hf) fun _ ↦ Pass.ensures_resolve (.member hn hf) _ _
    · intro e₀ h
      cases h with
      | member hn hf =>
      exact (ih.expr _ hf).within (fun f hf ↦ .member hn hf) fun f ty hf ↦
        Pass.ensures_done (.member hn hf)
  unary n op e t ih := unary_fills ih
  binary n op a b t iha ihb := by
    refine ⟨fun e₀ h ↦ ?_, fun _ h ↦ Pass.ensures_done h⟩
    cases h with
    | binary hn ha hb ht =>
    refine (iha.expr _ ha).within (fun a' ha ↦ .binary hn ha hb ht) fun a' left ha ↦ ?_
    refine (ihb.expr _ hb).within (fun b' hb ↦ .binary hn ha hb ht) fun b' right hb ↦ ?_
    refine Pass.ensures_check (.binary hn ha hb ht) fun _ ↦ ?_
    exact Pass.ensures_fill ht (fun t' ht ↦ .binary hn ha hb ht) fun t' ht ↦
      Pass.ensures_resolve (.binary hn ha hb ht) _ _
  coalesce n a b iha ihb := by
    refine ⟨fun e₀ h ↦ ?_, fun _ h ↦ Pass.ensures_done h⟩
    cases h with
    | coalesce hn ha hb =>
    refine (iha.expr _ ha).within (fun a' ha ↦ .coalesce hn ha hb) fun a' left ha ↦ ?_
    exact (ihb.expr _ hb).within (fun b' hb ↦ .coalesce hn ha hb) fun b' right hb ↦
      Pass.ensures_resolve (.coalesce hn ha hb) _ _
  ternary n x a b v ihx iha ihb := by
    refine ⟨fun e₀ h ↦ ?_, fun _ h ↦ Pass.ensures_done h⟩
    cases h with
    | ternary hn hx ha hb hv =>
    refine (ihx.expr _ hx).within (fun x' hx ↦ .ternary hn hx ha hb hv) fun x' ty hx ↦ ?_
    refine Pass.ensures_check (.ternary hn hx ha hb hv) fun _ ↦ ?_
    refine (iha.expr _ ha).within (fun a' ha ↦ .ternary hn hx ha hb hv) fun a' onTrue ha ↦ ?_
    refine (ihb.expr _ hb).within (fun b' hb ↦ .ternary hn hx ha hb hv) fun b' onFalse hb ↦ ?_
    refine Pass.ensures_check (.ternary hn hx ha hb hv) fun _ ↦ ?_
    split
    · exact Pass.ensures_resolve (.ternary hn hx ha hb hv) _ _
    · exact Pass.ensures_fill hv (fun v' hv ↦ .ternary hn hx ha hb hv) fun v' hv ↦
        Pass.ensures_resolve (.ternary hn hx ha hb hv) _ _
  assign n target v k iht ihv := by
    refine ⟨fun e₀ h ↦ ?_, fun _ h ↦ Pass.ensures_done h⟩
    cases h with
    | assign hn hf hv hk =>
    refine (ihv.expr _ hv).within (fun v' hv ↦ .assign hn hf hv hk) fun v' value hv ↦ ?_
    refine Pass.ensures_look (.assign hn hf hv hk) fun s ↦ Pass.Ensures.change ?_
    refine (iht.expr _ hf).within (fun f hf ↦ .assign hn hf hv hk) fun f ty hf ↦ ?_
    refine Pass.ensures_check (.assign hn hf hv hk) fun _ ↦
      Pass.ensures_check (.assign hn hf hv hk) fun _ ↦ ?_
    exact Pass.ensures_fill hk (fun k' hk ↦ .assign hn hf hv hk) fun k' hk ↦
      Pass.ensures_resolve (.assign hn hf hv hk) _ _
  call n target args t ih ihs := ⟨fun _ h ↦ call_fills ih ihs h, fun _ h ↦ Pass.ensures_done h⟩
  new n target args t ih ihs := ⟨fun _ h ↦ new_fills ih ihs h, fun _ h ↦ Pass.ensures_done h⟩
  index n target args t ih ihs := ⟨fun _ h ↦ index_fills ih ihs h, fun _ h ↦ Pass.ensures_done h⟩
  declare n x written init k ih := by
    refine ⟨fun e₀ h ↦ ?_, fun _ h ↦ Pass.ensures_done h⟩
    cases h with
    | declare hn hinit hk =>
    refine Pass.ensures_check (.declare hn hinit hk) fun declared ↦ ?_
    refine (optional_fills ih hinit).within (fun init' hinit ↦ .declare hn hinit hk)
      fun init' initial hinit ↦ ?_
    refine Pass.ensures_check (.declare hn hinit hk) fun _ ↦
      Pass.ensures_fill hk (fun k' hk ↦ .declare hn hinit hk) fun k' hk ↦ ?_
    exact Pass.ensures_look (.declare hn hinit hk) fun _ ↦
      Pass.Ensures.change (Pass.ensures_resolve (.declare hn hinit hk) _ _)
  array n written items cs ih := by
    refine ⟨fun e₀ h ↦ ?_, fun _ h ↦ Pass.ensures_done h⟩
    cases h with
    | array hn hitems hcs =>
    refine Pass.ensures_check (.array hn hitems hcs) fun declared ↦ ?_
    refine (args_fills ih hitems).within (fun items' hitems ↦ .array hn hitems hcs)
      fun items' types hitems ↦ ?_
    refine Pass.ensures_check (.array hn hitems hcs) fun _ ↦ ?_
    exact Pass.ensures_fill hcs (fun cs' hcs ↦ .array hn hitems hcs) fun cs' hcs ↦
      Pass.ensures_resolve (.array hn hitems hcs) _ _
  lambda n params body ih := by
    refine ⟨fun e₀ h ↦ ?_, fun _ h ↦ Pass.ensures_done h⟩
    cases h with
    | lambda hn hbody =>
    refine Pass.ensures_check (.lambda hn hbody) fun typed ↦ ?_
    exact (statements_fills ih hbody).inBody.within (fun body' hb ↦ .lambda hn hb)
      fun body' r hb ↦ Pass.ensures_resolve (.lambda hn hb) _ _
  block n body ih := by
    refine ⟨fun e₀ h ↦ ?_, fun _ h ↦ Pass.ensures_done h⟩
    cases h with
    | block hn hbody =>
    exact (statements_fills ih hbody).inScope.within (fun body' hb ↦ .block hn hb)
      fun body' u hb ↦ Pass.ensures_resolve (.block hn hb) _ _
  exprStatement e ih st₀ h := by
    cases h with
    | expr he =>
    exact (ih.expr _ he).within (fun e' he ↦ .expr he) fun e' ty he ↦ Pass.ensures_done (.expr he)
  blockStatement l body ih st₀ h := by
    cases h with
    | block hbody =>
    exact (statements_fills ih hbody).inScope.within (fun body' hb ↦ .block hb)
      fun body' u hb ↦ Pass.ensures_done (.block hb)
  cond l x a b ihx iha ihb st₀ h := by
    cases h with
    | cond hx ha hb =>
    refine (ihx.expr _ hx).within (fun x' hx ↦ .cond hx ha hb) fun x' ty hx ↦ ?_
    refine Pass.ensures_check (.cond hx ha hb) fun _ ↦ ?_
    refine (iha _ ha).inScope.within (fun a' ha ↦ .cond hx ha hb) fun a' u ha ↦ ?_
    exact (alternative_fills ihb hb).within (fun b' hb ↦ .cond hx ha hb) fun b' u hb ↦
      Pass.ensures_done (.cond hx ha hb)
  ret l value k ih st₀ h := by
    cases h with
    | ret hvalue hk =>
    refine (optional_fills ih hvalue).within (fun value' hv ↦ .ret hv hk) fun value' ty hv ↦ ?_
    refine Pass.ensures_look (.ret hv hk) fun _ ↦ Pass.Ensures.change ?_
    exact Pass.ensures_fill hk (fun k' hk ↦ .ret hv hk) fun k' hk ↦ Pass.ensures_done (.ret hv hk)
  throw l value ih st₀ h := by
    cases h with
    | throw hvalue =>
    exact (optional_fills ih hvalue).within (fun value' hv ↦ .throw hv) fun value' ty hv ↦
      Pass.ensures_done (.throw hv)
  vars l declarations ih st₀ h := by
    cases h with
    | vars hdeclarations =>
    exact (exprs_fills ih hdeclarations).within (fun es hes ↦ .vars hes) fun es u hes ↦
      Pass.ensures_done (.vars hes)
  function l signature body ih st₀ h := by
    cases h with
    | function hbody =>
    refine Pass.ensures_check (.function hbody) fun params ↦
      Pass.ensures_check (.function hbody) fun ret ↦
        Pass.ensures_look (.function hbody) fun index ↦ Pass.Ensures.change ?_
    exact (statements_fills ih hbody).inBody.within (fun body' hb ↦ .function hb)
      fun body' r hb ↦ Pass.Ensures.change (Pass.ensures_done (.function hb))

/-- One binding, successful or not, takes nothing back. -/
theorem program_fills (c : BindContext) {p₀ p : Program} (h : p₀.FillsTo p) (s : Binder) :
    p₀.FillsTo (c.program p s).tree :=
  (statements_fills (fun st _ ↦ (tree_fills c).statement st) h).within (fun _ h ↦ h)
    (fun _ _ h ↦ Pass.ensures_done h) s

end BindContext

end Scriptlet
