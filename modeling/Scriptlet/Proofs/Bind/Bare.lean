import Scriptlet.Script
import Scriptlet.Proofs.Bind.Success
import Scriptlet.Proofs.Parse.Written
import Scriptlet.Proofs.Tree.Definitions

/-!
# Binding fills places and changes nothing else

A tree has places that binding fills: a type and a storage at every expression, and what an
operator, a call, a conversion means. The bare tree has all of them empty. Whatever binding does to
a tree, and also where it stops with an error, the bare tree stays the same, and a tree that was
parsed is bare already. So the bare form of what binding leaves is the tree that was written.
-/

namespace Scriptlet

/-! ## Bare trees -/

/-- The node with nothing but its place. -/
def Node.bare (n : Node) : Node := .at n.location

@[simp] theorem Node.bare_at (l : Location) : (Node.at l).bare = .at l := rfl

mutual

/-- The expression with all places that binding fills empty. -/
def Expr.bare : Expr → Expr
  | .literal n v => .literal n.bare v
  | .name n x => .name n.bare x
  | .variableRef n x => .variableRef n.bare x
  | .constantRef n x => .constantRef n.bare x
  | .unary n op e _ => .unary n.bare op e.bare none
  | .binary n op a b _ => .binary n.bare op a.bare b.bare none
  | .coalesce n a b => .coalesce n.bare a.bare b.bare
  | .ternary n x a b _ => .ternary n.bare x.bare a.bare b.bare none
  | .assign n target v _ => .assign n.bare target.bare v.bare none
  | .call n target args _ => .call n.bare target.bare (exprsBare args) none
  | .new n target args _ => .new n.bare target.bare (exprsBare args) none
  | .index n target args _ => .index n.bare target.bare (exprsBare args) none
  | .member n target x => .member n.bare target.bare x
  | .declare n x ty init _ => .declare n.bare x ty (optionBare init) none
  | .array n ty items _ => .array n.bare ty (exprsBare items) none
  | .lambda n params body => .lambda n.bare params (statementsBare body)
  | .this n => .this n.bare
  | .null n => .null n.bare
  | .block n body => .block n.bare (statementsBare body)
  | .empty n => .empty n.bare

/-- The bare expressions of a list. -/
def exprsBare : List Expr → List Expr
  | [] => []
  | e :: es => e.bare :: exprsBare es

/-- The bare form of an expression that may be missing. -/
def optionBare : Option Expr → Option Expr
  | none => none
  | some e => some e.bare

/-- The statement with all places that binding fills empty. -/
def Statement.bare : Statement → Statement
  | .expr e => .expr e.bare
  | .block l body => .block l (statementsBare body)
  | .cond l x a b => .cond l x.bare a.bare (alternativeBare b)
  | .ret l value _ => .ret l (optionBare value) none
  | .throw l value => .throw l (optionBare value)
  | .vars l declarations => .vars l (exprsBare declarations)
  | .function l signature body => .function l signature (statementsBare body)

/-- The bare statements of a list. -/
def statementsBare : List Statement → List Statement
  | [] => []
  | st :: sts => st.bare :: statementsBare sts

/-- The bare form of a statement that may be missing. -/
def alternativeBare : Option Statement → Option Statement
  | none => none
  | some st => some st.bare

end

theorem exprsBare_eq_map (es : List Expr) : exprsBare es = es.map Expr.bare := by
  induction es with
  | nil => rfl
  | cons e es ih => rw [exprsBare, ih, List.map_cons]

theorem statementsBare_eq_map (sts : List Statement) :
    statementsBare sts = sts.map Statement.bare := by
  induction sts with
  | nil => rfl
  | cons st sts ih => rw [statementsBare, ih, List.map_cons]

/-! ## Definitions -/

/-- The definition with a bare body. -/
def Definition.bare (d : Definition) : Definition := ⟨d.head, statementsBare d.body⟩

/-- The definitions in the bare expression are the bare definitions of the expression. -/
def Expr.DefinesBare (e : Expr) : Prop := e.bare.definitions = e.definitions.map Definition.bare

/-- The same of a statement. -/
def Statement.DefinesBare (st : Statement) : Prop :=
  st.bare.definitions = st.definitions.map Definition.bare

theorem exprsDefinitions_bare {es : List Expr} (hes : ∀ e ∈ es, e.DefinesBare) :
    exprsDefinitions (exprsBare es) = (exprsDefinitions es).map Definition.bare := by
  induction es with
  | nil => rfl
  | cons e es ih =>
    obtain ⟨he, hes⟩ := List.forall_mem_cons.mp hes
    rw [exprsBare, exprsDefinitions, exprsDefinitions, List.map_append, he, ih hes]

theorem optionDefinitions_bare {o : Option Expr} (ho : ∀ e ∈ o, e.DefinesBare) :
    optionDefinitions (optionBare o) = (optionDefinitions o).map Definition.bare := by
  cases o with
  | none => rfl
  | some e => exact ho e rfl

theorem statementsDefinitions_bare_of_forall {sts : List Statement}
    (hsts : ∀ st ∈ sts, st.DefinesBare) :
    statementsDefinitions (statementsBare sts)
      = (statementsDefinitions sts).map Definition.bare := by
  induction sts with
  | nil => rfl
  | cons st sts ih =>
    obtain ⟨hst, hsts⟩ := List.forall_mem_cons.mp hsts
    rw [statementsBare, statementsDefinitions, statementsDefinitions, List.map_append, hst, ih hsts]

theorem alternativeDefinitions_bare {o : Option Statement} (ho : ∀ st ∈ o, st.DefinesBare) :
    alternativeDefinitions (alternativeBare o)
      = (alternativeDefinitions o).map Definition.bare := by
  cases o with
  | none => rfl
  | some st => exact ho st rfl

theorem tree_definesBare : Tree.Cases Expr.DefinesBare Statement.DefinesBare where
  literal n v := rfl
  null n := rfl
  empty n := rfl
  this n := rfl
  name n x := rfl
  variableRef n x := rfl
  constantRef n x := rfl
  unary n op e t ih := ih
  member n target x ih := ih
  binary n op a b t iha ihb := by
    rw [Expr.DefinesBare, Expr.bare, Expr.definitions, Expr.definitions, List.map_append, iha, ihb]
  coalesce n a b iha ihb := by
    rw [Expr.DefinesBare, Expr.bare, Expr.definitions, Expr.definitions, List.map_append, iha, ihb]
  ternary n x a b v ihx iha ihb := by
    rw [Expr.DefinesBare, Expr.bare, Expr.definitions, Expr.definitions, List.map_append,
      List.map_append, ihx, iha, ihb]
  assign n target v k iht ihv := by
    rw [Expr.DefinesBare, Expr.bare, Expr.definitions, Expr.definitions, List.map_append, iht, ihv]
  call n target args t ih ihs := by
    rw [Expr.DefinesBare, Expr.bare, Expr.definitions, Expr.definitions, List.map_append, ih,
      exprsDefinitions_bare ihs]
  new n target args t ih ihs := by
    rw [Expr.DefinesBare, Expr.bare, Expr.definitions, Expr.definitions, List.map_append, ih,
      exprsDefinitions_bare ihs]
  index n target args t ih ihs := by
    rw [Expr.DefinesBare, Expr.bare, Expr.definitions, Expr.definitions, List.map_append, ih,
      exprsDefinitions_bare ihs]
  declare n x ty init k ih := optionDefinitions_bare ih
  array n ty items cs ih := exprsDefinitions_bare ih
  lambda n params body ih := statementsDefinitions_bare_of_forall ih
  block n body ih := statementsDefinitions_bare_of_forall ih
  exprStatement e ih := ih
  blockStatement l body ih := statementsDefinitions_bare_of_forall ih
  cond l x a b ihx iha ihb := by
    rw [Statement.DefinesBare, Statement.bare, Statement.definitions, Statement.definitions,
      List.map_append, List.map_append, ihx, iha, alternativeDefinitions_bare ihb]
  ret l value k ih := optionDefinitions_bare ih
  throw l value ih := optionDefinitions_bare ih
  vars l declarations ih := exprsDefinitions_bare ih
  function l signature body ih := by
    rw [Statement.DefinesBare, Statement.bare, Statement.definitions, Statement.definitions,
      statementsDefinitions_bare_of_forall ih]
    split
    · rfl
    · rw [List.map_append]
      rfl

/-- The functions that the bare program defines are those of the program, with bare bodies. -/
theorem statementsDefinitions_bare (p : Program) :
    statementsDefinitions (statementsBare p) = (statementsDefinitions p).map Definition.bare :=
  statementsDefinitions_bare_of_forall fun st _ ↦ tree_definesBare.statement st

/-! ## Written trees -/

theorem exprsBare_self {es : List Expr} (h : ∀ e ∈ es, e.bare = e) : exprsBare es = es := by
  rw [exprsBare_eq_map, List.map_congr_left h, List.map_id']

theorem optionBare_self {o : Option Expr} (h : ∀ e ∈ o, e.bare = e) : optionBare o = o := by
  cases o with
  | none => rfl
  | some e => rw [optionBare, h e rfl]

theorem statementsBare_self {sts : List Statement} (h : ∀ st ∈ sts, st.bare = st) :
    statementsBare sts = sts := by
  rw [statementsBare_eq_map, List.map_congr_left h, List.map_id']

theorem alternativeBare_self {o : Option Statement} (h : ∀ st ∈ o, st.bare = st) :
    alternativeBare o = o := by
  cases o with
  | none => rfl
  | some st => rw [alternativeBare, h st rfl]

/-- The expression is written, be it as a value, as a declaration or as an omitted element. -/
def Expr.InText (e : Expr) : Prop := e.Written ∨ e.WrittenDeclaration ∨ e.Omitted

theorem inText_of_items {es : List Expr} (h : ∀ e ∈ es, ¬e.Omitted → e.Written) :
    ∀ e ∈ es, e.InText := by
  intro e he
  by_cases ho : e.Omitted
  · exact .inr (.inr ho)
  · exact .inl (h e he ho)

/-- A tree that is written is bare. -/
theorem bare_of_written :
    Tree.Cases (fun e ↦ e.InText → e.bare = e) (fun st ↦ st.Written → st.bare = st) where
  literal n v h := by
    obtain h | h | ⟨l, h⟩ := h <;> cases h
    rfl
  name n x h := by
    obtain h | h | ⟨l, h⟩ := h <;> cases h
    rfl
  variableRef n x h := by
    obtain h | h | ⟨l, h⟩ := h <;> cases h
    rfl
  constantRef n x h := by
    obtain h | h | ⟨l, h⟩ := h <;> cases h
    rfl
  unary n op e t ih h := by
    obtain h | h | ⟨l, h⟩ := h <;> cases h
    rename_i l he
    rw [Expr.bare, ih (.inl he), Node.bare_at]
  binary n op a b t iha ihb h := by
    obtain h | h | ⟨l, h⟩ := h <;> cases h
    rename_i l ha hb
    rw [Expr.bare, iha (.inl ha), ihb (.inl hb), Node.bare_at]
  coalesce n a b iha ihb h := by
    obtain h | h | ⟨l, h⟩ := h <;> cases h
    rename_i l ha hb
    rw [Expr.bare, iha (.inl ha), ihb (.inl hb), Node.bare_at]
  ternary n x a b v ihx iha ihb h := by
    obtain h | h | ⟨l, h⟩ := h <;> cases h
    rename_i l hx ha hb
    rw [Expr.bare, ihx (.inl hx), iha (.inl ha), ihb (.inl hb), Node.bare_at]
  assign n target v k iht ihv h := by
    obtain h | h | ⟨l, h⟩ := h <;> cases h
    rename_i l ht hv
    rw [Expr.bare, iht (.inl ht), ihv (.inl hv), Node.bare_at]
  call n target args t ih ihs h := by
    obtain h | h | ⟨l, h⟩ := h <;> cases h
    rename_i l ht _ hargs
    rw [Expr.bare, ih (.inl ht), exprsBare_self fun e he ↦ ihs e he (inText_of_items hargs e he),
      Node.bare_at]
  new n target args t ih ihs h := by
    obtain h | h | ⟨l, h⟩ := h <;> cases h
    rename_i l ht _ hargs
    rw [Expr.bare, ih (.inl ht.written),
      exprsBare_self fun e he ↦ ihs e he (inText_of_items hargs e he), Node.bare_at]
  index n target args t ih ihs h := by
    obtain h | h | ⟨l, h⟩ := h <;> cases h
    rename_i l ht _ hargs
    rw [Expr.bare, ih (.inl ht), exprsBare_self fun e he ↦ ihs e he (inText_of_items hargs e he),
      Node.bare_at]
  member n target x ih h := by
    obtain h | h | ⟨l, h⟩ := h <;> cases h
    rename_i l ht hx
    rw [Expr.bare, ih (.inl ht), Node.bare_at]
  declare n x ty init k ih h := by
    obtain h | h | ⟨l, h⟩ := h <;> cases h
    rename_i l hx hinit
    rw [Expr.bare, optionBare_self fun e he ↦ ih e he (.inl (hinit e he)), Node.bare_at]
  array n ty items cs ih h := by
    obtain h | h | ⟨l, h⟩ := h <;> cases h
    rename_i l _ hitems
    rw [Expr.bare, exprsBare_self fun e he ↦ ih e he (inText_of_items hitems e he), Node.bare_at]
  lambda n params body ih h := by
    obtain h | h | ⟨l, h⟩ := h <;> cases h
    rename_i l hbody
    rw [Expr.bare, statementsBare_self fun st hst ↦ ih st hst (hbody st hst), Node.bare_at]
  this n h := by
    obtain h | h | ⟨l, h⟩ := h <;> cases h
    rfl
  null n h := by
    obtain h | h | ⟨l, h⟩ := h <;> cases h
    rfl
  block n body ih h := by
    obtain h | h | ⟨l, h⟩ := h <;> cases h
    rename_i l hbody
    rw [Expr.bare, statementsBare_self fun st hst ↦ ih st hst (hbody st hst), Node.bare_at]
  empty n h := by
    obtain h | h | ⟨l, h⟩ := h <;> cases h
    rfl
  exprStatement e ih h := by
    obtain ⟨he⟩ := h
    rw [Statement.bare, ih (.inl he)]
  blockStatement l body ih h := by
    cases h with
    | block hbody =>
      rw [Statement.bare, statementsBare_self fun st hst ↦ ih st hst (hbody st hst)]
  cond l x a b ihx iha ihb h := by
    cases h with
    | cond hx ha hb =>
      rw [Statement.bare, ihx (.inl hx), iha ha,
        alternativeBare_self fun st hst ↦ ihb st hst (hb st hst)]
  ret l value k ih h := by
    cases h with
    | ret hvalue => rw [Statement.bare, optionBare_self fun e he ↦ ih e he (.inl (hvalue e he))]
  throw l value ih h := by
    cases h with
    | throw hvalue => rw [Statement.bare, optionBare_self fun e he ↦ ih e he (.inl (hvalue e he))]
  vars l declarations ih h := by
    cases h with
    | vars hd => rw [Statement.bare, exprsBare_self fun e he ↦ ih e he (.inr (.inl (hd e he)))]
  function l signature body ih h := by
    cases h with
    | function hbody =>
      rw [Statement.bare, statementsBare_self fun st hst ↦ ih st hst (hbody st hst)]

/-- A program that was parsed is bare. -/
theorem bare_of_parseProgram {source : String} {p : Program} (h : parseProgram source = .ok p) :
    statementsBare p = p :=
  statementsBare_self fun st hst ↦ bare_of_written.statement st (written_of_parseProgram h st hst)

/-! ## Steps of binding -/

namespace Pass

variable {T U V W α β σ : Type}

/-- Whatever the step does, this is what is seen of the tree that it leaves. -/
def Leaves (m : Pass T α) (view : T → V) (v : V) : Prop := ∀ s, view (m s).tree = v

variable {view : T → V} {v : V} {see : U → W} {w : W}

theorem leaves_done {tree : T} {a : α} (h : view tree = v) : (done tree a).Leaves view v :=
  fun _ ↦ h

theorem leaves_stop {tree : T} {e : BindError} (h : view tree = v) :
    (stop tree e : Pass T α).Leaves view v :=
  fun _ ↦ h

theorem Leaves.within {m : Pass T α} {whole : T → U} {next : T → α → Pass U β}
    (hm : m.Leaves view v) (hwhole : ∀ t, view t = v → see (whole t) = w)
    (hnext : ∀ t a, view t = v → (next t a).Leaves see w) : (m.within whole next).Leaves see w := by
  intro s
  rw [Pass.within]
  split
  · exact hnext _ _ (hm s) _
  · exact hwhole _ (hm s)

theorem leaves_look {tree : U} {test : Binder → Except BindError α} {next : α → Pass U β}
    (htree : see tree = w) (hnext : ∀ a, (next a).Leaves see w) :
    (look tree test next).Leaves see w := by
  intro s
  rw [look]
  split
  · exact hnext _ _
  · exact htree

theorem leaves_check {tree : U} {result : Except BindError α} {next : α → Pass U β}
    (htree : see tree = w) (hnext : ∀ a, (next a).Leaves see w) :
    (check tree result next).Leaves see w :=
  leaves_look htree hnext

theorem Leaves.change {f : Binder → Binder} {next : Pass U β} (h : next.Leaves see w) :
    (Pass.change f next).Leaves see w :=
  fun s ↦ h (f s)

theorem leaves_fill {place : Option σ} {value : σ} {l : Location} {node : Option σ → U}
    {next : U → Pass U β} (hnode : ∀ place, see (node place) = w)
    (hnext : ∀ place, (next (node place)).Leaves see w) :
    (fill place value l node next).Leaves see w := by
  cases place with
  | none => exact hnext (some value)
  | some old => exact leaves_stop (hnode (some old))

theorem Leaves.inScope {m : Pass T α} (h : m.Leaves view v) : (Pass.inScope m).Leaves view v :=
  fun s ↦ h (s.change Body.pushScope)

theorem Leaves.inBody {body : Body} {m : Pass T α} (h : m.Leaves view v) :
    (Pass.inBody body m).Leaves view v :=
  fun s ↦ h (s.enter body)

end Pass

namespace Expr

/-- The places of a node do not show in the bare expression. -/
theorem bare_setNode {n : Node} {e : Expr} (h : n.location = e.location) :
    (e.setNode n).bare = e.bare := by
  have hn : n.bare = e.node.bare := congrArg Node.at h
  cases e <;> simp only [setNode, bare, hn, node]

theorem leaves_resolve {e e₀ : Expr} (h : e.bare = e₀) (ty : Ty) (binding : Option Binding) :
    (Pass.resolve e ty binding).Leaves bare e₀ := by
  subst h
  refine Pass.leaves_fill (fun t ↦ bare_setNode rfl) fun t ↦ ?_
  split
  · exact Pass.leaves_done (bare_setNode rfl)
  · simp only [setNode_setNode, node_setNode]
    exact Pass.leaves_fill (fun b ↦ bare_setNode rfl) fun b ↦ Pass.leaves_done (bare_setNode rfl)

end Expr

/-! ## The walk -/

namespace BindContext

variable {c : BindContext}

theorem leaves_named {e e₀ : Expr} {name : String} {find : Binder → Option Binding}
    (h : e.bare = e₀) : (named e name find).Leaves Expr.bare e₀ :=
  Pass.leaves_look h fun _ ↦ Expr.leaves_resolve h _ _

theorem leaves_recordCall {place : Option CallTarget} {t : CallTarget} {l : Location}
    {node : Option CallTarget → Expr} {e₀ : Expr} (h : ∀ place, (node place).bare = e₀) :
    (recordCall place t l node).Leaves Expr.bare e₀ :=
  Pass.leaves_fill h fun place ↦ Expr.leaves_resolve (h place) _ _

/-- Binding the expression, as a value or as what a method is called on, keeps its bare form. -/
structure ExprLeaves (c : BindContext) (e : Expr) : Prop where
  expr : (c.expr e).Leaves Expr.bare e.bare
  owner : (c.owner e).Leaves Expr.bare e.bare

/-- Binding the statement keeps its bare form. -/
def StatementLeaves (c : BindContext) (st : Statement) : Prop :=
  (c.statement st).Leaves Statement.bare st.bare

theorem args_leaves {es : List Expr} (hes : ∀ e ∈ es, ExprLeaves c e) :
    (c.args es).Leaves exprsBare (exprsBare es) := by
  induction es with
  | nil => exact Pass.leaves_done rfl
  | cons e es ih =>
    obtain ⟨he, hes⟩ := List.forall_mem_cons.mp hes
    have hwalk : ((c.expr e).within (· :: es) fun e ty ↦ (c.args es).within (e :: ·)
        fun es tys ↦ .done (e :: es) (ty :: tys)).Leaves exprsBare (exprsBare (e :: es)) := by
      refine he.expr.within (fun t ht ↦ ?_) fun t ty ht ↦ ?_
      · rw [exprsBare, ht, exprsBare]
      refine (ih hes).within (fun ts hts ↦ ?_) fun ts tys hts ↦ Pass.leaves_done ?_
      all_goals rw [exprsBare, ht, hts, exprsBare]
    cases e with
    | empty n => exact Pass.leaves_stop rfl
    | _ => exact hwalk

theorem exprs_leaves {es : List Expr} (hes : ∀ e ∈ es, ExprLeaves c e) :
    (c.exprs es).Leaves exprsBare (exprsBare es) := by
  induction es with
  | nil => exact Pass.leaves_done rfl
  | cons e es ih =>
    obtain ⟨he, hes⟩ := List.forall_mem_cons.mp hes
    refine he.expr.within (fun t ht ↦ ?_) fun t ty ht ↦ ?_
    · rw [exprsBare, ht, exprsBare]
    refine (ih hes).within (fun ts hts ↦ ?_) fun ts tys hts ↦ Pass.leaves_done ?_
    all_goals rw [exprsBare, ht, hts, exprsBare]

theorem optional_leaves {o : Option Expr} (ho : ∀ e ∈ o, ExprLeaves c e) :
    (c.optional o).Leaves optionBare (optionBare o) := by
  cases o with
  | none => exact Pass.leaves_done rfl
  | some e =>
    refine (ho e rfl).expr.within (fun t ht ↦ ?_) fun t ty ht ↦ Pass.leaves_done ?_
    all_goals rw [optionBare, ht, optionBare]

theorem statements_leaves {sts : List Statement} (hsts : ∀ st ∈ sts, StatementLeaves c st) :
    (c.statements sts).Leaves statementsBare (statementsBare sts) := by
  induction sts with
  | nil => exact Pass.leaves_done rfl
  | cons st sts ih =>
    obtain ⟨hst, hsts⟩ := List.forall_mem_cons.mp hsts
    refine hst.within (fun t ht ↦ ?_) fun t u ht ↦ ?_
    · rw [statementsBare, ht, statementsBare]
    refine (ih hsts).within (fun ts hts ↦ ?_) fun ts u hts ↦ Pass.leaves_done ?_
    all_goals rw [statementsBare, ht, hts, statementsBare]

theorem alternative_leaves {o : Option Statement} (ho : ∀ st ∈ o, StatementLeaves c st) :
    (c.alternative o).Leaves alternativeBare (alternativeBare o) := by
  cases o with
  | none => exact Pass.leaves_done rfl
  | some st =>
    refine (ho st rfl).inScope.within (fun t ht ↦ ?_) fun t u ht ↦ Pass.leaves_done ?_
    all_goals rw [alternativeBare, ht, alternativeBare]

theorem unary_leaves {n : Node} {op : UnaryOp} {e : Expr} {t : Option OperatorTarget}
    (ih : ExprLeaves c e) : ExprLeaves c (.unary n op e t) := by
  have hbare : ∀ e' t', e'.bare = e.bare →
      (Expr.unary n op e' t').bare = (Expr.unary n op e t).bare :=
    fun e' t' h ↦ by rw [Expr.bare, h, Expr.bare]
  constructor
  · refine ih.expr.within (hbare · t) fun e' ty he ↦ ?_
    split
    · exact Pass.leaves_fill (hbare e' · he) fun t' ↦ Expr.leaves_resolve (hbare e' t' he) _ _
    · refine Pass.leaves_check (hbare e' t he) fun target ↦ ?_
      exact Pass.leaves_fill (hbare e' · he) fun t' ↦ Expr.leaves_resolve (hbare e' t' he) _ _
  · cases op with
    | group => exact ih.owner.within (hbare · t) fun e' o he ↦ Pass.leaves_done (hbare e' t he)
    | _ => exact Pass.leaves_done rfl

theorem call_leaves {n : Node} {target : Expr} {args : List Expr} {t : Option CallTarget}
    (ih : ExprLeaves c target) (ihs : ∀ e ∈ args, ExprLeaves c e) :
    (c.expr (.call n target args t)).Leaves Expr.bare (Expr.call n target args t).bare := by
  have hbare : ∀ f as t', f.bare = target.bare → exprsBare as = exprsBare args →
      (Expr.call n f as t').bare = (Expr.call n target args t).bare :=
    fun f as t' hf has ↦ by rw [Expr.bare, hf, has, Expr.bare]
  refine (args_leaves ihs).within (fun as has ↦ hbare _ as t rfl has) fun as types has s ↦ ?_
  split
  · exact Pass.leaves_check (hbare _ as t rfl has)
      (fun _ ↦ leaves_recordCall fun t' ↦ hbare _ as t' rfl has) s
  · refine ih.owner.within (fun f hf ↦ hbare f as t hf has) (fun f o hf ↦ ?_) s
    exact Pass.leaves_check (hbare f as t hf has) fun _ ↦
      leaves_recordCall fun t' ↦ hbare f as t' hf has
  · refine ih.expr.within (fun f hf ↦ hbare f as t hf has) (fun f ty hf ↦ ?_) s
    exact Pass.leaves_check (hbare f as t hf has) fun _ ↦
      leaves_recordCall fun t' ↦ hbare f as t' hf has

theorem new_leaves {n : Node} {target : Expr} {args : List Expr} {t : Option CallTarget}
    (ih : ExprLeaves c target) (ihs : ∀ e ∈ args, ExprLeaves c e) :
    (c.expr (.new n target args t)).Leaves Expr.bare (Expr.new n target args t).bare := by
  have hbare : ∀ f as t', f.bare = target.bare → exprsBare as = exprsBare args →
      (Expr.new n f as t').bare = (Expr.new n target args t).bare :=
    fun f as t' hf has ↦ by rw [Expr.bare, hf, has, Expr.bare]
  have hmade : ∀ f ty, f.bare = target.bare →
      ((c.args args).within (.new n f · t) fun as types ↦
        .check (.new n f as t) (c.registry.constructorTarget ty types n.location)
          fun t' ↦ recordCall t t' n.location (.new n f as)).Leaves Expr.bare
        (Expr.new n target args t).bare := by
    intro f ty hf
    refine (args_leaves ihs).within (fun as has ↦ hbare f as t hf has) fun as types has ↦ ?_
    exact Pass.leaves_check (hbare f as t hf has) fun _ ↦
      leaves_recordCall fun t' ↦ hbare f as t' hf has
  rw [BindContext.expr]
  split
  · exact (Expr.leaves_resolve rfl _ _).within (fun f hf ↦ hbare f args t hf rfl) hmade
  · refine ih.expr.within (fun f hf ↦ hbare f args t hf rfl) fun f ty hf ↦ ?_
    exact Pass.leaves_check (hbare f args t hf rfl) fun _ ↦ hmade f ty hf

theorem index_leaves {n : Node} {target : Expr} {args : List Expr} {t : Option CallTarget}
    (ih : ExprLeaves c target) (ihs : ∀ e ∈ args, ExprLeaves c e) :
    (c.expr (.index n target args t)).Leaves Expr.bare (Expr.index n target args t).bare := by
  have hbare : ∀ f as t', f.bare = target.bare → exprsBare as = exprsBare args →
      (Expr.index n f as t').bare = (Expr.index n target args t).bare :=
    fun f as t' hf has ↦ by rw [Expr.bare, hf, has, Expr.bare]
  refine ih.expr.within (fun f hf ↦ hbare f args t hf rfl) fun f ty hf ↦ ?_
  refine (args_leaves ihs).within (fun as has ↦ hbare f as t hf has) fun as types has ↦ ?_
  exact Pass.leaves_check (hbare f as t hf has) fun _ ↦
    leaves_recordCall fun t' ↦ hbare f as t' hf has

/-- Every form keeps its bare form if its parts do. -/
theorem tree_leaves (c : BindContext) : Tree.Cases (ExprLeaves c) (StatementLeaves c) where
  literal n v := ⟨Expr.leaves_resolve rfl _ _, Pass.leaves_done rfl⟩
  null n := ⟨Expr.leaves_resolve rfl _ _, Pass.leaves_done rfl⟩
  this n := by
    refine ⟨?_, Pass.leaves_done rfl⟩
    rw [BindContext.expr]
    split
    · exact Expr.leaves_resolve rfl _ _
    · exact Pass.leaves_stop rfl
  empty n := ⟨Pass.leaves_stop rfl, Pass.leaves_done rfl⟩
  name n x := ⟨leaves_named rfl, Pass.leaves_done rfl⟩
  variableRef n x := ⟨leaves_named rfl, Pass.leaves_done rfl⟩
  constantRef n x := ⟨leaves_named rfl, Pass.leaves_done rfl⟩
  member n target x ih := by
    have hbare : ∀ f, f.bare = target.bare →
        (Expr.member n f x).bare = (Expr.member n target x).bare :=
      fun f hf ↦ by rw [Expr.bare, hf, Expr.bare]
    refine ⟨ih.expr.within hbare fun f ty hf ↦ ?_, ih.expr.within hbare fun f ty hf ↦
      Pass.leaves_done (hbare f hf)⟩
    exact Pass.leaves_check (hbare f hf) fun _ ↦ Expr.leaves_resolve (hbare f hf) _ _
  unary n op e t ih := unary_leaves ih
  binary n op a b t iha ihb := by
    have hbare : ∀ a' b' t', a'.bare = a.bare → b'.bare = b.bare →
        (Expr.binary n op a' b' t').bare = (Expr.binary n op a b t).bare :=
      fun a' b' t' ha hb ↦ by rw [Expr.bare, ha, hb, Expr.bare]
    refine ⟨iha.expr.within (fun a' ha ↦ hbare a' b t ha rfl) fun a' left ha ↦ ?_,
      Pass.leaves_done rfl⟩
    refine ihb.expr.within (fun b' hb ↦ hbare a' b' t ha hb) fun b' right hb ↦ ?_
    refine Pass.leaves_check (hbare a' b' t ha hb) fun _ ↦ ?_
    exact Pass.leaves_fill (hbare a' b' · ha hb) fun t' ↦
      Expr.leaves_resolve (hbare a' b' t' ha hb) _ _
  coalesce n a b iha ihb := by
    have hbare : ∀ a' b', a'.bare = a.bare → b'.bare = b.bare →
        (Expr.coalesce n a' b').bare = (Expr.coalesce n a b).bare :=
      fun a' b' ha hb ↦ by rw [Expr.bare, ha, hb, Expr.bare]
    refine ⟨iha.expr.within (fun a' ha ↦ hbare a' b ha rfl) fun a' left ha ↦ ?_,
      Pass.leaves_done rfl⟩
    exact ihb.expr.within (fun b' hb ↦ hbare a' b' ha hb) fun b' right hb ↦
      Expr.leaves_resolve (hbare a' b' ha hb) _ _
  ternary n x a b v ihx iha ihb := by
    have hbare : ∀ x' a' b' v', x'.bare = x.bare → a'.bare = a.bare → b'.bare = b.bare →
        (Expr.ternary n x' a' b' v').bare = (Expr.ternary n x a b v).bare :=
      fun x' a' b' v' hx ha hb ↦ by rw [Expr.bare, hx, ha, hb, Expr.bare]
    refine ⟨ihx.expr.within (fun x' hx ↦ hbare x' a b v hx rfl rfl) fun x' ty hx ↦ ?_,
      Pass.leaves_done rfl⟩
    refine Pass.leaves_check (hbare x' a b v hx rfl rfl) fun _ ↦ ?_
    refine iha.expr.within (fun a' ha ↦ hbare x' a' b v hx ha rfl) fun a' onTrue ha ↦ ?_
    refine ihb.expr.within (fun b' hb ↦ hbare x' a' b' v hx ha hb) fun b' onFalse hb ↦ ?_
    refine Pass.leaves_check (hbare x' a' b' v hx ha hb) fun _ ↦ ?_
    split
    · exact Expr.leaves_resolve (hbare x' a' b' v hx ha hb) _ _
    · exact Pass.leaves_fill (hbare x' a' b' · hx ha hb) fun v' ↦
        Expr.leaves_resolve (hbare x' a' b' v' hx ha hb) _ _
  assign n target v k iht ihv := by
    have hbare : ∀ f v' k', f.bare = target.bare → v'.bare = v.bare →
        (Expr.assign n f v' k').bare = (Expr.assign n target v k).bare :=
      fun f v' k' hf hv ↦ by rw [Expr.bare, hf, hv, Expr.bare]
    refine ⟨ihv.expr.within (fun v' hv ↦ hbare target v' k rfl hv) fun v' value hv ↦ ?_,
      Pass.leaves_done rfl⟩
    refine Pass.leaves_look (hbare target v' k rfl hv) fun s ↦ Pass.Leaves.change ?_
    refine iht.expr.within (fun f hf ↦ hbare f v' k hf hv) fun f ty hf ↦ ?_
    refine Pass.leaves_check (hbare f v' k hf hv) fun _ ↦
      Pass.leaves_check (hbare f v' k hf hv) fun _ ↦ ?_
    exact Pass.leaves_fill (hbare f v' · hf hv) fun k' ↦
      Expr.leaves_resolve (hbare f v' k' hf hv) _ _
  call n target args t ih ihs := ⟨call_leaves ih ihs, Pass.leaves_done rfl⟩
  new n target args t ih ihs := ⟨new_leaves ih ihs, Pass.leaves_done rfl⟩
  index n target args t ih ihs := ⟨index_leaves ih ihs, Pass.leaves_done rfl⟩
  declare n x written init k ih := by
    have hbare : ∀ init' k', optionBare init' = optionBare init →
        (Expr.declare n x written init' k').bare = (Expr.declare n x written init k).bare :=
      fun init' k' h ↦ by rw [Expr.bare, h, Expr.bare]
    refine ⟨Pass.leaves_check rfl fun declared ↦ ?_, Pass.leaves_done rfl⟩
    refine (optional_leaves ih).within (hbare · k) fun init' initial hinit ↦ ?_
    refine Pass.leaves_check (hbare init' k hinit) fun _ ↦
      Pass.leaves_fill (hbare init' · hinit) fun k' ↦ ?_
    exact Pass.leaves_look (hbare init' k' hinit) fun _ ↦
      Pass.Leaves.change (Expr.leaves_resolve (hbare init' k' hinit) _ _)
  array n written items cs ih := by
    have hbare : ∀ items' cs', exprsBare items' = exprsBare items →
        (Expr.array n written items' cs').bare = (Expr.array n written items cs).bare :=
      fun items' cs' h ↦ by rw [Expr.bare, h, Expr.bare]
    refine ⟨Pass.leaves_check rfl fun declared ↦ ?_, Pass.leaves_done rfl⟩
    refine (args_leaves ih).within (hbare · cs) fun items' types hitems ↦ ?_
    refine Pass.leaves_check (hbare items' cs hitems) fun _ ↦ ?_
    exact Pass.leaves_fill (hbare items' · hitems) fun cs' ↦
      Expr.leaves_resolve (hbare items' cs' hitems) _ _
  lambda n params body ih := by
    have hbare : ∀ body', statementsBare body' = statementsBare body →
        (Expr.lambda n params body').bare = (Expr.lambda n params body).bare :=
      fun body' h ↦ by rw [Expr.bare, h, Expr.bare]
    refine ⟨Pass.leaves_check rfl fun typed ↦ ?_, Pass.leaves_done rfl⟩
    exact (statements_leaves ih).inBody.within hbare fun body' r hb ↦
      Expr.leaves_resolve (hbare body' hb) _ _
  block n body ih := by
    have hbare : ∀ body', statementsBare body' = statementsBare body →
        (Expr.block n body').bare = (Expr.block n body).bare :=
      fun body' h ↦ by rw [Expr.bare, h, Expr.bare]
    refine ⟨(statements_leaves ih).inScope.within hbare fun body' u hb ↦ ?_, Pass.leaves_done rfl⟩
    exact Expr.leaves_resolve (hbare body' hb) _ _
  exprStatement e ih := by
    refine ih.expr.within (fun e' he ↦ ?_) fun e' ty he ↦ Pass.leaves_done ?_
    all_goals rw [Statement.bare, he, Statement.bare]
  blockStatement l body ih := by
    refine (statements_leaves ih).inScope.within (fun body' hb ↦ ?_) fun body' u hb ↦
      Pass.leaves_done ?_
    all_goals rw [Statement.bare, hb, Statement.bare]
  cond l x a b ihx iha ihb := by
    have hbare : ∀ x' a' b', x'.bare = x.bare → a'.bare = a.bare →
        alternativeBare b' = alternativeBare b →
        (Statement.cond l x' a' b').bare = (Statement.cond l x a b).bare :=
      fun x' a' b' hx ha hb ↦ by rw [Statement.bare, hx, ha, hb, Statement.bare]
    refine ihx.expr.within (fun x' hx ↦ hbare x' a b hx rfl rfl) fun x' ty hx ↦ ?_
    refine Pass.leaves_check (hbare x' a b hx rfl rfl) fun _ ↦ ?_
    refine iha.inScope.within (fun a' ha ↦ hbare x' a' b hx ha rfl) fun a' u ha ↦ ?_
    exact (alternative_leaves ihb).within (fun b' hb ↦ hbare x' a' b' hx ha hb) fun b' u hb ↦
      Pass.leaves_done (hbare x' a' b' hx ha hb)
  ret l value k ih := by
    have hbare : ∀ value' k', optionBare value' = optionBare value →
        (Statement.ret l value' k').bare = (Statement.ret l value k).bare :=
      fun value' k' h ↦ by rw [Statement.bare, h, Statement.bare]
    refine (optional_leaves ih).within (hbare · k) fun value' ty hv ↦ ?_
    refine Pass.leaves_look (hbare value' k hv) fun _ ↦ Pass.Leaves.change ?_
    exact Pass.leaves_fill (hbare value' · hv) fun k' ↦ Pass.leaves_done (hbare value' k' hv)
  throw l value ih := by
    refine (optional_leaves ih).within (fun value' hv ↦ ?_) fun value' ty hv ↦ Pass.leaves_done ?_
    all_goals rw [Statement.bare, hv, Statement.bare]
  vars l declarations ih := by
    refine (exprs_leaves ih).within (fun es hes ↦ ?_) fun es u hes ↦ Pass.leaves_done ?_
    all_goals rw [Statement.bare, hes, Statement.bare]
  function l signature body ih := by
    have hbare : ∀ body', statementsBare body' = statementsBare body →
        (Statement.function l signature body').bare = (Statement.function l signature body).bare :=
      fun body' h ↦ by rw [Statement.bare, h, Statement.bare]
    refine Pass.leaves_check rfl fun params ↦ Pass.leaves_check rfl fun ret ↦
      Pass.leaves_look rfl fun index ↦ Pass.Leaves.change ?_
    exact (statements_leaves ih).inBody.within hbare fun body' r hb ↦
      Pass.Leaves.change (Pass.leaves_done (hbare body' hb))

/-- Binding a program, be it to its end or to the first error, leaves the program that was
written. -/
theorem bare_bindProgram (c : BindContext) (p : Program) :
    statementsBare (bindProgram c p).tree = statementsBare p :=
  (statements_leaves fun st _ ↦ (tree_leaves c).statement st).within (fun _ h ↦ h)
    (fun _ _ h ↦ Pass.leaves_done h) _

end BindContext

end Scriptlet
