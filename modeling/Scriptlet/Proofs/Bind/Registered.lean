import Mathlib.Data.List.Forall2
import Scriptlet.Proofs.Bind.Sound
import Scriptlet.Proofs.Tree.Definitions

/-!
# Which functions binding registers

Binding registers one function for each definition in the tree, wherever the definition stands, and
in the order of `Expr.definitions`. Each has the name and the place of its definition, the types of
its parameters, and the locals of its body as they are when the body has been bound, also if it was
registered before its body. In every body the locals are numbered from zero in their order.
-/

namespace Scriptlet

/-- Each local has the number of its place in the table. -/
def Body.Indexed (b : Body) : Prop :=
  ∀ (i : Nat) (slot : Local), b.locals[i]? = some slot → slot.index = i

namespace Body.Indexed

variable {b : Body}

theorem start (params : List (String × Ty)) (ret : ReturnType) :
    (Body.start params ret).Indexed := by
  intro i slot h
  simp [Body.start] at h

theorem declare (h : b.Indexed) (x : String) (ty : Ty) : (b.declare x ty).Indexed := by
  intro i slot hi
  rw [Body.declare] at hi
  rcases Nat.lt_trichotomy i b.locals.length with hlt | rfl | hgt
  · rw [List.getElem?_append_left hlt] at hi
    exact h i slot hi
  · rw [List.getElem?_concat_length] at hi
    obtain rfl := Option.some.inj hi
    rfl
  · have hlength : (b.locals ++ [b.nextLocal x ty]).length ≤ i := by
      rw [List.length_append, List.length_singleton]
      exact hgt
    rw [List.getElem?_eq_none hlength] at hi
    cases hi

end Body.Indexed

/-- The function is the one that the definition makes: they agree on name and place, and the
function has the parameters, the return type and the locals of a body with the parameters of the
definition, in which the statements of the definition are well typed. -/
structure Tables.Describes (Γ : Tables) (f : ScriptFunction) (d : Definition) : Prop where
  name : f.name = d.head.name
  location : f.location = d.location
  bound : ∃ inner : Body, Γ.typedParams d.location d.head.params = .ok inner.params ∧
    inner.params.map Prod.snd = f.params ∧ inner.locals = f.locals ∧ inner.ret.ty = f.ret ∧
    inner.Indexed ∧ ∀ st ∈ d.body, Γ.TypedStatement inner st

theorem Tables.Describes.body {Γ : Tables} {f : ScriptFunction} {d : Definition}
    (h : Γ.Describes f d) :
    ∃ inner : Body, inner.params.map Prod.snd = f.params ∧ inner.locals = f.locals ∧
      inner.ret.ty = f.ret ∧ inner.Indexed ∧ ∀ st ∈ d.body, Γ.TypedStatement inner st := by
  obtain ⟨inner, -, h⟩ := h.bound
  exact ⟨inner, h⟩

namespace BindContext

variable {c : BindContext}

/-- Between two states of the binder exactly the functions of the definitions were registered,
judged against the tables in the end. Binding leaves the heads of definitions as they are. -/
structure Registers (c : BindContext) (s s' : Binder) (ds ds' : List Definition) : Prop where
  heads : ds'.map Definition.head = ds.map Definition.head
  indexed : s.body.Indexed → s'.body.Indexed
  functions : ∃ new, s'.functions = s.functions ++ new ∧
    ∀ final, s'.Grows final → List.Forall₂ (final.tables c).Describes new ds'

namespace Registers

variable {s s₁ s' : Binder} {ds ds' es es' : List Definition}

theorem refl (s : Binder) : c.Registers s s [] [] :=
  ⟨rfl, id, [], (List.append_nil _).symm, fun _ _ ↦ .nil⟩

/-- A step that leaves the functions as they are. -/
theorem of_functions_eq (h : s'.functions = s.functions)
    (hindexed : s.body.Indexed → s'.body.Indexed) : c.Registers s s' [] [] :=
  ⟨rfl, hindexed, [], by rw [h, List.append_nil], fun _ _ ↦ .nil⟩

theorem trans (h : c.Registers s s₁ ds ds') (k : c.Registers s₁ s' es es') (hgrow : s₁.Grows s') :
    c.Registers s s' (ds ++ es) (ds' ++ es') where
  heads := by rw [List.map_append, List.map_append, h.heads, k.heads]
  indexed := k.indexed ∘ h.indexed
  functions := by
    obtain ⟨new, hnew, hdescribes⟩ := h.functions
    obtain ⟨more, hmore, hdescribes'⟩ := k.functions
    refine ⟨new ++ more, by rw [hmore, hnew, List.append_assoc], fun final hfinal ↦ ?_⟩
    exact List.rel_append (hdescribes final (hgrow.trans hfinal)) (hdescribes' final hfinal)

/-- A step that registers nothing, behind one that does. -/
theorem before (h : c.Registers s s₁ ds ds') (k : c.Registers s₁ s' [] []) (hgrow : s₁.Grows s') :
    c.Registers s s' ds ds' := by
  simpa only [List.append_nil] using h.trans k hgrow

/-- A step that registers nothing, in front of one that does. -/
theorem behind (h : c.Registers s s₁ [] []) (k : c.Registers s₁ s' es es') (hgrow : s₁.Grows s') :
    c.Registers s s' es es' :=
  h.trans k hgrow

end Registers

theorem registers_pushScope (s : Binder) : c.Registers s (s.change Body.pushScope) [] [] :=
  .of_functions_eq rfl id

theorem registers_popScope (s : Binder) : c.Registers s (s.change Body.popScope) [] [] :=
  .of_functions_eq rfl id

theorem registers_declare (s : Binder) (x : String) (ty : Ty) :
    c.Registers s (s.change fun b ↦ b.declare x ty) [] [] :=
  .of_functions_eq rfl fun h ↦ h.declare x ty

theorem registers_of_declareByAssignment {target : Expr} {value : Ty} {s s' : Binder}
    (h : c.declareByAssignment target value s = .ok s') : c.Registers s s' [] [] := by
  rcases of_declareByAssignment h with rfl | ⟨-, x, rfl⟩
  · exact .refl _
  · exact registers_declare s x value

/-! ## Trees without definitions -/

end BindContext

theorem Expr.definitions_of_ungrouped {e : Expr} {n : Node} {x : String}
    (h : e.ungrouped = .name n x) : e.definitions = [] := by
  fun_induction Expr.ungrouped e with
  | case1 n e t ih => exact ih h
  | case2 e _ =>
    subst h
    rfl

theorem Expr.IsChain.definitions_eq {e : Expr} (h : e.IsChain) : e.definitions = [] := by
  induction h with
  | name _ => rfl
  | member _ _ ih => exact ih

theorem Expr.definitions_setNode (n : Node) (e : Expr) :
    (e.setNode n).definitions = e.definitions := by
  cases e <;> rfl

namespace BindContext

variable {c : BindContext}

/-! ## The walk -/

/-- Binding the expression, as a value, as a declaration or as what a method is called on, registers
the functions that it defines. -/
structure ExprRegisters (c : BindContext) (e : Expr) : Prop where
  value : ∀ {s s' e' ty}, e.Written → (c.expr e).Gives s e' s' ty →
    c.Registers s s' e.definitions e'.definitions
  declared : ∀ {s s' e' ty}, e.WrittenDeclaration → (c.expr e).Gives s e' s' ty →
    c.Registers s s' e.definitions e'.definitions
  owned : ∀ {s s' e' o n target x}, e.Written → e.ungrouped = .member n target x →
    (c.owner e).Gives s e' s' o → c.Registers s s' e.definitions e'.definitions

/-- Binding the statement registers the functions that it defines. -/
def StatementRegisters (c : BindContext) (st : Statement) : Prop :=
  ∀ {s s' st' u}, st.Written → (c.statement st).Gives s st' s' u →
    c.Registers s s' st.definitions st'.definitions

/-- A form that is no declaration and no access of a member is bound as a value only. -/
theorem ExprRegisters.of_value {e : Expr}
    (value : ∀ {s s' e' ty}, e.Written → (c.expr e).Gives s e' s' ty →
      c.Registers s s' e.definitions e'.definitions)
    (hdeclare : ¬e.WrittenDeclaration) (hmember : e.ungrouped.isAccess = false) :
    ExprRegisters c e where
  value := value
  declared hw _ := absurd hw hdeclare
  owned _ hx _ := by
    rw [hx] at hmember
    cases hmember

/-! ### Lists and scopes -/

theorem registers_args {es : List Expr} (hes : ∀ e ∈ es, ExprRegisters c e) (hw : WrittenItems es)
    {s s' : Binder} {es' : List Expr} {tys : List Ty} (h : (c.args es).Gives s es' s' tys) :
    c.Registers s s' (exprsDefinitions es) (exprsDefinitions es') := by
  induction es generalizing s es' tys with
  | nil =>
    obtain ⟨rfl, rfl, -⟩ := of_gives_args_nil h
    exact .refl _
  | cons e es ih =>
    obtain ⟨he, hes⟩ := List.forall_mem_cons.mp hes
    obtain ⟨hwe, hwes⟩ := List.forall_mem_cons.mp hw
    obtain ⟨e₁, es₁, s₁, ty, tys₁, h₁, h₂, rfl, -⟩ := of_gives_args_cons h
    have hwritten : e.Written := hwe fun ⟨l, hl⟩ ↦ not_gives_empty (hl ▸ h₁)
    have hgrow : s₁.Grows s' := args_grows (fun e _ ↦ (tree_grows c).expr e) h₂
    exact (he.value hwritten h₁).trans (ih hes hwes h₂) hgrow

theorem registers_exprs {es : List Expr} (hes : ∀ e ∈ es, ExprRegisters c e)
    (hw : ∀ e ∈ es, e.WrittenDeclaration) {s s' : Binder} {es' : List Expr} {u : Unit}
    (h : (c.exprs es).Gives s es' s' u) :
    c.Registers s s' (exprsDefinitions es) (exprsDefinitions es') := by
  induction es generalizing s es' u with
  | nil =>
    obtain ⟨rfl, rfl⟩ := of_gives_exprs_nil h
    exact .refl _
  | cons e es ih =>
    obtain ⟨he, hes⟩ := List.forall_mem_cons.mp hes
    obtain ⟨hwe, hwes⟩ := List.forall_mem_cons.mp hw
    obtain ⟨e₁, es₁, s₁, ty, h₁, h₂, rfl⟩ := of_gives_exprs_cons h
    have hgrow : s₁.Grows s' := exprs_grows (fun e _ ↦ (tree_grows c).expr e) h₂
    exact (he.declared hwe h₁).trans (ih hes hwes h₂) hgrow

theorem registers_optional {o : Option Expr} (ho : ∀ e ∈ o, ExprRegisters c e)
    (hw : ∀ e ∈ o, e.Written) {s s' : Binder} {o' : Option Expr} {t : Option Ty}
    (h : (c.optional o).Gives s o' s' t) :
    c.Registers s s' (optionDefinitions o) (optionDefinitions o') := by
  cases o with
  | none =>
    obtain ⟨rfl, rfl, -⟩ := of_gives_optional_none h
    exact .refl _
  | some e =>
    obtain ⟨e₁, ty, he, rfl, -⟩ := of_gives_optional_some h
    exact (ho e rfl).value (hw e rfl) he

theorem registers_statements {sts : List Statement} (hsts : ∀ st ∈ sts, StatementRegisters c st)
    (hw : ∀ st ∈ sts, st.Written) {s s' : Binder} {sts' : List Statement} {u : Unit}
    (h : (c.statements sts).Gives s sts' s' u) :
    c.Registers s s' (statementsDefinitions sts) (statementsDefinitions sts') := by
  induction sts generalizing s sts' u with
  | nil =>
    obtain ⟨rfl, rfl⟩ := of_gives_statements_nil h
    exact .refl _
  | cons st sts ih =>
    obtain ⟨hst, hsts⟩ := List.forall_mem_cons.mp hsts
    obtain ⟨hwst, hwsts⟩ := List.forall_mem_cons.mp hw
    obtain ⟨st₁, sts₁, s₁, h₁, h₂, rfl⟩ := of_gives_statements_cons h
    exact (hst hwst h₁).trans (ih hsts hwsts h₂) (statements_grows h₂)

/-- What is registered in a scope of its own. -/
theorem registers_scope {s s₁ : Binder} {ds ds' : List Definition}
    (h : c.Registers (s.change Body.pushScope) s₁ ds ds')
    (hgrow : (s.change Body.pushScope).Grows s₁) :
    c.Registers s (s₁.change Body.popScope) ds ds' :=
  ((registers_pushScope s).behind h hgrow).before (registers_popScope s₁) s₁.grows_popScope

theorem registers_alternative {o : Option Statement} (ho : ∀ st ∈ o, StatementRegisters c st)
    (hw : ∀ st ∈ o, st.Written) {s s' : Binder} {o' : Option Statement} {u : Unit}
    (h : (c.alternative o).Gives s o' s' u) :
    c.Registers s s' (alternativeDefinitions o) (alternativeDefinitions o') := by
  cases o with
  | none =>
    obtain ⟨rfl, rfl⟩ := of_gives_alternative_none h
    exact .refl _
  | some st =>
    obtain ⟨st₁, s₁, hst, rfl, rfl⟩ := of_gives_alternative_some h
    exact registers_scope (ho st rfl (hw st rfl) hst) ((tree_grows c).statement st hst)

/-! ### Bodies -/

/-- What is registered while a body of its own is bound is known outside of it too. -/
theorem registers_leave {s s₁ : Binder} {b : Body} {ds ds' : List Definition}
    (h : c.Registers (s.enter b) s₁ ds ds') (hgrow : (s.enter b).Grows s₁) :
    c.Registers s s₁.leave ds ds' where
  heads := h.heads
  indexed := by
    rw [Binder.leave_eq hgrow.outer]
    exact id
  functions := by
    obtain ⟨new, hnew, hdescribes⟩ := h.functions
    refine ⟨new, ?_, fun final hfinal ↦ hdescribes ⟨s₁.body, s₁.outer, final.table⟩ hfinal.inner⟩
    rw [Binder.leave_eq hgrow.outer]
    exact hnew

theorem isSome_of_tyOf? {written : Option TypeExpr} {ret : Option Ty}
    (h : c.tyOf? written = .ok ret) : written.isSome = ret.isSome := by
  cases written with
  | none =>
    obtain rfl := Except.ok.inj h
    rfl
  | some t =>
    rw [tyOf?] at h
    cases ht : c.tyOf t with
    | error e =>
      rw [ht] at h
      cases h
    | ok ty =>
      rw [ht] at h
      obtain rfl := Except.ok.inj h
      rfl

/-- A function that is completed behind its body stands where it was registered in front of it. -/
theorem functions_registerLate {signature : Signature} {params : List (String × Ty)} {ty : Ty}
    {s s₁ : Binder} {body : Body} {new : List ScriptFunction}
    (h : s₁.functions = (registerEarly signature params (some ty) s).functions ++ new) :
    (registerLate signature params (some ty) s.functions.length body s₁).functions
      = s.functions ++
        ⟨signature.name, params.map Prod.snd, ty, body.locals, signature.location⟩ :: new := by
  have hmodify : ∀ (fs : List ScriptFunction) (f : ScriptFunction)
      (change : ScriptFunction → ScriptFunction),
      (fs ++ f :: new).modify fs.length change = fs ++ change f :: new := by
    intro fs f change
    induction fs with
    | nil => rfl
    | cons g fs ih => rw [List.cons_append, List.length_cons, List.modify_succ_cons, ih,
        List.cons_append]
  rw [registerLate, Binder.functions_recordLocals, h, registerEarly, Binder.functions_register,
    List.append_assoc]
  exact hmodify _ _ _

/-- The function of a definition, with what is known of its body when the body has been bound. -/
theorem describes_of_body {signature : Signature} {body body' : List Statement}
    {params : List (String × Ty)} {ret : ReturnType} {s s₁ final : Binder} {u : Unit}
    (hp : c.typedParams signature.location signature.params = .ok params)
    (hw : ∀ st ∈ body, st.Written)
    (h : (c.statements body).Gives (s.enter (.start params ret)) body' s₁ u)
    (hindexed : s₁.body.Indexed) (hfinal : s₁.leave.Grows final) :
    (final.tables c).Describes ⟨signature.name, params.map Prod.snd, s₁.body.ret.ty,
      s₁.body.locals, signature.location⟩ ⟨signature, body'⟩ := by
  obtain ⟨hparams, htyped⟩ := typedBody_of (fun st _ ↦ (tree_sound c).statement st) hw h hfinal
  exact ⟨rfl, rfl, s₁.body, hparams ▸ hp, by rw [hparams], rfl, rfl, hindexed, htyped⟩

theorem function_registers {l : Location} {signature : Signature} {body : List Statement}
    (ih : ∀ st ∈ body, StatementRegisters c st) (hw : ∀ st ∈ body, st.Written)
    {s s' : Binder} {st' : Statement} {u : Unit}
    (h : (c.statement (.function l signature body)).Gives s st' s' u) :
    c.Registers s s' (Statement.function l signature body).definitions st'.definitions := by
  obtain ⟨params, ret, body', s₁, hp, hret, hb, rfl, rfl⟩ := of_gives_function h
  have hgrow := statements_grows hb
  have hbody := registers_statements ih hw hb
  have hindexed := hbody.indexed (Body.Indexed.start params (returnOf ret))
  obtain ⟨new, hnew, hdescribes⟩ := (registers_leave hbody hgrow).functions
  have hsome := isSome_of_tyOf? hret
  have hlate := grows_registerLate signature params ret s.functions.length s₁.body s₁.leave
  rw [Statement.definitions, Statement.definitions, hsome]
  cases ret with
  | none =>
    -- the function comes behind those of its body
    have hlast : (registerLate signature params none s.functions.length s₁.body s₁.leave).functions
        = s.functions ++ (new ++ [⟨signature.name, params.map Prod.snd, s₁.body.ret.ty,
          s₁.body.locals, signature.location⟩]) := by
      rw [registerLate, Binder.functions_register, hnew, List.append_assoc]
      rfl
    refine ⟨by simp [hbody.heads], ?_, _, hlast, fun final hfinal ↦ ?_⟩
    · rw [Binder.leave_eq hgrow.outer]
      exact id
    · exact List.rel_append (hdescribes final (hlate.trans hfinal))
        (.cons (describes_of_body hp hw hb hindexed (hlate.trans hfinal)) .nil)
  | some ty =>
    -- the function comes in front of those of its body, and its return type is the written one
    have hty : s₁.body.ret.ty = ty := hgrow.ret.ty_eq (by rintro ⟨⟩)
    refine ⟨by simp [hbody.heads], ?_, _, functions_registerLate hnew, fun final hfinal ↦ ?_⟩
    · rw [Binder.leave_eq hgrow.outer]
      exact id
    · exact .cons (hty ▸ describes_of_body hp hw hb hindexed (hlate.trans hfinal))
        (hdescribes final (hlate.trans hfinal))

theorem call_registers {n : Node} {target : Expr} {args : List Expr} {t : Option CallTarget}
    (ih : ExprRegisters c target) (ihs : ∀ e ∈ args, ExprRegisters c e) (ht : target.Written)
    (hargs : WrittenItems args) {s s' : Binder} {e' : Expr} {ty : Ty}
    (h : (c.expr (.call n target args t)).Gives s e' s' ty) :
    c.Registers s s' (Expr.call n target args t).definitions e'.definitions := by
  obtain ⟨args', types, s₁, target', t, h₁, -, rfl, hform⟩ := of_gives_call h
  have hpassed := registers_args ihs hargs h₁
  rw [Expr.definitions, Expr.definitions]
  rcases hform with ⟨x, hx, rfl, rfl, -⟩ | ⟨x, owner, isType, hx, ho, -⟩ | ⟨fty, -, hf, -⟩
  · obtain ⟨m, hm⟩ := CallForm.of_function hx
    rw [Expr.definitions_of_ungrouped hm, List.append_nil, List.append_nil]
    exact hpassed
  · obtain ⟨m, o, ho'⟩ := CallForm.of_method hx
    exact hpassed.trans (ih.owned ht ho' ho) (((tree_grows c).expr target).2 ho)
  · exact hpassed.trans (ih.value ht hf) (expr_grows hf)

theorem new_registers {n : Node} {target : Expr} {args : List Expr} {t : Option CallTarget}
    (ih : ExprRegisters c target) (ihs : ∀ e ∈ args, ExprRegisters c e) (ht : target.IsChain)
    (hargs : WrittenItems args) {s s' : Binder} {e' : Expr} {ty : Ty}
    (h : (c.expr (.new n target args t)).Gives s e' s' ty) :
    c.Registers s s' (Expr.new n target args t).definitions e'.definitions := by
  obtain ⟨target', made, s₁, args', types, t, h₁, -, -, rfl, hmade⟩ := of_gives_new h
  have hpassed := registers_args ihs hargs h₁
  rw [Expr.definitions, Expr.definitions]
  rcases hmade with ⟨-, rfl, rfl⟩ | ⟨-, hbind, -⟩
  · rw [Expr.definitions_setNode, ht.definitions_eq]
    exact hpassed
  · exact (ih.value ht.written hbind).trans hpassed
      (args_grows (fun e _ ↦ (tree_grows c).expr e) h₁)

theorem unary_registers {n : Node} {op : UnaryOp} {e : Expr} {t : Option OperatorTarget}
    (ih : ExprRegisters c e) : ExprRegisters c (.unary n op e t) where
  value hw h := by
    rw [Expr.definitions]
    cases hw with
    | unary he =>
      rcases hop : op.methodName? with _ | method
      · obtain rfl := UnaryOp.methodName?_eq_none.mp hop
        obtain ⟨e₁, he₁, rfl⟩ := of_gives_group h
        rw [Expr.definitions]
        exact ih.value he he₁
      · obtain ⟨e₁, operand, t, he₁, -, rfl⟩ := of_gives_unary hop h
        rw [Expr.definitions]
        exact ih.value he he₁
  declared hw _ := nomatch hw
  owned hw hx h := by
    cases hw with
    | unary he =>
      cases op with
      | group =>
        obtain ⟨e₁, he₁, rfl⟩ := of_gives_owner_group h
        rw [Expr.definitions, Expr.definitions]
        exact ih.owned he hx he₁
      | _ => cases hx

theorem member_registers {n : Node} {target : Expr} {x : String} (ih : ExprRegisters c target) :
    ExprRegisters c (.member n target x) where
  value hw h := by
    rw [Expr.definitions]
    cases hw with
    | member ht _ =>
      obtain ⟨target', owner, b, ht', -, rfl, -⟩ := of_gives_member h
      rw [Expr.definitions]
      exact ih.value ht ht'
  declared hw _ := nomatch hw
  owned hw hx h := by
    cases hw with
    | member ht _ =>
      obtain ⟨target', ht', -, rfl⟩ := of_gives_owner_member h
      rw [Expr.definitions, Expr.definitions]
      exact ih.value ht ht'

/-- Every form registers the functions that it defines if its parts do. -/
theorem tree_registers (c : BindContext) : Tree.Cases (ExprRegisters c) (StatementRegisters c) where
  literal n v := .of_value (fun _ h ↦ by
    obtain ⟨rfl, rfl, -⟩ := of_gives_literal h
    exact .refl _) nofun rfl
  null n := .of_value (fun _ h ↦ by
    obtain ⟨rfl, rfl, -⟩ := of_gives_null h
    exact .refl _) nofun rfl
  this n := .of_value (fun _ h ↦ by
    obtain ⟨rfl, rfl, -⟩ := of_gives_this h
    exact .refl _) nofun rfl
  empty n := .of_value (fun hw _ ↦ nomatch hw) nofun rfl
  name n x := .of_value (fun _ h ↦ by
    obtain ⟨b, -, rfl, rfl, -⟩ := of_gives_name h
    exact .refl _) nofun rfl
  variableRef n x := .of_value (fun _ h ↦ by
    obtain ⟨b, -, rfl, rfl, -⟩ := of_gives_variableRef h
    exact .refl _) nofun rfl
  constantRef n x := .of_value (fun _ h ↦ by
    obtain ⟨b, -, rfl, rfl, -⟩ := of_gives_constantRef h
    exact .refl _) nofun rfl
  member n target x ih := member_registers ih
  unary n op e t ih := unary_registers ih
  binary n op a b t iha ihb := .of_value (fun hw h ↦ by
    cases hw with
    | binary ha hb =>
      obtain ⟨a', b', s₁, left, right, t, ha', hb', -, rfl⟩ := of_gives_binary h
      exact (iha.value ha ha').trans (ihb.value hb hb') (expr_grows hb')) nofun rfl
  coalesce n a b iha ihb := .of_value (fun hw h ↦ by
    cases hw with
    | coalesce ha hb =>
      obtain ⟨a', b', s₁, right, ha', hb', rfl⟩ := of_gives_coalesce h
      exact (iha.value ha ha').trans (ihb.value hb hb') (expr_grows hb')) nofun rfl
  ternary n x a b v ihx iha ihb := .of_value (fun hw h ↦ by
    cases hw with
    | ternary hx ha hb =>
      obtain ⟨x', a', b', s₁, s₂, onTrue, onFalse, v, hx', ha', hb', -, rfl⟩ := of_gives_ternary h
      exact ((ihx.value hx hx').trans (iha.value ha ha') (expr_grows ha')).trans
        (ihb.value hb hb') (expr_grows hb')) nofun rfl
  assign n target v k iht ihv := .of_value (fun hw h ↦ by
    cases hw with
    | assign ht hv =>
      obtain ⟨v', target', s₁, s₂, value, k, hv', hd, ht', -, -, rfl⟩ := of_gives_assign h
      exact ((ihv.value hv hv').before (registers_of_declareByAssignment hd)
        (grows_of_declareByAssignment hd)).trans (iht.value ht ht') (expr_grows ht')) nofun rfl
  call n target args t ih ihs := .of_value (fun hw h ↦ by
    cases hw with
    | call ht _ hargs => exact call_registers ih ihs ht hargs h) nofun rfl
  new n target args t ih ihs := .of_value (fun hw h ↦ by
    cases hw with
    | new ht _ hargs => exact new_registers ih ihs ht hargs h) nofun rfl
  index n target args t ih ihs := .of_value (fun hw h ↦ by
    cases hw with
    | index ht _ hargs =>
      obtain ⟨target', s₁, container, args', types, t, ht', hargs', -, -, rfl⟩ := of_gives_index h
      exact (ih.value ht ht').trans (registers_args ihs hargs hargs')
        (args_grows (fun e _ ↦ (tree_grows c).expr e) hargs')) nofun rfl
  declare n x written init k ih :=
    { value := fun hw _ ↦ nomatch hw
      declared := fun hw h ↦ by
        cases hw with
        | declare _ hinit =>
          obtain ⟨declared, init', s₁, initial, k, -, hi, -, rfl, rfl⟩ := of_gives_declare h
          exact (registers_optional ih hinit hi).before (registers_declare s₁ x _)
            (s₁.grows_declare x _)
      owned := fun hw _ _ ↦ nomatch hw }
  array n written items cs ih := .of_value (fun hw h ↦ by
    cases hw with
    | array _ hitems =>
      obtain ⟨declared, items', types, element, cs, -, hitems', -, -, -, rfl⟩ := of_gives_array h
      exact registers_args ih hitems hitems') nofun rfl
  lambda n params body ih := .of_value (fun hw h ↦ by
    cases hw with
    | lambda hbody =>
      obtain ⟨typed, body', s₁, -, hb, rfl, -, rfl⟩ := of_gives_lambda h
      exact registers_leave (registers_statements ih hbody hb) (statements_grows hb)) nofun rfl
  block n body ih := .of_value (fun hw h ↦ by
    cases hw with
    | block hbody =>
      obtain ⟨body', s₁, hb, rfl, -, rfl⟩ := of_gives_block h
      exact registers_scope (registers_statements ih hbody hb) (statements_grows hb)) nofun rfl
  exprStatement e ih := fun hw h ↦ by
    cases hw with
    | expr he =>
      obtain ⟨e₁, ty, he', rfl⟩ := of_gives_expr_statement h
      exact ih.value he he'
  blockStatement l body ih := fun hw h ↦ by
    cases hw with
    | block hbody =>
      obtain ⟨body', s₁, hb, rfl, rfl⟩ := of_gives_block_statement h
      exact registers_scope (registers_statements ih hbody hb) (statements_grows hb)
  cond l x a b ihx iha ihb := fun hw h ↦ by
    cases hw with
    | cond hx ha hb =>
      obtain ⟨x', a', b', s₁, s₂, hx', ha', hb', rfl⟩ := of_gives_cond h
      have hbranch := branch_grows ((tree_grows c).statement a) ha'
      have halt := alternative_grows (fun st _ ↦ (tree_grows c).statement st) hb'
      exact ((ihx.value hx hx').trans
        (registers_scope (iha ha ha') ((tree_grows c).statement a ha')) hbranch).trans
        (registers_alternative ihb hb hb') halt
  ret l value k ih := fun hw h ↦ by
    cases hw with
    | ret hvalue =>
      obtain ⟨value', s₁, ty, ret, k, hv, hr, rfl, rfl⟩ := of_gives_ret h
      have hsettle := Binder.grows_settle (settles_of_returned hr)
      exact (registers_optional ih hvalue hv).before (.of_functions_eq rfl id) hsettle
  throw l value ih := fun hw h ↦ by
    cases hw with
    | throw hvalue =>
      obtain ⟨value', ty, hv, rfl⟩ := of_gives_throw h
      exact registers_optional ih hvalue hv
  vars l declarations ih := fun hw h ↦ by
    cases hw with
    | vars hd =>
      obtain ⟨declarations', hd', rfl⟩ := of_gives_vars h
      exact registers_exprs ih hd hd'
  function l signature body ih := fun hw h ↦ by
    cases hw with
    | function hbody => exact function_registers ih hbody h

/-! ## Programs -/

/-- A program that binds has registered the functions of its definitions, in order, and none
else. -/
theorem registered_of_gives {p q : Program} {s : Binder} {ty : Ty} (hp : ∀ st ∈ p, st.Written)
    (h : (c.program p).Gives .start q s ty) :
    List.Forall₂ (s.tables c).Describes s.functions (statementsDefinitions q) ∧
      (statementsDefinitions q).map Definition.head
        = (statementsDefinitions p).map Definition.head ∧
      s.body.Indexed ∧ s.body.params = [] := by
  simp only [program, Pass.gives_within, Pass.gives_done] at h
  obtain ⟨q', s', _, hq, rfl, rfl, -⟩ := h
  have hregisters := registers_statements (fun st _ ↦ (tree_registers c).statement st) hp hq
  obtain ⟨new, hnew, hdescribes⟩ := hregisters.functions
  have hall : s.functions = new := hnew
  refine ⟨hall ▸ hdescribes s (.refl s), hregisters.heads, hregisters.indexed (.start [] _), ?_⟩
  exact (statements_grows hq).params

end BindContext

end Scriptlet
