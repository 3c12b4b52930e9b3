import Scriptlet.Bind.Tree
import Scriptlet.Proofs.Except

/-!
# Binding that succeeds

A step of binding is a function on states that always leaves a tree. Here its successful outcomes
are read as a relation, `m.Gives s t s' a`, and each way of making a step out of others gets one
equivalence. With these, what it takes for a tree to bind can be read off without running anything:
the second half of the module does so for every form of expression and statement, once, and the
theory of binding refers to these equivalences only.
-/

namespace Scriptlet

namespace Pass

variable {T U α β σ : Type} {s s' : Binder}

/-- From the state `s` the step leaves the tree `t` and the state `s'`, and answers `a`. -/
def Gives (m : Pass T α) (s : Binder) (t : T) (s' : Binder) (a : α) : Prop :=
  m s = ⟨t, s', .ok a⟩

/-! ## Single steps -/

theorem gives_done {t t' : T} {a a' : α} :
    (done t a).Gives s t' s' a' ↔ t' = t ∧ s' = s ∧ a' = a := by
  rw [Gives, done, Bound.mk.injEq, Except.ok.injEq]
  exact ⟨fun ⟨ht, hs, ha⟩ ↦ ⟨ht.symm, hs.symm, ha.symm⟩,
    fun ⟨ht, hs, ha⟩ ↦ ⟨ht.symm, hs.symm, ha.symm⟩⟩

theorem gives_stop {t t' : T} {e : BindError} {a : α} :
    (stop t e : Pass T α).Gives s t' s' a ↔ False := by
  simp [Gives, stop]

theorem gives_within {m : Pass T α} {whole : T → U} {next : T → α → Pass U β} {u : U} {b : β} :
    (m.within whole next).Gives s u s' b ↔
      ∃ t s₁ a, m.Gives s t s₁ a ∧ (next t a).Gives s₁ u s' b := by
  rw [Gives, within]
  constructor
  · intro h
    rcases hm : m s with ⟨t, s₁, e | a⟩
    · simp [hm] at h
    · rw [hm] at h
      exact ⟨t, s₁, a, hm, h⟩
  · rintro ⟨t, s₁, a, hm, h⟩
    rw [Gives] at hm
    rw [hm]
    exact h

theorem gives_look {t u : U} {test : Binder → Except BindError α} {next : α → Pass U β} {b : β} :
    (look t test next).Gives s u s' b ↔
      ∃ a, test s = .ok a ∧ (next a).Gives s u s' b := by
  rw [Gives, look]
  constructor
  · intro h
    rcases ht : test s with e | a
    · simp [ht] at h
    · rw [ht] at h
      exact ⟨a, rfl, h⟩
  · rintro ⟨a, ht, h⟩
    rw [ht]
    exact h

theorem gives_check {t u : U} {r : Except BindError α} {next : α → Pass U β} {b : β} :
    (check t r next).Gives s u s' b ↔ ∃ a, r = .ok a ∧ (next a).Gives s u s' b :=
  gives_look

theorem gives_change {f : Binder → Binder} {next : Pass U β} {u : U} {b : β} :
    (change f next).Gives s u s' b ↔ next.Gives (f s) u s' b :=
  Iff.rfl

theorem gives_fill {place : Option σ} {v : σ} {l : Location} {node : Option σ → U}
    {next : U → Pass U β} {u : U} {b : β} :
    (fill place v l node next).Gives s u s' b ↔
      place = none ∧ (next (node (some v))).Gives s u s' b := by
  cases place with
  | none => simp [fill]
  | some w => simp [fill, gives_stop]

theorem gives_inScope {m : Pass T α} {t : T} {a : α} :
    (inScope m).Gives s t s' a ↔
      ∃ s₁, m.Gives (s.change Body.pushScope) t s₁ a ∧ s' = s₁.change Body.popScope := by
  rw [Gives, inScope]
  constructor
  · intro h
    rcases hm : m (s.change Body.pushScope) with ⟨t', s₁, r⟩
    rw [hm, Bound.mk.injEq] at h
    obtain ⟨rfl, rfl, rfl⟩ := h
    exact ⟨s₁, hm, rfl⟩
  · rintro ⟨s₁, hm, rfl⟩
    rw [Gives] at hm
    rw [hm]

theorem gives_inBody {m : Pass T α} {body : Body} {t : T} {r : α × Body} :
    (inBody body m).Gives s t s' r ↔
      ∃ s₁, m.Gives (s.enter body) t s₁ r.1 ∧ s' = s₁.leave ∧ r.2 = s₁.body := by
  rw [Gives, inBody]
  constructor
  · intro h
    rcases hm : m (s.enter body) with ⟨t', s₁, e | a⟩
    · simp [hm, Except.map] at h
    · rw [hm, Bound.mk.injEq] at h
      obtain ⟨rfl, rfl, hr⟩ := h
      obtain rfl : (a, s₁.body) = r := by simpa [Except.map] using hr
      exact ⟨s₁, hm, rfl, rfl⟩
  · rintro ⟨s₁, hm, rfl, hr⟩
    rw [Gives] at hm
    rw [hm, ← hr]
    rfl

end Pass

/-! ## Nodes -/

/-- Only parentheses have no method. -/
theorem UnaryOp.methodName?_eq_none {op : UnaryOp} : op.methodName? = none ↔ op = .group := by
  cases op <;> simp [methodName?]

/-- The node after its type was found, and its storage if it has one. -/
def Node.resolve (n : Node) (ty : Ty) (b : Option Binding) : Node :=
  { n with ty := some ty, binding := b.or n.binding }

@[simp] theorem Node.resolve_ty (n : Node) (ty : Ty) (b : Option Binding) :
    (n.resolve ty b).ty = some ty := rfl

@[simp] theorem Node.resolve_location (n : Node) (ty : Ty) (b : Option Binding) :
    (n.resolve ty b).location = n.location := rfl

@[simp] theorem Node.resolve_binding (n : Node) (ty : Ty) (b : Option Binding) :
    (n.resolve ty b).binding = b.or n.binding := rfl

@[simp] theorem Expr.node_setNode (n : Node) (e : Expr) : (e.setNode n).node = n := by
  cases e <;> rfl

@[simp] theorem Expr.setNode_setNode (m n : Node) (e : Expr) :
    (e.setNode m).setNode n = e.setNode n := by
  cases e <;> rfl

theorem Pass.gives_resolve {e e' : Expr} {ty ty' : Ty} {b : Option Binding} {s s' : Binder} :
    (resolve e ty b).Gives s e' s' ty' ↔
      e.node.ty = none ∧ (b.isSome → e.node.binding = none) ∧
        e' = e.setNode (e.node.resolve ty b) ∧ s' = s ∧ ty' = ty := by
  rw [resolve, gives_fill]
  refine and_congr_right fun _ ↦ ?_
  cases b with
  | none => simp [gives_done, Node.resolve]
  | some b => simp [gives_fill, gives_done, Node.resolve]

/-! ## Expressions

One statement per form: how its parts were bound, what was found out about the node, and the tree
that is left. Every place that is filled was empty before. -/

namespace BindContext

open Pass

attribute [local simp] expr owner args optional statement alternative exprs statements

variable {c : BindContext} {s s' : Binder} {e' : Expr} {ty : Ty} {n : Node}

theorem of_gives_literal {v : Literal} (h : (c.expr (.literal n v)).Gives s e' s' ty) :
    e' = .literal (n.resolve ty none) v ∧ s' = s ∧ ty = v.ty := by
  simp only [expr, gives_resolve] at h
  obtain ⟨-, -, rfl, rfl, rfl⟩ := h
  exact ⟨rfl, rfl, rfl⟩

theorem of_gives_null (h : (c.expr (.null n)).Gives s e' s' ty) :
    e' = .null (n.resolve ty none) ∧ s' = s ∧ ty = .null := by
  simp only [expr, gives_resolve] at h
  obtain ⟨-, -, rfl, rfl, rfl⟩ := h
  exact ⟨rfl, rfl, rfl⟩

theorem of_gives_this (h : (c.expr (.this n)).Gives s e' s' ty) :
    e' = .this (n.resolve ty none) ∧ s' = s ∧ c.this = some ty := by
  rw [expr] at h
  split at h
  · rename_i hthis
    rw [gives_resolve] at h
    obtain ⟨-, -, rfl, rfl, rfl⟩ := h
    exact ⟨rfl, rfl, hthis⟩
  · exact absurd h (by simp [gives_stop])

theorem not_gives_empty : ¬(c.expr (.empty n)).Gives s e' s' ty := by
  simp [expr, gives_stop]

/-- A name that is found: the storage is recorded with its type. -/
theorem of_gives_named {e : Expr} {name : String} {find : Binder → Option Binding}
    (h : (named e name find).Gives s e' s' ty) :
    ∃ b, find s = some b ∧ e' = e.setNode (e.node.resolve ty (some b)) ∧ s' = s ∧ ty = b.ty := by
  simp only [named, gives_look, gives_resolve] at h
  obtain ⟨b, hb, -, -, rfl, rfl, rfl⟩ := h
  rcases hf : find s' with _ | b'
  · simp [known, hf] at hb
  · obtain rfl : b' = b := by simpa [known, hf] using hb
    exact ⟨b', rfl, rfl, rfl, rfl⟩

theorem of_gives_name {x : String} (h : (c.expr (.name n x)).Gives s e' s' ty) :
    ∃ b, c.name? s.body x = some b ∧ e' = .name (n.resolve ty (some b)) x ∧ s' = s ∧
      ty = b.ty :=
  of_gives_named (by rwa [expr] at h)

theorem of_gives_variableRef {x : String} (h : (c.expr (.variableRef n x)).Gives s e' s' ty) :
    ∃ b, s.body.storage? x = some b ∧ e' = .variableRef (n.resolve ty (some b)) x ∧ s' = s ∧
      ty = b.ty :=
  of_gives_named (by rwa [expr] at h)

theorem of_gives_constantRef {x : String} (h : (c.expr (.constantRef n x)).Gives s e' s' ty) :
    ∃ b, c.constant? x = some b ∧ e' = .constantRef (n.resolve ty (some b)) x ∧ s' = s ∧
      ty = b.ty :=
  of_gives_named (by rwa [expr] at h)

theorem of_gives_member {target : Expr} {x : String}
    (h : (c.expr (.member n target x)).Gives s e' s' ty) :
    ∃ target' owner b, (c.expr target).Gives s target' s' owner ∧
      c.registry.member? owner x target'.isTypeName = some b ∧
      e' = .member (n.resolve ty (some b)) target' x ∧ ty = b.ty := by
  simp only [expr, gives_within, gives_check, gives_resolve] at h
  obtain ⟨target', s₁, owner, ht, b, hb, -, -, rfl, rfl, rfl⟩ := h
  rcases hm : c.registry.member? owner x target'.isTypeName with _ | b'
  · simp [hm] at hb
  · obtain rfl : b' = b := by simpa [hm] using hb
    exact ⟨target', owner, b', ht, hm, rfl, rfl⟩

theorem of_gives_group {e : Expr} {place : Option OperatorTarget}
    (h : (c.expr (.unary n .group e place)).Gives s e' s' ty) :
    ∃ e₁, (c.expr e).Gives s e₁ s' ty ∧
      e' = .unary (n.resolve ty e₁.node.binding) .group e₁ (some ⟨.transparent, []⟩) := by
  simp only [expr, gives_within, UnaryOp.methodName?, gives_fill, gives_resolve] at h
  obtain ⟨e₁, s₁, ty, he, -, -, -, rfl, rfl, rfl⟩ := h
  exact ⟨e₁, he, rfl⟩

theorem of_gives_unary {op : UnaryOp} {method : String} {e : Expr}
    {place : Option OperatorTarget} (hop : op.methodName? = some method)
    (h : (c.expr (.unary n op e place)).Gives s e' s' ty) :
    ∃ e₁ operand t, (c.expr e).Gives s e₁ s' operand ∧
      c.registry.unary op method e₁.node.binding operand n.location = .ok (t, ty) ∧
      e' = .unary (n.resolve ty none) op e₁ (some t) := by
  simp only [expr, gives_within, hop, gives_check, gives_fill, gives_resolve] at h
  obtain ⟨e₁, s₁, operand, he, ⟨t, ret⟩, ht, -, -, -, rfl, rfl, rfl⟩ := h
  exact ⟨e₁, operand, t, he, ht, rfl⟩

theorem of_gives_binary {op : BinaryOp} {a b : Expr} {place : Option OperatorTarget}
    (h : (c.expr (.binary n op a b place)).Gives s e' s' ty) :
    ∃ a' b' s₁ left right t, (c.expr a).Gives s a' s₁ left ∧ (c.expr b).Gives s₁ b' s' right ∧
      c.registry.binary op left right n.location = .ok (t, ty) ∧
      e' = .binary (n.resolve ty none) op a' b' (some t) := by
  simp only [expr, gives_within, gives_check, gives_fill, gives_resolve] at h
  obtain ⟨a', s₁, left, ha, b', s₂, right, hb, ⟨t, ret⟩, ht, -, -, -, rfl, rfl, rfl⟩ := h
  exact ⟨a', b', s₁, left, right, t, ha, hb, ht, rfl⟩

theorem of_gives_coalesce {a b : Expr} (h : (c.expr (.coalesce n a b)).Gives s e' s' ty) :
    ∃ a' b' s₁ right, (c.expr a).Gives s a' s₁ ty ∧ (c.expr b).Gives s₁ b' s' right ∧
      e' = .coalesce (n.resolve ty none) a' b' := by
  simp only [expr, gives_within, gives_resolve] at h
  obtain ⟨a', s₁, left, ha, b', s₂, right, hb, -, -, rfl, rfl, rfl⟩ := h
  exact ⟨a', b', s₁, right, ha, hb, rfl⟩

theorem of_expectBool {l : Location} {u : Unit} (h : expectBool ty l = .ok u) : ty = .bool := by
  rw [expectBool] at h
  split at h
  · assumption
  · cases h

theorem of_gives_ternary {x a b : Expr} {place : Option BranchConversion}
    (h : (c.expr (.ternary n x a b place)).Gives s e' s' ty) :
    ∃ x' a' b' s₁ s₂ onTrue onFalse v, (c.expr x).Gives s x' s₁ .bool ∧
      (c.expr a).Gives s₁ a' s₂ onTrue ∧ (c.expr b).Gives s₂ b' s' onFalse ∧
      c.registry.join onTrue onFalse n.location = .ok (ty, v) ∧
      e' = .ternary (n.resolve ty none) x' a' b' (v.or place) := by
  simp only [expr, gives_within, gives_check] at h
  obtain ⟨x', s₁, xty, hx, _, hbool, a', s₂, onTrue, ha, b', s₃, onFalse, hb, ⟨ret, v⟩, hj, h⟩ := h
  obtain rfl := of_expectBool hbool
  cases v with
  | none =>
    rw [gives_resolve] at h
    obtain ⟨-, -, rfl, rfl, rfl⟩ := h
    exact ⟨x', a', b', s₁, s₂, onTrue, onFalse, none, hx, ha, hb, hj, rfl⟩
  | some v =>
    simp only [gives_fill, gives_resolve] at h
    obtain ⟨-, -, -, rfl, rfl, rfl⟩ := h
    exact ⟨x', a', b', s₁, s₂, onTrue, onFalse, some v, hx, ha, hb, hj, rfl⟩

theorem of_gives_assign {target v : Expr} {place : Option (Option Conversion)}
    (h : (c.expr (.assign n target v place)).Gives s e' s' ty) :
    ∃ v' target' s₁ s₂ value k, (c.expr v).Gives s v' s₁ value ∧
      c.declareByAssignment target value s₁ = .ok s₂ ∧
      (c.expr target).Gives s₂ target' s' ty ∧ target'.isAssignable ∧
      c.registry.convert value ty n.location = .ok k ∧
      e' = .assign (n.resolve ty none) target' v' (some k) := by
  simp only [expr, gives_within, gives_look, gives_change, gives_check, gives_fill,
    gives_resolve] at h
  obtain ⟨v', s₁, value, hv, s₂, hd, target', s₃, tty, ht, _, hassign, k, hk, -, -, -, rfl, rfl,
    rfl⟩ := h
  have hassignable : target'.isAssignable := by
    rw [expectAssignable] at hassign
    split at hassign
    · assumption
    · cases hassign
  exact ⟨v', target', s₁, s₂, value, k, hv, hd, ht, hassignable, hk, rfl⟩

/-! ## Calls -/

/-- A call that was chosen: the target is recorded, and its type is that of the call. -/
theorem of_gives_recordCall {place : Option CallTarget} {t : CallTarget} {l : Location}
    {node : Option CallTarget → Expr} (h : (recordCall place t l node).Gives s e' s' ty) :
    e' = (node (some t)).setNode ((node (some t)).node.resolve ty none) ∧ s' = s ∧ ty = t.ret := by
  simp only [recordCall, gives_fill, gives_resolve] at h
  obtain ⟨-, -, -, rfl, rfl, rfl⟩ := h
  exact ⟨rfl, rfl, rfl⟩

/-- A call has one of three forms. By a function's name the target stays as it is, by a method's
name only its owner is bound, and any other target is bound whole. -/
theorem of_gives_call {target : Expr} {args : List Expr} {place : Option CallTarget}
    (h : (c.expr (.call n target args place)).Gives s e' s' ty) :
    ∃ args' types s₁ target' t, (c.args args).Gives s args' s₁ types ∧ ty = t.ret ∧
      e' = .call (n.resolve ty none) target' args' (some t) ∧
      ((∃ x, CallForm.of s₁.body target = .function x ∧ target' = target ∧ s' = s₁ ∧
          c.functionTarget s₁ x types target.location n.location = .ok t) ∨
        (∃ x owner isType, CallForm.of s₁.body target = .method x ∧
          (c.owner target).Gives s₁ target' s' (owner, isType) ∧
          c.registry.methodTarget owner isType x types n.location = .ok t) ∨
        ∃ fty, CallForm.of s₁.body target = .value ∧ (c.expr target).Gives s₁ target' s' fty ∧
          c.registry.valueTarget fty types n.location = .ok t) := by
  rw [expr] at h
  obtain ⟨args', s₁, types, hargs, h⟩ := gives_within.mp h
  simp only [Gives] at h
  split at h
  · rename_i x hform
    rw [← Gives, gives_check] at h
    obtain ⟨t, ht, h⟩ := h
    obtain ⟨rfl, rfl, hty⟩ := of_gives_recordCall h
    exact ⟨args', types, s', target, t, hargs, hty, rfl, .inl ⟨x, hform, rfl, rfl, ht⟩⟩
  · rename_i x hform
    rw [← Gives, gives_within] at h
    obtain ⟨target', s₂, ⟨owner, isType⟩, ho, h⟩ := h
    rw [gives_check] at h
    obtain ⟨t, ht, h⟩ := h
    obtain ⟨rfl, rfl, hty⟩ := of_gives_recordCall h
    exact ⟨args', types, s₁, target', t, hargs, hty, rfl,
      .inr (.inl ⟨x, owner, isType, hform, ho, ht⟩)⟩
  · rename_i hform
    rw [← Gives, gives_within] at h
    obtain ⟨target', s₂, fty, hf, h⟩ := h
    rw [gives_check] at h
    obtain ⟨t, ht, h⟩ := h
    obtain ⟨rfl, rfl, hty⟩ := of_gives_recordCall h
    exact ⟨args', types, s₁, target', t, hargs, hty, rfl, .inr (.inr ⟨fty, hform, hf, ht⟩)⟩

/-- A construction: the written name is that of a type, or else the target is bound and turns out to
be the name of a type. -/
theorem of_gives_new {target : Expr} {args : List Expr} {place : Option CallTarget}
    (h : (c.expr (.new n target args place)).Gives s e' s' ty) :
    ∃ target' made s₁ args' types t, (c.args args).Gives s₁ args' s' types ∧
      c.registry.constructorTarget made types n.location = .ok t ∧ ty = t.ret ∧
      e' = .new (n.resolve ty none) target' args' (some t) ∧
      ((target.qualifiedName?.bind c.registry.resolve? = some made ∧ s₁ = s ∧
          target' = target.setNode (target.node.resolve made (some (.typeName made)))) ∨
        (target.qualifiedName?.bind c.registry.resolve? = none ∧
          (c.expr target).Gives s target' s₁ made ∧ target'.isTypeName)) := by
  rw [expr] at h
  split at h
  · rename_i made hmade
    simp only [gives_within, gives_resolve, gives_check] at h
    obtain ⟨target', s₁, made', ⟨-, -, rfl, rfl, rfl⟩, args', s₂, types, hargs, t, ht, h⟩ := h
    obtain ⟨rfl, rfl, hty⟩ := of_gives_recordCall h
    exact ⟨_, made', s₁, args', types, t, hargs, ht, hty, rfl, .inl ⟨hmade, rfl, rfl⟩⟩
  · rename_i hmade
    simp only [gives_within, gives_check] at h
    obtain ⟨target', s₁, made, htarget, _, hname, args', s₂, types, hargs, t, ht, h⟩ := h
    obtain ⟨rfl, rfl, hty⟩ := of_gives_recordCall h
    have htype : target'.isTypeName := by
      split at hname
      · assumption
      · cases hname
    exact ⟨target', made, s₁, args', types, t, hargs, ht, hty, rfl, .inr ⟨hmade, htarget, htype⟩⟩

theorem of_gives_index {target : Expr} {args : List Expr} {place : Option CallTarget}
    (h : (c.expr (.index n target args place)).Gives s e' s' ty) :
    ∃ target' s₁ container args' types t, (c.expr target).Gives s target' s₁ container ∧
      (c.args args).Gives s₁ args' s' types ∧
      c.registry.indexTarget container types n.location = .ok t ∧ ty = t.ret ∧
      e' = .index (n.resolve ty none) target' args' (some t) := by
  simp only [expr, gives_within, gives_check] at h
  obtain ⟨target', s₁, container, htarget, args', s₂, types, hargs, t, ht, h⟩ := h
  obtain ⟨rfl, rfl, hty⟩ := of_gives_recordCall h
  exact ⟨target', s₁, container, args', types, t, htarget, hargs, ht, hty, rfl⟩

/-! ## Declarations, arrays and bodies -/

theorem of_gives_declare {x : String} {written : Option TypeExpr} {init : Option Expr}
    {place : Option (Option Conversion)}
    (h : (c.expr (.declare n x written init place)).Gives s e' s' ty) :
    ∃ declared init' s₁ initial k, c.tyOf? written = .ok declared ∧
      (c.optional init).Gives s init' s₁ initial ∧
      c.registry.declared x declared initial n.location = .ok (ty, k) ∧
      s' = s₁.change (fun b ↦ b.declare x ty) ∧
      e' = .declare (n.resolve ty (some (.variable (s₁.body.nextLocal x ty)))) x written init'
        (some k) := by
  simp only [expr, gives_within, gives_check, gives_fill, gives_look, gives_change,
    gives_resolve] at h
  obtain ⟨declared, hw, init', s₁, initial, hi, ⟨ret, k⟩, hd, -, slot, hslot, -, -, rfl, rfl,
    rfl⟩ := h
  obtain rfl : s₁.body.nextLocal x ret = slot := by simpa using hslot
  exact ⟨declared, init', s₁, initial, k, hw, hi, hd, rfl, rfl⟩

theorem of_gives_array {written : Option TypeExpr} {items : List Expr}
    {place : Option Conversions}
    (h : (c.expr (.array n written items place)).Gives s e' s' ty) :
    ∃ declared items' types element cs, c.tyOf? written = .ok declared ∧
      (c.args items).Gives s items' s' types ∧
      elementTy declared types n.location = .ok element ∧
      c.registry.convertItems element (types.zip (items'.map Expr.location)) = .ok cs ∧
      ty = .array element ∧
      e' = .array (n.resolve ty none) written items' (some cs) := by
  simp only [expr, gives_within, gives_check, gives_fill, gives_resolve] at h
  obtain ⟨declared, hw, items', s₁, types, hitems, ⟨element, cs⟩, ht, -, -, -, rfl, rfl, rfl⟩ := h
  obtain ⟨element', he, ht⟩ := of_bind_ok ht
  obtain ⟨cs', hc, ht⟩ := of_bind_ok ht
  obtain ⟨rfl, rfl⟩ := Prod.mk.inj (Except.ok.inj ht)
  exact ⟨declared, items', types, element', cs', hw, hitems, he, hc, rfl, rfl⟩

theorem of_typedParams_cons {p : Param} {ps : List Param} {typed : List (String × Ty)}
    {l : Location}
    (h : c.typedParams l (p :: ps) = .ok typed) :
    ∃ t ty rest, p.typeExpr = some t ∧ c.tyOf t = .ok ty ∧ c.typedParams l ps = .ok rest ∧
      typed = (p.name, ty) :: rest := by
  rw [typedParams] at h
  split at h
  · cases h
  · rename_i t ht
    obtain ⟨ty, hty, h⟩ := of_bind_ok h
    obtain ⟨rest, hrest, h⟩ := of_bind_ok h
    exact ⟨t, ty, rest, ht, hty, hrest, (Except.ok.inj h).symm⟩

theorem names_of_typedParams {params : List Param} {typed : List (String × Ty)} {l : Location}
    (h : c.typedParams l params = .ok typed) : typed.map Prod.fst = params.map Param.name := by
  induction params generalizing typed with
  | nil =>
    obtain rfl := Except.ok.inj h
    rfl
  | cons p ps ih =>
    obtain ⟨-, ty, rest, -, -, hrest, rfl⟩ := of_typedParams_cons h
    rw [List.map_cons, List.map_cons, ih hrest]

theorem of_gives_lambda {params : List Param} {body : List Statement}
    (h : (c.expr (.lambda n params body)).Gives s e' s' ty) :
    ∃ typed body' s₁, c.typedParams n.location params = .ok typed ∧
      (c.statements body).Gives (s.enter (.start typed (.inferred none))) body' s₁ () ∧
      s' = s₁.leave ∧ ty = .delegate (typed.map Prod.snd) s₁.body.ret.ty ∧
      e' = .lambda (n.resolve ty none) params body' := by
  simp only [expr, gives_within, gives_check, gives_inBody, gives_resolve] at h
  obtain ⟨typed, hp, body', s₁, ⟨_, b⟩, ⟨s₂, hb, rfl, rfl⟩, -, -, rfl, rfl, rfl⟩ := h
  exact ⟨typed, body', s₂, hp, hb, rfl, rfl, rfl⟩

theorem of_gives_block {body : List Statement} (h : (c.expr (.block n body)).Gives s e' s' ty) :
    ∃ body' s₁, (c.statements body).Gives (s.change Body.pushScope) body' s₁ () ∧
      s' = s₁.change Body.popScope ∧ ty = trailingTy body' ∧
      e' = .block (n.resolve ty none) body' := by
  simp only [expr, gives_within, gives_inScope, gives_resolve] at h
  obtain ⟨body', s₁, _, ⟨s₂, hb, rfl⟩, -, -, rfl, rfl, rfl⟩ := h
  exact ⟨body', s₂, hb, rfl, rfl, rfl⟩

/-! ## Lists, options and owners -/

theorem of_gives_owner_group {e : Expr} {place : Option OperatorTarget} {o : Ty × Bool}
    (h : (c.owner (.unary n .group e place)).Gives s e' s' o) :
    ∃ e₁, (c.owner e).Gives s e₁ s' o ∧ e' = .unary n .group e₁ place := by
  simp only [owner, gives_within, gives_done] at h
  obtain ⟨e₁, s₁, o', ho, rfl, rfl, rfl⟩ := h
  exact ⟨e₁, ho, rfl⟩

theorem of_gives_owner_member {target : Expr} {x : String} {o : Ty × Bool}
    (h : (c.owner (.member n target x)).Gives s e' s' o) :
    ∃ target', (c.expr target).Gives s target' s' o.1 ∧ o.2 = target'.isTypeName ∧
      e' = .member n target' x := by
  simp only [owner, gives_within, gives_done] at h
  obtain ⟨target', s₁, ty, ht, rfl, rfl, rfl⟩ := h
  exact ⟨target', ht, rfl, rfl⟩

theorem of_gives_args_nil {es' : List Expr} {tys : List Ty}
    (h : (c.args []).Gives s es' s' tys) : es' = [] ∧ s' = s ∧ tys = [] := by
  rwa [args, gives_done] at h

theorem of_gives_args_cons {e : Expr} {es es' : List Expr} {tys : List Ty}
    (h : (c.args (e :: es)).Gives s es' s' tys) :
    ∃ e₁ es₁ s₁ ty tys₁, (c.expr e).Gives s e₁ s₁ ty ∧ (c.args es).Gives s₁ es₁ s' tys₁ ∧
      es' = e₁ :: es₁ ∧ tys = ty :: tys₁ := by
  by_cases hempty : ∃ m, e = .empty m
  · obtain ⟨m, rfl⟩ := hempty
    simp [args, gives_stop] at h
  · rw [args] at h
    · simp only [gives_within, gives_done] at h
      obtain ⟨e₁, s₁, ty, he, es₁, s₂, tys₁, hes, rfl, rfl, rfl⟩ := h
      exact ⟨e₁, es₁, s₁, ty, tys₁, he, hes, rfl, rfl⟩
    · exact fun m hm ↦ hempty ⟨m, hm⟩

theorem of_gives_optional_none {o : Option Expr} {t : Option Ty}
    (h : (c.optional none).Gives s o s' t) : o = none ∧ s' = s ∧ t = none := by
  rwa [optional, gives_done] at h

theorem of_gives_optional_some {e : Expr} {o : Option Expr} {t : Option Ty}
    (h : (c.optional (some e)).Gives s o s' t) :
    ∃ e₁ ty, (c.expr e).Gives s e₁ s' ty ∧ o = some e₁ ∧ t = some ty := by
  simp only [optional, gives_within, gives_done] at h
  obtain ⟨e₁, s₁, ty, he, rfl, rfl, rfl⟩ := h
  exact ⟨e₁, ty, he, rfl, rfl⟩

theorem of_gives_exprs_nil {es' : List Expr} {u : Unit}
    (h : (c.exprs []).Gives s es' s' u) : es' = [] ∧ s' = s := by
  rw [exprs, gives_done] at h
  exact ⟨h.1, h.2.1⟩

theorem of_gives_exprs_cons {e : Expr} {es es' : List Expr} {u : Unit}
    (h : (c.exprs (e :: es)).Gives s es' s' u) :
    ∃ e₁ es₁ s₁ ty, (c.expr e).Gives s e₁ s₁ ty ∧ (c.exprs es).Gives s₁ es₁ s' () ∧
      es' = e₁ :: es₁ := by
  simp only [exprs, gives_within, gives_done] at h
  obtain ⟨e₁, s₁, ty, he, es₁, s₂, _, hes, rfl, rfl, -⟩ := h
  exact ⟨e₁, es₁, s₁, ty, he, hes, rfl⟩

/-! ## Statements -/

variable {st' : Statement} {u : Unit} {l : Location}

theorem of_gives_expr_statement {e : Expr} (h : (c.statement (.expr e)).Gives s st' s' u) :
    ∃ e₁ ty, (c.expr e).Gives s e₁ s' ty ∧ st' = .expr e₁ := by
  simp only [statement, gives_within, gives_done] at h
  obtain ⟨e₁, s₁, ty, he, rfl, rfl, -⟩ := h
  exact ⟨e₁, ty, he, rfl⟩

theorem of_gives_block_statement {body : List Statement}
    (h : (c.statement (.block l body)).Gives s st' s' u) :
    ∃ body' s₁, (c.statements body).Gives (s.change Body.pushScope) body' s₁ () ∧
      s' = s₁.change Body.popScope ∧ st' = .block l body' := by
  simp only [statement, gives_within, gives_inScope, gives_done] at h
  obtain ⟨body', s₁, _, ⟨s₂, hb, rfl⟩, rfl, rfl, -⟩ := h
  exact ⟨body', s₂, hb, rfl, rfl⟩

theorem of_gives_cond {x : Expr} {a : Statement} {b : Option Statement}
    (h : (c.statement (.cond l x a b)).Gives s st' s' u) :
    ∃ x' a' b' s₁ s₂, (c.expr x).Gives s x' s₁ .bool ∧
      (c.statement a).Gives (s₁.change Body.pushScope) a' s₂ () ∧
      (c.alternative b).Gives (s₂.change Body.popScope) b' s' () ∧ st' = .cond l x' a' b' := by
  simp only [statement, gives_within, gives_check, gives_inScope, gives_done] at h
  obtain ⟨x', s₁, ty, hx, _, hbool, a', _, _, ⟨s₂, ha, rfl⟩, b', s₃, _, hb, rfl, rfl, -⟩ := h
  obtain rfl := of_expectBool hbool
  exact ⟨x', a', b', s₁, s₂, hx, ha, hb, rfl⟩

theorem of_gives_ret {value : Option Expr} {place : Option (Option Conversion)}
    (h : (c.statement (.ret l value place)).Gives s st' s' u) :
    ∃ value' s₁ ty ret k, (c.optional value).Gives s value' s₁ ty ∧
      c.registry.returned s₁.body.ret (ty.getD .void) l = .ok (ret, k) ∧
      s' = s₁.change (fun b ↦ { b with ret := ret }) ∧ st' = .ret l value' (some k) := by
  simp only [statement, gives_within, gives_look, gives_change, gives_fill, gives_done] at h
  obtain ⟨value', s₁, ty, hv, ⟨ret, k⟩, hr, -, rfl, rfl, -⟩ := h
  exact ⟨value', s₁, ty, ret, k, hv, hr, rfl, rfl⟩

theorem of_gives_throw {value : Option Expr}
    (h : (c.statement (.throw l value)).Gives s st' s' u) :
    ∃ value' ty, (c.optional value).Gives s value' s' ty ∧ st' = .throw l value' := by
  simp only [statement, gives_within, gives_done] at h
  obtain ⟨value', s₁, ty, hv, rfl, rfl, -⟩ := h
  exact ⟨value', ty, hv, rfl⟩

theorem of_gives_vars {declarations : List Expr}
    (h : (c.statement (.vars l declarations)).Gives s st' s' u) :
    ∃ declarations', (c.exprs declarations).Gives s declarations' s' () ∧
      st' = .vars l declarations' := by
  simp only [statement, gives_within, gives_done] at h
  obtain ⟨declarations', s₁, _, hd, rfl, rfl, -⟩ := h
  exact ⟨declarations', hd, rfl⟩

theorem of_gives_function {signature : Signature} {body : List Statement}
    (h : (c.statement (.function l signature body)).Gives s st' s' u) :
    ∃ params ret body' s₁, c.typedParams signature.location signature.params = .ok params ∧
      c.tyOf? signature.ret = .ok ret ∧
      (c.statements body).Gives
        ((registerEarly signature params ret s).enter (.start params (returnOf ret))) body' s₁ () ∧
      s' = registerLate signature params ret s.functions.length s₁.body s₁.leave ∧
      st' = .function l signature body' := by
  simp only [statement, gives_within, gives_check, gives_look, gives_change, gives_inBody,
    gives_done] at h
  obtain ⟨params, hp, ret, hret, index, hindex, body', s₁, ⟨_, b⟩, ⟨s₂, hb, rfl, rfl⟩, rfl, rfl,
    -⟩ := h
  obtain rfl : s.functions.length = index := by simpa using hindex
  exact ⟨params, ret, body', s₂, hp, hret, hb, rfl, rfl⟩

theorem of_gives_alternative_none {b' : Option Statement}
    (h : (c.alternative none).Gives s b' s' u) : b' = none ∧ s' = s := by
  rw [alternative, gives_done] at h
  exact ⟨h.1, h.2.1⟩

theorem of_gives_alternative_some {st : Statement} {b' : Option Statement}
    (h : (c.alternative (some st)).Gives s b' s' u) :
    ∃ st₁ s₁, (c.statement st).Gives (s.change Body.pushScope) st₁ s₁ () ∧
      s' = s₁.change Body.popScope ∧ b' = some st₁ := by
  simp only [alternative, gives_within, gives_inScope, gives_done] at h
  obtain ⟨st₁, s₁, _, ⟨s₂, hst, rfl⟩, rfl, rfl, -⟩ := h
  exact ⟨st₁, s₂, hst, rfl, rfl⟩

theorem of_gives_statements_nil {sts' : List Statement}
    (h : (c.statements []).Gives s sts' s' u) : sts' = [] ∧ s' = s := by
  rw [statements, gives_done] at h
  exact ⟨h.1, h.2.1⟩

theorem of_gives_statements_cons {st : Statement} {sts sts' : List Statement}
    (h : (c.statements (st :: sts)).Gives s sts' s' u) :
    ∃ st₁ sts₁ s₁, (c.statement st).Gives s st₁ s₁ () ∧ (c.statements sts).Gives s₁ sts₁ s' () ∧
      sts' = st₁ :: sts₁ := by
  simp only [statements, gives_within, gives_done] at h
  obtain ⟨st₁, s₁, _, hst, sts₁, s₂, _, hsts, rfl, rfl, -⟩ := h
  exact ⟨st₁, sts₁, s₁, hst, hsts, rfl⟩

end BindContext

end Scriptlet
