import Scriptlet.Proofs.Code.Forward

/-!
# The storage that code touches

The code of a well typed tree loads and stores exactly the locals and arguments that the bindings of
its nodes hold, node by node and in the order of the code. The nodes are listed by a walk of its
own, and each of their bindings is in the table of the body that the tree is well typed in. All that
is called of the program's functions has been registered. And if there is no code, then because a
form has none: no place is empty that the code is read off, and nothing is stored that cannot be.
-/

namespace Scriptlet

/-! ## Storage -/

/-- What an instruction can touch in the frame of its body. -/
inductive Storage where
  | slot (index : Nat)
  | argument (index : Nat)
deriving DecidableEq

/-- The local or argument that an instruction loads or stores. -/
def Instruction.storage? : Instruction → Option Storage
  | .loadLocal k | .storeLocal k => some (.slot k)
  | .loadArgument k | .storeArgument k => some (.argument k)
  | _ => none

/-- The local or argument that a binding denotes. -/
def Binding.storage? : Binding → Option Storage
  | .variable slot => some (.slot slot.index)
  | .parameter index _ => some (.argument index)
  | _ => none

/-- The local or argument that the binding of the node denotes. -/
def Expr.storage? (e : Expr) : Option Storage := e.node.binding.bind Binding.storage?

/-- The locals and arguments that code touches, in the order of the code. -/
def storageOf (code : List Instruction) : List Storage := code.filterMap Instruction.storage?

@[simp] theorem storageOf_nil : storageOf [] = [] := rfl

@[simp] theorem storageOf_append (a b : List Instruction) :
    storageOf (a ++ b) = storageOf a ++ storageOf b :=
  List.filterMap_append

@[simp] theorem storageOf_cons (i : Instruction) (code : List Instruction) :
    storageOf (i :: code) = i.storage?.toList ++ storageOf code := by
  cases h : i.storage? <;> simp [storageOf, h]

/-- The function of the program that an instruction calls. -/
def Instruction.script? : Instruction → Option Nat
  | .call (.script k) => some k
  | _ => none

/-- The binding is in the tables of the body: a local with all that is known of it, a parameter with
its type. -/
def Body.Holds (b : Body) : Binding → Prop
  | .variable slot => b.locals[slot.index]? = some slot
  | .parameter index ty => (b.params.map Prod.snd)[index]? = some ty
  | _ => True

theorem Body.Stores.holds {b : Body} {x : String} {d : Binding} (h : b.Stores x d) : b.Holds d := by
  cases d with
  | «variable» slot => exact h.2
  | parameter index ty =>
    have hparam : b.params[index]? = some (x, ty) := h
    rw [Holds, List.getElem?_map, hparam]
    rfl
  | _ => trivial

theorem Registry.HasMember.holds {r : Registry} {owner : Ty} {x : String} {d : Binding} {b : Body}
    (h : r.HasMember owner x d) : b.Holds d := by
  cases d with
  | «variable» slot => exact h.elim
  | parameter index ty => exact h.elim
  | _ => trivial

theorem Tables.Denotes.holds {Γ : Tables} {b : Body} {x : String} {d : Binding}
    (h : Γ.Denotes b x d) : b.Holds d := by
  rcases h with h | ⟨this, -, h⟩ | ⟨ty, rfl, -⟩
  · exact h.holds
  · exact h.holds
  · trivial

/-- Wherever the place for the storage of a well typed expression is filled, the storage is in the
tables of the body. -/
theorem Tables.Typed.holds_of_binding {Γ : Tables} {b : Body} {e : Expr} {ty : Ty}
    (h : Γ.Typed b e ty) {d : Binding} (hd : e.node.binding = some d) : b.Holds d := by
  rcases (h.of_binding hd).2 with ⟨x, hd⟩ | ⟨owner, x, hd⟩
  · exact hd.holds
  · exact hd.holds

/-- A failure that a bound tree should not have: a place is empty, or what is stored into is
read-only. -/
def EmitError.isPreventable : EmitError → Bool
  | unbound _ | readOnly _ => true
  | noValue .. | unsupported .. => false

/-- Two pieces fail in the first or in the second. -/
theorem Emit.failure_append {x y : Emit} {n : Nat} {e : EmitError}
    (h : ((x ++ y) n).failure = some e) :
    (x n).failure = some e ∨ ∃ m, (y m).failure = some e := by
  have happend : (x ++ y) n = andThen x y n := rfl
  rw [happend, andThen] at h
  simp only at h
  split at h
  · exact .inl h
  · exact .inr ⟨_, h⟩

/-! ## Nodes in the order of their code -/

namespace Code

/-- The node that an assignment to the expression stores into, unless it is an element. -/
def stored (e : Expr) : List Expr :=
  match e.ungrouped with
  | .index .. => []
  | e => [e]

mutual

/-- The nodes whose storage the code of an expression loads or stores, in the order of the code. -/
@[simp] def touched (r : Registry) : Expr → List Expr
  | .name n x => [.name n x]
  | .variableRef n x => [.variableRef n x]
  | .constantRef n x => [.constantRef n x]
  | .member n target x =>
    (if n.binding.any Binding.needsInstance then touched r target else []) ++ [.member n target x]
  | .unary _ op e _ => if op.isMutating then [e, e] else touched r e
  | .binary _ _ a b _ | .coalesce _ a b => touched r a ++ touched r b
  | .ternary _ x a b _ => touched r x ++ touched r a ++ touched r b
  | .assign _ target v _ => targetTouched r target ++ touched r v ++ stored target
  | .call _ target args (some ⟨.method m, _, _⟩) =>
    (if (r.method? m).any MethodDef.isStatic then [] else ownerTouched r target)
      ++ exprsTouched r args
  | .call _ target args (some ⟨.delegate, _, _⟩) => touched r target ++ exprsTouched r args
  | .call _ _ args _ | .new _ _ args _ => exprsTouched r args
  | .index _ target args _ => touched r target ++ exprsTouched r args
  | .declare _ _ _ none _ => []
  | .declare n x ty (some e) k => touched r e ++ [.declare n x ty (some e) k]
  | .array _ _ items _ => exprsTouched r items
  | .block _ body => statementsTouched r body
  | .literal .. | .null _ | .this _ | .empty _ | .lambda .. => []

/-- The same of what is loaded for an assignment to the target. -/
@[simp] def targetTouched (r : Registry) : Expr → List Expr
  | .unary _ .group e _ => targetTouched r e
  | .index _ target args _ => touched r target ++ exprsTouched r args
  | .member n target _ => if n.binding.any Binding.needsInstance then touched r target else []
  | _ => []

/-- The same of what a method is called on. -/
@[simp] def ownerTouched (r : Registry) : Expr → List Expr
  | .unary _ .group e _ => ownerTouched r e
  | .member _ target _ => touched r target
  | _ => []

/-- The same of the expressions of a list. -/
@[simp] def exprsTouched (r : Registry) : List Expr → List Expr
  | [] => []
  | e :: es => touched r e ++ exprsTouched r es

/-- The same of an expression that may be missing. -/
@[simp] def optionTouched (r : Registry) : Option Expr → List Expr
  | none => []
  | some e => touched r e

/-- The same of a statement; the body of a function has its own place in the code. -/
@[simp] def statementTouched (r : Registry) : Statement → List Expr
  | .expr e => touched r e
  | .block _ body => statementsTouched r body
  | .cond _ x a b => touched r x ++ statementTouched r a ++ alternativeTouched r b
  | .ret _ value _ | .throw _ value => optionTouched r value
  | .vars _ declarations => exprsTouched r declarations
  | .function .. => []

/-- The same of the statements of a list. -/
@[simp] def statementsTouched (r : Registry) : List Statement → List Expr
  | [] => []
  | st :: sts => statementTouched r st ++ statementsTouched r sts

/-- The same of a statement that may be missing. -/
@[simp] def alternativeTouched (r : Registry) : Option Statement → List Expr
  | none => []
  | some st => statementTouched r st

end

end Code

/-! ## Pieces -/

namespace Tables

variable {Γ : Tables} {b : Body}

/-- The piece touches the storage of the nodes, in their order, and all of it is in the tables of
the body; it calls registered functions only, and it fails only where a form has no code. -/
structure Touches (Γ : Tables) (b : Body) (us : List Expr) (piece : Emit) : Prop where
  held : ∀ e ∈ us, ∀ d ∈ e.node.binding, b.Holds d
  storage : ∀ n code m, piece.Gives n code m → storageOf code = us.filterMap Expr.storage?
  scripts : ∀ n code m, piece.Gives n code m →
    ∀ i ∈ code, ∀ k ∈ i.script?, k < Γ.functions.length
  fails : ∀ n x, (piece n).failure = some x → x.isPreventable = false

namespace Touches

variable {us vs ws : List Expr} {x y z : Emit}

theorem nothing : Γ.Touches b [] .nothing where
  held := nofun
  storage n code m h := by
    obtain ⟨rfl, -⟩ := Emit.gives_nothing.mp h
    rfl
  scripts n code m h := by
    obtain ⟨rfl, -⟩ := Emit.gives_nothing.mp h
    exact nofun
  fails n x h := by cases h

/-- One instruction, for the nodes whose storage it touches. -/
theorem put {i : Instruction} (hheld : ∀ e ∈ us, ∀ d ∈ e.node.binding, b.Holds d)
    (hstorage : i.storage?.toList = us.filterMap Expr.storage?)
    (hscript : ∀ k ∈ i.script?, k < Γ.functions.length) : Γ.Touches b us (.put i) where
  held := hheld
  storage n code m h := by
    obtain ⟨rfl, -⟩ := Emit.gives_put.mp h
    rw [storageOf_cons, storageOf_nil, List.append_nil, hstorage]
  scripts n code m h := by
    obtain ⟨rfl, -⟩ := Emit.gives_put.mp h
    exact List.forall_mem_singleton.mpr hscript
  fails n x h := by cases h

/-- An instruction that touches nothing of the frame. -/
theorem quiet {i : Instruction} (hstorage : i.storage? = none) (hscript : i.script? = none) :
    Γ.Touches b [] (.put i) :=
  .put nofun (by rw [hstorage]; rfl) (by rw [hscript]; exact nofun)

theorem fail {e : EmitError} (he : e.isPreventable = false)
    (hheld : ∀ e ∈ us, ∀ d ∈ e.node.binding, b.Holds d) : Γ.Touches b us (.fail e) where
  held := hheld
  storage n code m h := absurd h Emit.not_gives_fail
  scripts n code m h := absurd h Emit.not_gives_fail
  fails n x h := by
    obtain rfl : e = x := Option.some.inj h
    exact he

theorem append (hx : Γ.Touches b us x) (hy : Γ.Touches b vs y) :
    Γ.Touches b (us ++ vs) (x ++ y) where
  held := List.forall_mem_append.mpr ⟨hx.held, hy.held⟩
  storage n code m h := by
    obtain ⟨c₁, k, c₂, h₁, h₂, rfl⟩ := Emit.gives_append.mp h
    rw [storageOf_append, List.filterMap_append, hx.storage _ _ _ h₁, hy.storage _ _ _ h₂]
  scripts n code m h := by
    obtain ⟨c₁, k, c₂, h₁, h₂, rfl⟩ := Emit.gives_append.mp h
    exact List.forall_mem_append.mpr ⟨hx.scripts _ _ _ h₁, hy.scripts _ _ _ h₂⟩
  fails n e h := (Emit.failure_append h).elim (hx.fails n e) fun ⟨m, hm⟩ ↦ hy.fails m e hm

/-- A piece in front of one that touches nothing. -/
theorem before (hx : Γ.Touches b us x) (hy : Γ.Touches b [] y) : Γ.Touches b us (x ++ y) := by
  simpa only [List.append_nil] using hx.append hy

/-- A piece behind one that touches nothing. -/
theorem behind (hx : Γ.Touches b [] x) (hy : Γ.Touches b vs y) : Γ.Touches b vs (x ++ y) :=
  hx.append hy

theorem ite {p : Prop} [Decidable p] (hx : p → Γ.Touches b us x) (hy : ¬p → Γ.Touches b us y) :
    Γ.Touches b us (if p then x else y) := by
  split
  · exact hx ‹_›
  · exact hy ‹_›

theorem fresh {piece : Nat → Emit} (h : ∀ l, Γ.Touches b us (piece l)) :
    Γ.Touches b us (.fresh piece) where
  held := (h 0).held
  storage n _ _ hgives := (h n).storage _ _ _ hgives
  scripts n _ _ hgives := (h n).scripts _ _ _ hgives
  fails n x hfails := (h n).fails _ x hfails

/-! ### Loads, stores and conversions -/

theorem held_singleton {e : Expr} {d : Binding} (hd : e.node.binding = some d)
    (hheld : b.Holds d) : ∀ e' ∈ [e], ∀ d' ∈ e'.node.binding, b.Holds d' := by
  refine List.forall_mem_singleton.mpr fun d' hd' ↦ ?_
  obtain rfl := Option.some.inj (hd.symm.trans hd')
  exact hheld

/-- An instruction that touches the storage of the node. -/
theorem access {e : Expr} {d : Binding} {i : Instruction} (hd : e.node.binding = some d)
    (hheld : b.Holds d) (hstorage : i.storage? = d.storage?) (hscript : i.script? = none) :
    Γ.Touches b [e] (.put i) := by
  have he : e.storage? = d.storage? := by rw [Expr.storage?, hd, Option.bind_some]
  refine .put (held_singleton hd hheld) ?_ ?_
  · rw [hstorage, ← he]
    cases h : e.storage? <;> simp [h]
  · rw [hscript]
    exact nofun

theorem load {e : Expr} {d : Binding} (hd : e.node.binding = some d) (hheld : b.Holds d)
    (l : Location) : Γ.Touches b [e] (d.load l) := by
  cases d with
  | typeName ty => exact .fail rfl (held_singleton hd hheld)
  | _ => exact .access hd hheld rfl rfl

theorem store {e : Expr} {d : Binding} (hd : e.node.binding = some d) (hheld : b.Holds d)
    (hset : d.isSettable) (l : Location) : Γ.Touches b [e] (d.store l) := by
  cases d with
  | typeName ty => exact .fail rfl (held_singleton hd hheld)
  | property p ty isStatic writable =>
    have hwritable : writable = true := hset
    rw [Binding.store, if_pos hwritable]
    exact .access hd hheld rfl rfl
  | _ => exact .access hd hheld rfl rfl

theorem conversion? (c : Option Conversion) : Γ.Touches b [] (.conversion? c) := by
  cases c with
  | none => exact nothing
  | some c => exact ite (fun _ ↦ quiet rfl rfl) fun _ ↦ quiet rfl rfl

theorem branchConversion (c : Option BranchConversion) (branch : Branch) :
    Γ.Touches b [] (.branchConversion c branch) := by
  cases c with
  | none => exact nothing
  | some c => exact ite (fun _ ↦ conversion? c.conversion) fun _ ↦ nothing

/-- An assignment to a storage that is not reached through an expression. -/
theorem storing {e : Expr} {d : Binding} {value : Emit} {l : Location}
    (hvalue : Γ.Touches b vs value) (hd : e.node.binding = some d) (hheld : b.Holds d)
    (hset : d.isSettable) : Γ.Touches b (vs ++ [e]) (Tables.storing l value d) := by
  refine ite (fun _ ↦ ?_) fun _ ↦ ?_
  · exact (((quiet rfl rfl).behind hvalue).before (quiet rfl rfl)).append (store hd hheld hset l)
  · exact (hvalue.before (quiet rfl rfl)).append (store hd hheld hset l)

end Touches

/-! ## The walk -/

/-- The code of the expression touches what its nodes hold: as a value, as a declaration, as what a
method is called on, and as what is assigned to, given such code of the value. -/
structure ExprTouches (Γ : Tables) (e : Expr) : Prop where
  typed : ∀ {b ty}, Γ.Typed b e ty →
    Γ.Touches b (Code.touched Γ.registry e) (Code.expr Γ.registry e)
  declared : ∀ {b}, Γ.TypedDeclaration b e →
    Γ.Touches b (Code.touched Γ.registry e) (Code.expr Γ.registry e)
  owned : ∀ {b x owner isType}, Γ.TypedOwner b e x owner isType →
    Γ.Touches b (Code.ownerTouched Γ.registry e) (Code.owner Γ.registry e)
  assigned : ∀ {b ty vs value l}, Γ.Typed b e ty → e.isAssignable → Γ.Touches b vs value →
    Γ.Touches b (Code.targetTouched Γ.registry e ++ vs ++ Code.stored e)
      (Code.assign Γ.registry l value e)

/-- The code of the statement touches what its nodes hold, and so does that of the expression that
it may be. -/
structure StatementTouches (Γ : Tables) (st : Statement) : Prop where
  typed : ∀ {b}, Γ.TypedStatement b st →
    Γ.Touches b (Code.statementTouched Γ.registry st) (Code.statement Γ.registry st)
  value : ∀ e, st = .expr e → ExprTouches Γ e

/-- A form that is a value only, and that is assigned to through its storage. -/
theorem ExprTouches.of_typed {e : Expr}
    (typed : ∀ {b ty}, Γ.Typed b e ty →
      Γ.Touches b (Code.touched Γ.registry e) (Code.expr Γ.registry e))
    (hdeclare : ∀ {b}, ¬Γ.TypedDeclaration b e)
    (howner : ∀ {b x owner isType}, ¬Γ.TypedOwner b e x owner isType)
    (htarget : Code.targetTouched Γ.registry e = []) (hstored : Code.stored e = [e])
    (hassignable : e.isAssignable = e.node.binding.any Binding.isSettable)
    (hassign : ∀ l value, Code.assign Γ.registry l value e
      = .require e.node.binding l (storing l value)) : ExprTouches Γ e where
  typed := typed
  declared hd := absurd hd hdeclare
  owned ho := absurd ho howner
  assigned ht hset hvalue := by
    rw [hassignable] at hset
    obtain ⟨d, hd, hset⟩ := (Option.any_eq_true _ _).mp hset
    rw [htarget, hstored, hassign, hd, Emit.require_some, List.nil_append]
    exact hvalue.storing hd (ht.holds_of_binding hd) hset

/-! ### Lists -/

theorem arguments_touches {es : List Expr} {tys : List Ty} (hes : ∀ e ∈ es, ExprTouches Γ e)
    (ht : Γ.TypedAll b es tys) (cs : Conversions) (index : Nat) :
    Γ.Touches b (Code.exprsTouched Γ.registry es) (Code.arguments Γ.registry cs index es) := by
  induction es generalizing tys index with
  | nil => exact .nothing
  | cons e es ih =>
    obtain ⟨he, hes⟩ := List.forall_mem_cons.mp hes
    cases ht with
    | cons head tail => exact ((he.typed head).before (.conversion? _)).append (ih hes tail _)

theorem elements_touches {es : List Expr} {tys : List Ty} (hes : ∀ e ∈ es, ExprTouches Γ e)
    (ht : Γ.TypedAll b es tys) (cs : Conversions) (index : Nat) :
    Γ.Touches b (Code.exprsTouched Γ.registry es) (Code.elements Γ.registry cs index es) := by
  induction es generalizing tys index with
  | nil => exact .nothing
  | cons e es ih =>
    obtain ⟨he, hes⟩ := List.forall_mem_cons.mp hes
    cases ht with
    | cons head tail =>
      have hplace : Γ.Touches b [] (.put .dup ++ .put (.loadConstant (.int (Int64.ofNat index)))) :=
        (Touches.quiet rfl rfl).behind (.quiet rfl rfl)
      exact (((hplace.behind (he.typed head)).before (.conversion? _)).before
        (.quiet rfl rfl)).append (ih hes tail _)

theorem exprs_touches {es : List Expr} (hes : ∀ e ∈ es, ExprTouches Γ e)
    (ht : ∀ e ∈ es, Γ.TypedDeclaration b e) :
    Γ.Touches b (Code.exprsTouched Γ.registry es) (Code.exprs Γ.registry es) := by
  induction es with
  | nil => exact .nothing
  | cons e es ih =>
    obtain ⟨he, hes⟩ := List.forall_mem_cons.mp hes
    obtain ⟨hte, htes⟩ := List.forall_mem_cons.mp ht
    exact (he.declared hte).append (ih hes htes)

theorem statements_touches {sts : List Statement} (hsts : ∀ st ∈ sts, StatementTouches Γ st)
    (ht : ∀ st ∈ sts, Γ.TypedStatement b st) :
    Γ.Touches b (Code.statementsTouched Γ.registry sts) (Code.statements Γ.registry sts) := by
  induction sts with
  | nil => exact .nothing
  | cons st sts ih =>
    obtain ⟨hst, hsts⟩ := List.forall_mem_cons.mp hsts
    obtain ⟨htst, htsts⟩ := List.forall_mem_cons.mp ht
    exact (hst.typed htst).append (ih hsts htsts)

theorem blockValue_touches {sts : List Statement} (hsts : ∀ st ∈ sts, StatementTouches Γ st)
    (ht : ∀ st ∈ sts, Γ.TypedStatement b st) :
    Γ.Touches b (Code.statementsTouched Γ.registry sts) (Code.blockValue Γ.registry sts) := by
  induction sts with
  | nil => exact .nothing
  | cons st sts ih =>
    obtain ⟨hst, hsts⟩ := List.forall_mem_cons.mp hsts
    obtain ⟨htst, htsts⟩ := List.forall_mem_cons.mp ht
    rcases sts with _ | ⟨st', rest⟩
    · -- an expression at the end is code for its value, which is not popped
      cases st with
      | expr e =>
        cases htst with
        | expr he =>
          rw [Code.statementsTouched, Code.statementsTouched, List.append_nil]
          exact (hst.value e rfl).typed he
      | _ => exact (hst.typed htst).append .nothing
    · have hcode : Code.blockValue Γ.registry (st :: st' :: rest)
          = Code.statement Γ.registry st ++ Code.blockValue Γ.registry (st' :: rest) := by
        cases st <;> rfl
      rw [hcode]
      exact (hst.typed htst).append (ih hsts htsts)

/-! ### Forms -/

theorem named_touches {e : Expr} {l : Location} {d : Binding} (hd : e.node.binding = some d)
    (hheld : b.Holds d) :
    Γ.Touches b [e] (.require e.node.binding l fun d ↦
      (if d.needsInstance then .put .loadThis else .nothing) ++ d.load l) := by
  rw [hd, Emit.require_some]
  exact Touches.behind (.ite (fun _ ↦ .quiet rfl rfl) fun _ ↦ .nothing) (.load hd hheld l)

theorem member_touches {n : Node} {target : Expr} {x : String} (ih : ExprTouches Γ target) :
    ExprTouches Γ (.member n target x) where
  typed {b ty} ht := by
    cases ht with
    | @member _ _ _ _ owner d ht hmember hstatic hn =>
      have hload : Γ.Touches b [.member n target x] (d.load n.location) :=
        .load (e := .member n target x) hn.2 hmember.holds n.location
      rw [Code.touched, Code.expr, hn.2, Option.any_some, Emit.require_some]
      refine Touches.append ?_ hload
      split
      · exact ih.typed ht
      · exact .nothing
  declared ht := nomatch ht
  owned ho := by
    cases ho with
    | member hn ht => exact ih.typed ht
  assigned {b ty vs value l} ht hset hvalue := by
    cases ht with
    | @member _ _ _ _ owner d ht hmember hstatic hn =>
      have hset : d.isSettable := by
        have hany : n.binding.any Binding.isSettable := hset
        rwa [hn.2, Option.any_some] at hany
      have hstore : Γ.Touches b [.member n target x] (d.store l) :=
        .store (e := .member n target x) hn.2 hmember.holds hset l
      rw [Code.assign, Code.targetTouched, hn.2, Option.any_some, Emit.require_some]
      split
      · exact (((ih.typed ht).append hvalue).before (.quiet rfl rfl)).append hstore
      · exact (hvalue.before (.quiet rfl rfl)).append hstore

/-- What is changed in place is loaded and stored. -/
theorem mutation_touches {l : Location} {e : Expr} {d : Binding} {apply : Emit} {post : Prop}
    [Decidable post] (hd : e.node.binding = some d) (hheld : b.Holds d) (hset : d.isSettable)
    (happly : Γ.Touches b [] apply) :
    Γ.Touches b [e, e] (if d.needsInstance then .fail (.unsupported .incrementOfInstance l)
      else d.load l ++ (if post then .put .dup ++ apply else apply ++ .put .dup) ++ d.store l) := by
  have hload : Γ.Touches b [e] (d.load l) := .load hd hheld l
  have hstore : Γ.Touches b [e] (d.store l) := .store hd hheld hset l
  refine .ite (fun _ ↦ ?_) fun _ ↦ (hload.before (.ite (fun _ ↦ ?_) fun _ ↦ ?_)).append hstore
  · exact .fail rfl (List.forall_mem_append.mpr ⟨hload.held, hstore.held⟩)
  · exact (Touches.quiet rfl rfl).behind happly
  · exact happly.behind (.quiet rfl rfl)

theorem unary_touches {n : Node} {op : UnaryOp} {e : Expr} {t : Option OperatorTarget}
    (ih : ExprTouches Γ e) : ExprTouches Γ (.unary n op e t) where
  typed {b ty} ht := by
    cases ht with
    | group he hn => exact ih.typed he
    | unary he ht hn =>
      cases ht with
      | @method name m d c hop hm hfit hset =>
        have happly : Γ.Touches b [] (.argConversion [c] 0 ++ .call (.method m)) :=
          (Touches.conversion? _).behind (.quiet rfl rfl)
        rw [Code.touched, Code.expr, Emit.require_some]
        · simp only
          split
          · rename_i hmutating
            obtain ⟨d', hd', hset⟩ := hset hmutating
            rw [hd', Emit.require_some]
            exact mutation_touches hd' (he.holds_of_binding hd') hset happly
          · exact (ih.typed he).before happly
        · rintro rfl
          cases hop
  declared ht := nomatch ht
  owned ho := by
    cases ho with
    | group hn he => exact ih.owned he
  assigned {b ty vs value l} ht hset hvalue := by
    cases ht with
    | group he hn => exact ih.assigned he hset hvalue
    | unary he ht hn =>
      -- an operator has no storage, so nothing can be assigned to it
      cases ht with
      | method hop hm hfit _ =>
        have hnone : ∀ t,
            (Expr.unary n op e t).isAssignable = n.binding.any Binding.isSettable := by
          cases op with
          | group => cases hop
          | _ => exact fun _ ↦ rfl
        rw [hnone, hn.2] at hset
        cases hset

theorem binary_touches {n : Node} {op : BinaryOp} {x y : Expr} {t : Option OperatorTarget}
    (ihx : ExprTouches Γ x) (ihy : ExprTouches Γ y) : ExprTouches Γ (.binary n op x y t) := by
  refine .of_typed (fun ht ↦ ?_) nofun nofun rfl rfl rfl fun _ _ ↦ rfl
  cases ht with
  | binary hx hy ht hn =>
    have hleft := ihx.typed hx
    have hright := ihy.typed hy
    rw [Code.touched, Code.expr, Emit.require_some]
    cases ht with
    | method hop hm hfit =>
      exact (((hleft.before (.conversion? _)).append hright).before (.conversion? _)).before
        (.quiet rfl rfl)
    | identity hop _ _ => exact (hleft.append hright).before (.quiet rfl rfl)
    | logical hop hfit =>
      refine .fresh fun stop ↦ ?_
      exact ((((((hleft.before (.conversion? _)).before (.quiet rfl rfl)).before
        (.quiet rfl rfl)).before (.quiet rfl rfl)).append hright).before (.conversion? _)).before
        (.quiet rfl rfl)

theorem ternary_touches {n : Node} {x y z : Expr} {v : Option BranchConversion}
    (ihx : ExprTouches Γ x) (ihy : ExprTouches Γ y) (ihz : ExprTouches Γ z) :
    ExprTouches Γ (.ternary n x y z v) := by
  refine .of_typed (fun ht ↦ ?_) nofun nofun rfl rfl rfl fun _ _ ↦ rfl
  cases ht with
  | ternary hx hy hz hj hn =>
    -- both branches are in the code, so the nodes of both are listed, whichever of them is run
    refine .fresh fun other ↦ .fresh fun stop ↦ ?_
    have hfirst := ((((ihx.typed hx).before (.quiet (i := .branch .ifFalse other) rfl rfl)).append
      (ihy.typed hy)).before (.branchConversion v .thenBranch)).before
        (.quiet (i := .branch .always stop) rfl rfl)
    exact (((hfirst.before (.quiet rfl rfl)).append (ihz.typed hz)).before
      (.branchConversion v .elseBranch)).before (.quiet rfl rfl)

theorem assign_touches {n : Node} {target v : Expr} {k : Option (Option Conversion)}
    (iht : ExprTouches Γ target) (ihv : ExprTouches Γ v) :
    ExprTouches Γ (.assign n target v k) := by
  refine .of_typed (fun ht ↦ ?_) nofun nofun rfl rfl rfl fun _ _ ↦ rfl
  cases ht with
  | assign ht hv hset hc hn =>
    exact iht.assigned ht hset ((ihv.typed hv).before (.conversion? _))

theorem index_touches {n : Node} {target : Expr} {args : List Expr} {t : Option CallTarget}
    (ih : ExprTouches Γ target) (ihs : ∀ e ∈ args, ExprTouches Γ e) :
    ExprTouches Γ (.index n target args t) where
  typed ht := by
    cases ht with
    | index hc hargs hm hn =>
      have hplace := fun cs ↦ (ih.typed hc).append (arguments_touches ihs hargs cs 0)
      cases hm with
      | element _ _ => exact (hplace _).before (.quiet rfl rfl)
      | indexer _ _ _ => exact (hplace _).before (.quiet rfl rfl)
  declared ht := nomatch ht
  owned ho := nomatch ho
  assigned {b ty vs value l} ht hset hvalue := by
    cases ht with
    | index hc hargs hm hn =>
      have hplace := fun cs ↦ (ih.typed hc).append (arguments_touches ihs hargs cs 0)
      have hstored : ∀ t, Code.stored (.index n target args t) = [] := fun _ ↦ rfl
      rw [Code.assign, Emit.require_some, Code.targetTouched, hstored, List.append_nil]
      exact (((hplace _).append hvalue).before (.quiet rfl rfl)).before (.quiet rfl rfl)

theorem bareOwner_touches {e : Expr} {x : String} (hx : e.IsBareName x) :
    Γ.Touches b (Code.ownerTouched Γ.registry e) (Code.owner Γ.registry e) := by
  induction hx with
  | name hn => exact .quiet rfl rfl
  | group hn _ ih => exact ih

theorem methodCall_touches {n : Node} {target : Expr} {args : List Expr} {m : MethodRef}
    {d : MethodDef} {ret : Ty} {cs : Conversions} (hd : Γ.registry.method? m = some d)
    (howner : Γ.Touches b (Code.ownerTouched Γ.registry target) (Code.owner Γ.registry target))
    (hpassed : Γ.Touches b (Code.exprsTouched Γ.registry args)
      (Code.arguments Γ.registry cs 0 args)) :
    Γ.Touches b (Code.touched Γ.registry (.call n target args (some ⟨.method m, ret, cs⟩)))
      (Code.expr Γ.registry (.call n target args (some ⟨.method m, ret, cs⟩))) := by
  rw [Code.touched, Code.expr, Emit.require_some]
  simp only [hd, Emit.require_some, Option.any_some]
  refine Touches.before (.append ?_ hpassed) (.quiet rfl rfl)
  split
  · exact .nothing
  · exact howner

theorem call_touches {n : Node} {target : Expr} {args : List Expr} {t : Option CallTarget}
    (ih : ExprTouches Γ target) (ihs : ∀ e ∈ args, ExprTouches Γ e) :
    ExprTouches Γ (.call n target args t) := by
  refine .of_typed (fun ht ↦ ?_) nofun nofun rfl rfl rfl fun _ _ ↦ rfl
  cases ht with
  | callFunction hx hargs ht hn =>
    have hpassed := fun cs ↦ arguments_touches ihs hargs cs 0
    cases ht with
    | @script i f cs hf hname hfit =>
      -- the only form that calls a function of the program, and typing found it in the table
      obtain ⟨hlt, -⟩ := List.getElem?_eq_some_iff.mp hf
      refine (hpassed cs).before (.put nofun rfl ?_)
      rintro k ⟨⟩
      exact hlt
    | method hthis hm hfit => exact methodCall_touches hm.live (bareOwner_touches hx) (hpassed _)
  | callMethod ho hargs ht hn =>
    cases ht with
    | method hm hstatic hfit =>
      exact methodCall_touches hm.live (ih.owned ho) (arguments_touches ihs hargs _ 0)
  | callValue hf hargs hfit hn =>
    exact ((ih.typed hf).append (arguments_touches ihs hargs _ 0)).before (.quiet rfl rfl)

theorem new_touches {n : Node} {target : Expr} {args : List Expr} {t : Option CallTarget}
    (ihs : ∀ e ∈ args, ExprTouches Γ e) : ExprTouches Γ (.new n target args t) := by
  refine .of_typed (fun ht ↦ ?_) nofun nofun rfl rfl rfl fun _ _ ↦ rfl
  cases ht with
  | new hname hargs ht hn =>
    have hpassed := fun cs ↦ arguments_touches ihs hargs cs 0
    cases ht with
    | default _ _ => exact (hpassed _).before (.quiet rfl rfl)
    | constructor _ _ => exact (hpassed _).before (.quiet rfl rfl)

theorem declare_touches {n : Node} {x : String} {written : Option TypeExpr} {init : Option Expr}
    {k : Option (Option Conversion)} (ih : ∀ e ∈ init, ExprTouches Γ e) :
    ExprTouches Γ (.declare n x written init k) where
  typed ht := nomatch ht
  declared ht := by
    cases ht with
    | @declare _ _ _ _ _ declared initial slot c hw hinit hdeclares hslot hn =>
      cases hinit with
      | none =>
        rw [Code.expr, hn.2, Emit.require_some]
        exact .nothing
      | some he =>
        rw [Code.touched, Code.expr, hn.2, Emit.require_some]
        exact (((ih _ rfl).typed he).before (.conversion? _)).append
          (.store (e := .declare n x written _ _) hn.2 hslot.holds rfl _)
  owned ho := nomatch ho
  assigned ht := nomatch ht

theorem array_touches {n : Node} {written : Option TypeExpr} {items : List Expr}
    {cs : Option Conversions} (ih : ∀ e ∈ items, ExprTouches Γ e) :
    ExprTouches Γ (.array n written items cs) := by
  refine .of_typed (fun ht ↦ ?_) nofun nofun rfl rfl rfl fun _ _ ↦ rfl
  cases ht with
  | array hw hitems he hfit hn =>
    rw [Code.touched, Code.expr, hn.1, Emit.require_some, Ty.element?, Emit.require_some,
      Emit.require_some]
    exact (Touches.quiet rfl rfl).behind (elements_touches ih hitems _ 0)

theorem cond_touches {l : Location} {x : Expr} {st : Statement} {alternative : Option Statement}
    (ihx : ExprTouches Γ x) (ih : StatementTouches Γ st)
    (ihs : ∀ st ∈ alternative, StatementTouches Γ st) :
    StatementTouches Γ (.cond l x st alternative) where
  typed {b} ht := by
    cases ht with
    | cond hx hst halt =>
      have hother : ∀ other stop, Γ.Touches b
          (Code.touched Γ.registry x ++ Code.statementTouched Γ.registry st)
          (Code.expr Γ.registry x ++ .put (.branch .ifFalse other) ++ Code.statement Γ.registry st
            ++ .put (.branch .always stop) ++ .put (.label other)) := fun other stop ↦
        (((((ihx.typed hx).before (.quiet rfl rfl)).append (ih.typed hst)).before
          (.quiet rfl rfl)).before (.quiet rfl rfl))
      cases alternative with
      | none =>
        exact .fresh fun other ↦ .fresh fun stop ↦
          ((hother other stop).append .nothing).before (.quiet rfl rfl)
      | some st' =>
        exact .fresh fun other ↦ .fresh fun stop ↦
          ((hother other stop).append ((ihs st' rfl).typed (halt st' rfl))).before (.quiet rfl rfl)
  value := nofun

/-- Every form touches what its nodes hold if its parts do. -/
theorem tree_touches (Γ : Tables) : Tree.Cases (ExprTouches Γ) (StatementTouches Γ) where
  literal n v := .of_typed (fun _ ↦ .quiet rfl rfl) nofun nofun rfl rfl rfl fun _ _ ↦ rfl
  null n := .of_typed (fun _ ↦ .quiet rfl rfl) nofun nofun rfl rfl rfl fun _ _ ↦ rfl
  this n := .of_typed (fun _ ↦ .quiet rfl rfl) nofun nofun rfl rfl rfl fun _ _ ↦ rfl
  empty n := .of_typed (fun ht ↦ nomatch ht) nofun nofun rfl rfl rfl fun _ _ ↦ rfl
  name n x := .of_typed (fun ht ↦ by
    cases ht with
    | name hd hn => exact named_touches hn.2 hd.holds) nofun nofun rfl rfl rfl fun _ _ ↦ rfl
  variableRef n x := .of_typed (fun ht ↦ by
    cases ht with
    | variableRef hd hn => exact named_touches hn.2 hd.holds) nofun nofun rfl rfl rfl fun _ _ ↦ rfl
  constantRef n x := .of_typed (fun ht ↦ by
    cases ht with
    | constantRef _ hd hn => exact named_touches hn.2 hd.holds)
    nofun nofun rfl rfl rfl fun _ _ ↦ rfl
  member n target x ih := member_touches ih
  unary n op e t ih := unary_touches ih
  binary n op x y t ihx ihy := binary_touches ihx ihy
  coalesce n x y ihx ihy := .of_typed (fun ht ↦ by
    cases ht with
    | coalesce hx hy hn =>
      refine .fresh fun stop ↦ ?_
      exact (((((ihx.typed hx).before (.quiet rfl rfl)).before (.quiet rfl rfl)).before
        (.quiet rfl rfl)).append (ihy.typed hy)).before (.quiet rfl rfl))
    nofun nofun rfl rfl rfl fun _ _ ↦ rfl
  ternary n x y z v ihx ihy ihz := ternary_touches ihx ihy ihz
  assign n target v k iht ihv := assign_touches iht ihv
  call n target args t ih ihs := call_touches ih ihs
  new n target args t _ ihs := new_touches ihs
  index n target args t ih ihs := index_touches ih ihs
  declare n x written init k ih := declare_touches ih
  array n written items cs ih := array_touches ih
  lambda n params body _ := .of_typed (fun _ ↦ .fail rfl nofun) nofun nofun rfl rfl rfl
    fun _ _ ↦ rfl
  block n body ih := .of_typed (fun ht ↦ by
    cases ht with
    | block hbody hn => exact blockValue_touches ih hbody) nofun nofun rfl rfl rfl fun _ _ ↦ rfl
  exprStatement e ih :=
    { typed := fun ht ↦ by
        cases ht with
        | expr he =>
          exact (ih.typed he).before (.ite (fun _ ↦ .quiet rfl rfl) fun _ ↦ .nothing)
      value := by
        rintro e' ⟨⟩
        exact ih }
  blockStatement l body ih :=
    { typed := fun ht ↦ by
        cases ht with
        | block hbody => exact statements_touches ih hbody
      value := nofun }
  cond l x st alternative ihx ih ihs := cond_touches ihx ih ihs
  ret l value k ih :=
    { typed := fun ht ↦ by
        cases ht with
        | ret hv _ =>
          cases hv with
          | none => exact Touches.nothing.behind (.quiet rfl rfl)
          | some he =>
            exact (((ih _ rfl).typed he).before (.conversion? _)).before (.quiet rfl rfl)
      value := nofun }
  throw l value ih :=
    { typed := fun ht ↦ by
        cases ht with
        | throw hv =>
          cases hv with
          | none => exact Touches.behind (.quiet rfl rfl) (.quiet rfl rfl)
          | some he => exact ((ih _ rfl).typed he).before (.quiet rfl rfl)
      value := nofun }
  vars l declarations ih :=
    { typed := fun ht ↦ by
        cases ht with
        | vars hd => exact exprs_touches ih hd
      value := nofun }
  function l signature body _ := { typed := fun _ ↦ .nothing, value := nofun }

/-! ### Bodies -/

/-- The code of a program outside of its functions. -/
theorem program_touches {p : Program} (h : Γ.TypedProgram b p) :
    Γ.Touches b (Code.statementsTouched Γ.registry p) (Code.program Γ.registry p) := by
  have hexpr := (tree_touches Γ).expr
  have hstatement := (tree_touches Γ).statement
  fun_induction Code.program Γ.registry p with
  | case1 => exact .quiet rfl rfl
  | case2 e hvalue =>
    rw [Code.statementsTouched, Code.statementsTouched, List.append_nil, Code.statementTouched]
    cases h _ (List.mem_singleton_self _) with
    | expr he =>
      refine (((hexpr e).typed he).before ?_).before (.quiet rfl rfl)
      split
      · exact .ite (fun _ ↦ .nothing) fun _ ↦ .quiet rfl rfl
      · exact .nothing
  | case3 e _ =>
    rw [Code.statementsTouched, Code.statementsTouched, List.append_nil]
    exact ((hstatement _).typed (h _ (List.mem_singleton_self _))).before (.quiet rfl rfl)
  | case4 st sts _ ih =>
    obtain ⟨hst, hsts⟩ := List.forall_mem_cons.mp h
    exact ((hstatement st).typed hst).append (ih hsts)

theorem functionBody_touches {body : List Statement} (h : ∀ st ∈ body, Γ.TypedStatement b st) :
    Γ.Touches b (Code.statementsTouched Γ.registry body) (Code.functionBody Γ.registry body) :=
  (statements_touches (fun st _ ↦ (tree_touches Γ).statement st) h).before
    (.ite (fun _ ↦ .nothing) fun _ ↦ .quiet rfl rfl)

end Tables

end Scriptlet
