import Scriptlet.Bind.Tree
import Scriptlet.Proofs.Bind.Evidence

/-!
# When a bound tree is well typed

The judgement `Γ.Typed b e ty` says that the expression `e`, in the body `b`, has its type recorded
as `ty`, that this is the type its form asks for, and that every place of `e` and of the expressions
in it holds valid evidence. It does not say how the tree came to be so: the rules look at the types
that are recorded and at the tables that are there when binding is over.

Three kinds of expressions have no value: a declaration, the name or the access in front of a call's
arguments, together with the parentheses around it, and the name of a type behind `new`. They have
judgements of their own; the last two stay unbound, but for the outermost node of the type's name.
-/

namespace Scriptlet

/-- The tables that a bound tree is judged against. -/
structure Tables extends BindContext where
  functions : List ScriptFunction

/-! ## What a node may mean

One relation per kind of choice, from the types of the parts to what is recorded and the type that
results. -/

namespace Registry

/-- An operator on one operand is a method of the operand's type, and one that writes back has an
operand that can be written. -/
inductive UnaryMeaning (r : Registry) (op : UnaryOp) (binding : Option Binding) (operand : Ty) :
    OperatorTarget → Ty → Prop where
  | method {name : String} {m : MethodRef} {d : MethodDef} {c : Option Conversion}
      (hop : op.methodName? = some name) (hm : r.HasMethod operand name m d)
      (hfit : r.FitAll [operand] d.params [c])
      (hset : op.isMutating → ∃ b, binding = some b ∧ b.isSettable) :
      UnaryMeaning r op binding operand ⟨.method m, [c]⟩ d.ret

/-- An operator between two operands is a method of one of their types, the identity of references,
or one of the two logical operators. -/
inductive BinaryMeaning (r : Registry) (op : BinaryOp) (left right : Ty) :
    OperatorTarget → Ty → Prop where
  | method {name : String} {m : MethodRef} {d : MethodDef} {cs : Conversions}
      (hop : op.methodName? = some name)
      (hm : r.HasMethod left name m d ∨ r.HasMethod right name m d)
      (hfit : r.FitAll [left, right] d.params cs) :
      BinaryMeaning r op left right ⟨.method m, cs⟩ d.ret
  | identity (hop : op = .eq ∨ op = .ne) (hleft : left.isReference) (hright : right.isReference) :
      BinaryMeaning r op left right ⟨.referenceEquality, [none, none]⟩ .bool
  | logical {cs : Conversions} (hop : op.methodName? = none)
      (hfit : r.FitAll [left, right] [.bool, .bool] cs) :
      BinaryMeaning r op left right ⟨.logical, cs⟩ .bool

/-- Two branches of equal types need nothing; of others exactly one is converted to the type of the
other. -/
inductive Joins (r : Registry) (onTrue onFalse : Ty) : Ty → Option BranchConversion → Prop where
  | same (heq : onTrue = onFalse) : Joins r onTrue onFalse onTrue none
  | first {c : Option Conversion} (hne : onTrue ≠ onFalse) (hfit : r.Fits onTrue onFalse c) :
      Joins r onTrue onFalse onFalse (some ⟨.thenBranch, c⟩)
  | second {c : Option Conversion} (hne : onTrue ≠ onFalse) (hfit : r.Fits onFalse onTrue c) :
      Joins r onTrue onFalse onTrue (some ⟨.elseBranch, c⟩)

/-- The type of a declared variable is the written one, to which the first value fits, or else that
of the first value. -/
inductive Declares (r : Registry) : Option Ty → Option Ty → Ty → Option Conversion → Prop where
  | written {ty : Ty} : Declares r (some ty) none ty none
  | converted {ty initial : Ty} {c : Option Conversion} (hfit : r.Fits initial ty c) :
      Declares r (some ty) (some initial) ty c
  | inferred {initial : Ty} (hstorable : initial.isStorable) :
      Declares r none (some initial) initial none

/-- A construction makes a value of the type by one of its constructors, or by none if it has
none. -/
inductive ConstructorMeaning (r : Registry) (ty : Ty) (args : List Ty) : CallTarget → Prop where
  | default (hnone : r.constructors ty = []) (hargs : args = []) :
      ConstructorMeaning r ty args ⟨.defaultConstructor ty, ty, []⟩
  | constructor {m : MethodRef} {d : MethodDef} {cs : Conversions}
      (hm : r.HasConstructor ty m d) (hfit : r.FitAll args d.params cs) :
      ConstructorMeaning r ty args ⟨.method m, ty, cs⟩

/-- An index reaches an element of an array, or the indexer of any other type. -/
inductive IndexMeaning (r : Registry) (container : Ty) (args : List Ty) : CallTarget → Prop where
  | element {ty : Ty} {cs : Conversions} (harray : container = .array ty)
      (hfit : r.FitAll args [.int] cs) :
      IndexMeaning r container args ⟨.arrayElement, ty, cs⟩
  | indexer {m : MethodRef} {d : MethodDef} {cs : Conversions}
      (hm : r.HasMethod container indexerName m d) (hstatic : d.isStatic = false)
      (hfit : r.FitAll args d.params cs) :
      IndexMeaning r container args ⟨.method m, d.ret, cs⟩

/-- A method call reaches a method of the owner's type, a static one on the name of a type and one
that is not on a value. -/
inductive MethodMeaning (r : Registry) (owner : Ty) (isType : Bool) (name : String)
    (args : List Ty) : CallTarget → Prop where
  | method {m : MethodRef} {d : MethodDef} {cs : Conversions} (hm : r.HasMethod owner name m d)
      (hstatic : d.isStatic = isType) (hfit : r.FitAll args d.params cs) :
      MethodMeaning r owner isType name args ⟨.method m, d.ret, cs⟩

/-- What a body returns: a value that fits, and none exactly if the type is `void`. -/
def Returns (r : Registry) (ret value : Ty) (c : Option Conversion) : Prop :=
  r.Fits value ret c ∧ (value = .void ↔ ret = .void)

end Registry

/-- The element type of an array is the written one, or else that of the first item. -/
inductive ElementOf : Option Ty → List Ty → Ty → Prop where
  | written {ty : Ty} {items : List Ty} : ElementOf (some ty) items ty
  | first {ty : Ty} {items : List Ty} (hne : ty ≠ .null) : ElementOf none (ty :: items) ty

/-- A call by a name reaches a function of the program or a method of the own type. -/
inductive Tables.FunctionMeaning (Γ : Tables) (name : String) (args : List Ty) :
    CallTarget → Prop where
  | script {i : Nat} {f : ScriptFunction} {cs : Conversions} (hf : Γ.functions[i]? = some f)
      (hname : f.name = name) (hfit : Γ.registry.FitAll args f.params cs) :
      FunctionMeaning Γ name args ⟨.script i, f.ret, cs⟩
  | method {this : Ty} {m : MethodRef} {d : MethodDef} {cs : Conversions}
      (hthis : Γ.this = some this) (hm : Γ.registry.HasMethod this name m d)
      (hfit : Γ.registry.FitAll args d.params cs) :
      FunctionMeaning Γ name args ⟨.method m, d.ret, cs⟩

/-! ## Names -/

/-- The binding is a local or a parameter of the body with this name. -/
def Body.Stores (b : Body) (x : String) : Binding → Prop
  | .variable slot => slot.name = x ∧ b.locals[slot.index]? = some slot
  | .parameter index ty => b.params[index]? = some (x, ty)
  | _ => False

/-- The binding is one that a plain name may have. -/
def Tables.Denotes (Γ : Tables) (b : Body) (x : String) (d : Binding) : Prop :=
  b.Stores x d ∨ (∃ this, Γ.this = some this ∧ Γ.registry.HasMember this x d) ∨
    ∃ ty, d = .typeName ty ∧ Γ.registry.resolve? x = some ty

/-- The node has this type and this storage. -/
def Node.Has (n : Node) (ty : Ty) (binding : Option Binding) : Prop :=
  n.ty = some ty ∧ n.binding = binding

theorem Node.Has.ty_eq {n : Node} {ty : Ty} {binding : Option Binding} (h : n.Has ty binding) :
    n.ty = some ty := h.1

theorem Node.Has.not_stored {n : Node} {ty : Ty} {d : Binding} (h : n.Has ty none) :
    ¬n.binding = some d := by
  simp [h.2]

/-- Nothing was found out about the node. -/
def Node.Unbound (n : Node) : Prop := n.ty = none ∧ n.binding = none

/-- An unbound name, perhaps in unbound parentheses. -/
inductive Expr.IsBareName (x : String) : Expr → Prop where
  | name {n : Node} (hn : n.Unbound) : IsBareName x (.name n x)
  | group {n : Node} {e : Expr} (hn : n.Unbound) (he : IsBareName x e) :
      IsBareName x (.unary n .group e none)

/-- An unbound chain of names. -/
inductive Expr.IsBareChain : Expr → Prop where
  | name {n : Node} {x : String} (hn : n.Unbound) : IsBareChain (.name n x)
  | member {n : Node} {e : Expr} {x : String} (hn : n.Unbound) (he : IsBareChain e) :
      IsBareChain (.member n e x)

/-- The expression is the full name of a type: its outermost node says so, and the nodes inside are
unbound. -/
inductive Registry.NamesType (r : Registry) (ty : Ty) : Expr → Prop where
  | name {n : Node} {x : String} (hx : r.resolve? x = some ty)
      (hn : n.Has ty (some (.typeName ty))) : NamesType r ty (.name n x)
  | member {n : Node} {e : Expr} {q x : String} (he : e.IsBareChain)
      (hq : e.qualifiedName? = some q) (hx : r.resolve? (q ++ "." ++ x) = some ty)
      (hn : n.Has ty (some (.typeName ty))) : NamesType r ty (.member n e x)

/-! ## The judgement -/

namespace Tables

mutual

/-- The expression is well typed in a body and has the type. -/
inductive Typed (Γ : Tables) : Body → Expr → Ty → Prop where
  | literal {b n v} (hn : n.Has v.ty none) : Typed Γ b (.literal n v) v.ty
  | null {b n} (hn : n.Has .null none) : Typed Γ b (.null n) .null
  | this {b n ty} (hthis : Γ.this = some ty) (hn : n.Has ty none) : Typed Γ b (.this n) ty
  | name {b n x d} (hd : Γ.Denotes b x d) (hn : n.Has d.ty (some d)) :
      Typed Γ b (.name n x) d.ty
  | variableRef {b n x d} (hd : b.Stores x d) (hn : n.Has d.ty (some d)) :
      Typed Γ b (.variableRef n x) d.ty
  | constantRef {b n x this f ty} (hthis : Γ.this = some this)
      (hd : Γ.registry.HasMember this x (.field f ty true))
      (hn : n.Has ty (some (.field f ty true))) : Typed Γ b (.constantRef n x) ty
  | member {b n target x owner d} (ht : Typed Γ b target owner)
      (hd : Γ.registry.HasMember owner x d)
      (hstatic : target.isTypeName → d.needsInstance = false) (hn : n.Has d.ty (some d)) :
      Typed Γ b (.member n target x) d.ty
  | group {b n e ty} (he : Typed Γ b e ty) (hn : n.Has ty e.node.binding) :
      Typed Γ b (.unary n .group e (some ⟨.transparent, []⟩)) ty
  | unary {b n op e operand t ty} (he : Typed Γ b e operand)
      (ht : Γ.registry.UnaryMeaning op e.node.binding operand t ty) (hn : n.Has ty none) :
      Typed Γ b (.unary n op e (some t)) ty
  | binary {b n op x y left right t ty} (hx : Typed Γ b x left) (hy : Typed Γ b y right)
      (ht : Γ.registry.BinaryMeaning op left right t ty) (hn : n.Has ty none) :
      Typed Γ b (.binary n op x y (some t)) ty
  | coalesce {b n x y ty right} (hx : Typed Γ b x ty) (hy : Typed Γ b y right)
      (hn : n.Has ty none) : Typed Γ b (.coalesce n x y) ty
  | ternary {b n x y z onTrue onFalse ty v} (hx : Typed Γ b x .bool) (hy : Typed Γ b y onTrue)
      (hz : Typed Γ b z onFalse) (hv : Γ.registry.Joins onTrue onFalse ty v) (hn : n.Has ty none) :
      Typed Γ b (.ternary n x y z v) ty
  | assign {b n target v ty value c} (ht : Typed Γ b target ty) (hv : Typed Γ b v value)
      (hset : target.isAssignable) (hc : Γ.registry.Fits value ty c) (hn : n.Has ty none) :
      Typed Γ b (.assign n target v (some c)) ty
  | callFunction {b n target args x types t} (hx : target.IsBareName x)
      (hargs : TypedAll Γ b args types) (ht : Γ.FunctionMeaning x types t)
      (hn : n.Has t.ret none) : Typed Γ b (.call n target args (some t)) t.ret
  | callMethod {b n target args x owner isType types t}
      (howner : TypedOwner Γ b target x owner isType) (hargs : TypedAll Γ b args types)
      (ht : Γ.registry.MethodMeaning owner isType x types t) (hn : n.Has t.ret none) :
      Typed Γ b (.call n target args (some t)) t.ret
  | callValue {b n target args params ret types cs}
      (hf : Typed Γ b target (.delegate params ret)) (hargs : TypedAll Γ b args types)
      (hfit : Γ.registry.FitAll types params cs) (hn : n.Has ret none) :
      Typed Γ b (.call n target args (some ⟨.delegate, ret, cs⟩)) ret
  | new {b n target args ty types t} (hname : Γ.registry.NamesType ty target)
      (hargs : TypedAll Γ b args types) (ht : Γ.registry.ConstructorMeaning ty types t)
      (hn : n.Has t.ret none) : Typed Γ b (.new n target args (some t)) t.ret
  | index {b n target args container types t} (hc : Typed Γ b target container)
      (hargs : TypedAll Γ b args types) (ht : Γ.registry.IndexMeaning container types t)
      (hn : n.Has t.ret none) : Typed Γ b (.index n target args (some t)) t.ret
  | array {b n written items declared types element cs} (hw : Γ.tyOf? written = .ok declared)
      (hitems : TypedAll Γ b items types) (he : ElementOf declared types element)
      (hfit : Γ.registry.FitAll types (List.replicate types.length element) cs)
      (hn : n.Has (.array element) none) :
      Typed Γ b (.array n written items (some cs)) (.array element)
  | lambda {b n params body typed} {inner : Body}
      (hp : Γ.typedParams n.location params = .ok typed) (hparams : inner.params = typed)
      (hbody : ∀ st ∈ body, TypedStatement Γ inner st)
      (hn : n.Has (.delegate (typed.map Prod.snd) inner.ret.ty) none) :
      Typed Γ b (.lambda n params body) (.delegate (typed.map Prod.snd) inner.ret.ty)
  | block {b n body} (hbody : ∀ st ∈ body, TypedStatement Γ b st)
      (hn : n.Has (trailingTy body) none) : Typed Γ b (.block n body) (trailingTy body)

/-- The access in front of a method call's arguments is unbound, but its owner is well typed. -/
inductive TypedOwner (Γ : Tables) : Body → Expr → String → Ty → Bool → Prop where
  | member {b n target x owner} (hn : n.Unbound) (ht : Typed Γ b target owner) :
      TypedOwner Γ b (.member n target x) x owner target.isTypeName
  | group {b n e x owner isType} (hn : n.Unbound) (he : TypedOwner Γ b e x owner isType) :
      TypedOwner Γ b (.unary n .group e none) x owner isType

/-- The declaration is well typed in a body, and its variable is there. It leaves no value, so it is
nothing that an operator or a call could take. -/
inductive TypedDeclaration (Γ : Tables) : Body → Expr → Prop where
  | declare {b n x written init declared initial slot c}
      (hw : Γ.tyOf? written = .ok declared) (hinit : TypedOption Γ b init initial)
      (hd : Γ.registry.Declares declared initial slot.ty c)
      (hslot : b.Stores x (.variable slot)) (hn : n.Has slot.ty (some (.variable slot))) :
      TypedDeclaration Γ b (.declare n x written init (some c))

/-- The expressions of a list are well typed and have the types. -/
inductive TypedAll (Γ : Tables) : Body → List Expr → List Ty → Prop where
  | nil {b} : TypedAll Γ b [] []
  | cons {b e es ty tys} (head : Typed Γ b e ty) (tail : TypedAll Γ b es tys) :
      TypedAll Γ b (e :: es) (ty :: tys)

/-- An expression that may be missing is well typed and has the type, if it is there. -/
inductive TypedOption (Γ : Tables) : Body → Option Expr → Option Ty → Prop where
  | none {b} : TypedOption Γ b none none
  | some {b e ty} (he : Typed Γ b e ty) : TypedOption Γ b (some e) (some ty)

/-- The statement is well typed in a body. -/
inductive TypedStatement (Γ : Tables) : Body → Statement → Prop where
  | expr {b e ty} (he : Typed Γ b e ty) : TypedStatement Γ b (.expr e)
  | block {b l body} (hbody : ∀ st ∈ body, TypedStatement Γ b st) :
      TypedStatement Γ b (.block l body)
  | cond {b l x st alternative} (hx : Typed Γ b x .bool) (hst : TypedStatement Γ b st)
      (halt : ∀ st ∈ alternative, TypedStatement Γ b st) :
      TypedStatement Γ b (.cond l x st alternative)
  | ret {b l value ty c} (hv : TypedOption Γ b value ty)
      (hc : Γ.registry.Returns b.ret.ty (ty.getD .void) c) :
      TypedStatement Γ b (.ret l value (some c))
  | throw {b l value ty} (hv : TypedOption Γ b value ty) : TypedStatement Γ b (.throw l value)
  | vars {b l declarations} (hd : ∀ d ∈ declarations, TypedDeclaration Γ b d) :
      TypedStatement Γ b (.vars l declarations)
  | function {b l signature body typed declared} {i : Nat} {f : ScriptFunction} {inner : Body}
      (hp : Γ.typedParams signature.location signature.params = .ok typed)
      (hret : Γ.tyOf? signature.ret = .ok declared)
      (hf : Γ.functions[i]? = some f) (hname : f.name = signature.name)
      (hlocation : f.location = signature.location) (hparams : inner.params = typed)
      (hsig : f.params = typed.map Prod.snd) (hfret : f.ret = inner.ret.ty)
      (hdeclared : ∀ ty ∈ declared, ty = f.ret)
      (hbody : ∀ st ∈ body, TypedStatement Γ inner st) :
      TypedStatement Γ b (.function l signature body)

end

/-- A program is well typed, given what is known of its outermost body. -/
def TypedProgram (Γ : Tables) (b : Body) (p : Program) : Prop := ∀ st ∈ p, Γ.TypedStatement b st

theorem TypedAll.length_eq {Γ : Tables} {b : Body} {es : List Expr} {tys : List Ty}
    (h : Γ.TypedAll b es tys) : es.length = tys.length := by
  induction es generalizing tys with
  | nil =>
    cases h
    rfl
  | cons e es ih =>
    cases h with
    | cons _ tail => rw [List.length_cons, List.length_cons, ih tail]

/-! ## Places -/

/-- A well typed expression has its type in its place. -/
theorem Typed.node_ty {Γ : Tables} {b : Body} {e : Expr} {ty : Ty} (h : Γ.Typed b e ty) :
    e.node.ty = some ty := by
  cases h <;> exact Node.Has.ty_eq ‹_›

/-- Wherever the place for the storage is filled, the storage has the type of the expression, and it
is what a name denotes or a member. -/
theorem Typed.of_binding {Γ : Tables} {b : Body} {e : Expr} {ty : Ty} (h : Γ.Typed b e ty)
    {d : Binding} (hd : e.node.binding = some d) :
    d.ty = ty ∧ ((∃ x, Γ.Denotes b x d) ∨ ∃ owner x, Γ.registry.HasMember owner x d) := by
  -- parentheses have the storage of what they hold, so the recursion is through them
  fun_induction Expr.ungrouped e with
  | case1 n e t ih =>
    cases h with
    | group he hn => exact ih he (hn.2 ▸ hd)
    | unary he ht hn => cases hn.2.symm.trans hd
  | case2 e hne =>
    cases h with
    | group he hn => exact absurd rfl (hne _ _ _)
    | name hd' hn => cases hn.2.symm.trans hd; exact ⟨rfl, .inl ⟨_, hd'⟩⟩
    | variableRef hd' hn => cases hn.2.symm.trans hd; exact ⟨rfl, .inl ⟨_, .inl hd'⟩⟩
    | constantRef hthis hd' hn => cases hn.2.symm.trans hd; exact ⟨rfl, .inr ⟨_, _, hd'⟩⟩
    | member ht hd' hstatic hn => cases hn.2.symm.trans hd; exact ⟨rfl, .inr ⟨_, _, hd'⟩⟩
    | _ => exact absurd hd (Node.Has.not_stored ‹_›)

theorem Typed.ty_of_binding {Γ : Tables} {b : Body} {e : Expr} {ty : Ty} (h : Γ.Typed b e ty)
    {d : Binding} (hd : e.node.binding = some d) : d.ty = ty := (h.of_binding hd).1

end Tables

end Scriptlet
