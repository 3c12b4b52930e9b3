import Scriptlet.Tree.Basic

/-!
# Induction on trees

Expressions hold statements and statements hold expressions, both also in lists and options, so a
proof about one is a proof about all of them at once. `Tree.Cases P Q` collects what such a proof
has to show, one field per form of tree: that `P` holds of an expression if it holds of its parts,
and `Q` of a statement likewise. The parts in a list or an option are given by membership.
-/

namespace Scriptlet

/-- The cases of an induction that shows `P` of every expression and `Q` of every statement. -/
structure Tree.Cases (P : Expr → Prop) (Q : Statement → Prop) : Prop where
  literal : ∀ n v, P (.literal n v)
  name : ∀ n x, P (.name n x)
  variableRef : ∀ n x, P (.variableRef n x)
  constantRef : ∀ n x, P (.constantRef n x)
  unary : ∀ n op e t, P e → P (.unary n op e t)
  binary : ∀ n op a b t, P a → P b → P (.binary n op a b t)
  coalesce : ∀ n a b, P a → P b → P (.coalesce n a b)
  ternary : ∀ n x a b v, P x → P a → P b → P (.ternary n x a b v)
  assign : ∀ n target v k, P target → P v → P (.assign n target v k)
  call : ∀ n target args t, P target → (∀ e ∈ args, P e) → P (.call n target args t)
  new : ∀ n target args t, P target → (∀ e ∈ args, P e) → P (.new n target args t)
  index : ∀ n target args t, P target → (∀ e ∈ args, P e) → P (.index n target args t)
  member : ∀ n target x, P target → P (.member n target x)
  declare : ∀ n x ty init k, (∀ e ∈ init, P e) → P (.declare n x ty init k)
  array : ∀ n ty items cs, (∀ e ∈ items, P e) → P (.array n ty items cs)
  lambda : ∀ n params body, (∀ st ∈ body, Q st) → P (.lambda n params body)
  this : ∀ n, P (.this n)
  null : ∀ n, P (.null n)
  block : ∀ n body, (∀ st ∈ body, Q st) → P (.block n body)
  empty : ∀ n, P (.empty n)
  exprStatement : ∀ e, P e → Q (.expr e)
  blockStatement : ∀ l body, (∀ st ∈ body, Q st) → Q (.block l body)
  cond : ∀ l x a b, P x → Q a → (∀ st ∈ b, Q st) → Q (.cond l x a b)
  ret : ∀ l value k, (∀ e ∈ value, P e) → Q (.ret l value k)
  throw : ∀ l value, (∀ e ∈ value, P e) → Q (.throw l value)
  vars : ∀ l declarations, (∀ e ∈ declarations, P e) → Q (.vars l declarations)
  function : ∀ l signature body, (∀ st ∈ body, Q st) → Q (.function l signature body)

namespace Tree.Cases

variable {P : Expr → Prop} {Q : Statement → Prop}

private theorem forall_mem_list_nil {α : Type} {R : α → Prop} : ∀ a ∈ ([] : List α), R a :=
  fun _ h ↦ absurd h List.not_mem_nil

private theorem forall_mem_list_cons {α : Type} {R : α → Prop} (a : α) (as : List α) (h : R a)
    (hs : ∀ a ∈ as, R a) : ∀ b ∈ a :: as, R b :=
  List.forall_mem_cons.mpr ⟨h, hs⟩

private theorem forall_mem_none {α : Type} {R : α → Prop} : ∀ a ∈ (none : Option α), R a :=
  fun _ h ↦ absurd h (Option.not_mem_none _)

private theorem forall_mem_some {α : Type} {R : α → Prop} (a : α) (h : R a) :
    ∀ b ∈ some a, R b := by
  rintro b ⟨⟩
  exact h

theorem expr (h : Cases P Q) (e : Expr) : P e :=
  Expr.rec h.literal h.name h.variableRef h.constantRef h.unary h.binary h.coalesce h.ternary
    h.assign h.call h.new h.index h.member h.declare h.array h.lambda h.this h.null h.block h.empty
    h.exprStatement h.blockStatement h.cond h.ret h.throw h.vars h.function
    forall_mem_list_nil forall_mem_list_cons forall_mem_none forall_mem_some
    forall_mem_list_nil forall_mem_list_cons forall_mem_none forall_mem_some e

theorem statement (h : Cases P Q) (st : Statement) : Q st :=
  Statement.rec h.literal h.name h.variableRef h.constantRef h.unary h.binary h.coalesce h.ternary
    h.assign h.call h.new h.index h.member h.declare h.array h.lambda h.this h.null h.block h.empty
    h.exprStatement h.blockStatement h.cond h.ret h.throw h.vars h.function
    forall_mem_list_nil forall_mem_list_cons forall_mem_none forall_mem_some
    forall_mem_list_nil forall_mem_list_cons forall_mem_none forall_mem_some st

end Tree.Cases

end Scriptlet
