import Scriptlet.Proofs.Parse.Grammar

/-!
# Trees that can be written

The tree type has more values than the grammar has sentences. `Expr.Written` and `Statement.Written`
say what the trees of the grammar have in common: every place that binding fills is empty, an
omitted element stands in lists only, a declaration stands in `var` statements only, and the type
behind `new` is a chain of names. Since each form is written if its parts are, every parser replies
with such trees only.
-/

namespace Scriptlet

mutual

/-- The expression is one of the grammar. -/
inductive Expr.Written : Expr → Prop where
  | literal {l v} (hv : v.Written) : Expr.Written (.literal (.at l) v)
  | name {l x} (hx : IsIdentifier x) : Expr.Written (.name (.at l) x)
  | variableRef {l x} (hx : IsWord x) : Expr.Written (.variableRef (.at l) x)
  | constantRef {l x} (hx : IsWord x) : Expr.Written (.constantRef (.at l) x)
  | unary {l op e} (he : Expr.Written e) : Expr.Written (.unary (.at l) op e none)
  | binary {l op a b} (ha : Expr.Written a) (hb : Expr.Written b) :
      Expr.Written (.binary (.at l) op a b none)
  | coalesce {l a b} (ha : Expr.Written a) (hb : Expr.Written b) :
      Expr.Written (.coalesce (.at l) a b)
  | ternary {l x a b} (hx : Expr.Written x) (ha : Expr.Written a) (hb : Expr.Written b) :
      Expr.Written (.ternary (.at l) x a b none)
  | assign {l target v} (ht : Expr.Written target) (hv : Expr.Written v) :
      Expr.Written (.assign (.at l) target v none)
  | call {l target args} (ht : Expr.Written target) (hlone : NotLone args)
      (hargs : ∀ e ∈ args, ¬e.Omitted → Expr.Written e) :
      Expr.Written (.call (.at l) target args none)
  | new {l target args} (ht : target.IsChain) (hlone : NotLone args)
      (hargs : ∀ e ∈ args, ¬e.Omitted → Expr.Written e) :
      Expr.Written (.new (.at l) target args none)
  | index {l target args} (ht : Expr.Written target) (hlone : NotLone args)
      (hargs : ∀ e ∈ args, ¬e.Omitted → Expr.Written e) :
      Expr.Written (.index (.at l) target args none)
  | member {l target x} (ht : Expr.Written target) (hx : IsWord x) :
      Expr.Written (.member (.at l) target x)
  | array {l element items} (hlone : NotLone items)
      (hitems : ∀ e ∈ items, ¬e.Omitted → Expr.Written e) :
      Expr.Written (.array (.at l) element items none)
  | lambda {l params body} (hbody : ∀ st ∈ body, Statement.Written st) :
      Expr.Written (.lambda (.at l) params body)
  | this {l} : Expr.Written (.this (.at l))
  | null {l} : Expr.Written (.null (.at l))
  | block {l body} (hbody : ∀ st ∈ body, Statement.Written st) : Expr.Written (.block (.at l) body)

/-- The expression is a declaration of the grammar. -/
inductive Expr.WrittenDeclaration : Expr → Prop where
  | declare {l x ty init} (hx : IsIdentifier x) (hinit : ∀ e ∈ init, Expr.Written e) :
      Expr.WrittenDeclaration (.declare (.at l) x ty init none)

/-- The statement is one of the grammar. -/
inductive Statement.Written : Statement → Prop where
  | expr {e} (he : Expr.Written e) : Statement.Written (.expr e)
  | block {l body} (hbody : ∀ st ∈ body, Statement.Written st) : Statement.Written (.block l body)
  | cond {l x a b} (hx : Expr.Written x) (ha : Statement.Written a) (hb :
      ∀ st ∈ b, Statement.Written st) :
      Statement.Written (.cond l x a b)
  | ret {l value} (hvalue : ∀ e ∈ value, Expr.Written e) : Statement.Written (.ret l value none)
  | throw {l value} (hvalue : ∀ e ∈ value, Expr.Written e) : Statement.Written (.throw l value)
  | vars {l declarations} (hd : ∀ d ∈ declarations, Expr.WrittenDeclaration d) :
      Statement.Written (.vars l declarations)
  | function {l signature body} (hbody : ∀ st ∈ body, Statement.Written st) :
      Statement.Written (.function l signature body)

end

/-- The elements of a list, some of them perhaps omitted. -/
def WrittenItems (es : List Expr) : Prop := ∀ e ∈ es, ¬e.Omitted → e.Written

/-- Every form of the grammar is written if its parts are. -/
theorem written_grammatical :
    Grammatical Expr.Written Expr.WrittenDeclaration Statement.Written where
  present h := by
    rintro ⟨l, rfl⟩
    cases h
  literal hv := .literal hv.written
  name := .name
  variableRef := .variableRef
  constantRef := .constantRef
  unary := .unary
  binary := .binary
  coalesce := .coalesce
  ternary := .ternary
  assign := .assign
  call := .call
  new ht _ := .new ht
  index := .index
  member := .member
  array := .array
  lambda := .lambda
  this := .this
  null := .null
  block := .block
  declare := .declare
  expr := .expr
  blockStatement := .block
  cond hx ha hb _ := .cond hx ha hb
  ret := .ret
  throw := .throw
  vars := .vars
  function := .function

/-- A chain of names is an expression too. -/
theorem Expr.IsChain.written {e : Expr} (h : e.IsChain) : e.Written :=
  written_grammatical.of_isChain h

/-! ## Texts -/

/-- Every statement of a program that a text is has been written. -/
theorem written_of_parseProgram {source : String} {p : Program}
    (h : parseProgram source = .ok p) : ∀ st ∈ p, st.Written :=
  written_grammatical.of_parseProgram h

theorem written_of_parseExpression {source : String} {e : Expr}
    (h : parseExpression source = .ok e) : e.Written :=
  written_grammatical.of_parseExpression h

end Scriptlet
