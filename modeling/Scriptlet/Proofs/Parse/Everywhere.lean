import Scriptlet.Proofs.Parse.Grammar
import Scriptlet.Proofs.Tree.Everywhere

/-!
# What holds everywhere in a parsed tree

A condition on single nodes holds everywhere in a parsed tree if it holds of the forms as the
grammar makes them. Of most forms the grammar says nothing about a node by itself: only of a
literal, which is one that a text can have, and of an `if` with an `else`, whose branch is not open.
-/

namespace Scriptlet

/-- The expression is empty. -/
def Expr.isEmpty : Expr → Bool
  | .empty _ => true
  | _ => false

theorem Expr.not_omitted {e : Expr} (h : e.isEmpty = false) : ¬e.Omitted := by
  rintro ⟨l, rfl⟩
  cases h

/-- The expression is a literal. -/
def Expr.isLiteral : Expr → Bool
  | .literal _ _ => true
  | _ => false

/-- The statement is an `if`. -/
def Statement.isCond : Statement → Bool
  | .cond _ _ _ _ => true
  | _ => false

/-- The conditions hold of every node that the grammar can make. -/
structure ParsedNodes (P : Expr → Prop) (Q : Statement → Prop) : Prop where
  literal : ∀ l v, v.Scanned → P (.literal (.at l) v)
  expr : ∀ e, e.isLiteral = false → P e
  cond : ∀ l x a b, (a.IsOpen → b = none) → Q (.cond l x a b)
  statement : ∀ st, st.isCond = false → Q st

variable {P : Expr → Prop} {Q : Statement → Prop}

/-- There is no literal and no statement in what is omitted. -/
theorem ParsedNodes.listed (h : ParsedNodes P Q) {es : List Expr}
    (hes : Listed (fun e ↦ ¬e.Omitted ∧ e.Everywhere P Q) es) : exprsEverywhere P Q es := by
  rw [exprsEverywhere_iff]
  intro e he
  by_cases homitted : e.Omitted
  · obtain ⟨l, rfl⟩ := homitted
    exact h.expr _ rfl
  · exact (hes e he homitted).2

/-- Every form of the grammar hands such conditions on from its parts. -/
theorem ParsedNodes.grammatical (h : ParsedNodes P Q) :
    Grammatical (fun e ↦ ¬e.Omitted ∧ e.Everywhere P Q) (fun d ↦ d.Everywhere P Q)
      (fun st ↦ st.Everywhere P Q) where
  present h := h.1
  literal hv := ⟨Expr.not_omitted rfl, h.literal _ _ hv⟩
  name _ := ⟨Expr.not_omitted rfl, h.expr _ rfl⟩
  variableRef _ := ⟨Expr.not_omitted rfl, h.expr _ rfl⟩
  constantRef _ := ⟨Expr.not_omitted rfl, h.expr _ rfl⟩
  this := ⟨Expr.not_omitted rfl, h.expr _ rfl⟩
  null := ⟨Expr.not_omitted rfl, h.expr _ rfl⟩
  unary he := ⟨Expr.not_omitted rfl, h.expr _ rfl, he.2⟩
  binary ha hb := ⟨Expr.not_omitted rfl, h.expr _ rfl, ha.2, hb.2⟩
  coalesce ha hb := ⟨Expr.not_omitted rfl, h.expr _ rfl, ha.2, hb.2⟩
  ternary hx ha hb := ⟨Expr.not_omitted rfl, h.expr _ rfl, hx.2, ha.2, hb.2⟩
  assign ht hv := ⟨Expr.not_omitted rfl, h.expr _ rfl, ht.2, hv.2⟩
  call ht _ hargs := ⟨Expr.not_omitted rfl, h.expr _ rfl, ht.2, h.listed hargs⟩
  new _ ht _ hargs := ⟨Expr.not_omitted rfl, h.expr _ rfl, ht.2, h.listed hargs⟩
  index ht _ hargs := ⟨Expr.not_omitted rfl, h.expr _ rfl, ht.2, h.listed hargs⟩
  member ht _ := ⟨Expr.not_omitted rfl, h.expr _ rfl, ht.2⟩
  array _ hitems := ⟨Expr.not_omitted rfl, h.expr _ rfl, h.listed hitems⟩
  lambda hbody := ⟨Expr.not_omitted rfl, h.expr _ rfl, statementsEverywhere_iff.mpr hbody⟩
  block hbody := ⟨Expr.not_omitted rfl, h.expr _ rfl, statementsEverywhere_iff.mpr hbody⟩
  declare _ hinit := ⟨h.expr _ rfl, optionEverywhere_iff.mpr fun e he ↦ (hinit e he).2⟩
  expr he := ⟨h.statement _ rfl, he.2⟩
  blockStatement hbody := ⟨h.statement _ rfl, statementsEverywhere_iff.mpr hbody⟩
  cond hx ha hb hopen := ⟨h.cond _ _ _ _ hopen, hx.2, ha, alternativeEverywhere_iff.mpr hb⟩
  ret hvalue := ⟨h.statement _ rfl, optionEverywhere_iff.mpr fun e he ↦ (hvalue e he).2⟩
  throw hvalue := ⟨h.statement _ rfl, optionEverywhere_iff.mpr fun e he ↦ (hvalue e he).2⟩
  vars hd := ⟨h.statement _ rfl, exprsEverywhere_iff.mpr hd⟩
  function hbody := ⟨h.statement _ rfl, statementsEverywhere_iff.mpr hbody⟩

/-- Such conditions hold everywhere in a parsed program. -/
theorem ParsedNodes.of_parseProgram (h : ParsedNodes P Q) {source : String} {p : Program}
    (hparse : parseProgram source = .ok p) : statementsEverywhere P Q p :=
  statementsEverywhere_iff.mpr (h.grammatical.of_parseProgram hparse)

end Scriptlet
