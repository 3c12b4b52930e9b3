import Scriptlet.Proofs.Tree.Definitions
import Scriptlet.Proofs.Tree.Induction
import Scriptlet.Proofs.Tree.Roles

/-!
# Properties that hold everywhere in a tree

Some conditions on a tree are conditions on each of its nodes, whatever stands around the node.
`e.Everywhere P Q` says that `P` holds of the expression `e` and of all expressions in it, and `Q`
of all statements in it.
-/

namespace Scriptlet

mutual

/-- `P` holds of the expression and of all expressions in it, and `Q` of all statements in it. -/
def Expr.Everywhere (P : Expr → Prop) (Q : Statement → Prop) : Expr → Prop
  | .literal n v => P (.literal n v)
  | .name n x => P (.name n x)
  | .variableRef n x => P (.variableRef n x)
  | .constantRef n x => P (.constantRef n x)
  | .unary n op e t => P (.unary n op e t) ∧ e.Everywhere P Q
  | .binary n op a b t => P (.binary n op a b t) ∧ a.Everywhere P Q ∧ b.Everywhere P Q
  | .coalesce n a b => P (.coalesce n a b) ∧ a.Everywhere P Q ∧ b.Everywhere P Q
  | .ternary n x a b v =>
    P (.ternary n x a b v) ∧ x.Everywhere P Q ∧ a.Everywhere P Q ∧ b.Everywhere P Q
  | .assign n target v k => P (.assign n target v k) ∧ target.Everywhere P Q ∧ v.Everywhere P Q
  | .call n target args t =>
    P (.call n target args t) ∧ target.Everywhere P Q ∧ exprsEverywhere P Q args
  | .new n target args t =>
    P (.new n target args t) ∧ target.Everywhere P Q ∧ exprsEverywhere P Q args
  | .index n target args t =>
    P (.index n target args t) ∧ target.Everywhere P Q ∧ exprsEverywhere P Q args
  | .member n target x => P (.member n target x) ∧ target.Everywhere P Q
  | .declare n x ty init k => P (.declare n x ty init k) ∧ optionEverywhere P Q init
  | .array n ty items cs => P (.array n ty items cs) ∧ exprsEverywhere P Q items
  | .lambda n params body => P (.lambda n params body) ∧ statementsEverywhere P Q body
  | .this n => P (.this n)
  | .null n => P (.null n)
  | .block n body => P (.block n body) ∧ statementsEverywhere P Q body
  | .empty n => P (.empty n)

/-- The properties hold everywhere in the expressions of a list. -/
def exprsEverywhere (P : Expr → Prop) (Q : Statement → Prop) : List Expr → Prop
  | [] => True
  | e :: es => e.Everywhere P Q ∧ exprsEverywhere P Q es

/-- The properties hold everywhere in an expression that may be missing. -/
def optionEverywhere (P : Expr → Prop) (Q : Statement → Prop) : Option Expr → Prop
  | none => True
  | some e => e.Everywhere P Q

/-- `Q` holds of the statement and of all statements in it, and `P` of all expressions in it. -/
def Statement.Everywhere (P : Expr → Prop) (Q : Statement → Prop) : Statement → Prop
  | .expr e => Q (.expr e) ∧ e.Everywhere P Q
  | .block l body => Q (.block l body) ∧ statementsEverywhere P Q body
  | .cond l x a b =>
    Q (.cond l x a b) ∧ x.Everywhere P Q ∧ a.Everywhere P Q ∧ alternativeEverywhere P Q b
  | .ret l value k => Q (.ret l value k) ∧ optionEverywhere P Q value
  | .throw l value => Q (.throw l value) ∧ optionEverywhere P Q value
  | .vars l declarations => Q (.vars l declarations) ∧ exprsEverywhere P Q declarations
  | .function l signature body =>
    Q (.function l signature body) ∧ statementsEverywhere P Q body

/-- The properties hold everywhere in the statements of a list. -/
def statementsEverywhere (P : Expr → Prop) (Q : Statement → Prop) : List Statement → Prop
  | [] => True
  | st :: sts => st.Everywhere P Q ∧ statementsEverywhere P Q sts

/-- The properties hold everywhere in a statement that may be missing. -/
def alternativeEverywhere (P : Expr → Prop) (Q : Statement → Prop) : Option Statement → Prop
  | none => True
  | some st => st.Everywhere P Q

end

variable {P : Expr → Prop} {Q : Statement → Prop}

attribute [simp] Expr.Everywhere Statement.Everywhere

@[simp] theorem exprsEverywhere_iff {es : List Expr} :
    exprsEverywhere P Q es ↔ ∀ e ∈ es, e.Everywhere P Q := by
  induction es with
  | nil => simp [exprsEverywhere]
  | cons e es ih => simp [exprsEverywhere, ih]

@[simp] theorem optionEverywhere_iff {o : Option Expr} :
    optionEverywhere P Q o ↔ ∀ e ∈ o, e.Everywhere P Q := by
  cases o <;> simp [optionEverywhere]

@[simp] theorem statementsEverywhere_iff {sts : List Statement} :
    statementsEverywhere P Q sts ↔ ∀ st ∈ sts, st.Everywhere P Q := by
  induction sts with
  | nil => simp [statementsEverywhere]
  | cons st sts ih => simp [statementsEverywhere, ih]

@[simp] theorem alternativeEverywhere_iff {o : Option Statement} :
    alternativeEverywhere P Q o ↔ ∀ st ∈ o, st.Everywhere P Q := by
  cases o <;> simp [alternativeEverywhere]

/-- What holds everywhere holds here. -/
theorem Expr.Everywhere.here {e : Expr} (h : e.Everywhere P Q) : P e := by
  cases e <;> simp only [Expr.Everywhere] at h <;> first | exact h | exact h.1

/-- What holds of all nodes holds everywhere. -/
theorem tree_everywhere (hP : ∀ e, P e) (hQ : ∀ st, Q st) :
    Tree.Cases (Expr.Everywhere P Q) (Statement.Everywhere P Q) where
  literal _ _ := hP _
  name _ _ := hP _
  variableRef _ _ := hP _
  constantRef _ _ := hP _
  this _ := hP _
  null _ := hP _
  empty _ := hP _
  unary _ _ _ _ ih := ⟨hP _, ih⟩
  binary _ _ _ _ _ iha ihb := ⟨hP _, iha, ihb⟩
  coalesce _ _ _ iha ihb := ⟨hP _, iha, ihb⟩
  ternary _ _ _ _ _ ihx iha ihb := ⟨hP _, ihx, iha, ihb⟩
  assign _ _ _ _ iht ihv := ⟨hP _, iht, ihv⟩
  call _ _ _ _ ih ihs := ⟨hP _, ih, exprsEverywhere_iff.mpr ihs⟩
  new _ _ _ _ ih ihs := ⟨hP _, ih, exprsEverywhere_iff.mpr ihs⟩
  index _ _ _ _ ih ihs := ⟨hP _, ih, exprsEverywhere_iff.mpr ihs⟩
  member _ _ _ ih := ⟨hP _, ih⟩
  declare _ _ _ _ _ ih := ⟨hP _, optionEverywhere_iff.mpr ih⟩
  array _ _ _ _ ih := ⟨hP _, exprsEverywhere_iff.mpr ih⟩
  lambda _ _ _ ih := ⟨hP _, statementsEverywhere_iff.mpr ih⟩
  block _ _ ih := ⟨hP _, statementsEverywhere_iff.mpr ih⟩
  exprStatement _ ih := ⟨hQ _, ih⟩
  blockStatement _ _ ih := ⟨hQ _, statementsEverywhere_iff.mpr ih⟩
  cond _ _ _ _ ihx iha ihb := ⟨hQ _, ihx, iha, alternativeEverywhere_iff.mpr ihb⟩
  ret _ _ _ ih := ⟨hQ _, optionEverywhere_iff.mpr ih⟩
  throw _ _ ih := ⟨hQ _, optionEverywhere_iff.mpr ih⟩
  vars _ _ ih := ⟨hQ _, exprsEverywhere_iff.mpr ih⟩
  function _ _ _ ih := ⟨hQ _, statementsEverywhere_iff.mpr ih⟩

theorem statementsEverywhere_of_forall (hP : ∀ e, P e) (hQ : ∀ st, Q st) (sts : List Statement) :
    statementsEverywhere P Q sts :=
  statementsEverywhere_iff.mpr fun st _ ↦ (tree_everywhere hP hQ).statement st

/-! ## Decidability -/

section Decidable

variable (P Q) [DecidablePred P] [DecidablePred Q]

mutual

/-- The walk that tests the properties everywhere in an expression. -/
def Expr.decideEverywhere : (e : Expr) → Decidable (e.Everywhere P Q)
  | .literal n v => inferInstanceAs (Decidable (P (.literal n v)))
  | .name n x => inferInstanceAs (Decidable (P (.name n x)))
  | .variableRef n x => inferInstanceAs (Decidable (P (.variableRef n x)))
  | .constantRef n x => inferInstanceAs (Decidable (P (.constantRef n x)))
  | .this n => inferInstanceAs (Decidable (P (.this n)))
  | .null n => inferInstanceAs (Decidable (P (.null n)))
  | .empty n => inferInstanceAs (Decidable (P (.empty n)))
  | .unary _ _ e _ | .member _ e _ => @instDecidableAnd _ _ _ e.decideEverywhere
  | .binary _ _ a b _ | .coalesce _ a b | .assign _ a b _ =>
    @instDecidableAnd _ _ _ (@instDecidableAnd _ _ a.decideEverywhere b.decideEverywhere)
  | .ternary _ x a b _ =>
    @instDecidableAnd _ _ _ (@instDecidableAnd _ _ x.decideEverywhere
      (@instDecidableAnd _ _ a.decideEverywhere b.decideEverywhere))
  | .call _ target args _ | .new _ target args _ | .index _ target args _ =>
    @instDecidableAnd _ _ _
      (@instDecidableAnd _ _ target.decideEverywhere (decideExprsEverywhere args))
  | .declare _ _ _ init _ => @instDecidableAnd _ _ _ (decideOptionEverywhere init)
  | .array _ _ items _ => @instDecidableAnd _ _ _ (decideExprsEverywhere items)
  | .lambda _ _ body | .block _ body =>
    @instDecidableAnd _ _ _ (decideStatementsEverywhere body)

/-- The walk that tests the properties everywhere in a list of expressions. -/
def decideExprsEverywhere : (es : List Expr) → Decidable (exprsEverywhere P Q es)
  | [] => isTrue trivial
  | e :: es => @instDecidableAnd _ _ e.decideEverywhere (decideExprsEverywhere es)

/-- The walk that tests the properties everywhere in an expression that may be missing. -/
def decideOptionEverywhere : (o : Option Expr) → Decidable (optionEverywhere P Q o)
  | none => isTrue trivial
  | some e => e.decideEverywhere

/-- The walk that tests the properties everywhere in a statement. -/
def Statement.decideEverywhere : (st : Statement) → Decidable (st.Everywhere P Q)
  | .expr e => @instDecidableAnd _ _ _ e.decideEverywhere
  | .block _ body | .function _ _ body =>
    @instDecidableAnd _ _ _ (decideStatementsEverywhere body)
  | .cond _ x a b =>
    @instDecidableAnd _ _ _ (@instDecidableAnd _ _ x.decideEverywhere
      (@instDecidableAnd _ _ a.decideEverywhere (decideAlternativeEverywhere b)))
  | .ret _ value _ | .throw _ value => @instDecidableAnd _ _ _ (decideOptionEverywhere value)
  | .vars _ declarations => @instDecidableAnd _ _ _ (decideExprsEverywhere declarations)

/-- The walk that tests the properties everywhere in a list of statements. -/
def decideStatementsEverywhere : (sts : List Statement) → Decidable (statementsEverywhere P Q sts)
  | [] => isTrue trivial
  | st :: sts => @instDecidableAnd _ _ st.decideEverywhere (decideStatementsEverywhere sts)

/-- The walk that tests the properties everywhere in a statement that may be missing. -/
def decideAlternativeEverywhere : (o : Option Statement) → Decidable (alternativeEverywhere P Q o)
  | none => isTrue trivial
  | some st => st.decideEverywhere

end

instance : DecidablePred (statementsEverywhere P Q) := decideStatementsEverywhere P Q

end Decidable

/-! ## Parts -/

/-- The properties hold everywhere in each expression of the expression. -/
def Expr.Inherits (P : Expr → Prop) (Q : Statement → Prop) (e : Expr) : Prop :=
  e.Everywhere P Q → ∀ p, ∀ q ∈ e.roles p, q.2.Everywhere P Q

/-- The properties hold everywhere in each expression of the statement. -/
def Statement.Inherits (P : Expr → Prop) (Q : Statement → Prop) (st : Statement) : Prop :=
  st.Everywhere P Q → ∀ q ∈ st.roles, q.2.Everywhere P Q

theorem exprs_inherit {es : List Expr} (hes : ∀ e ∈ es, e.Inherits P Q)
    (h : exprsEverywhere P Q es) : ∀ q ∈ exprsRoles es, q.2.Everywhere P Q := by
  intro q hq
  obtain ⟨e, he, hq⟩ := mem_exprsRoles.mp hq
  exact hes e he (exprsEverywhere_iff.mp h e he) _ q hq

theorem option_inherits {o : Option Expr} (ho : ∀ e ∈ o, e.Inherits P Q)
    (h : optionEverywhere P Q o) : ∀ q ∈ optionRoles o, q.2.Everywhere P Q := by
  intro q hq
  obtain ⟨e, he, hq⟩ := mem_optionRoles.mp hq
  exact ho e he (optionEverywhere_iff.mp h e he) _ q hq

theorem statements_inherit {sts : List Statement} (hsts : ∀ st ∈ sts, st.Inherits P Q)
    (h : statementsEverywhere P Q sts) : ∀ q ∈ statementsRoles sts, q.2.Everywhere P Q := by
  intro q hq
  obtain ⟨st, hst, hq⟩ := mem_statementsRoles.mp hq
  exact hsts st hst (statementsEverywhere_iff.mp h st hst) q hq

theorem alternative_inherits {o : Option Statement} (ho : ∀ st ∈ o, st.Inherits P Q)
    (h : alternativeEverywhere P Q o) : ∀ q ∈ alternativeRoles o, q.2.Everywhere P Q := by
  intro q hq
  obtain ⟨st, hst, hq⟩ := mem_alternativeRoles.mp hq
  exact ho st hst (alternativeEverywhere_iff.mp h st hst) q hq

/-- A tree hands down what holds everywhere in it if its parts do. -/
theorem tree_inherits (P : Expr → Prop) (Q : Statement → Prop) :
    Tree.Cases (Expr.Inherits P Q) (Statement.Inherits P Q) where
  literal n v := fun h _ ↦ List.forall_mem_singleton.mpr h
  name n x := fun h _ ↦ List.forall_mem_singleton.mpr h
  variableRef n x := fun h _ ↦ List.forall_mem_singleton.mpr h
  constantRef n x := fun h _ ↦ List.forall_mem_singleton.mpr h
  this n := fun h _ ↦ List.forall_mem_singleton.mpr h
  null n := fun h _ ↦ List.forall_mem_singleton.mpr h
  empty n := fun h _ ↦ List.forall_mem_singleton.mpr h
  unary n op e t ih := fun h p ↦ by
    rw [Expr.roles]
    split
    · exact List.forall_mem_cons.mpr ⟨h, ih h.2 p⟩
    · exact List.forall_mem_cons.mpr ⟨h, ih h.2 .value⟩
  binary n op a b t iha ihb := fun h _ ↦
    List.forall_mem_cons.mpr ⟨h, List.forall_mem_append.mpr ⟨iha h.2.1 _, ihb h.2.2 _⟩⟩
  coalesce n a b iha ihb := fun h _ ↦
    List.forall_mem_cons.mpr ⟨h, List.forall_mem_append.mpr ⟨iha h.2.1 _, ihb h.2.2 _⟩⟩
  ternary n x a b v ihx iha ihb := fun h _ ↦
    List.forall_mem_cons.mpr ⟨h, List.forall_mem_append.mpr
      ⟨List.forall_mem_append.mpr ⟨ihx h.2.1 _, iha h.2.2.1 _⟩, ihb h.2.2.2 _⟩⟩
  assign n target v k iht ihv := fun h _ ↦
    List.forall_mem_cons.mpr ⟨h, List.forall_mem_append.mpr ⟨iht h.2.1 _, ihv h.2.2 _⟩⟩
  call n target args t ih ihs := fun h _ ↦
    List.forall_mem_cons.mpr ⟨h, List.forall_mem_append.mpr ⟨ih h.2.1 _, exprs_inherit ihs h.2.2⟩⟩
  new n target args t ih ihs := fun h _ ↦
    List.forall_mem_cons.mpr ⟨h, List.forall_mem_append.mpr ⟨ih h.2.1 _, exprs_inherit ihs h.2.2⟩⟩
  index n target args t ih ihs := fun h _ ↦
    List.forall_mem_cons.mpr ⟨h, List.forall_mem_append.mpr ⟨ih h.2.1 _, exprs_inherit ihs h.2.2⟩⟩
  member n target x ih := fun h p ↦ List.forall_mem_cons.mpr ⟨h, ih h.2 p.owner⟩
  declare n x ty init k ih := fun h _ ↦ List.forall_mem_cons.mpr ⟨h, option_inherits ih h.2⟩
  array n ty items cs ih := fun h _ ↦ List.forall_mem_cons.mpr ⟨h, exprs_inherit ih h.2⟩
  lambda n params body ih := fun h _ ↦ List.forall_mem_cons.mpr ⟨h, statements_inherit ih h.2⟩
  block n body ih := fun h _ ↦ List.forall_mem_cons.mpr ⟨h, statements_inherit ih h.2⟩
  exprStatement e ih := fun h ↦ ih h.2 _
  blockStatement l body ih := fun h ↦ statements_inherit ih h.2
  cond l x a b ihx iha ihb := fun h ↦ List.forall_mem_append.mpr
    ⟨List.forall_mem_append.mpr ⟨ihx h.2.1 _, iha h.2.2.1⟩, alternative_inherits ihb h.2.2.2⟩
  ret l value k ih := fun h ↦ option_inherits ih h.2
  throw l value ih := fun h ↦ option_inherits ih h.2
  vars l declarations ih := fun h ↦ exprs_inherit ih h.2
  function l signature body ih := fun h ↦ statements_inherit ih h.2

/-- Whatever holds everywhere in a program holds everywhere in each of its expressions. -/
theorem everywhere_of_mem_roles {sts : List Statement} (h : statementsEverywhere P Q sts) :
    ∀ q ∈ statementsRoles sts, q.2.Everywhere P Q :=
  statements_inherit (fun st _ ↦ (tree_inherits P Q).statement st) h

/-! ## Bodies of functions -/

/-- The properties hold everywhere in the bodies of the definitions. -/
def HoldInside (P : Expr → Prop) (Q : Statement → Prop) (ds : List Definition) : Prop :=
  ∀ d ∈ ds, statementsEverywhere P Q d.body

theorem HoldInside.append {ds es : List Definition} (h : HoldInside P Q ds)
    (k : HoldInside P Q es) :
    HoldInside P Q (ds ++ es) :=
  List.forall_mem_append.mpr ⟨h, k⟩

theorem holdInside_nil : HoldInside P Q [] := fun _ h ↦ absurd h List.not_mem_nil

theorem exprs_holdInside {es : List Expr}
    (hes : ∀ e ∈ es, e.Everywhere P Q → HoldInside P Q e.definitions)
    (h : exprsEverywhere P Q es) : HoldInside P Q (exprsDefinitions es) := by
  induction es with
  | nil => exact holdInside_nil
  | cons e es ih =>
    obtain ⟨he, hes⟩ := List.forall_mem_cons.mp hes
    exact (he h.1).append (ih hes h.2)

theorem option_holdsInside {o : Option Expr}
    (ho : ∀ e ∈ o, e.Everywhere P Q → HoldInside P Q e.definitions)
    (h : optionEverywhere P Q o) : HoldInside P Q (optionDefinitions o) := by
  cases o with
  | none => exact holdInside_nil
  | some e => exact ho e rfl h

theorem statements_holdInside {sts : List Statement}
    (hsts : ∀ st ∈ sts, st.Everywhere P Q → HoldInside P Q st.definitions)
    (h : statementsEverywhere P Q sts) : HoldInside P Q (statementsDefinitions sts) := by
  induction sts with
  | nil => exact holdInside_nil
  | cons st sts ih =>
    obtain ⟨hst, hsts⟩ := List.forall_mem_cons.mp hsts
    exact (hst h.1).append (ih hsts h.2)

theorem alternative_holdsInside {o : Option Statement}
    (ho : ∀ st ∈ o, st.Everywhere P Q → HoldInside P Q st.definitions)
    (h : alternativeEverywhere P Q o) : HoldInside P Q (alternativeDefinitions o) := by
  cases o with
  | none => exact holdInside_nil
  | some st => exact ho st rfl h

theorem tree_holdsInside (P : Expr → Prop) (Q : Statement → Prop) :
    Tree.Cases (fun e ↦ e.Everywhere P Q → HoldInside P Q e.definitions)
      (fun st ↦ st.Everywhere P Q → HoldInside P Q st.definitions) where
  literal n v _ := holdInside_nil
  null n _ := holdInside_nil
  empty n _ := holdInside_nil
  this n _ := holdInside_nil
  name n x _ := holdInside_nil
  variableRef n x _ := holdInside_nil
  constantRef n x _ := holdInside_nil
  unary n op e t ih h := ih h.2
  binary n op a b t iha ihb h := (iha h.2.1).append (ihb h.2.2)
  coalesce n a b iha ihb h := (iha h.2.1).append (ihb h.2.2)
  ternary n x a b v ihx iha ihb h := ((ihx h.2.1).append (iha h.2.2.1)).append (ihb h.2.2.2)
  assign n target v k iht ihv h := (ihv h.2.2).append (iht h.2.1)
  call n target args t ih ihs h := (exprs_holdInside ihs h.2.2).append (ih h.2.1)
  new n target args t ih ihs h := (ih h.2.1).append (exprs_holdInside ihs h.2.2)
  index n target args t ih ihs h := (ih h.2.1).append (exprs_holdInside ihs h.2.2)
  member n target x ih h := ih h.2
  declare n x ty init k ih h := option_holdsInside ih h.2
  array n ty items cs ih h := exprs_holdInside ih h.2
  lambda n params body ih h := statements_holdInside ih h.2
  block n body ih h := statements_holdInside ih h.2
  exprStatement e ih h := ih h.2
  blockStatement l body ih h := statements_holdInside ih h.2
  cond l x a b ihx iha ihb h :=
    ((ihx h.2.1).append (iha h.2.2.1)).append (alternative_holdsInside ihb h.2.2.2)
  ret l value k ih h := option_holdsInside ih h.2
  throw l value ih h := option_holdsInside ih h.2
  vars l declarations ih h := exprs_holdInside ih h.2
  function l signature body ih h := by
    intro d hd
    rcases mem_definitions_function.mp hd with rfl | hd
    · exact h.2
    · exact statements_holdInside ih h.2 d hd

/-- Whatever holds everywhere in a program holds everywhere in the bodies of its functions. -/
theorem everywhere_of_mem_definitions {sts : List Statement} (h : statementsEverywhere P Q sts) :
    ∀ d ∈ statementsDefinitions sts, statementsEverywhere P Q d.body :=
  statements_holdInside (fun st _ ↦ (tree_holdsInside P Q).statement st) h

end Scriptlet
