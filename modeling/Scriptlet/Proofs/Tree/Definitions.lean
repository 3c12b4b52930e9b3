import Mathlib.Data.List.Nodup
import Scriptlet.Code.Program
import Scriptlet.Proofs.Tree.Induction

/-!
# The functions that a tree defines

A function definition is a statement, but statements stand inside expressions too: in the bodies of
lambdas and of blocks that are expressions. The list of all definitions in a tree is in the order in
which binding comes to know of them. A function that says what it returns is known before its body
is looked at, and any other one behind its body; what is assigned goes before what it is assigned
to, and the arguments of a call go before what is called.

The definitions outside of expressions are *open*. They are those whose code is looked up; the
others are *hidden*.
-/

namespace Scriptlet

/-- A function definition: its head and its body. -/
structure Definition where
  head : Signature
  body : List Statement

/-- Where the definition stands. -/
def Definition.location (d : Definition) : Location := d.head.location

mutual

/-- All definitions in an expression. -/
def Expr.definitions : Expr → List Definition
  | .literal .. | .name .. | .variableRef .. | .constantRef .. | .this _ | .null _ | .empty _ => []
  | .unary _ _ e _ => e.definitions
  | .binary _ _ a b _ => a.definitions ++ b.definitions
  | .coalesce _ a b => a.definitions ++ b.definitions
  | .ternary _ x a b _ => x.definitions ++ a.definitions ++ b.definitions
  | .assign _ target v _ => v.definitions ++ target.definitions
  | .call _ target args _ => exprsDefinitions args ++ target.definitions
  | .new _ target args _ => target.definitions ++ exprsDefinitions args
  | .index _ target args _ => target.definitions ++ exprsDefinitions args
  | .member _ target _ => target.definitions
  | .declare _ _ _ init _ => optionDefinitions init
  | .array _ _ items _ => exprsDefinitions items
  | .lambda _ _ body => statementsDefinitions body
  | .block _ body => statementsDefinitions body

/-- All definitions in the expressions of a list. -/
def exprsDefinitions : List Expr → List Definition
  | [] => []
  | e :: es => e.definitions ++ exprsDefinitions es

/-- All definitions in an expression that may be missing. -/
def optionDefinitions : Option Expr → List Definition
  | none => []
  | some e => e.definitions

/-- All definitions in a statement. -/
def Statement.definitions : Statement → List Definition
  | .expr e => e.definitions
  | .block _ body => statementsDefinitions body
  | .cond _ x a b => x.definitions ++ a.definitions ++ alternativeDefinitions b
  | .ret _ value _ => optionDefinitions value
  | .throw _ value => optionDefinitions value
  | .vars _ declarations => exprsDefinitions declarations
  | .function _ signature body =>
    if signature.ret.isSome then ⟨signature, body⟩ :: statementsDefinitions body
    else statementsDefinitions body ++ [⟨signature, body⟩]

/-- All definitions in the statements of a list. -/
def statementsDefinitions : List Statement → List Definition
  | [] => []
  | st :: sts => st.definitions ++ statementsDefinitions sts

/-- All definitions in a statement that may be missing. -/
def alternativeDefinitions : Option Statement → List Definition
  | none => []
  | some st => st.definitions

end

mutual

/-- The definitions of a statement that stand outside of expressions. -/
def Statement.openDefinitions : Statement → List Definition
  | .function _ signature body => ⟨signature, body⟩ :: openDefinitions body
  | .block _ body => openDefinitions body
  | .cond _ _ a b => a.openDefinitions ++ openAlternative b
  | .expr _ | .ret .. | .throw .. | .vars .. => []

/-- The definitions of statements that stand outside of expressions. -/
def openDefinitions : List Statement → List Definition
  | [] => []
  | st :: sts => st.openDefinitions ++ openDefinitions sts

/-- The same of a statement that may be missing. -/
def openAlternative : Option Statement → List Definition
  | none => []
  | some st => st.openDefinitions

end

mutual

/-- The definitions of a statement that stand inside an expression. -/
def Statement.hiddenDefinitions : Statement → List Definition
  | .expr e => e.definitions
  | .function _ _ body => hiddenDefinitions body
  | .block _ body => hiddenDefinitions body
  | .cond _ x a b => x.definitions ++ a.hiddenDefinitions ++ hiddenAlternative b
  | .ret _ value _ => optionDefinitions value
  | .throw _ value => optionDefinitions value
  | .vars _ declarations => exprsDefinitions declarations

/-- The definitions of statements that stand inside an expression. -/
def hiddenDefinitions : List Statement → List Definition
  | [] => []
  | st :: sts => st.hiddenDefinitions ++ hiddenDefinitions sts

/-- The same of a statement that may be missing. -/
def hiddenAlternative : Option Statement → List Definition
  | none => []
  | some st => st.hiddenDefinitions

end

/-! ## Open and hidden definitions -/

namespace Code

theorem definitions_eq_map_of_forall {sts : List Statement}
    (h : ∀ st ∈ sts, definitionsIn st = st.openDefinitions.map fun d ↦ (d.location, d.body)) :
    definitions sts = (openDefinitions sts).map fun d ↦ (d.location, d.body) := by
  induction sts with
  | nil => rfl
  | cons st sts ih =>
    obtain ⟨hst, hsts⟩ := List.forall_mem_cons.mp h
    rw [definitions, openDefinitions, List.map_append, hst, ih hsts]

/-- The definitions that code is looked up among are the open ones. -/
theorem definitions_eq_map (p : Program) :
    definitions p = (openDefinitions p).map fun d ↦ (d.location, d.body) := by
  refine definitions_eq_map_of_forall fun st _ ↦ ?_
  refine Tree.Cases.statement (P := fun _ ↦ True) (Q := fun st ↦ definitionsIn st
    = st.openDefinitions.map fun d ↦ (d.location, d.body)) ?_ st
  constructor
  case function =>
    intro l signature body ih
    rw [definitionsIn, Statement.openDefinitions, List.map_cons, definitions_eq_map_of_forall ih]
    rfl
  case blockStatement =>
    intro l body ih
    rw [definitionsIn, Statement.openDefinitions, definitions_eq_map_of_forall ih]
  case cond =>
    intro l x a b _ iha ihb
    rw [Statement.openDefinitions, List.map_append, ← iha]
    cases b with
    | none => rfl
    | some b =>
      rw [openAlternative, ← ihb b rfl]
      rfl
  all_goals intros; trivial

end Code

theorem definitions_perm_of_forall {sts : List Statement}
    (h : ∀ st ∈ sts, st.definitions.Perm (st.openDefinitions ++ st.hiddenDefinitions)) :
    (statementsDefinitions sts).Perm (openDefinitions sts ++ hiddenDefinitions sts) := by
  classical
  induction sts with
  | nil => exact .nil
  | cons st sts ih =>
    obtain ⟨hst, hsts⟩ := List.forall_mem_cons.mp h
    refine List.perm_iff_count.mpr fun d ↦ ?_
    have hcount := List.perm_iff_count.mp hst d
    have hcounts := List.perm_iff_count.mp (ih hsts) d
    simp only [statementsDefinitions, openDefinitions, hiddenDefinitions, List.count_append]
      at hcount hcounts ⊢
    omega

/-- Every definition is open or hidden, and it is so once. -/
theorem definitions_perm (p : Program) :
    (statementsDefinitions p).Perm (openDefinitions p ++ hiddenDefinitions p) := by
  classical
  refine definitions_perm_of_forall fun st _ ↦ ?_
  refine Tree.Cases.statement (P := fun _ ↦ True)
    (Q := fun st ↦ st.definitions.Perm (st.openDefinitions ++ st.hiddenDefinitions)) ?_ st
  constructor
  case function =>
    intro l signature body ih
    refine List.perm_iff_count.mpr fun d ↦ ?_
    have hcounts := List.perm_iff_count.mp (definitions_perm_of_forall ih) d
    rw [Statement.definitions, Statement.openDefinitions, Statement.hiddenDefinitions]
    -- the definition itself is in front or behind, which makes no difference to the count
    split <;>
      simp only [List.count_append, List.count_cons, List.count_nil] at hcounts ⊢ <;> omega
  case blockStatement =>
    intro l body ih
    exact definitions_perm_of_forall ih
  case cond =>
    intro l x a b _ iha ihb
    refine List.perm_iff_count.mpr fun d ↦ ?_
    have hcount := List.perm_iff_count.mp iha d
    rw [Statement.definitions, Statement.openDefinitions, Statement.hiddenDefinitions]
    cases b with
    | none =>
      simp only [alternativeDefinitions, openAlternative, hiddenAlternative, List.count_append,
        List.count_nil] at hcount ⊢
      omega
    | some b =>
      have hother := List.perm_iff_count.mp (ihb b rfl) d
      simp only [alternativeDefinitions, openAlternative, hiddenAlternative, List.count_append]
        at hcount hother ⊢
      omega
  all_goals intros; trivial

theorem mem_definitions_iff {p : Program} {d : Definition} :
    d ∈ statementsDefinitions p ↔ d ∈ openDefinitions p ∨ d ∈ hiddenDefinitions p := by
  rw [(definitions_perm p).mem_iff, List.mem_append]

/-! ## Definitions inside definitions -/

theorem mem_definitions_function {l : Location} {signature : Signature} {body : List Statement}
    {d : Definition} : d ∈ (Statement.function l signature body).definitions ↔
      d = ⟨signature, body⟩ ∨ d ∈ statementsDefinitions body := by
  rw [Statement.definitions]
  split <;> simp [or_comm]

/-- The definitions in the bodies of the definitions are there as well. -/
def ContainsNested (ds : List Definition) : Prop :=
  ∀ d ∈ ds, ∀ d' ∈ statementsDefinitions d.body, d' ∈ ds

theorem ContainsNested.append {ds es : List Definition} (h : ContainsNested ds)
    (k : ContainsNested es) : ContainsNested (ds ++ es) := by
  intro d hd d' hd'
  rcases List.mem_append.mp hd with hd | hd
  · exact List.mem_append_left _ (h d hd d' hd')
  · exact List.mem_append_right _ (k d hd d' hd')

theorem containsNested_nil : ContainsNested [] := fun _ h ↦ absurd h List.not_mem_nil

theorem exprs_containNested {es : List Expr} (hes : ∀ e ∈ es, ContainsNested e.definitions) :
    ContainsNested (exprsDefinitions es) := by
  induction es with
  | nil => exact containsNested_nil
  | cons e es ih =>
    obtain ⟨he, hes⟩ := List.forall_mem_cons.mp hes
    exact he.append (ih hes)

theorem option_containsNested {o : Option Expr} (ho : ∀ e ∈ o, ContainsNested e.definitions) :
    ContainsNested (optionDefinitions o) := by
  cases o with
  | none => exact containsNested_nil
  | some e => exact ho e rfl

theorem statements_containNested {sts : List Statement}
    (hsts : ∀ st ∈ sts, ContainsNested st.definitions) :
    ContainsNested (statementsDefinitions sts) := by
  induction sts with
  | nil => exact containsNested_nil
  | cons st sts ih =>
    obtain ⟨hst, hsts⟩ := List.forall_mem_cons.mp hsts
    exact hst.append (ih hsts)

theorem alternative_containsNested {o : Option Statement}
    (ho : ∀ st ∈ o, ContainsNested st.definitions) : ContainsNested (alternativeDefinitions o) := by
  cases o with
  | none => exact containsNested_nil
  | some st => exact ho st rfl

theorem tree_containsNested :
    Tree.Cases (fun e ↦ ContainsNested e.definitions) (fun st ↦ ContainsNested st.definitions) where
  literal n v := containsNested_nil
  null n := containsNested_nil
  empty n := containsNested_nil
  this n := containsNested_nil
  name n x := containsNested_nil
  variableRef n x := containsNested_nil
  constantRef n x := containsNested_nil
  unary n op e t ih := ih
  binary n op a b t iha ihb := iha.append ihb
  coalesce n a b iha ihb := iha.append ihb
  ternary n x a b v ihx iha ihb := (ihx.append iha).append ihb
  assign n target v k iht ihv := ihv.append iht
  call n target args t ih ihs := (exprs_containNested ihs).append ih
  new n target args t ih ihs := ih.append (exprs_containNested ihs)
  index n target args t ih ihs := ih.append (exprs_containNested ihs)
  member n target x ih := ih
  declare n x ty init k ih := option_containsNested ih
  array n ty items cs ih := exprs_containNested ih
  lambda n params body ih := statements_containNested ih
  block n body ih := statements_containNested ih
  exprStatement e ih := ih
  blockStatement l body ih := statements_containNested ih
  cond l x a b ihx iha ihb := (ihx.append iha).append (alternative_containsNested ihb)
  ret l value k ih := option_containsNested ih
  throw l value ih := option_containsNested ih
  vars l declarations ih := exprs_containNested ih
  function l signature body ih := by
    intro d hd d' hd'
    rw [mem_definitions_function] at hd ⊢
    rcases hd with rfl | hd
    · exact .inr hd'
    · exact .inr (statements_containNested ih d hd d' hd')

theorem containsNested_definitions (p : Program) : ContainsNested (statementsDefinitions p) :=
  statements_containNested fun st _ ↦ tree_containsNested.statement st

/-! ## Definitions by their places -/

/-- No two definitions of the tree stand in one place. -/
def DistinctPlaces (p : Program) : Prop := ((statementsDefinitions p).map Definition.location).Nodup

namespace DistinctPlaces

variable {p q : Program} {d d' : Definition}

/-- The heads of the definitions say where they stand. -/
theorem of_heads (h : DistinctPlaces p) (hheads : (statementsDefinitions q).map Definition.head
    = (statementsDefinitions p).map Definition.head) : DistinctPlaces q := by
  have hlocation : Definition.location = Signature.location ∘ Definition.head := rfl
  rw [DistinctPlaces, hlocation, ← List.map_map] at h ⊢
  rw [hheads]
  exact h

theorem eq_of_location (h : DistinctPlaces p) (hd : d ∈ statementsDefinitions p)
    (hd' : d' ∈ statementsDefinitions p) (hlocation : d.location = d'.location) : d = d' :=
  List.inj_on_of_nodup_map h hd hd' hlocation

/-- An open definition is found by its place. -/
theorem find?_open (h : DistinctPlaces p) (hd : d ∈ openDefinitions p) :
    (Code.definitions p).find? (fun x ↦ x.1 = d.location) = some (d.location, d.body) := by
  rw [Code.definitions_eq_map]
  cases hfind : ((openDefinitions p).map fun d ↦ (d.location, d.body)).find?
      fun x ↦ x.1 = d.location with
  | none =>
    have hnone := List.find?_eq_none.mp hfind _ (List.mem_map_of_mem hd)
    exact absurd (decide_eq_true rfl) hnone
  | some x =>
    obtain ⟨d', hd', rfl⟩ := List.mem_map.mp (List.mem_of_find?_eq_some hfind)
    have hsome := List.find?_some hfind
    have hlocation : d'.location = d.location := of_decide_eq_true hsome
    rw [h.eq_of_location (mem_definitions_iff.mpr (.inl hd')) (mem_definitions_iff.mpr (.inl hd))
      hlocation]

/-- At the place of a hidden definition none is found. -/
theorem find?_hidden (h : DistinctPlaces p) (hd : d ∈ hiddenDefinitions p) :
    (Code.definitions p).find? (fun x ↦ x.1 = d.location) = none := by
  rw [Code.definitions_eq_map, List.find?_eq_none]
  intro x hx
  obtain ⟨d', hd', rfl⟩ := List.mem_map.mp hx
  have hnodup : ((openDefinitions p).map Definition.location ++
      (hiddenDefinitions p).map Definition.location).Nodup := by
    rw [← List.map_append]
    exact ((definitions_perm p).map Definition.location).nodup_iff.mp h
  have hne := (List.nodup_append.mp hnodup).2.2 _ (List.mem_map_of_mem hd') _
    (List.mem_map_of_mem hd)
  rw [decide_eq_true_iff]
  exact hne

end DistinctPlaces

end Scriptlet
