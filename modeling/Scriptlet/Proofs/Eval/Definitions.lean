import Scriptlet.Proofs.Environment.Functions
import Scriptlet.Proofs.Eval.Course
import Scriptlet.Proofs.Eval.Machine

/-!
# The functions that a run defines

A run defines no functions but those that its program defines, and it defines each of them as it
stands there. So at every point of a run the functions are those that were there before it, and
parts with the parameters and the body of a definition of the program, under its name.
-/

namespace Scriptlet

variable {D : Definition → Prop}

/-! ## Actions -/

/-- The actions define only functions whose definitions have the property. -/
def Action.Defines (D : Definition → Prop) : Action → Prop
  | .done _ => True
  | .look next => ∀ env, (next env).Defines D
  | .define _ _ next | .assign _ _ next | .setConstant _ _ _ next | .print _ next => next.Defines D
  | .defineFunction name params body next => DefinedBy D name params body ∧ next.Defines D
  | .call _ _ _ next => ∀ r, (next r).Defines D
  | .block body next => body.Defines D ∧ ∀ flow, (next flow).Defines D

namespace Action

theorem defines_ofHost (act : HostAction) : (ofHost act).Defines D := by
  induction act with
  | done r => trivial
  | print line next ih => exact ih
  | call name args l next ih => exact fun r ↦ ih r

theorem defines_defineAll (ps : List (String × Value)) {next : Action} (h : next.Defines D) :
    (defineAll ps next).Defines D := by
  induction ps with
  | nil => exact h
  | cons p ps ih => exact ih

/-! ## Trees -/

theorem defines_attempt {α : Type} (r : Except EvalError α) {next : α → Action}
    (h : ∀ x, (next x).Defines D) : (attempt r next).Defines D := by
  cases r with
  | ok a => exact h a
  | error e => trivial

theorem treeProperty_defines : TreeProperty D (fun _ ↦ True) (Defines D) where
  values := valueProperty_true
  finish _ _ := trivial
  fail _ _ := trivial
  look _ h := fun env ↦ h env env.values_true
  define _ _ _ _ h := h
  assign _ _ _ _ h := h
  setConstant _ _ _ _ _ h := h
  defineFunction _ _ _ _ hd h := ⟨hd, h⟩
  call _ _ _ _ _ h := fun r ↦ defines_attempt r fun v ↦ h v trivial
  block _ _ hbody h := ⟨hbody, fun flow ↦ h flow trivial⟩

/-- Whole statements define what their definitions say, up to the end of their frame. -/
theorem defines_ended {sts : List Statement} (h : ∀ d ∈ statementsDefinitions sts, D d)
    (last : Value) : (statements last sts finish).Defines D :=
  has_ended treeProperty_defines h (literalsAre_true sts) trivial

end Action

/-! ## Machines -/

/-- What waits defines only functions whose definitions have the property. -/
def Pending.Defines (D : Definition → Prop) : Pending → Prop
  | .block next => ∀ flow, (next flow).Defines D
  | .script next | .native next => ∀ r, (next r).Defines D

theorem Pending.Defines.resume {p : Pending} (h : p.Defines D) (r : Except EvalError Flow) :
    (p.resume r).Defines D := by
  cases p with
  | block next => exact Action.defines_attempt r h
  | script next => exact h _
  | native next => exact h _

/-- The part is the host's and has one of the host's names, or it has the parameters and the body of
a definition of that name. -/
def Part.ComesFrom (H : String → Prop) (D : Definition → Prop) (x : String) (part : Part) : Prop :=
  part.body.isNative ∧ H x ∨
    ∃ params body, DefinedBy D x params body ∧ part.body = .script params body ∧
      part.arity = .fixed params.length

namespace Machine

variable {limit : Nat} {m m' : Machine} {H : String → Prop}

/-- A point of a run where all functions that are not the host's come from definitions with the
property, and all that are to come. -/
structure Defines (H : String → Prop) (D : Definition → Prop) (m : Machine) : Prop where
  action : m.action.Defines D
  pending : ∀ p ∈ m.pending, p.Defines D
  parts : m.env.Holds (Part.ComesFrom H D)

theorem Defines.beginBody {args : List Value} {l : Location}
    {next : Except EvalError Value → Action}
    {part : Part} {x : String} (hm : m.Defines H D) (hnext : ∀ r, (next r).Defines D)
    (hnested : ∀ d, D d → ∀ d' ∈ statementsDefinitions d.body, D d')
    (hpart : part.ComesFrom H D x) : (m.beginBody args l next part.body).Defines H D := by
  cases hbody : part.body with
  | native act =>
    exact ⟨Action.defines_ofHost _, List.forall_mem_cons.mpr ⟨hnext, hm.pending⟩, hm.parts⟩
  | script params body =>
    have hd : ∀ d ∈ statementsDefinitions body, D d := by
      rcases hpart with ⟨hnative, -⟩ | ⟨params', body', ⟨d, hd, -, -, rfl⟩, hscript, -⟩
      · simp [hbody, PartBody.isNative] at hnative
      · rw [hbody] at hscript
        cases hscript
        exact hnested d hd
    exact ⟨Action.defines_defineAll _ (Action.defines_ended hd .null),
      List.forall_mem_cons.mpr ⟨hnext, hm.pending⟩, hm.parts.push .function⟩

/-- A step defines nothing else, if the bodies of the definitions do not. -/
theorem Defines.of_step (hm : m.Defines H D)
    (hnested : ∀ d, D d → ∀ d' ∈ statementsDefinitions d.body, D d')
    (hstep : m.step limit = some m') : m'.Defines H D := by
  obtain ⟨haction, hpending, hparts⟩ := id hm
  cases transition_of_step hstep with
  | @resume r _ _ _ p =>
    obtain ⟨hp, hps⟩ := List.forall_mem_cons.mp hpending
    refine ⟨hp.resume r, hps, ?_⟩
    cases p with
    | block next => exact hparts.pop
    | script next => exact hparts.pop
    | native next => exact hparts
  | look => exact ⟨haction _, hpending, hparts⟩
  | define => exact ⟨haction, hpending, hparts.define _ _⟩
  | assign => exact ⟨haction, hpending, hparts.assign _ _⟩
  | setConstant hset => exact ⟨haction, hpending, hparts.setConstant hset⟩
  | refuseConstant _ => exact ⟨trivial, hpending, hparts⟩
  | @defineFunction _ params body =>
    exact ⟨haction.2, hpending, hparts.defineFunction (.inr ⟨params, body, haction.1, rfl, rfl⟩)⟩
  | print => exact ⟨haction, hpending, hparts.print _⟩
  | call hpart _ => exact hm.beginBody haction hnested (hparts.of_part hpart).1
  | refusePart _ | refuseDepth _ _ => exact ⟨haction _, hpending, hparts⟩
  | block =>
    exact ⟨haction.1, List.forall_mem_cons.mpr ⟨haction.2, hpending⟩, hparts.push .block⟩

/-- At every point of the run of a program in an environment of the host, all functions are the
host's or come from the definitions of the program. -/
theorem defines_after {env : Environment} (henv : env.Holds fun x part ↦ part.body.isNative ∧ H x)
    (limit : Nat) (p : Program) (n : Nat) :
    ((start p env).after limit n).Defines H (· ∈ statementsDefinitions p) := by
  have hstart : (start p env).Defines H (· ∈ statementsDefinitions p) :=
    ⟨Action.defines_ended (fun _ h ↦ h) .null, fun _ h ↦ absurd h List.not_mem_nil,
      henv.mono fun _ _ h ↦ .inl h⟩
  exact holds_after hstart (fun m m' hm hstep ↦ hm.of_step (containsNested_definitions p) hstep) n

end Machine

end Scriptlet
