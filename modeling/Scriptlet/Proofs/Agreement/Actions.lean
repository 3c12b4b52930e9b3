import Scriptlet.Proofs.Agreement.Conditions
import Scriptlet.Proofs.Eval.Action
import Scriptlet.Proofs.Value.Types

/-!
# Actions that keep types

What an action may do so that values keep the types of the places they stand in, and what it may
rely on. A *site* says in which body a run is, which of its names have been defined there, and how
the frame at hand may end. Actions are judged from their site: they write only values of the type
that a name has in the body, they call functions of the program with arguments of their types, and
they end the frame as it may end. When they look at the environment they rely on what holds at every
point of a run: the variables there are those of the body, or else of the top level, with values of
their types.

A parameter always has a value in the frames of its body. That is why a body may have a parameter
with the name of a variable of the top level and with another type, but no local variable.
-/

namespace Scriptlet

/-- Where a run is: in a body, with some of its names defined, and in a frame that may end so. -/
structure Site where
  body : BodyTypes
  known : List String
  ends : Flow → Prop

namespace Site

/-- One more name is defined. -/
def know (C : Site) (x : String) : Site := { C with known := x :: C.known }

/-- A frame inside, which may end so. -/
def inside (C : Site) (ends : Flow → Prop) : Site := { C with ends := ends }

/-- The name is that of a parameter, and it is defined. -/
def Settled (C : Site) (x : String) : Prop := x ∈ C.known ∧ x ∈ C.body.params.map Prod.fst

/-- The value is one that the variable may take. -/
def Takes (C : Site) (x : String) (v : Value) : Prop := ∃ ty, (x, ty) ∈ C.body.variables ∧ v.Is ty

/-- The second site differs at most in that more names are known there. -/
structure Below (C C' : Site) : Prop where
  body : C'.body = C.body
  known : ∀ x ∈ C.known, x ∈ C'.known
  ends : C'.ends = C.ends

namespace Below

variable {C C' : Site}

theorem takes (h : C.Below C') {x : String} {v : Value} (hx : C.Takes x v) : C'.Takes x v := by
  rwa [Takes, h.body]

theorem settled (h : C.Below C') {x : String} (hx : C.Settled x) : C'.Settled x :=
  ⟨h.known x hx.1, h.body ▸ hx.2⟩

theorem know (h : C.Below C') (x : String) : (C.know x).Below (C'.know x) :=
  ⟨h.body, List.cons_subset_cons x h.known, h.ends⟩

theorem inside (h : C.Below C') (ends : Flow → Prop) : (C.inside ends).Below (C'.inside ends) :=
  ⟨h.body, h.known, rfl⟩

theorem of_know (C : Site) (x : String) : C.Below (C.know x) :=
  ⟨rfl, fun _ ↦ List.mem_cons_of_mem x, rfl⟩

end Below

end Site

/-- The frame holds variables of the body, with values of their types, and no constants. -/
structure Frame.Fits (b : BodyTypes) (f : Frame) : Prop where
  vars : ∀ x v, f.vars.get? x = some v → ∃ ty, (x, ty) ∈ b.variables ∧ v.Is ty
  constants : f.constants = []

/-- What a look at the environment can rely on. -/
structure Environment.Shows (W : ProgramTypes) (C : Site) (env : Environment) : Prop where
  own : ∀ f ∈ upToFunction env.inner, f.Fits C.body
  settled : ∀ x, C.Settled x → ∃ f ∈ upToFunction env.inner, f.vars.has x
  global : env.global.Fits W.top

namespace Action

/-- The actions keep the types of the program, from the site on. A variable that is assigned may be
a global one, unless it is a parameter. -/
def Keeps (W : ProgramTypes) : Action → Site → Prop
  | .done r, C => ∀ flow, r = .ok flow → C.ends flow
  | .look next, C => ∀ env, env.Shows W C → (next env).Keeps W C
  | .define x v next, C => C.Takes x v ∧ next.Keeps W (C.know x)
  | .assign x v next, C => C.Takes x v ∧
      (C.Settled x ∨ ∀ ty, (x, ty) ∈ W.top.variables → v.Is ty) ∧ next.Keeps W C
  | .setConstant .., _ => False
  | .defineFunction _ _ _ next, C | .print _ next, C => next.Keeps W C
  | .call x vs _ next, C => ∃ f ∈ W.functions, f.name = x ∧ List.Forall₂ Value.Is vs f.params ∧
      (∀ e, (next (.error e)).Keeps W C) ∧ ∀ v, v.Is f.ret → (next (.ok v)).Keeps W C
  | .block body next, C => ∃ ends, body.Keeps W (C.inside ends) ∧
      ∀ flow, ends flow → (next flow).Keeps W C

variable {W : ProgramTypes} {C C' : Site}

theorem keeps_fail (W : ProgramTypes) (e : EvalError) (C : Site) : (fail e).Keeps W C := nofun

/-- Where more names are known, no less may be done. -/
theorem Keeps.mono {a : Action} (h : a.Keeps W C) (hbelow : C.Below C') : a.Keeps W C' := by
  induction a generalizing C C' with
  | done r =>
    intro flow hr
    rw [hbelow.ends]
    exact h flow hr
  | look next ih =>
    intro env henv
    refine ih env (h env ⟨?_, fun x hx ↦ henv.settled x (hbelow.settled hx), henv.global⟩) hbelow
    rw [← hbelow.body]
    exact henv.own
  | define x v next ih => exact ⟨hbelow.takes h.1, ih h.2 (hbelow.know x)⟩
  | assign x v next ih =>
    exact ⟨hbelow.takes h.1, h.2.1.imp_left hbelow.settled, ih h.2.2 hbelow⟩
  | setConstant x v l next ih => exact h
  | defineFunction name params body next ih => exact ih h hbelow
  | print line next ih => exact ih h hbelow
  | call x vs l next ih =>
    obtain ⟨f, hf, hname, hvs, herror, hnext⟩ := h
    exact ⟨f, hf, hname, hvs, fun e ↦ ih _ (herror e) hbelow, fun v hv ↦ ih _ (hnext v hv) hbelow⟩
  | block body next ihbody ihnext =>
    obtain ⟨ends, hbody, hnext⟩ := h
    exact ⟨ends, ihbody hbody (hbelow.inside ends),
      fun flow hflow ↦ ihnext flow (hnext flow hflow) hbelow⟩

end Action

/-- A course keeps types if what comes after it does, for all that the course brings. -/
def Course.Keeps {α : Type} (W : ProgramTypes) (C : Site) (P : α → Prop) (a : Course α) : Prop :=
  ∀ next, (∀ x, P x → (next x).Keeps W C) → (a next).Keeps W C

namespace Action

variable {W : ProgramTypes} {C : Site} {α β : Type}

theorem keeps_pure {P : α → Prop} {x : α} (h : P x) : Course.Keeps W C P fun next ↦ next x :=
  fun _ hnext ↦ hnext x h

theorem keeps_attempt {P : α → Prop} {r : Except EvalError α} (h : ∀ x, r = .ok x → P x) :
    Course.Keeps W C P (attempt r) := by
  intro next hnext
  cases r with
  | ok x => exact hnext x (h x rfl)
  | error e => exact keeps_fail W e C

/-- Parameters that are defined one after another. -/
theorem keeps_defineAll {ps : List (String × Value)} {next : Action}
    (hps : ∀ p ∈ ps, C.Takes p.1 p.2)
    (hnext : next.Keeps W { C with known := (ps.map Prod.fst).reverse ++ C.known }) :
    (defineAll ps next).Keeps W C := by
  induction ps generalizing C with
  | nil => exact hnext
  | cons p ps ih =>
    obtain ⟨hp, hps⟩ := List.forall_mem_cons.mp hps
    refine ⟨hp, ih hps ?_⟩
    rwa [List.map_cons, List.reverse_cons, List.append_assoc] at hnext

end Action

/-! ## Names -/

namespace Environment.Shows

variable {W : ProgramTypes} {C : Site} {env : Environment} {x : String} {v : Value}

/-- A variable that is found is one of the body, or one of the top level. -/
theorem of_valueOf? (h : env.Shows W C) (hv : env.valueOf? x = some v) :
    C.Takes x v ∨ ¬C.Settled x ∧ ∃ ty, (x, ty) ∈ W.top.variables ∧ v.Is ty := by
  rw [valueOf?, visible, List.findSome?_append, Option.or_eq_some_iff] at hv
  rcases hv with hv | ⟨hnone, hv⟩
  · obtain ⟨f, hf, hget⟩ := List.exists_of_findSome?_eq_some hv
    exact .inl ((h.own f hf).vars x v hget)
  · refine .inr ⟨fun hsettled ↦ ?_, ?_⟩
    · obtain ⟨f, hf, hhas⟩ := h.settled x hsettled
      rw [Table.has, List.findSome?_eq_none_iff.mp hnone f hf] at hhas
      cases hhas
    · obtain ⟨f, hf, hget⟩ := List.exists_of_findSome?_eq_some hv
      rw [List.mem_singleton.mp hf] at hget
      exact h.global.vars x v hget

theorem constant?_eq_none (h : env.Shows W C) (x : String) : env.constant? x = none := by
  rw [constant?, List.findSome?_eq_none_iff]
  intro f hf
  have hconstants : f.constants = [] := by
    rcases List.mem_append.mp hf with hf | hf
    · exact (h.own f hf).constants
    · rw [List.mem_singleton.mp hf]
      exact h.global.constants
  rw [hconstants]
  rfl

end Environment.Shows

end Scriptlet
