import Mathlib.Logic.Function.Iterate
import Scriptlet.Proofs.Environment.Visible

/-!
# What an assignment changes

An assignment writes one entry: the variable in the innermost visible frame that has it, or a new
variable in the innermost frame if no visible frame has it. Reading asks the frames in the same
order, so it is the written value that is read afterwards, and all other lookups answer as before,
also in the environments that are left when frames are popped later. Frames that are hidden behind a
function are never written.

A frame that is pushed, written and popped leaves nothing behind, as long as the names that are
written were not visible before.
-/

namespace Scriptlet

/-- The second frame differs from the first at most in the value of one variable. -/
structure Frame.AgreesOff (x : String) (f g : Frame) : Prop where
  kind : g.kind = f.kind
  constants : g.constants = f.constants
  functions : g.functions = f.functions
  vars : ∀ y, y ≠ x → g.vars.get? y = f.vars.get? y

theorem Frame.AgreesOff.refl (x : String) (f : Frame) : f.AgreesOff x f :=
  ⟨rfl, rfl, rfl, fun _ _ ↦ rfl⟩

namespace Environment

variable {env env' : Environment} {x : String} {v : Value} {i : Nat}

theorem agreesOff_setVariable (x : String) (v : Value) (f : Frame) :
    f.AgreesOff x (setVariable x v f) where
  kind := rfl
  constants := rfl
  functions := rfl
  vars y hy := by rw [setVariable, Table.get?_put, if_neg hy]

/-! ## The frame that is written -/

/-- The frame with the number is the one that an assignment to the variable writes: the innermost
visible one that has the variable, or the innermost one of all if no visible frame has it. -/
def WrittenAt (env : Environment) (x : String) (i : Nat) : Prop :=
  env.Innermost (fun f ↦ f.vars.has x) i ∨
    i = 0 ∧ ∀ j, env.SeesFrame j → ∀ f ∈ env.frames[j]?, ¬f.vars.has x

theorem WrittenAt.seesFrame (h : env.WrittenAt x i) : env.SeesFrame i := by
  rcases h with h | ⟨rfl, -⟩
  · exact h.1
  · exact env.seesFrame_zero

/-- No visible frame that is further in has the variable. -/
theorem WrittenAt.before (h : env.WrittenAt x i) {j : Nat} (hj : j < i) (hseen : env.SeesFrame j)
    {f : Frame} (hf : f ∈ env.frames[j]?) : f.vars.get? x = none := by
  rcases h with h | ⟨rfl, -⟩
  · exact Table.has_eq_false.mp (Bool.eq_false_iff.mpr fun hx ↦ h.2.2 j hj hseen ⟨f, hf, hx⟩)
  · exact absurd hj (Nat.not_lt_zero j)

theorem exists_assign_eq (env : Environment) (x : String) (v : Value) :
    ∃ i, env.WrittenAt x i ∧ env.assign x v = env.changeAt i (setVariable x v) := by
  rw [assign]
  cases hc : env.changeVisible? (fun f ↦ f.vars.has x) (setVariable x v) with
  | some env' =>
    obtain ⟨i, hi, rfl⟩ := changeVisible?_eq_some_iff.mp hc
    exact ⟨i, .inl hi, rfl⟩
  | none =>
    refine ⟨0, .inr ⟨rfl, changeVisible?_eq_none_iff.mp hc⟩, ?_⟩
    rw [Option.getD_none, define, changeInnermost_eq]

theorem kinds_changeAt {change : Frame → Frame} (h : ∀ f, (change f).kind = f.kind) :
    (env.changeAt i change).kinds = env.kinds := by
  rw [kinds, frames_changeAt, kinds]
  refine List.ext_getElem? fun j ↦ ?_
  rw [List.getElem?_map, List.getElem?_map, List.getElem?_modify]
  cases env.frames[j]? with
  | none => rfl
  | some f => by_cases hj : i = j <;> simp [hj, h]

theorem kinds_changeAt_setVariable : (env.changeAt i (setVariable x v)).kinds = env.kinds :=
  kinds_changeAt fun _ ↦ rfl

/-- The variable is read from the frame that was written. -/
theorem valueOf?_changeAt (h : env.WrittenAt x i) :
    (env.changeAt i (setVariable x v)).valueOf? x = some v := by
  obtain ⟨f, hf⟩ := h.seesFrame.exists_frame
  have hwritten : setVariable x v f ∈ (env.changeAt i (setVariable x v)).frames[i]? := by
    rw [frames_changeAt, List.getElem?_modify_eq, hf]
    rfl
  have hvalue : (setVariable x v f).vars.get? x = some v := by
    rw [setVariable, Table.get?_put, if_pos rfl]
  rw [valueOf?, findSome?_visible_eq_some_iff]
  refine ⟨i, ⟨?_, ⟨_, hwritten, Option.isSome_of_eq_some hvalue⟩, ?_⟩, _, hwritten, hvalue⟩
  · rw [kinds_changeAt_setVariable]
    exact h.seesFrame
  · rintro j hj hseen ⟨g, hg, hread⟩
    rw [kinds_changeAt_setVariable] at hseen
    rw [frames_changeAt, List.getElem?_modify_ne _ _ (Nat.ne_of_gt hj)] at hg
    rw [h.before hj hseen hg] at hread
    cases hread

/-! ## All other lookups -/

section AgreesOff

variable (h : Pointwise (Frame.AgreesOff x) env env')
include h

theorem Pointwise.findSome?_visible {β : Type} {read : Frame → Option β}
    (hread : ∀ f g : Frame, f.AgreesOff x g → read g = read f) :
    env'.visible.findSome? read = env.visible.findSome? read := by
  have hvisible := h.visible fun _ _ hfg ↦ hfg.kind
  generalize env.visible = fs at hvisible
  generalize env'.visible = fs' at hvisible
  induction hvisible with
  | nil => rfl
  | cons hfg _ ih => rw [List.findSome?_cons, List.findSome?_cons, hread _ _ hfg, ih]

theorem Pointwise.hasFunction_eq (name : String) :
    env'.hasFunction name = env.hasFunction name := by
  have hvisible := h.visible fun _ _ hfg ↦ hfg.kind
  rw [hasFunction, hasFunction]
  generalize env.visible = fs at hvisible
  generalize env'.visible = fs' at hvisible
  induction hvisible with
  | nil => rfl
  | cons hfg _ ih => rw [List.any_cons, List.any_cons, hfg.functions, ih]

theorem Pointwise.part_eq (name : String) (arity : Nat) (scope : Scope) (l : Location) :
    env'.part name arity scope l = env.part name arity scope l := by
  rw [part, part, h.hasFunction_eq name,
    h.findSome?_visible fun f g hfg ↦ by rw [hfg.functions]]

theorem Pointwise.pop_agreesOff : Pointwise (Frame.AgreesOff x) env.pop env'.pop := by
  refine ⟨?_, h.2⟩
  have hinner := h.1
  rw [pop, pop]
  generalize env.inner = fs at hinner
  generalize env'.inner = fs' at hinner
  cases hinner with
  | nil => exact .nil
  | cons _ hrest => exact hrest

theorem Pointwise.popped (k : Nat) :
    Pointwise (Frame.AgreesOff x) (pop^[k] env) (pop^[k] env') := by
  induction k with
  | zero => exact h
  | succ k ih =>
    rw [Function.iterate_succ_apply', Function.iterate_succ_apply']
    exact ih.pop_agreesOff

end AgreesOff

/-- No variable other than the written one, no constant and no function is looked up differently. -/
structure LookupsAgree (x : String) (env env' : Environment) : Prop where
  values : ∀ y, y ≠ x → env'.valueOf? y = env.valueOf? y
  constants : ∀ y, env'.constant? y = env.constant? y
  functions : ∀ name, env'.hasFunction name = env.hasFunction name
  parts : ∀ name arity scope l, env'.part name arity scope l = env.part name arity scope l

theorem Pointwise.lookupsAgree (h : Pointwise (Frame.AgreesOff x) env env') :
    LookupsAgree x env env' where
  values y hy := h.findSome?_visible fun _ _ hfg ↦ hfg.vars y hy
  constants y := h.findSome?_visible fun _ _ hfg ↦ by rw [hfg.constants]
  functions := h.hasFunction_eq
  parts := h.part_eq

theorem pointwise_assign (env : Environment) (x : String) (v : Value) :
    Pointwise (Frame.AgreesOff x) env (env.assign x v) := by
  rw [assign]
  cases hc : env.changeVisible? (fun f ↦ f.vars.has x) (setVariable x v) with
  | some env' => exact pointwise_changeVisible? (.refl x) hc fun g _ ↦ agreesOff_setVariable x v g
  | none => exact pointwise_changeInnermost (.refl x) (agreesOff_setVariable x v) env

/-! ## Writes inside a frame of their own -/

/-- A write of one entry. A constant that refuses the value stays as it is. -/
inductive EntryWrite where
  | assign (x : String) (v : Value)
  | define (x : String) (v : Value)
  | setConstant (x : String) (v : Value) (l : Location)
  | defineFunction (name : String) (part : Part)

/-- The environment after a write. -/
def EntryWrite.apply (env : Environment) : EntryWrite → Environment
  | assign x v => env.assign x v
  | define x v => env.define x v
  | setConstant x v l => (env.setConstant x v l).toOption.getD env
  | defineFunction name part => env.defineFunction name part

/-- The name that is written is not visible in the environment. A declaration and a definition go
into the innermost frame whatever is visible, so nothing is asked of them. -/
def EntryWrite.New (env : Environment) : EntryWrite → Prop
  | assign x _ => env.valueOf? x = none
  | setConstant x _ _ => env.constant? x = none
  | define .. | defineFunction .. => True

/-- The environment with one more frame, that one as given. -/
def under (env : Environment) (top : Frame) : Environment :=
  { env with inner := top :: env.inner }

/-- A write to what no visible frame has does not come past the innermost frame. -/
theorem changeVisible?_under {top : Frame} {p : Frame → Bool} {change : Frame → Frame}
    (h : ∀ i, env.SeesFrame i → ∀ f ∈ env.frames[i]?, ¬p f)
    (hchanged : (env.under top).changeVisible? p change = some env') :
    env' = env.under (change top) := by
  by_cases hp : p top
  · rw [under, changeVisible?, changeUpToFunction, if_pos hp] at hchanged
    exact (Option.some.inj hchanged).symm
  · -- only the global frame or a frame of `env` is left, and they do not have the property
    rw [under] at hchanged
    by_cases hkind : top.kind = .function
    · rw [changeVisible?_function hp hkind, if_neg (h _ env.seesFrame_global _ env.frames_length)]
        at hchanged
      cases hchanged
    · rw [changeVisible?_block hp hkind, changeVisible?_eq_none_iff.mpr h] at hchanged
      cases hchanged

theorem EntryWrite.apply_under {w : EntryWrite} (h : w.New env) (top : Frame) :
    ∃ top', w.apply (env.under top) = env.under top' := by
  cases w with
  | assign x v =>
    rw [apply, Environment.assign]
    cases hc : (env.under top).changeVisible? (fun f ↦ f.vars.has x) (setVariable x v) with
    | none => exact ⟨setVariable x v top, rfl⟩
    | some env' =>
      have hnew : env.valueOf? x = none := h
      refine ⟨_, changeVisible?_under (fun i hi f hf ↦ ?_) hc⟩
      exact Bool.eq_false_iff.mp (Table.has_eq_false.mpr
        (findSome?_visible_eq_none_iff.mp hnew i hi f hf))
  | define x v => exact ⟨setVariable x v top, rfl⟩
  | setConstant x v l =>
    rw [apply]
    cases hset : (env.under top).setConstant x v l with
    | error e => exact ⟨top, rfl⟩
    | ok env' =>
      rcases of_setConstant hset with ⟨-, rfl⟩ | ⟨-, hc⟩
      · exact ⟨putConstant x v top, rfl⟩
      · have hnew : env.constant? x = none := h
        refine ⟨_, changeVisible?_under (fun i hi f hf ↦ ?_) hc⟩
        exact Bool.eq_false_iff.mp (Table.has_eq_false.mpr
          (findSome?_visible_eq_none_iff.mp hnew i hi f hf))
  | defineFunction name part => exact ⟨addPart name part top, rfl⟩

/-- Writes to names that were not visible go away with the frame that was pushed before them. -/
theorem pop_foldl_apply_push (kind : FrameKind) {ws : List EntryWrite} (h : ∀ w ∈ ws, w.New env) :
    (ws.foldl EntryWrite.apply (env.push kind)).pop = env := by
  have hrun : ∀ top, ∃ top', ws.foldl EntryWrite.apply (env.under top) = env.under top' := by
    induction ws with
    | nil => exact fun top ↦ ⟨top, rfl⟩
    | cons w ws ih =>
      intro top
      obtain ⟨hw, hws⟩ := List.forall_mem_cons.mp h
      obtain ⟨top₁, htop₁⟩ := EntryWrite.apply_under hw top
      rw [List.foldl_cons, htop₁]
      exact ih hws top₁
  obtain ⟨top, htop⟩ := hrun (.empty kind)
  have hpush : env.push kind = env.under (.empty kind) := rfl
  rw [hpush, htop]
  rfl

/-! ## The rule -/

/-- After an assignment the variable has the value. One frame is written, the innermost visible one
that had the variable or else the innermost of all, and of this frame only the entry of the
variable; frames that are not visible are left alone. All other lookups answer as before, now and
after any number of frames is popped. And a frame that is pushed, written under names that were not
visible, and popped leaves the environment as it was. -/
theorem assign_changes_one_entry (env : Environment) (x : String) (v : Value) :
    (env.assign x v).valueOf? x = some v ∧
    (∃ i, env.WrittenAt x i ∧ env.SeesFrame i ∧
      (env.assign x v).output = env.output ∧ (env.assign x v).depth = env.depth ∧
      (∀ j, j ≠ i → (env.assign x v).frames[j]? = env.frames[j]?) ∧
      ∃ f g, env.frames[i]? = some f ∧ (env.assign x v).frames[i]? = some g ∧
        f.AgreesOff x g ∧ g.vars.get? x = some v) ∧
    (∀ j, ¬env.SeesFrame j → (env.assign x v).frames[j]? = env.frames[j]?) ∧
    (∀ k, LookupsAgree x (pop^[k] env) (pop^[k] (env.assign x v))) ∧
    ∀ kind (ws : List EntryWrite), (∀ w ∈ ws, w.New env) →
      (ws.foldl EntryWrite.apply (env.push kind)).pop = env := by
  obtain ⟨i, hi, heq⟩ := exists_assign_eq env x v
  have hothers : ∀ j, j ≠ i → (env.assign x v).frames[j]? = env.frames[j]? := by
    intro j hj
    rw [heq, frames_changeAt, List.getElem?_modify_ne _ _ hj.symm]
  refine ⟨?_, ⟨i, hi, hi.seesFrame, ?_, ?_, hothers, ?_⟩, ?_, ?_,
    fun kind ws ↦ pop_foldl_apply_push kind⟩
  · rw [heq]
    exact valueOf?_changeAt hi
  · rw [heq, changeAt]
  · rw [heq, ← length_kinds, kinds_changeAt_setVariable, length_kinds]
  · obtain ⟨f, hf⟩ := hi.seesFrame.exists_frame
    refine ⟨f, setVariable x v f, hf, ?_, agreesOff_setVariable x v f, ?_⟩
    · rw [heq, frames_changeAt, List.getElem?_modify_eq, hf]
      rfl
    · rw [setVariable, Table.get?_put, if_pos rfl]
  · exact fun j hj ↦ hothers j fun hji ↦ hj (hji ▸ hi.seesFrame)
  · exact fun k ↦ ((pointwise_assign env x v).popped k).lookupsAgree

end Environment

end Scriptlet
