import Mathlib.Data.List.Forall2
import Scriptlet.Environment.Basic
import Scriptlet.Proofs.Table

/-!
# Operations on environments

An environment changes by writes, which leave all frames where they are, and by frames that are
pushed and popped; nothing else ever happens to it. What a write can do to a frame is said once:
its kind stays, a constant that is set stays, and functions only gain parts. Everything that holds
of environments along a run is derived from this.
-/

namespace Scriptlet

/-! ## Frames -/

/-- All parts of all functions of a frame. -/
def Frame.parts (f : Frame) : List Part := f.functions.flatMap Prod.snd

/-- What a write can make of a frame. The parts that it adds have the property `P`. -/
structure Frame.Develops (P : Part → Prop) (f g : Frame) : Prop where
  kind : g.kind = f.kind
  constants : ∀ x v, f.constants.get? x = some v → v ≠ .null → g.constants.get? x = some v
  parts : ∀ part ∈ g.parts, part ∈ f.parts ∨ P part

theorem Frame.Develops.refl {P : Part → Prop} (f : Frame) : f.Develops P f :=
  ⟨rfl, fun _ _ h _ ↦ h, fun _ h ↦ .inl h⟩

namespace Environment

variable {P : Part → Prop} {env env' : Environment}

/-- All frames, innermost first; the last of them is the global one. -/
def frames (env : Environment) : List Frame := env.inner ++ [env.global]

/-- The kinds of all frames, innermost first. -/
def kinds (env : Environment) : List FrameKind := env.frames.map Frame.kind

theorem length_frames (env : Environment) : env.frames.length = env.depth := by
  rw [frames, List.length_append, List.length_singleton, depth]

theorem length_kinds (env : Environment) : env.kinds.length = env.depth := by
  rw [kinds, List.length_map, length_frames]

theorem upToFunction_subset {f : Frame} {fs : List Frame} (h : f ∈ upToFunction fs) :
    f ∈ fs := by
  induction fs with
  | nil => cases h
  | cons g fs ih =>
    rw [upToFunction] at h
    split at h
    · rw [List.mem_singleton.mp h]
      exact List.mem_cons_self
    · rcases List.mem_cons.mp h with rfl | h
      · exact List.mem_cons_self
      · exact List.mem_cons_of_mem _ (ih h)

theorem mem_frames_of_mem_visible {f : Frame} (h : f ∈ env.visible) : f ∈ env.frames := by
  rcases List.mem_append.mp h with h | h
  · exact List.mem_append_left _ (upToFunction_subset h)
  · exact List.mem_append_right _ h

/-! ## Changes frame by frame -/

/-- The frames of two environments are related one by one. -/
def Pointwise (R : Frame → Frame → Prop) (env env' : Environment) : Prop :=
  List.Forall₂ R env.inner env'.inner ∧ R env.global env'.global

variable {R : Frame → Frame → Prop}

theorem Pointwise.frames (h : Pointwise R env env') :
    List.Forall₂ R env.frames env'.frames :=
  List.rel_append h.1 (.cons h.2 .nil)

/-- What is visible depends on the kinds of the frames only. -/
theorem forall₂_upToFunction (hR : ∀ f g, R f g → g.kind = f.kind) {fs fs' : List Frame}
    (h : List.Forall₂ R fs fs') : List.Forall₂ R (upToFunction fs) (upToFunction fs') := by
  induction h with
  | nil => exact .nil
  | @cons f f' fs fs' hf _ ih =>
    rw [upToFunction, upToFunction, hR f f' hf]
    by_cases hkind : f.kind = .function
    · rw [if_pos hkind, if_pos hkind]
      exact .cons hf .nil
    · rw [if_neg hkind, if_neg hkind]
      exact .cons hf ih

theorem Pointwise.visible (h : Pointwise R env env') (hR : ∀ f g, R f g → g.kind = f.kind) :
    List.Forall₂ R env.visible env'.visible :=
  List.rel_append (forall₂_upToFunction hR h.1) (.cons h.2 .nil)

theorem Pointwise.kinds_eq (h : Pointwise R env env') (hR : ∀ f g, R f g → g.kind = f.kind) :
    env'.kinds = env.kinds := by
  have hframes := h.frames
  rw [kinds, kinds]
  generalize env.frames = fs at hframes
  generalize env'.frames = fs' at hframes
  induction hframes with
  | nil => rfl
  | cons hfirst _ ih => rw [List.map_cons, List.map_cons, hR _ _ hfirst, ih]

theorem exists_of_mem_of_forall₂ {fs fs' : List Frame} (h : List.Forall₂ R fs fs') {g : Frame}
    (hg : g ∈ fs') : ∃ f ∈ fs, R f g := by
  induction h with
  | nil => cases hg
  | cons hfirst _ ih =>
    rcases List.mem_cons.mp hg with rfl | hg
    · exact ⟨_, List.mem_cons_self, hfirst⟩
    · obtain ⟨f, hf, hfg⟩ := ih hg
      exact ⟨f, List.mem_cons_of_mem _ hf, hfg⟩

/-- A property of frames goes on to hold of all of them if the relation hands it on. -/
theorem Pointwise.forall_frames {P : Frame → Prop} (h : Pointwise (fun f g ↦ P f → P g) env env')
    (hall : ∀ f ∈ env.frames, P f) : ∀ g ∈ env'.frames, P g := by
  intro g hg
  obtain ⟨f, hf, hfg⟩ := exists_of_mem_of_forall₂ h.frames hg
  exact hfg (hall f hf)

theorem forall_frames_push {P : Frame → Prop} (hall : ∀ f ∈ env.frames, P f) {kind : FrameKind}
    (h : P (.empty kind)) : ∀ f ∈ (env.push kind).frames, P f :=
  List.forall_mem_cons.mpr ⟨h, hall⟩

theorem forall_frames_pop {P : Frame → Prop} (hall : ∀ f ∈ env.frames, P f) :
    ∀ f ∈ env.pop.frames, P f := by
  intro f hf
  rcases List.mem_append.mp hf with hf | hf
  · exact hall f (List.mem_append_left _ (List.mem_of_mem_tail hf))
  · exact hall f (List.mem_append_right _ hf)

theorem Pointwise.refl (hrefl : ∀ f, R f f) (env : Environment) : Pointwise R env env :=
  ⟨List.forall₂_same.mpr fun f _ ↦ hrefl f, hrefl _⟩

theorem pointwise_changeInnermost {f : Frame → Frame} (hrefl : ∀ g, R g g)
    (hf : ∀ g, R g (f g)) (env : Environment) : Pointwise R env (env.changeInnermost f) := by
  obtain ⟨inner, global, output⟩ := env
  cases inner with
  | nil => exact ⟨.nil, hf global⟩
  | cons g gs => exact ⟨.cons (hf g) (List.forall₂_same.mpr fun g _ ↦ hrefl g), hrefl global⟩

theorem forall₂_changeUpToFunction {p : Frame → Bool} {f : Frame → Frame} (hrefl : ∀ g, R g g)
    {fs fs' : List Frame} (h : changeUpToFunction p f fs = some fs')
    (hf : ∀ g, (upToFunction fs).find? p = some g → R g (f g)) : List.Forall₂ R fs fs' := by
  induction fs generalizing fs' with
  | nil => cases h
  | cons g gs ih =>
    rw [changeUpToFunction] at h
    by_cases hp : p g
    · -- this frame is the one that is changed, and all behind it stay
      rw [if_pos hp] at h
      obtain rfl := Option.some.inj h
      have hfirst : (upToFunction (g :: gs)).find? p = some g := by
        rw [upToFunction]
        split <;> rw [List.find?_cons_of_pos hp]
      exact .cons (hf g hfirst) (List.forall₂_same.mpr fun g _ ↦ hrefl g)
    · rw [if_neg hp] at h
      by_cases hkind : g.kind = .function
      · rw [if_pos hkind] at h
        cases h
      · rw [if_neg hkind] at h
        obtain ⟨gs', hgs, rfl⟩ := Option.map_eq_some_iff.mp h
        rw [upToFunction, if_neg hkind] at hf
        exact .cons (hrefl g) (ih hgs fun g' hg' ↦ hf g' (by rw [List.find?_cons_of_neg hp, hg']))

theorem find?_of_changeUpToFunction {p : Frame → Bool} {f : Frame → Frame} {fs : List Frame}
    (h : changeUpToFunction p f fs = none) : (upToFunction fs).find? p = none := by
  induction fs with
  | nil => rfl
  | cons g gs ih =>
    rw [changeUpToFunction] at h
    by_cases hp : p g
    · rw [if_pos hp] at h
      cases h
    · rw [if_neg hp] at h
      rw [upToFunction]
      by_cases hkind : g.kind = .function
      · rw [if_pos hkind, List.find?_cons_of_neg hp, List.find?_nil]
      · rw [if_neg hkind] at h ⊢
        rw [List.find?_cons_of_neg hp, ih (Option.map_eq_none_iff.mp h)]

/-- Only the first visible frame with the property is changed. -/
theorem pointwise_changeVisible? {p : Frame → Bool} {f : Frame → Frame} (hrefl : ∀ g, R g g)
    (h : env.changeVisible? p f = some env')
    (hf : ∀ g, env.visible.find? p = some g → R g (f g)) : Pointwise R env env' := by
  rw [changeVisible?] at h
  rw [visible] at hf
  cases hc : changeUpToFunction p f env.inner with
  | some inner =>
    rw [hc] at h
    obtain rfl := Option.some.inj h
    refine ⟨forall₂_changeUpToFunction hrefl hc fun g hg ↦ hf g ?_, hrefl _⟩
    rw [List.find?_append, hg, Option.some_or]
  | none =>
    rw [hc] at h
    by_cases hp : p env.global
    · simp only [hp, if_true] at h
      obtain rfl := Option.some.inj h
      refine ⟨List.forall₂_same.mpr fun g _ ↦ hrefl g, hf _ ?_⟩
      rw [List.find?_append, find?_of_changeUpToFunction hc, Option.none_or,
        List.find?_cons_of_pos hp]
    · simp [hp] at h

theorem changeVisible?_eq_none {p : Frame → Bool} {f : Frame → Frame}
    (h : env.changeVisible? p f = none) : env.visible.find? p = none := by
  rw [changeVisible?] at h
  cases hc : changeUpToFunction p f env.inner with
  | some inner =>
    rw [hc] at h
    cases h
  | none =>
    rw [hc] at h
    by_cases hp : p env.global
    · simp [hp] at h
    · rw [visible, List.find?_append, find?_of_changeUpToFunction hc, Option.none_or,
        List.find?_cons_of_neg hp, List.find?_nil]

/-! ## Constants that are set -/

/-- The first visible frame that has the constant says what its value is. -/
theorem constant?_eq_of_find? {x : String} {g : Frame}
    (h : env.visible.find? (fun f ↦ f.constants.has x) = some g) :
    env.constant? x = g.constants.get? x := by
  rw [constant?]
  generalize env.visible = fs at h
  induction fs with
  | nil => cases h
  | cons f fs ih =>
    rw [List.findSome?_cons]
    by_cases hx : f.constants.has x
    · rw [List.find?_cons_of_pos (p := fun f : Frame ↦ f.constants.has x) hx] at h
      obtain rfl := Option.some.inj h
      obtain ⟨v, hv⟩ := Option.isSome_iff_exists.mp hx
      rw [hv]
    · rw [List.find?_cons_of_neg (p := fun f : Frame ↦ f.constants.has x) hx] at h
      have hnone : f.constants.get? x = none := by
        rwa [Table.has, Option.not_isSome_iff_eq_none] at hx
      rw [hnone]
      exact ih h

theorem constant?_eq_none_iff {x : String} :
    env.constant? x = none ↔ ∀ f ∈ env.visible, f.constants.get? x = none := by
  rw [constant?, List.findSome?_eq_none_iff]

/-- A constant can be set where no visible frame has it, or where the first visible frame that has
it has null. -/
theorem of_setConstant {x : String} {v : Value} {l : Location}
    (h : env.setConstant x v l = .ok env') :
    (env.constant? x = none ∧ env' = env.changeInnermost (putConstant x v)) ∨
      (env.constant? x = some .null ∧
        env.changeVisible? (fun f ↦ f.constants.has x) (putConstant x v) = some env') := by
  rw [setConstant] at h
  cases hold : env.constant? x with
  | none =>
    rw [hold] at h
    exact .inl ⟨rfl, (Except.ok.inj h).symm⟩
  | some old =>
    rw [hold] at h
    by_cases hnull : old.isNull
    · simp only [hnull, if_true] at h
      have hold' : old = .null := by
        cases old <;> first | rfl | cases hnull
      refine .inr ⟨by rw [hold'], ?_⟩
      cases hc : env.changeVisible? (fun f ↦ f.constants.has x) (putConstant x v) with
      | some env₁ => rw [← Except.ok.inj h, hc, Option.getD_some]
      | none =>
        -- some visible frame has the constant, since reading it finds something
        have hfind := changeVisible?_eq_none hc
        rw [constant?, List.findSome?_eq_some_iff] at hold
        obtain ⟨before, f, after, hfs, hf, -⟩ := hold
        rw [List.find?_eq_none] at hfind
        exact absurd (by rw [Table.has, hf, Option.isSome_some])
          (hfind f (by rw [hfs]; simp))
    · simp [hnull] at h

/-- A constant that is set refuses every further value. -/
theorem setConstant_of_constant? {x : String} {old v : Value} {l : Location}
    (h : env.constant? x = some old) (hold : old ≠ .null) :
    env.setConstant x v l = .error (.constantReassignment x l) := by
  have hnull : old.isNull = false := by
    cases old <;> first | rfl | exact absurd rfl hold
  simp [setConstant, h, hnull]

/-! ## Writes -/

variable (P) in
/-- The writes: they change what frames hold, and leave the frames in their places. -/
inductive Write : Environment → Environment → Prop where
  | define (env : Environment) (x : String) (v : Value) : Write env (env.define x v)
  | assign (env : Environment) (x : String) (v : Value) : Write env (env.assign x v)
  | setConstant {env env' : Environment} {x : String} {v : Value} {l : Location}
      (h : env.setConstant x v l = .ok env') : Write env env'
  | defineFunction (env : Environment) (name : String) {part : Part} (hpart : P part) :
      Write env (env.defineFunction name part)
  | print (env : Environment) (line : String) : Write env (env.print line)

theorem Write.mono {Q : Part → Prop} (h : Write P env env') (hQ : ∀ part, P part → Q part) :
    Write Q env env' := by
  cases h with
  | define x v => exact .define env x v
  | assign x v => exact .assign env x v
  | setConstant h => exact .setConstant h
  | defineFunction name hpart => exact .defineFunction env name (hQ _ hpart)
  | print line => exact .print env line

theorem develops_setVariable (x : String) (v : Value) (f : Frame) :
    f.Develops P (setVariable x v f) :=
  ⟨rfl, fun _ _ h _ ↦ h, fun _ h ↦ .inl h⟩

theorem develops_addPart {name : String} {part : Part} (hpart : P part) (f : Frame) :
    f.Develops P (addPart name part f) := by
  refine ⟨rfl, fun _ _ h _ ↦ h, fun q hq ↦ ?_⟩
  obtain ⟨entry, hentry, hq⟩ := List.mem_flatMap.mp hq
  rcases Table.of_mem_put hentry with hnew | hold
  · rw [hnew] at hq
    rcases List.mem_append.mp hq with hq | hq
    · cases hg : f.functions.get? name with
      | none =>
        rw [hg] at hq
        cases hq
      | some parts =>
        rw [hg] at hq
        exact .inl (List.mem_flatMap.mpr ⟨_, Table.mem_of_get? hg, hq⟩)
    · rw [List.mem_singleton.mp hq]
      exact .inr hpart
  · exact .inl (List.mem_flatMap.mpr ⟨entry, hold, hq⟩)

/-- Setting a constant that the frame does not have, or has as null, takes nothing back. -/
theorem develops_putConstant {x : String} {v : Value} {f : Frame}
    (h : ∀ old, f.constants.get? x = some old → old = .null) :
    f.Develops P (putConstant x v f) := by
  refine ⟨rfl, fun y w hy hw ↦ ?_, fun _ h ↦ .inl h⟩
  have hyx : y ≠ x := by
    rintro rfl
    exact hw (h w hy)
  rw [putConstant, Table.get?_put, if_neg hyx, hy]

theorem changeInnermost_develops {x : String} {v : Value} (h : env.constant? x = none) :
    Pointwise (Frame.Develops P) env (env.changeInnermost (putConstant x v)) := by
  have hvisible := constant?_eq_none_iff.mp h
  obtain ⟨inner, global, output⟩ := env
  cases inner with
  | nil =>
    have hglobal := hvisible global (by simp [visible])
    exact ⟨.nil, develops_putConstant fun old hold ↦ by rw [hglobal] at hold; cases hold⟩
  | cons g gs =>
    have hinner := hvisible g (by rw [visible, upToFunction]; split <;> simp)
    refine ⟨.cons (develops_putConstant fun old hold ↦ ?_)
      (List.forall₂_same.mpr fun f _ ↦ .refl f), .refl global⟩
    rw [hinner] at hold
    cases hold

/-- What a write does, frame by frame. -/
theorem Write.develops (h : Write P env env') : Pointwise (Frame.Develops P) env env' := by
  cases h with
  | define x v => exact pointwise_changeInnermost .refl (develops_setVariable x v) env
  | assign x v =>
    rw [Environment.assign]
    cases hc : env.changeVisible? (fun f ↦ f.vars.has x) (setVariable x v) with
    | some env₁ => exact pointwise_changeVisible? .refl hc fun g _ ↦ develops_setVariable x v g
    | none => exact pointwise_changeInnermost .refl (develops_setVariable x v) env
  | setConstant h =>
    rcases of_setConstant h with ⟨hnone, rfl⟩ | ⟨hnull, hc⟩
    · exact changeInnermost_develops hnone
    · refine pointwise_changeVisible? .refl hc fun g hg ↦ develops_putConstant fun old hold ↦ ?_
      rw [constant?_eq_of_find? hg, hold] at hnull
      exact Option.some.inj hnull
  | defineFunction name hpart =>
    exact pointwise_changeInnermost .refl (develops_addPart hpart) env
  | print line => exact Pointwise.refl .refl env

theorem Write.kinds_eq (h : Write P env env') : env'.kinds = env.kinds :=
  h.develops.kinds_eq fun _ _ hfg ↦ hfg.kind

/-! ## Parts -/

variable (P) in
/-- All parts of all functions have the property. -/
def AllParts (env : Environment) : Prop := ∀ f ∈ env.frames, ∀ part ∈ f.parts, P part

theorem Write.allParts {Q : Part → Prop} (h : Write Q env env') (hQ : ∀ part, Q part → P part)
    (hall : env.AllParts P) : env'.AllParts P := by
  intro g hg part hpart
  obtain ⟨f, hf, hfg⟩ := exists_of_mem_of_forall₂ h.develops.frames hg
  rcases hfg.parts part hpart with hold | hnew
  · exact hall f hf part hold
  · exact hQ part hnew

theorem AllParts.push (hall : env.AllParts P) (kind : FrameKind) : (env.push kind).AllParts P :=
  forall_frames_push hall fun _ hpart ↦ absurd hpart List.not_mem_nil

theorem AllParts.pop (hall : env.AllParts P) : env.pop.AllParts P := forall_frames_pop hall

theorem mem_of_select? {parts : List Part} {arity : Nat} {scope : Scope} {part : Part}
    (h : Part.select? parts arity scope = some part) : part ∈ parts := by
  have hnewest : ∀ a s, Part.newest? parts a s = some part → part ∈ parts := by
    intro a s hfind
    exact List.mem_reverse.mp (List.mem_of_find?_eq_some hfind)
  simp only [Part.select?, Option.orElse_eq_or, Option.or_eq_some_iff] at h
  rcases h with h | ⟨-, h | ⟨-, h | ⟨-, h⟩⟩⟩
  · exact hnewest _ _ h
  · exact hnewest _ _ h
  · exact hnewest _ _ h
  · exact hnewest _ _ h

/-- The part that a call reaches is one of those that are there. -/
theorem AllParts.of_part (hall : env.AllParts P) {name : String} {arity : Nat} {scope : Scope}
    {l : Location} {q : Part} (h : env.part name arity scope l = .ok q) : P q := by
  rw [Environment.part] at h
  split at h
  · rename_i found hfound
    obtain rfl := Except.ok.inj h
    obtain ⟨f, hf, hselect⟩ := List.exists_of_findSome?_eq_some hfound
    obtain ⟨parts, hparts, hselect⟩ := Option.bind_eq_some_iff.mp hselect
    refine hall f (mem_frames_of_mem_visible hf) _ (List.mem_flatMap.mpr ?_)
    exact ⟨(name, parts), Table.mem_of_get? hparts, mem_of_select? hselect⟩
  · split at h <;> cases h

end Environment

end Scriptlet
