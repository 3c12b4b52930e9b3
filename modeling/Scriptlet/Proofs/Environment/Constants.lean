import Scriptlet.Proofs.Environment.Operation

/-!
# Constants are written once

A frame is told from others by its height, counted from the global frame, which has height zero. A
frame that has a value other than null for a constant keeps it under every operation that does not
remove the frame.

That a further write is refused takes more: the write asks the first visible frame that has the
constant, and that frame might have null. In an environment that came about by operations no two
frames that are visible together have the same constant, so the frame that is asked is the one that
has the value.
-/

namespace Scriptlet

/-- No constant is in both frames. -/
def Frame.Apart (f g : Frame) : Prop :=
  ∀ x, f.constants.get? x = none ∨ g.constants.get? x = none

/-- The second frame is of the same kind and has no further constants. -/
structure Frame.NoNewConstants (f g : Frame) : Prop where
  kind : g.kind = f.kind
  constants : ∀ x, f.constants.get? x = none → g.constants.get? x = none

theorem Frame.NoNewConstants.refl (f : Frame) : f.NoNewConstants f := ⟨rfl, fun _ h ↦ h⟩

theorem Frame.Apart.of_noNewConstants {f f' g g' : Frame} (h : f.Apart g)
    (hf : f.NoNewConstants f') (hg : g.NoNewConstants g') : f'.Apart g' :=
  fun x ↦ (h x).imp (hf.constants x) (hg.constants x)

namespace Environment

variable {env env' : Environment}

/-! ## Frames by height -/

/-- The constant in the frame at a height. -/
def constantAt? (env : Environment) (height : Nat) (x : String) : Option Value :=
  env.frames.reverse[height]?.bind fun f ↦ f.constants.get? x

theorem constantAt?_push {height : Nat} (h : height < env.depth) (kind : FrameKind) (x : String) :
    (env.push kind).constantAt? height x = env.constantAt? height x := by
  have hframes : (env.push kind).frames = .empty kind :: env.frames := rfl
  rw [constantAt?, hframes, List.reverse_cons, List.getElem?_append_left, constantAt?]
  rwa [List.length_reverse, length_frames]

theorem constantAt?_pop {height : Nat} (h : height < env.pop.depth) (x : String) :
    env.pop.constantAt? height x = env.constantAt? height x := by
  obtain ⟨inner, global, output⟩ := env
  cases inner with
  | nil => rfl
  | cons f fs =>
    have hframes : frames ⟨f :: fs, global, output⟩ = f :: frames ⟨fs, global, output⟩ := rfl
    rw [constantAt?, constantAt?, hframes, List.reverse_cons, List.getElem?_append_left]
    · rfl
    · rwa [List.length_reverse, length_frames]

/-- A write takes no constant back that is set. -/
theorem constantAt?_of_write {P : Part → Prop} (hwrite : Write P env env') {height : Nat}
    {x : String} {v : Value} (h : env.constantAt? height x = some v) (hv : v ≠ .null) :
    env'.constantAt? height x = some v := by
  obtain ⟨f, hf, hx⟩ := Option.bind_eq_some_iff.mp h
  have hframes := List.rel_reverse hwrite.develops.frames
  obtain ⟨hheight, rfl⟩ := List.getElem?_eq_some_iff.mp hf
  have hheight' : height < env'.frames.reverse.length := hframes.length_eq ▸ hheight
  have hdevelops := hframes.get hheight hheight'
  refine Option.bind_eq_some_iff.mpr ⟨_, List.getElem?_eq_getElem hheight', ?_⟩
  exact hdevelops.constants x v hx hv

/-! ## Environments that came about by operations -/

/-- The environments that operations make out of the empty one. -/
inductive Reachable : Environment → Prop where
  | empty : Reachable .empty
  | push {env : Environment} (h : Reachable env) (kind : FrameKind) : Reachable (env.push kind)
  | pop {env : Environment} (h : Reachable env) : Reachable env.pop
  | write {env env' : Environment} (h : Reachable env) (hwrite : Write (fun _ ↦ True) env env') :
      Reachable env'
  | clearOutput {env : Environment} (h : Reachable env) : Reachable env.clearOutput

/-! ## Frames that are visible together -/

/-- No frame has a constant of a frame that is visible behind it, over this global frame. -/
def StackApart (global : Frame) : List Frame → Prop
  | [] => True
  | f :: fs => (∀ g ∈ (upToFunction (f :: fs)).tail ++ [global], f.Apart g) ∧ StackApart global fs

/-- No two frames that are visible together have a constant in common, here or after some frames
have been removed. -/
def Apart (env : Environment) : Prop := StackApart env.global env.inner

theorem upToFunction_cons (f : Frame) (fs : List Frame) :
    upToFunction (f :: fs) = f :: (upToFunction (f :: fs)).tail := by
  rw [upToFunction]
  split <;> rfl

/-- What is visible behind a frame depends on its kind only. -/
theorem tail_upToFunction {f f' : Frame} (h : f'.kind = f.kind) (fs : List Frame) :
    (upToFunction (f' :: fs)).tail = (upToFunction (f :: fs)).tail := by
  rw [upToFunction, upToFunction, h]
  split <;> rfl

theorem StackApart.pairwise {global : Frame} {fs : List Frame} (h : StackApart global fs) :
    (upToFunction fs ++ [global]).Pairwise Frame.Apart := by
  induction fs with
  | nil => exact List.pairwise_singleton _ _
  | cons f fs ih =>
    rw [upToFunction_cons, List.cons_append, List.pairwise_cons]
    refine ⟨h.1, ?_⟩
    -- behind a function only the global frame is visible
    rw [upToFunction]
    by_cases hkind : f.kind = .function
    · rw [if_pos hkind]
      exact List.pairwise_singleton _ _
    · rw [if_neg hkind]
      exact ih h.2

/-- Every visible frame that has a constant says what its value is. -/
theorem Apart.constant?_eq (h : env.Apart) {f : Frame} (hf : f ∈ env.visible) {x : String}
    {v : Value} (hx : f.constants.get? x = some v) : env.constant? x = some v := by
  have hpairwise : env.visible.Pairwise Frame.Apart := h.pairwise
  rw [constant?]
  generalize env.visible = fs at hf hpairwise
  induction fs with
  | nil => cases hf
  | cons g gs ih =>
    obtain ⟨hg, hgs⟩ := List.pairwise_cons.mp hpairwise
    rw [List.findSome?_cons]
    rcases List.mem_cons.mp hf with rfl | hf
    · rw [hx]
    · have hnone : g.constants.get? x = none := by
        rcases hg f hf x with hnone | hnone
        · exact hnone
        · rw [hx] at hnone
          cases hnone
      rw [hnone]
      exact ih hf hgs

/-! ## Operations keep frames apart -/

theorem Apart.of_pointwise (h : env.Apart) (hpoint : Pointwise Frame.NoNewConstants env env') :
    env'.Apart := by
  obtain ⟨hinner, hglobal⟩ := hpoint
  rw [Apart] at h ⊢
  generalize env.inner = fs at h hinner
  generalize env'.inner = fs' at hinner
  induction hinner with
  | nil => trivial
  | @cons f f' fs fs' hf hfs ih =>
    refine ⟨fun g' hg' ↦ ?_, ih h.2⟩
    have hvisible := forall₂_upToFunction (fun _ _ h ↦ Frame.NoNewConstants.kind h)
      (.cons hf hfs)
    rw [upToFunction_cons f, upToFunction_cons f'] at hvisible
    have hbehind := List.rel_append (List.forall₂_cons.mp hvisible).2 (.cons hglobal .nil)
    obtain ⟨g, hg, hgg⟩ := exists_of_mem_of_forall₂ hbehind hg'
    exact (h.1 g hg).of_noNewConstants hf hgg

theorem Apart.push (h : env.Apart) (kind : FrameKind) : (env.push kind).Apart :=
  ⟨fun _ _ _ ↦ .inl rfl, h⟩

theorem Apart.pop (h : env.Apart) : env.pop.Apart := by
  obtain ⟨inner, global, output⟩ := env
  cases inner with
  | nil => trivial
  | cons f fs => exact h.2

/-- A constant that no visible frame has can be put into the innermost one. -/
theorem Apart.putConstant (h : env.Apart) {x : String} {v : Value} (hx : env.constant? x = none) :
    (env.changeInnermost (putConstant x v)).Apart := by
  have hvisible := constant?_eq_none_iff.mp hx
  obtain ⟨inner, global, output⟩ := env
  cases inner with
  | nil => trivial
  | cons f fs =>
    rw [visible, upToFunction_cons] at hvisible
    refine ⟨fun g hg y ↦ ?_, h.2⟩
    have hbehind : g ∈ (upToFunction (f :: fs)).tail ++ [global] := by
      rwa [tail_upToFunction (show (Environment.putConstant x v f).kind = f.kind from rfl)] at hg
    -- of the new constant it is the frames behind that have none
    by_cases hy : y = x
    · subst hy
      exact .inr (hvisible g (List.mem_cons_of_mem _ hbehind))
    · rw [Environment.putConstant, Table.get?_put, if_neg hy]
      exact h.1 g hbehind y

theorem Apart.of_write {P : Part → Prop} (h : env.Apart) (hwrite : Write P env env') :
    env'.Apart := by
  cases hwrite with
  | define x v =>
    exact h.of_pointwise (pointwise_changeInnermost .refl (fun f ↦ ⟨rfl, fun _ h ↦ h⟩) env)
  | assign x v =>
    rw [assign]
    cases hc : env.changeVisible? (fun f ↦ f.vars.has x) (setVariable x v) with
    | some env₁ =>
      exact h.of_pointwise (pointwise_changeVisible? .refl hc fun f _ ↦ ⟨rfl, fun _ h ↦ h⟩)
    | none =>
      exact h.of_pointwise (pointwise_changeInnermost .refl (fun f ↦ ⟨rfl, fun _ h ↦ h⟩) env)
  | @setConstant _ x v l hset =>
    rcases of_setConstant hset with ⟨hnone, rfl⟩ | ⟨-, hc⟩
    · exact h.putConstant hnone
    · refine h.of_pointwise (pointwise_changeVisible? .refl hc fun f hf ↦ ⟨rfl, fun y hy ↦ ?_⟩)
      -- the frame that is changed has the constant already
      have hhas : f.constants.has x :=
        List.find?_some (p := fun f : Frame ↦ f.constants.has x) hf
      have hyx : y ≠ x := by
        rintro rfl
        rw [Table.has, hy] at hhas
        cases hhas
      rwa [Environment.putConstant, Table.get?_put, if_neg hyx]
  | defineFunction name hpart =>
    exact h.of_pointwise (pointwise_changeInnermost .refl (fun f ↦ ⟨rfl, fun _ h ↦ h⟩) env)
  | print line => exact h

theorem Reachable.apart (h : env.Reachable) : env.Apart := by
  induction h with
  | empty => trivial
  | push _ kind ih => exact ih.push kind
  | pop _ ih => exact ih.pop
  | write _ hwrite ih => exact ih.of_write hwrite
  | clearOutput _ ih => exact ih

/-- Where a visible frame has a value other than null for a constant, every write is refused. -/
theorem Reachable.setConstant_eq_error (h : env.Reachable) {f : Frame} (hf : f ∈ env.visible)
    {x : String} {v : Value} (hx : f.constants.get? x = some v) (hv : v ≠ .null) (w : Value)
    (l : Location) : env.setConstant x w l = .error (.constantReassignment x l) :=
  setConstant_of_constant? (h.apart.constant?_eq hf hx) hv

end Environment

end Scriptlet
