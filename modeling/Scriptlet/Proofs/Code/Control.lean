import Scriptlet.Proofs.Code.Routes

/-!
# Where control comes

Because branches only go forward, one pass over code finds all places that control can come to. The
pass carries along whether control comes over from the instruction before and which labels the
branches further back, as far as control comes to them, go to. What it finds is exactly what the
paths through the code reach.

A piece of code is judged by the same pass: whatever control was like in front of it, control comes
to the end of the piece if it was there at the start and the piece lets it through. The labels of
the piece are its own, so that nothing in it is reached from elsewhere.
-/

namespace Scriptlet

/-- Control comes from the start of the code to the place. -/
def Reaches (code : List Instruction) (p : Nat) : Prop := Relation.ReflTransGen (Follows code) 0 p

/-! ## The pass -/

/-- What is known of control between two instructions: whether it comes over from the one before,
and the labels that branches further back go to. -/
structure Control where
  live : Bool
  pending : List Nat

namespace Control

/-- In front of the first instruction. -/
def start : Control := ⟨true, []⟩

/-- Control comes to the next instruction. -/
def enters (s : Control) (i : Instruction) : Bool :=
  s.live || i.label?.any fun l ↦ decide (l ∈ s.pending)

/-- Behind one more instruction. -/
def step (s : Control) (i : Instruction) : Control :=
  ⟨s.enters i && i.fallsThrough, if s.enters i then i.target?.toList ++ s.pending else s.pending⟩

/-- Behind all of the code. -/
def after (s : Control) (code : List Instruction) : Control := code.foldl step s

variable {s : Control} {i : Instruction} {l : Nat} {code : List Instruction}

@[simp] theorem after_nil : s.after [] = s := rfl

@[simp] theorem after_cons : s.after (i :: code) = (s.step i).after code := rfl

@[simp] theorem after_append (a b : List Instruction) : s.after (a ++ b) = (s.after a).after b :=
  List.foldl_append

/-- An instruction that is no mark and no branch. -/
theorem step_of_plain (hi : i.isPlain) : s.step i = ⟨s.live && i.fallsThrough, s.pending⟩ := by
  obtain ⟨hlabel, htarget, -⟩ := Instruction.of_isPlain hi
  simp [step, enters, hlabel, htarget]

@[simp] theorem step_dup : s.step .dup = s := by
  simp [step_of_plain (i := .dup) rfl, Instruction.fallsThrough]

@[simp] theorem step_pop : s.step .pop = s := by
  simp [step_of_plain (i := .pop) rfl, Instruction.fallsThrough]

@[simp] theorem live_label : (s.step (.label l)).live = (s.live || decide (l ∈ s.pending)) := by
  simp [step, enters, Instruction.label?, Instruction.fallsThrough]

@[simp] theorem pending_label : (s.step (.label l)).pending = s.pending := by
  simp [step, Instruction.target?]

@[simp] theorem live_branch {condition : BranchCondition} :
    (s.step (.branch condition l)).live = (s.live && decide (condition ≠ .always)) := by
  cases condition <;> simp [step, enters, Instruction.label?, Instruction.fallsThrough]

@[simp] theorem mem_pending_branch {condition : BranchCondition} {l' : Nat} :
    l' ∈ (s.step (.branch condition l)).pending ↔ (s.live ∧ l' = l) ∨ l' ∈ s.pending := by
  by_cases hlive : s.live <;> simp [step, enters, Instruction.label?, Instruction.target?, hlive]

theorem pending_subset_step : s.pending ⊆ (s.step i).pending := by
  rw [step]
  split
  · exact List.subset_append_right _ _
  · exact List.Subset.refl _

/-- No label is forgotten. -/
theorem pending_subset_after : s.pending ⊆ (s.after code).pending := by
  induction code generalizing s with
  | nil => exact List.Subset.refl _
  | cons i code ih => exact List.Subset.trans pending_subset_step ih

/-- A label that is gone to behind the code was gone to before, or a branch of the code goes to
it. -/
theorem of_mem_pending_after (h : l ∈ (s.after code).pending) :
    l ∈ s.pending ∨ ∃ i ∈ code, i.target? = some l := by
  induction code generalizing s with
  | nil => exact .inl h
  | cons i code ih =>
    rcases ih h with h | ⟨j, hj, ht⟩
    · rw [step] at h
      split at h
      · rcases List.mem_append.mp h with h | h
        · exact .inr ⟨i, List.mem_cons_self, Option.mem_toList.mp h⟩
        · exact .inl h
      · exact .inl h
    · exact .inr ⟨j, List.mem_cons_of_mem _ hj, ht⟩

end Control

/-! ## What the pass finds -/

theorem reaches_iff {code : List Instruction} {p : Nat} :
    Reaches code p ↔ p = 0 ∨ ∃ q, Reaches code q ∧ Follows code q p := by
  rw [Reaches, Relation.ReflTransGen.cases_tail_iff]
  rfl

/-- The pass has found what is reached of the first `p` instructions, and what follows on that. -/
structure Traces (code : List Instruction) (p : Nat) (s : Control) : Prop where
  live : s.live ↔ p = 0 ∨ ∃ q i, q + 1 = p ∧ code[q]? = some i ∧ i.fallsThrough ∧ Reaches code q
  pending : ∀ l, l ∈ s.pending ↔
    ∃ q i, q < p ∧ code[q]? = some i ∧ i.target? = some l ∧ Reaches code q

namespace Traces

variable {code : List Instruction} {p : Nat} {s : Control} {i : Instruction}

/-- Control comes to a place over from the one before or along a branch further back. -/
theorem reaches_iff (h : Traces code p s) (hf : Forward code) (hnodup : (labelsOf code).Nodup) :
    Reaches code p ↔ s.live ∨ ∃ l ∈ s.pending, code[p]? = some (.label l) := by
  rw [Scriptlet.reaches_iff, h.live]
  constructor
  · rintro (hp | ⟨q, hq, hstep⟩)
    · exact .inl (.inl hp)
    · -- steps go forward, so the place they come from has been passed over
      have hlt := hf.lt_of_follows hnodup hstep
      cases hstep with
      | next hi hnext => exact .inl (.inr ⟨q, _, rfl, hi, hnext, hq⟩)
      | jump hi ht hj => exact .inr ⟨_, (h.pending _).mpr ⟨q, _, hlt, hi, ht, hq⟩, hj⟩
  · rintro ((hp | ⟨q, i, rfl, hi, hnext, hq⟩) | ⟨l, hl, hlabel⟩)
    · exact .inl hp
    · exact .inr ⟨q, hq, .next hi hnext⟩
    · obtain ⟨q, i, -, hi, ht, hq⟩ := (h.pending l).mp hl
      exact .inr ⟨q, hq, .jump hi ht hlabel⟩

theorem enters_iff (h : Traces code p s) (hf : Forward code) (hnodup : (labelsOf code).Nodup)
    (hi : code[p]? = some i) : s.enters i ↔ Reaches code p := by
  rw [h.reaches_iff hf hnodup, Control.enters, Bool.or_eq_true, hi]
  refine or_congr_right ?_
  cases i with
  | label l => simp [Instruction.label?]
  | _ => simp [Instruction.label?]

theorem step (h : Traces code p s) (hf : Forward code) (hnodup : (labelsOf code).Nodup)
    (hi : code[p]? = some i) : Traces code (p + 1) (s.step i) := by
  have henters := h.enters_iff hf hnodup hi
  refine ⟨?_, fun l ↦ ?_⟩
  · rw [Control.step, Bool.and_eq_true, henters]
    constructor
    · rintro ⟨hp, hfalls⟩
      exact .inr ⟨p, i, rfl, hi, hfalls, hp⟩
    · rintro (hp | ⟨q, j, hq, hj, hfalls, hreaches⟩)
      · exact absurd hp (Nat.succ_ne_zero p)
      · obtain rfl := Nat.succ.inj hq
        obtain rfl := Option.some.inj (hi.symm.trans hj)
        exact ⟨hreaches, hfalls⟩
  · have hmem : l ∈ (s.step i).pending ↔
        (Reaches code p ∧ i.target? = some l) ∨ l ∈ s.pending := by
      rw [Control.step]
      by_cases hp : s.enters i
      · simp [hp, henters.mp hp]
      · have hnot : ¬Reaches code p := fun hreaches ↦ hp (henters.mpr hreaches)
        simp [hp, hnot]
    rw [hmem, h.pending]
    constructor
    · rintro (⟨hp, ht⟩ | ⟨q, j, hlt, hj, ht, hq⟩)
      · exact ⟨p, i, Nat.lt_succ_self p, hi, ht, hp⟩
      · exact ⟨q, j, Nat.lt_succ_of_lt hlt, hj, ht, hq⟩
    · rintro ⟨q, j, hlt, hj, ht, hq⟩
      rcases Nat.lt_succ_iff_lt_or_eq.mp hlt with hlt | rfl
      · exact .inr ⟨q, j, hlt, hj, ht, hq⟩
      · obtain rfl := Option.some.inj (hi.symm.trans hj)
        exact .inl ⟨hq, ht⟩

end Traces

theorem traces_start (code : List Instruction) : Traces code 0 .start where
  live := iff_of_true rfl (.inl rfl)
  pending _ := iff_of_false List.not_mem_nil fun ⟨_, _, hlt, _⟩ ↦ absurd hlt (Nat.not_lt_zero _)

theorem traces_after {code : List Instruction} (hf : Forward code)
    (hnodup : (labelsOf code).Nodup) {p : Nat} (hp : p ≤ code.length) :
    Traces code p (Control.start.after (code.take p)) := by
  induction p with
  | zero => exact traces_start code
  | succ p ih =>
    have hlt : p < code.length := hp
    rw [List.take_succ_eq_append_getElem hlt, Control.after_append]
    exact (ih (Nat.le_of_lt hlt)).step hf hnodup (List.getElem?_eq_getElem hlt)

/-- Control comes to the end of the first part of code, if no label is marked there, exactly if the
pass finds that it comes over from the last instruction. -/
theorem reaches_end_iff {a b : List Instruction} (hf : Forward (a ++ b))
    (hnodup : (labelsOf (a ++ b)).Nodup) (hb : ∀ l, b.head? ≠ some (.label l)) :
    Reaches (a ++ b) a.length ↔ (Control.start.after a).live := by
  have htraces := traces_after hf hnodup (p := a.length) (by simp)
  rw [List.take_left] at htraces
  rw [htraces.reaches_iff hf hnodup, or_iff_left]
  rintro ⟨l, -, hl⟩
  rw [List.getElem?_append_right (Nat.le_refl _), Nat.sub_self, ← List.head?_eq_getElem?] at hl
  exact hb l hl

end Scriptlet
