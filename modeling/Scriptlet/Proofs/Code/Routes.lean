import Mathlib.Tactic.SplitIfs
import Scriptlet.Proofs.Code.Pieces

/-!
# Labels and branches of pieces

A piece of code marks each of the labels that it was given out once, and its branches go forward, to
labels that it marks itself. Pieces of that kind can be put together, and one of them can be
skipped, because no function begins in them: a branch that goes past a piece stays in its segment.

Nothing here depends on types.
-/

namespace Scriptlet

/-! ## Segments -/

/-- The number of the function whose body the instruction begins. -/
def Instruction.function? : Instruction → Option Nat
  | .function k => some k
  | _ => none

/-- The instruction is no mark and no branch. -/
def Instruction.isPlain : Instruction → Bool
  | .label _ | .branch .. | .function _ => false
  | _ => true

theorem Instruction.of_isPlain {i : Instruction} (h : i.isPlain) :
    i.label? = none ∧ i.target? = none ∧ i.function? = none := by
  cases i <;> first | exact ⟨rfl, rfl, rfl⟩ | cases h

/-- The code up to the next function. -/
def firstSegment (code : List Instruction) : List Instruction :=
  code.takeWhile fun i ↦ i.function?.isNone

/-- From `p` to `q` no other segment begins. -/
def SameSegment (code : List Instruction) (p q : Nat) : Prop :=
  ∀ j, p < j → j ≤ q → ∀ k, code[j]? ≠ some (.function k)

/-- A label is in the first segment if no function begins before it. -/
theorem mem_labelsOf_firstSegment {a : List Instruction} (ha : ∀ i ∈ a, i.function? = none)
    (l : Nat) (b : List Instruction) : l ∈ labelsOf (firstSegment (a ++ .label l :: b)) := by
  have hall : ∀ i ∈ a, i.function?.isNone = true := fun i hi ↦ by rw [ha i hi, Option.isNone_none]
  have hlabel : (Instruction.label l).function?.isNone = true := rfl
  rw [firstSegment, List.takeWhile_append_of_pos hall, List.takeWhile_cons, if_pos hlabel,
    labelsOf_append]
  exact List.mem_append_right _ List.mem_cons_self

theorem firstSegment_extends (a b : List Instruction) :
    firstSegment a <+: firstSegment (a ++ b) := by
  induction a with
  | nil => exact List.nil_prefix
  | cons i a ih =>
    rw [List.cons_append, firstSegment, firstSegment, List.takeWhile_cons, List.takeWhile_cons]
    split
    · exact List.cons_prefix_cons.mpr ⟨rfl, ih⟩
    · exact List.prefix_refl _

/-- What stands in the first segment stands in the code, and no function begins before it. -/
theorem exists_of_mem_firstSegment {code : List Instruction} {i : Instruction}
    (h : i ∈ firstSegment code) :
    ∃ q : Nat, code[q]? = some i ∧ ∀ j, j ≤ q → ∀ k, code[j]? ≠ some (.function k) := by
  induction code with
  | nil => exact absurd h List.not_mem_nil
  | cons head code ih =>
    rw [firstSegment, List.takeWhile_cons] at h
    split at h
    · rename_i hhead
      have hfirst : ∀ k, (head :: code)[0]? ≠ some (Instruction.function k) := by
        rintro k hk
        rw [List.getElem?_cons_zero, Option.some.injEq] at hk
        rw [hk] at hhead
        cases hhead
      rcases List.mem_cons.mp h with rfl | h
      · refine ⟨0, rfl, fun j hj ↦ ?_⟩
        rw [Nat.le_zero.mp hj]
        exact hfirst
      · obtain ⟨q, hq, hbefore⟩ := ih h
        refine ⟨q + 1, hq, fun j hj ↦ ?_⟩
        rcases j with _ | j
        · exact hfirst
        · exact hbefore j (Nat.le_of_succ_le_succ hj)
    · exact absurd h List.not_mem_nil

/-! ## Forward code -/

/-- Every branch goes to a label that is marked further on in the same segment. -/
inductive Forward : List Instruction → Prop where
  | nil : Forward []
  | cons {i : Instruction} {code : List Instruction}
      (hjump : ∀ t ∈ i.target?, t ∈ labelsOf (firstSegment code)) (rest : Forward code) :
      Forward (i :: code)

namespace Forward

/-- An instruction that is no branch. -/
theorem step {i : Instruction} {code : List Instruction} (hi : i.target? = none)
    (h : Forward code) : Forward (i :: code) :=
  .cons (fun t ht ↦ by rw [hi] at ht; cases ht) h

theorem append {a b : List Instruction} (ha : Forward a) (hb : Forward b) : Forward (a ++ b) := by
  induction ha with
  | nil => exact hb
  | @cons i a hjump _ ih =>
    refine .cons (fun t ht ↦ ?_) ih
    -- the segment that the branch stands in can only grow by what is put behind it
    have hsub := ((firstSegment_extends a b).sublist.filterMap Instruction.label?).subset
    exact hsub (hjump t ht)

/-- Seen from its place, a branch goes to a later place of its segment. -/
theorem at_place {code : List Instruction} (h : Forward code) {p t : Nat} {i : Instruction}
    (hp : code[p]? = some i) (ht : i.target? = some t) :
    ∃ q, p < q ∧ code[q]? = some (.label t) ∧ SameSegment code p q := by
  induction h generalizing p with
  | nil => simp at hp
  | @cons head code hjump _ ih =>
    rcases p with _ | p
    · -- the branch itself: its label is somewhere in the first segment of the rest
      obtain rfl := Option.some.inj hp
      obtain ⟨mark, hmark, hlabel⟩ := List.mem_filterMap.mp (hjump t ht)
      obtain rfl : mark = .label t := by
        cases mark <;> simp_all [Instruction.label?]
      obtain ⟨q, hq, hbefore⟩ := exists_of_mem_firstSegment hmark
      refine ⟨q + 1, Nat.succ_pos q, hq, fun j hj hle ↦ ?_⟩
      rcases j with _ | j
      · exact absurd hj (Nat.lt_irrefl 0)
      · exact hbefore j (Nat.le_of_succ_le_succ hle)
    · obtain ⟨q, hpq, hq, hsame⟩ := ih hp
      refine ⟨q + 1, Nat.succ_lt_succ hpq, hq, fun j hj hle ↦ ?_⟩
      rcases j with _ | j
      · exact absurd hj (Nat.not_lt_zero _)
      · exact hsame j (Nat.lt_of_succ_lt_succ hj) (Nat.le_of_succ_le_succ hle)

end Forward

/-! ## Pieces -/

/-- Each label from `n` on and before `m` is marked once, and no other is. -/
structure Marks (n m : Nat) (code : List Instruction) : Prop where
  le : n ≤ m
  count : ∀ l, (labelsOf code).count l = if n ≤ l ∧ l < m then 1 else 0

theorem Marks.append {n k m : Nat} {a b : List Instruction} (ha : Marks n k a)
    (hb : Marks k m b) : Marks n m (a ++ b) := by
  have hnk := ha.le
  have hkm := hb.le
  refine ⟨Nat.le_trans hnk hkm, fun l ↦ ?_⟩
  rw [labelsOf_append, List.count_append, ha.count, hb.count]
  split_ifs <;> omega

/-- Code that marks nothing, given out nothing. -/
theorem Marks.of_none {n : Nat} {code : List Instruction} (h : labelsOf code = []) :
    Marks n n code := by
  refine ⟨Nat.le_refl n, fun l ↦ ?_⟩
  rw [h, List.count_nil, if_neg (by omega)]

/-- The code marks exactly the labels that it was given out, and all of its branches stay in it. -/
structure Routed (n m : Nat) (code : List Instruction) : Prop where
  marks : Marks n m code
  inner : ∀ i ∈ code, i.function? = none
  forward : Forward code

/-- Whatever label comes first, the code of the piece is routed. -/
def Emit.Routes (piece : Emit) : Prop := ∀ n code m, piece.Gives n code m → Routed n m code

namespace Emit.Routes

variable {a b x : Emit}

theorem nothing : Routes .nothing := by
  intro n code m h
  obtain ⟨rfl, rfl⟩ := gives_nothing.mp h
  exact ⟨.of_none rfl, nofun, .nil⟩

theorem put {i : Instruction} (hi : i.isPlain) : Routes (.put i) := by
  intro n code m h
  obtain ⟨rfl, rfl⟩ := gives_put.mp h
  obtain ⟨hlabel, htarget, hfunction⟩ := Instruction.of_isPlain hi
  refine ⟨.of_none ?_, List.forall_mem_singleton.mpr hfunction, .step htarget .nil⟩
  rw [labelsOf_cons, hlabel, labelsOf_nil, Option.toList_none, List.append_nil]

theorem append (ha : Routes a) (hb : Routes b) : Routes (a ++ b) := by
  intro n code m h
  obtain ⟨c₁, k, c₂, h₁, h₂, rfl⟩ := gives_append.mp h
  have ra := ha _ _ _ h₁
  have rb := hb _ _ _ h₂
  exact ⟨ra.marks.append rb.marks, List.forall_mem_append.mpr ⟨ra.inner, rb.inner⟩,
    ra.forward.append rb.forward⟩

theorem ite {p : Prop} [Decidable p] (ha : Routes a) (hb : Routes b) :
    Routes (if p then a else b) := by
  split
  · exact ha
  · exact hb

/-! ### Skipped code -/

/-- Code that a branch skips, with the label behind it. -/
theorem skip {c : BranchCondition} (ha : Routes a) (hb : Routes b) :
    Routes (.fresh fun stop ↦ a ++ .put .dup ++ .put (.branch c stop) ++ .put .pop ++ b
      ++ .put (.label stop)) := by
  intro n code m h
  obtain ⟨ca, k, cb, hca, hcb, rfl⟩ := of_gives_skip h
  have ra := ha _ _ _ hca
  have rb := hb _ _ _ hcb
  -- the label is marked at the end, and no function begins in the code that is skipped
  have hmark : n ∈ labelsOf (firstSegment (Instruction.pop :: (cb ++ [.label n]))) :=
    mem_labelsOf_firstSegment (a := .pop :: cb) (List.forall_mem_cons.mpr ⟨rfl, rb.inner⟩) n []
  have hforward : Forward (ca ++ (.dup :: .branch c n :: .pop :: (cb ++ [.label n]))) :=
    ra.forward.append (.step rfl (.cons (fun t ht ↦ Option.mem_some.mp ht ▸ hmark)
      (.step rfl (rb.forward.append (.step rfl .nil)))))
  have hlea := ra.marks.le
  have hleb := rb.marks.le
  refine ⟨⟨by omega, fun l ↦ ?_⟩, ?_, by simpa using hforward⟩
  · have hcounta := ra.marks.count l
    have hcountb := rb.marks.count l
    simp only [labelsOf_append, labelsOf_cons, Instruction.label?, List.count_append,
      Option.toList_some, Option.toList_none, labelsOf_nil, List.append_nil,
      List.count_singleton, hcounta, hcountb, beq_iff_eq]
    split_ifs <;> omega
  · simp only [List.forall_mem_append, List.forall_mem_singleton]
    exact ⟨⟨⟨⟨⟨ra.inner, rfl⟩, rfl⟩, rfl⟩, rb.inner⟩, rfl⟩

/-- Two pieces of code of which a branch chooses one. -/
theorem either (hx : Routes x) (ha : Routes a) (hb : Routes b) :
    Routes (.fresh fun other ↦ .fresh fun stop ↦ x ++ .put (.branch .ifFalse other) ++ a
      ++ .put (.branch .always stop) ++ .put (.label other) ++ b ++ .put (.label stop)) := by
  intro n code m h
  obtain ⟨cx, kx, ca, ka, cb, hcx, hca, hcb, rfl⟩ := of_gives_either h
  have rx := hx _ _ _ hcx
  have ra := ha _ _ _ hca
  have rb := hb _ _ _ hcb
  have hstop : n + 1 ∈ labelsOf (firstSegment (Instruction.label n ::
      (cb ++ [.label (n + 1)]))) :=
    mem_labelsOf_firstSegment (a := .label n :: cb) (List.forall_mem_cons.mpr ⟨rfl, rb.inner⟩) _ []
  have hother : n ∈ labelsOf (firstSegment (ca ++ (Instruction.branch .always (n + 1) ::
      .label n :: (cb ++ [.label (n + 1)])))) := by
    have hbefore : ∀ i ∈ ca ++ [Instruction.branch .always (n + 1)], i.function? = none :=
      List.forall_mem_append.mpr ⟨ra.inner, List.forall_mem_singleton.mpr rfl⟩
    simpa using mem_labelsOf_firstSegment hbefore n (cb ++ [.label (n + 1)])
  have hforward : Forward (cx ++ (.branch .ifFalse n :: (ca ++ (.branch .always (n + 1) ::
      .label n :: (cb ++ [.label (n + 1)]))))) :=
    rx.forward.append (.cons (fun t ht ↦ Option.mem_some.mp ht ▸ hother)
      (ra.forward.append (.cons (fun t ht ↦ Option.mem_some.mp ht ▸ hstop)
        (.step rfl (rb.forward.append (.step rfl .nil))))))
  have hlex := rx.marks.le
  have hlea := ra.marks.le
  have hleb := rb.marks.le
  refine ⟨⟨by omega, fun l ↦ ?_⟩, ?_, by simpa using hforward⟩
  · have hcountx := rx.marks.count l
    have hcounta := ra.marks.count l
    have hcountb := rb.marks.count l
    simp only [labelsOf_append, labelsOf_cons, Instruction.label?, List.count_append,
      Option.toList_some, Option.toList_none, labelsOf_nil, List.append_nil,
      List.count_singleton, hcountx, hcounta, hcountb, beq_iff_eq]
    split_ifs <;> omega
  · simp only [List.forall_mem_append, List.forall_mem_singleton]
    exact ⟨⟨⟨⟨⟨⟨rx.inner, rfl⟩, ra.inner⟩, rfl⟩, rfl⟩, rb.inner⟩, rfl⟩

end Emit.Routes

/-! ## Steps of control -/

/-- Control may go from the one place to the other: to the next instruction, or along a branch to
its label. -/
inductive Follows (code : List Instruction) : Nat → Nat → Prop where
  | next {i instruction} (hi : code[i]? = some instruction) (hnext : instruction.fallsThrough) :
      Follows code i (i + 1)
  | jump {i j instruction t} (hi : code[i]? = some instruction) (ht : instruction.target? = some t)
      (hj : code[j]? = some (.label t)) : Follows code i j

/-- In code whose branches go forward and whose labels are marked once, every step goes forward. -/
theorem Forward.lt_of_follows {code : List Instruction} (h : Forward code)
    (hnodup : (labelsOf code).Nodup) {i j : Nat} (hij : Follows code i j) : i < j := by
  cases hij with
  | next _ _ => exact Nat.lt_succ_self i
  | jump hi ht hj =>
    obtain ⟨q, hiq, hq, -⟩ := h.at_place hi ht
    obtain rfl := eq_of_label hnodup hq hj
    exact hiq

end Scriptlet
