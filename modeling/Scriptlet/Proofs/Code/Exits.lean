import Scriptlet.Proofs.Code.Control
import Scriptlet.Proofs.Code.Forms

/-!
# How code is left

Control leaves the code of a tree at its end, or earlier with a return or a throw. Whether it can
come to the end and which statements it may return with are read off the tree: what follows a
return or a throw is not passed, what an operator may skip does not count for its end, and of two
branches one is enough.

Each return instruction stands at the end of the code of its statement, and that code is only
entered at its start: the labels in it are its own.
-/

namespace Scriptlet

/-- How control leaves a piece of code: whether it can come to the end, and the statements that
return in the piece. -/
structure Exits where
  passes : Bool
  returned : List Statement

namespace Exits

/-- Control comes to the end, and nowhere else. -/
def through : Exits := ⟨true, []⟩

/-- Control does not come to the end. -/
def ends (returned : List Statement) : Exits := ⟨false, returned⟩

/-- One piece after another. -/
def next (a b : Exits) : Exits := ⟨a.passes && b.passes, a.returned ++ b.returned⟩

instance : Append Exits := ⟨next⟩

/-- A piece, and another that may be skipped. -/
def skips (a b : Exits) : Exits := ⟨a.passes, a.returned ++ b.returned⟩

/-- One of two pieces. -/
def either (a b : Exits) : Exits := ⟨a.passes || b.passes, a.returned ++ b.returned⟩

variable {a b : Exits}

@[simp] theorem append_through : a ++ through = a := by
  change next a through = a
  rw [next, through, Bool.and_true, List.append_nil]

@[simp] theorem passes_append : (a ++ b).passes = (a.passes && b.passes) := rfl

@[simp] theorem passes_either : (a.either b).passes = (a.passes || b.passes) := rfl

@[simp] theorem returned_append : (a ++ b).returned = a.returned ++ b.returned := rfl

@[simp] theorem returned_either : (a.either b).returned = a.returned ++ b.returned := rfl

end Exits

/-! ## Returns in code -/

/-- No branch of the first code goes into the second. -/
def Avoids (a b : List Instruction) : Prop := ∀ i ∈ a, ∀ l ∈ i.target?, l ∉ labelsOf b

namespace Avoids

variable {a b c : List Instruction} {i : Instruction}

theorem append (ha : Avoids a c) (hb : Avoids b c) : Avoids (a ++ b) c :=
  List.forall_mem_append.mpr ⟨ha, hb⟩

theorem plain (hi : i.target? = none) : Avoids [i] b :=
  List.forall_mem_singleton.mpr (by rw [hi]; exact nofun)

theorem branch {condition : BranchCondition} {l : Nat} (hl : l ∉ labelsOf b) :
    Avoids [.branch condition l] b :=
  List.forall_mem_singleton.mpr (by rintro _ ⟨⟩; exact hl)

/-- Control does not come into code from code that avoids it, but to its start. -/
theorem le_of_follows (h : Avoids a b) {j k : Nat} (hij : Follows (a ++ b ++ c) j k)
    (hlt : a.length < k) (hk : k < a.length + b.length) : a.length ≤ j := by
  by_contra hj
  cases hij with
  | next _ _ => omega
  | jump hi ht hlabel =>
    rw [List.append_assoc, List.getElem?_append_left (Nat.lt_of_not_le hj)] at hi
    rw [List.append_assoc, List.getElem?_append_right (Nat.le_of_lt hlt),
      List.getElem?_append_left (by omega)] at hlabel
    exact h _ (List.mem_of_getElem? hi) _ ht
      (List.mem_filterMap.mpr ⟨_, List.mem_of_getElem? hlabel, rfl⟩)

end Avoids

/-- The code of the statement stands in the code up to the place, the place included, and no branch
in front of it goes into it. -/
def EndsAt (r : Registry) (code : List Instruction) (p : Nat) (st : Statement) : Prop :=
  ∃ before own behind n m, (Code.statement r st).Gives n own m ∧ code = before ++ own ++ behind ∧
    before.length + own.length = p + 1 ∧ Avoids before own

/-- Every return instruction ends the code of one of the statements. -/
def ReturnsWith (r : Registry) (sts : List Statement) (code : List Instruction) : Prop :=
  ∀ p, code[p]? = some .ret → ∃ st ∈ sts, EndsAt r code p st

section Returns

variable {r : Registry} {a b : List Instruction} {sts sts' : List Statement} {p : Nat}
  {st : Statement}

theorem EndsAt.before (h : EndsAt r a p st) (b : List Instruction) : EndsAt r (a ++ b) p st := by
  obtain ⟨before, own, behind, n, m, hown, rfl, hp, hlabels⟩ := h
  exact ⟨before, own, behind ++ b, n, m, hown, List.append_assoc .., hp, hlabels⟩

theorem EndsAt.behind (h : EndsAt r b p st) (havoids : Avoids a b) :
    EndsAt r (a ++ b) (a.length + p) st := by
  obtain ⟨before, own, behind, n, m, hown, rfl, hp, hlabels⟩ := h
  refine ⟨a ++ before, own, behind, n, m, hown, by simp only [List.append_assoc], ?_, ?_⟩
  · rw [List.length_append]
    omega
  · refine List.forall_mem_append.mpr ⟨fun i hi l hl hmem ↦ havoids i hi l hl ?_, hlabels⟩
    rw [labelsOf_append, labelsOf_append]
    exact List.mem_append_left _ (List.mem_append_right _ hmem)

namespace ReturnsWith

theorem of_none (h : .ret ∉ a) : ReturnsWith r sts a :=
  fun _ hp ↦ absurd (List.mem_of_getElem? hp) h

theorem append (ha : ReturnsWith r sts a) (hb : ReturnsWith r sts' b)
    (havoids : Avoids a b) : ReturnsWith r (sts ++ sts') (a ++ b) := by
  intro p hp
  rcases Nat.lt_or_ge p a.length with hlt | hge
  · rw [List.getElem?_append_left hlt] at hp
    obtain ⟨st, hst, hends⟩ := ha p hp
    exact ⟨st, List.mem_append_left _ hst, hends.before b⟩
  · rw [List.getElem?_append_right hge] at hp
    obtain ⟨st, hst, hends⟩ := hb _ hp
    have hends := hends.behind havoids
    rw [Nat.add_sub_cancel' hge] at hends
    exact ⟨st, List.mem_append_right _ hst, hends⟩

/-- Code behind that has no return. -/
theorem before (ha : ReturnsWith r sts a) (hb : .ret ∉ b) : ReturnsWith r sts (a ++ b) := by
  intro p hp
  rcases Nat.lt_or_ge p a.length with hlt | hge
  · rw [List.getElem?_append_left hlt] at hp
    obtain ⟨st, hst, hends⟩ := ha p hp
    exact ⟨st, hst, hends.before b⟩
  · rw [List.getElem?_append_right hge] at hp
    exact absurd (List.mem_of_getElem? hp) hb

end ReturnsWith

end Returns

/-! ## Pieces -/

namespace Routed

variable {n m l : Nat} {code : List Instruction} {s : Control} {i : Instruction}

theorem mem_labelsOf_iff (h : Routed n m code) : l ∈ labelsOf code ↔ n ≤ l ∧ l < m := by
  rw [← List.count_pos_iff, h.marks.count]
  split_ifs with hl
  · exact iff_of_true Nat.one_pos hl
  · exact iff_of_false (Nat.lt_irrefl 0) hl

/-- The branches of the code go to its own labels. -/
theorem target_between (h : Routed n m code) (hi : i ∈ code) (hl : l ∈ i.target?) :
    n ≤ l ∧ l < m := by
  obtain ⟨p, hp⟩ := List.mem_iff_getElem?.mp hi
  obtain ⟨q, -, hq, -⟩ := h.forward.at_place hp hl
  exact h.mem_labelsOf_iff.mp (List.mem_filterMap.mpr ⟨_, List.mem_of_getElem? hq, rfl⟩)

/-- No branch of code goes into code that was given other labels. -/
theorem avoids {k k' : Nat} {a b : List Instruction} (ha : Routed n k a) (hb : Routed k' m b)
    (hk : k ≤ k') : Avoids a b := by
  intro i hi l hl hmem
  have htarget := ha.target_between hi hl
  have hlabel := hb.mem_labelsOf_iff.mp hmem
  omega

/-- Nothing changes for the labels of other code. -/
theorem mem_pending_iff (h : Routed n m code) (hl : l < n ∨ m ≤ l) :
    l ∈ (s.after code).pending ↔ l ∈ s.pending := by
  refine ⟨fun hmem ↦ ?_, fun hmem ↦ Control.pending_subset_after hmem⟩
  rcases Control.of_mem_pending_after hmem with hmem | ⟨i, hi, ht⟩
  · exact hmem
  · have := h.target_between hi ht
    omega

end Routed

/-- Control leaves the code as `x` says, whatever it was like in front of it, as long as none of the
labels of the code was gone to. -/
structure Left (r : Registry) (x : Exits) (n m : Nat) (code : List Instruction) : Prop where
  routed : Routed n m code
  live : ∀ s : Control, (∀ l, n ≤ l → l ∉ s.pending) →
    (s.after code).live = (s.live && x.passes)
  returns : ReturnsWith r x.returned code

/-- Whatever label comes first, control leaves the code of the piece as `x` says. -/
def Emit.Leaves (r : Registry) (x : Exits) (piece : Emit) : Prop :=
  ∀ n code m, piece.Gives n code m → Left r x n m code

namespace Emit.Leaves

variable {r : Registry} {x y z : Exits} {a b c : Emit}

theorem routes (h : Leaves r x a) : Routes a := fun n code m hgives ↦ (h n code m hgives).routed

theorem nothing : Leaves r .through .nothing := by
  intro n code m h
  obtain ⟨rfl, rfl⟩ := gives_nothing.mp h
  exact ⟨Routes.nothing _ _ _ h, fun s _ ↦ (Bool.and_true s.live).symm, .of_none List.not_mem_nil⟩

theorem fail {e : EmitError} : Leaves r x (.fail e) := fun _ _ _ h ↦ absurd h not_gives_fail

/-- An instruction that control goes on behind. -/
theorem put {i : Instruction} (hi : i.isPlain) (hnext : i.fallsThrough) :
    Leaves r .through (.put i) := by
  intro n code m h
  refine ⟨Routes.put hi _ _ _ h, ?_, ?_⟩ <;> obtain ⟨rfl, rfl⟩ := gives_put.mp h
  · intro s _
    rw [Control.after_cons, Control.after_nil, Control.step_of_plain hi, hnext]
    rfl
  · refine .of_none fun hmem ↦ ?_
    obtain rfl := List.mem_singleton.mp hmem
    cases hnext

theorem throw : Leaves r (.ends []) (.put .throw) := by
  intro n code m h
  refine ⟨Routes.put rfl _ _ _ h, ?_, ?_⟩ <;> obtain ⟨rfl, rfl⟩ := gives_put.mp h
  · intro s _
    rw [Control.after_cons, Control.after_nil, Control.step_of_plain rfl]
    rfl
  · exact .of_none (by simp)

theorem require {α : Type} {o : Option α} {l : Location} {piece : α → Emit}
    (h : ∀ a, o = some a → Leaves r x (piece a)) : Leaves r x (.require o l piece) := by
  cases o with
  | none => exact fail
  | some a => exact h a rfl

theorem append (ha : Leaves r x a) (hb : Leaves r y b) : Leaves r (x ++ y) (a ++ b) := by
  intro n code m h
  have hrouted := ha.routes.append hb.routes _ _ _ h
  obtain ⟨ca, k, cb, hca, hcb, rfl⟩ := gives_append.mp h
  have la := ha _ _ _ hca
  have lb := hb _ _ _ hcb
  have hle := la.routed.marks.le
  refine ⟨hrouted, fun s hs ↦ ?_, la.returns.append lb.returns
    (la.routed.avoids lb.routed (Nat.le_refl k))⟩
  -- the first piece goes to none of the labels that the second is given
  have hrest : ∀ l, k ≤ l → l ∉ (s.after ca).pending := fun l hl ↦
    (la.routed.mem_pending_iff (.inr hl)).not.mpr (hs l (Nat.le_trans hle hl))
  rw [Control.after_append, lb.live _ hrest, la.live s hs, Bool.and_assoc]
  rfl

/-- Code behind that is only passed. -/
theorem before (ha : Leaves r x a) (hb : Leaves r .through b) : Leaves r x (a ++ b) := by
  simpa only [Exits.append_through] using ha.append hb

/-- Code in front that is only passed. -/
theorem behind (ha : Leaves r .through a) (hb : Leaves r x b) : Leaves r x (a ++ b) := ha.append hb

theorem ite {p : Prop} [Decidable p] (ha : Leaves r x a) (hb : Leaves r x b) :
    Leaves r x (if p then a else b) := by
  split
  · exact ha
  · exact hb

/-! ### Skipped code -/

theorem skip {c : BranchCondition} (ha : Leaves r x a) (hb : Leaves r y b) :
    Leaves r (x.skips y) (.fresh fun stop ↦ a ++ .put .dup ++ .put (.branch c stop) ++ .put .pop
      ++ b ++ .put (.label stop)) := by
  intro n code m h
  have hrouted := ha.routes.skip hb.routes _ _ _ h
  obtain ⟨ca, k, cb, hca, hcb, rfl⟩ := of_gives_skip h
  have la := ha _ _ _ hca
  have lb := hb _ _ _ hcb
  have hlea := la.routed.marks.le
  have hleb := lb.routed.marks.le
  refine ⟨hrouted, fun s hs ↦ ?_, ?_⟩
  · -- the label is gone to exactly if control comes to the end of the first piece
    have hlive := la.live s fun l hl ↦ hs l (Nat.le_of_succ_le hl)
    have houter : ∀ l, n ≤ l → (l < n + 1 ∨ k ≤ l) → l ∉ (s.after ca).pending := fun l hl hor ↦
      (la.routed.mem_pending_iff hor).not.mpr (hs l hl)
    have hskipped := lb.live ((s.after ca).step (.branch c n)) fun l hl ↦ by
      have hne : l ≠ n := by omega
      have hold := houter l (by omega) (.inr hl)
      simp [hne, hold]
    have hgone : n ∈ (((s.after ca).step (.branch c n)).after cb).pending ↔ (s.after ca).live := by
      rw [lb.routed.mem_pending_iff (.inl (by omega)), Control.mem_pending_branch,
        or_iff_left (houter n (Nat.le_refl n) (.inl (Nat.lt_succ_self n))), and_iff_left rfl]
    simp only [Control.after_append, Control.after_cons, Control.after_nil, Control.step_dup,
      Control.step_pop, Control.live_label, hskipped, hgone, Control.live_branch]
    rw [Exits.skips, ← hlive]
    cases (s.after ca).live <;> simp
  · have hn : n ∉ labelsOf cb := lb.routed.mem_labelsOf_iff.not.mpr (by omega)
    refine ((((la.returns.before (by simp)).before (by simp)).before (by simp)).append lb.returns
      ?_).before (by simp)
    exact (((la.routed.avoids lb.routed (Nat.le_refl k)).append (.plain rfl)).append
      (.branch hn)).append (.plain rfl)

/-- Two pieces of code of which a branch chooses one. -/
theorem either (hx : Leaves r x c) (ha : Leaves r y a) (hb : Leaves r z b) :
    Leaves r (x ++ y.either z) (.fresh fun other ↦ .fresh fun stop ↦ c
      ++ .put (.branch .ifFalse other) ++ a ++ .put (.branch .always stop) ++ .put (.label other)
      ++ b ++ .put (.label stop)) := by
  intro n code m h
  have hrouted := hx.routes.either ha.routes hb.routes _ _ _ h
  obtain ⟨cx, kx, ca, ka, cb, hcx, hca, hcb, rfl⟩ := of_gives_either h
  have lx := hx _ _ _ hcx
  have la := ha _ _ _ hca
  have lb := hb _ _ _ hcb
  have hlex := lx.routed.marks.le
  have hlea := la.routed.marks.le
  have hleb := lb.routed.marks.le
  refine ⟨hrouted, fun s hs ↦ ?_, ?_⟩
  · have hlive := lx.live s fun l hl ↦ hs l (by omega)
    have houter : ∀ l, n ≤ l → (l < n + 1 + 1 ∨ kx ≤ l) → l ∉ (s.after cx).pending := fun l hl hor ↦
      (lx.routed.mem_pending_iff hor).not.mpr (hs l hl)
    have hn := houter n (Nat.le_refl n) (.inl (by omega))
    have hn' := houter (n + 1) (Nat.le_succ n) (.inl (by omega))
    have hthen := la.live ((s.after cx).step (.branch .ifFalse n)) fun l hl ↦ by
      have hne : l ≠ n := by omega
      simp [hne, houter l (by omega) (.inr hl)]
    -- in front of the second piece, each label is gone to exactly if control came to its branch
    generalize ht : (((s.after cx).step (.branch .ifFalse n)).after ca).step
      (.branch .always (n + 1)) = t
    have hdead : t.live = false := by simp [← ht]
    have hpending : ∀ l, l < kx ∨ ka ≤ l → (l ∈ t.pending ↔
        (s.live && x.passes && y.passes) ∧ l = n + 1 ∨ (s.live && x.passes) ∧ l = n ∨
          l ∈ (s.after cx).pending) := fun l hl ↦ by
      rw [← ht, Control.mem_pending_branch, la.routed.mem_pending_iff hl,
        Control.mem_pending_branch, hthen, Control.live_branch, hlive]
      simp
    have hother : n ∈ t.pending ↔ s.live && x.passes := by
      simp [hpending n (.inl (by omega)), hn]
    have hstop : n + 1 ∈ t.pending ↔ s.live && x.passes && y.passes := by
      simp [hpending (n + 1) (.inl (by omega)), hn']
    have helse := lb.live (t.step (.label n)) fun l hl ↦ by
      have hne : l ≠ n := by omega
      have hne' : l ≠ n + 1 := by omega
      have hold := houter l (by omega) (.inr (by omega))
      simp [hpending l (.inr hl), hne, hne', hold]
    have hgone := lb.routed.mem_pending_iff (s := t.step (.label n)) (l := n + 1) (.inl (by omega))
    simp only [Control.after_append, Control.after_cons, Control.after_nil, ht, Control.live_label,
      helse, hgone, Control.pending_label, hdead, hother, hstop]
    rw [Bool.decide_eq_true, Bool.decide_eq_true, Bool.false_or, Exits.passes_append,
      Exits.passes_either]
    cases s.live <;> cases x.passes <;> simp [Bool.or_comm]
  · rw [Exits.returned_append, Exits.returned_either, ← List.append_assoc]
    have hn : n ∉ labelsOf ca := la.routed.mem_labelsOf_iff.not.mpr (by omega)
    have hn' : n ∉ labelsOf cb := lb.routed.mem_labelsOf_iff.not.mpr (by omega)
    have hstop : n + 1 ∉ labelsOf cb := lb.routed.mem_labelsOf_iff.not.mpr (by omega)
    refine (((((lx.returns.before (by simp)).append la.returns ?_).before (by simp)).before
      (by simp)).append lb.returns ?_).before (by simp)
    · exact (lx.routed.avoids la.routed (Nat.le_refl kx)).append (.branch hn)
    · exact ((((lx.routed.avoids lb.routed (by omega)).append (.branch hn')).append
        (la.routed.avoids lb.routed (Nat.le_refl ka))).append (.branch hstop)).append (.plain rfl)

/-- A return behind the code of its value. -/
theorem ret {st : Statement} (hst : Code.statement r st = a ++ .put .ret) (ha : Leaves r x a) :
    Leaves r (x ++ .ends [st]) (Code.statement r st) := by
  intro n code m h
  obtain ⟨ca, k, _, hca, hret, hcode⟩ := gives_append.mp (hst ▸ h)
  obtain ⟨rfl, rfl⟩ := gives_put.mp hret
  have la := ha _ _ _ hca
  refine ⟨ha.routes.append (Routes.put rfl) _ _ _ (hst ▸ h), fun s _ ↦ ?_, fun p hp ↦ ?_⟩
  · simp [hcode, Control.step_of_plain (i := .ret) rfl, Instruction.fallsThrough, Exits.ends]
  · rcases Nat.lt_or_ge p ca.length with hlt | hge
    · rw [hcode, List.getElem?_append_left hlt] at hp
      obtain ⟨st', hst', hends⟩ := la.returns p hp
      exact ⟨st', List.mem_append_left _ hst', hcode ▸ hends.before [.ret]⟩
    · -- the last instruction, so the code of the statement is all that there is
      obtain ⟨hlt, -⟩ := List.getElem?_eq_some_iff.mp hp
      have hlength : code.length = ca.length + 1 := by rw [hcode, List.length_append]; rfl
      refine ⟨st, List.mem_append_right _ (List.mem_singleton_self st), [], code, [], n, _, h,
        by simp, ?_, fun _ hi ↦ absurd hi List.not_mem_nil⟩
      rw [List.length_nil]
      omega

end Emit.Leaves

/-! ## The code of a tree -/

namespace Code

mutual

/-- How control leaves the code of an expression. -/
def exits (r : Registry) : Expr → Exits
  | .member n target _ => if n.binding.any Binding.needsInstance then exits r target else .through
  | .unary _ op e _ => if op.isMutating then .through else exits r e
  | .binary _ _ a b (some ⟨.logical, _⟩) | .coalesce _ a b => (exits r a).skips (exits r b)
  | .binary _ _ a b _ => exits r a ++ exits r b
  | .ternary _ x a b _ => exits r x ++ (exits r a).either (exits r b)
  | .assign _ target v _ => targetExits r target ++ exits r v
  | .call _ target args (some ⟨.method m, _, _⟩) =>
    (if (r.method? m).any MethodDef.isStatic then .through else ownerExits r target)
      ++ exprsExits r args
  | .call _ target args (some ⟨.delegate, _, _⟩) | .index _ target args _ =>
    exits r target ++ exprsExits r args
  | .call _ _ args _ | .new _ _ args _ => exprsExits r args
  | .declare _ _ _ init _ => optionExits r init
  | .array _ _ items _ => exprsExits r items
  | .block _ body => statementsExits r body
  | .literal .. | .null _ | .this _ | .empty _ | .lambda .. | .name .. | .variableRef ..
  | .constantRef .. => .through

/-- The same of what is loaded for an assignment to the target. -/
def targetExits (r : Registry) : Expr → Exits
  | .unary _ .group e _ => targetExits r e
  | .index _ target args _ => exits r target ++ exprsExits r args
  | .member n target _ => if n.binding.any Binding.needsInstance then exits r target else .through
  | _ => .through

/-- The same of what a method is called on. -/
def ownerExits (r : Registry) : Expr → Exits
  | .unary _ .group e _ => ownerExits r e
  | .member _ target _ => exits r target
  | _ => .through

/-- The same of the expressions of a list. -/
def exprsExits (r : Registry) : List Expr → Exits
  | [] => .through
  | e :: es => exits r e ++ exprsExits r es

/-- The same of an expression that may be missing. -/
def optionExits (r : Registry) : Option Expr → Exits
  | none => .through
  | some e => exits r e

/-- The same of a statement. -/
def statementExits (r : Registry) : Statement → Exits
  | .expr e => exits r e
  | .block _ body => statementsExits r body
  | .cond _ x a b => exits r x ++ (statementExits r a).either (alternativeExits r b)
  | .ret l value place => optionExits r value ++ .ends [.ret l value place]
  | .throw _ value => optionExits r value ++ .ends []
  | .vars _ declarations => exprsExits r declarations
  | .function .. => .through

/-- The same of the statements of a list. -/
def statementsExits (r : Registry) : List Statement → Exits
  | [] => .through
  | st :: sts => statementExits r st ++ statementsExits r sts

/-- The same of a statement that may be missing. -/
def alternativeExits (r : Registry) : Option Statement → Exits
  | none => .through
  | some st => statementExits r st

end

section

-- The equations of the walk are derived here, so that no two proofs below wait for the same ones.
attribute [local simp] exits targetExits ownerExits exprsExits optionExits statementExits
  statementsExits alternativeExits

end

open Emit (Leaves)

variable {r : Registry}

/-- Control passes statements if it passes each of them. -/
theorem passes_statements_iff {sts : List Statement} :
    (statementsExits r sts).passes ↔ ∀ st ∈ sts, (statementExits r st).passes := by
  induction sts with
  | nil => exact iff_of_true rfl nofun
  | cons st sts ih =>
    rw [statementsExits, Exits.passes_append, Bool.and_eq_true, ih, List.forall_mem_cons]

/-- No return is passed. -/
theorem passes_ret {l : Location} {value : Option Expr} {place : Option (Option Conversion)} :
    (statementExits r (.ret l value place)).passes = false := by
  rw [statementExits, Exits.passes_append, Exits.ends, Bool.and_false]

/-- Control leaves the code of the expression as its parts say: as a value, as what a method is
called on, and as what is assigned to, given code of the value. -/
structure ExprLeaves (r : Registry) (e : Expr) : Prop where
  value : Leaves r (exits r e) (expr r e)
  owner : Leaves r (ownerExits r e) (owner r e)
  target : ∀ {x l value}, Leaves r x value → Leaves r (targetExits r e ++ x) (assign r l value e)

/-- Control leaves the code of the statement as its parts say, and so it does that of the expression
that the statement may be. -/
structure StatementLeaves (r : Registry) (st : Statement) : Prop where
  code : Leaves r (statementExits r st) (statement r st)
  value : ∀ e, st = .expr e → ExprLeaves r e

end Code

namespace Emit.Leaves

variable {r : Registry} {x : Exits} {value : Emit} {l : Location}

theorem load (d : Binding) (l : Location) : Leaves r .through (d.load l) := by
  cases d with
  | typeName ty => exact fail
  | _ => exact put rfl rfl

theorem store (d : Binding) (l : Location) : Leaves r .through (d.store l) := by
  cases d with
  | typeName ty => exact fail
  | property p ty isStatic writable => exact ite (put rfl rfl) fail
  | _ => exact put rfl rfl

theorem conversion? (c : Option Conversion) : Leaves r .through (.conversion? c) := by
  cases c with
  | none => exact nothing
  | some c => exact ite (put rfl rfl) (put rfl rfl)

theorem branchConversion (c : Option BranchConversion) (branch : Branch) :
    Leaves r .through (.branchConversion c branch) := by
  cases c with
  | none => exact nothing
  | some c => exact ite (conversion? c.conversion) nothing

theorem storing (hvalue : Leaves r x value) (d : Binding) :
    Leaves r x (Tables.storing l value d) :=
  ite ((((put rfl rfl).behind hvalue).before (put rfl rfl)).before (store d l))
    ((hvalue.before (put rfl rfl)).before (store d l))

end Emit.Leaves

namespace Code

open Emit (Leaves)

variable {r : Registry}

/-- A form that is assigned to through its storage, and that no method is called on by its name. -/
theorem ExprLeaves.of_value {e : Expr} (hvalue : Leaves r (exits r e) (expr r e))
    (howner : Code.owner r e = .put .loadThis) (hexits : ownerExits r e = .through)
    (htarget : targetExits r e = .through)
    (hassign : ∀ l value, assign r l value e
      = .require e.node.binding l (Tables.storing l value)) : ExprLeaves r e where
  value := hvalue
  owner := by
    rw [howner, hexits]
    exact .put rfl rfl
  target hstored := by
    rw [hassign, htarget]
    exact .require fun d _ ↦ hstored.storing d

/-! ### Lists -/

theorem arguments_leaves {es : List Expr} (hes : ∀ e ∈ es, ExprLeaves r e) (cs : Conversions)
    (index : Nat) : Leaves r (exprsExits r es) (arguments r cs index es) := by
  induction es generalizing index with
  | nil => exact .nothing
  | cons e es ih =>
    obtain ⟨he, hes⟩ := List.forall_mem_cons.mp hes
    exact (he.value.before (.conversion? _)).append (ih hes _)

theorem elements_leaves {es : List Expr} (hes : ∀ e ∈ es, ExprLeaves r e) (cs : Conversions)
    (index : Nat) : Leaves r (exprsExits r es) (elements r cs index es) := by
  induction es generalizing index with
  | nil => exact .nothing
  | cons e es ih =>
    obtain ⟨he, hes⟩ := List.forall_mem_cons.mp hes
    exact (((((Leaves.put rfl rfl).behind (.put rfl rfl)).behind he.value).before
      (.conversion? _)).before (.put rfl rfl)).append (ih hes _)

theorem exprs_leaves {es : List Expr} (hes : ∀ e ∈ es, ExprLeaves r e) :
    Leaves r (exprsExits r es) (exprs r es) := by
  induction es with
  | nil => exact .nothing
  | cons e es ih =>
    obtain ⟨he, hes⟩ := List.forall_mem_cons.mp hes
    exact he.value.append (ih hes)

theorem statements_leaves {sts : List Statement} (hsts : ∀ st ∈ sts, StatementLeaves r st) :
    Leaves r (statementsExits r sts) (statements r sts) := by
  induction sts with
  | nil => exact .nothing
  | cons st sts ih =>
    obtain ⟨hst, hsts⟩ := List.forall_mem_cons.mp hsts
    exact hst.code.append (ih hsts)

theorem blockValue_leaves {sts : List Statement} (hsts : ∀ st ∈ sts, StatementLeaves r st) :
    Leaves r (statementsExits r sts) (blockValue r sts) := by
  induction sts with
  | nil => exact .nothing
  | cons st sts ih =>
    obtain ⟨hst, hsts⟩ := List.forall_mem_cons.mp hsts
    rcases sts with _ | ⟨st', rest⟩
    · cases st with
      | expr e =>
        rw [statementsExits, statementsExits, Exits.append_through]
        exact (hst.value e rfl).value
      | _ => exact hst.code.append .nothing
    · have hcode : blockValue r (st :: st' :: rest)
          = statement r st ++ blockValue r (st' :: rest) := by
        cases st <;> rfl
      rw [hcode]
      exact hst.code.append (ih hsts)

/-! ### Forms -/

theorem named_leaves {n : Node} {l : Location} :
    Leaves r .through (.require n.binding l fun b ↦
      (if b.needsInstance then .put .loadThis else .nothing) ++ b.load l) :=
  .require fun b _ ↦ Leaves.behind (.ite (.put rfl rfl) .nothing) (.load b _)

theorem unary_leaves {n : Node} {op : UnaryOp} {e : Expr} {t : Option OperatorTarget}
    (ih : ExprLeaves r e) : ExprLeaves r (.unary n op e t) := by
  by_cases hop : op = .group
  · subst hop
    exact ⟨ih.value, ih.owner, ih.target⟩
  · refine .of_value ?_ ?_ ?_ ?_ fun l value ↦ ?_
    · rw [expr, exits]
      · refine .require fun t _ ↦ ?_
        rcases t with ⟨kind, cs⟩
        cases kind with
        | method m =>
          have happly : Leaves r .through (.argConversion cs 0 ++ .call (.method m)) :=
            Leaves.behind (.conversion? _) (.put rfl rfl)
          simp only
          split
          · refine .require fun b _ ↦ .ite .fail ?_
            exact ((Leaves.load b _).behind (.ite (Leaves.behind (.put rfl rfl) happly)
              (happly.behind (.put rfl rfl)))).behind (.store b _)
          · exact ih.value.before happly
        | _ => exact .fail
      · exact hop
    all_goals cases op <;> first | exact absurd rfl hop | rfl

theorem binary_leaves {n : Node} {op : BinaryOp} {a b : Expr} {t : Option OperatorTarget}
    (iha : ExprLeaves r a) (ihb : ExprLeaves r b) : ExprLeaves r (.binary n op a b t) := by
  refine .of_value ?_ rfl rfl rfl fun _ _ ↦ rfl
  rcases t with _ | ⟨kind, cs⟩
  · exact .fail
  have hleft : Leaves r (exits r a) (expr r a ++ .argConversion cs 0) :=
    iha.value.before (.conversion? _)
  have hright : Leaves r (exits r b) (expr r b ++ .argConversion cs 1) :=
    ihb.value.before (.conversion? _)
  cases kind with
  | method m => exact ((hleft.append ihb.value).before (.conversion? _)).before (.put rfl rfl)
  | referenceEquality => exact (iha.value.append ihb.value).before (.put rfl rfl)
  | logical =>
    simpa only [expr, exits, Emit.require_some, Emit.append_assoc] using hleft.skip hright
  | transparent => exact .fail

theorem member_leaves {n : Node} {target : Expr} {x : String} (ih : ExprLeaves r target) :
    ExprLeaves r (.member n target x) where
  value := by
    rw [expr, exits]
    refine .require fun b hb ↦ ?_
    rw [hb, Option.any_some]
    split
    · exact ih.value.before (.load b _)
    · exact Leaves.nothing.behind (.load b _)
  owner := ih.value
  target hvalue := by
    rw [assign, targetExits]
    refine .require fun b hb ↦ ?_
    rw [hb, Option.any_some]
    split
    · exact ((ih.value.append hvalue).before (.put rfl rfl)).before (.store b _)
    · exact (hvalue.before (.put rfl rfl)).before (.store b _)

theorem call_leaves {n : Node} {target : Expr} {args : List Expr} {t : Option CallTarget}
    (ih : ExprLeaves r target) (ihs : ∀ e ∈ args, ExprLeaves r e) :
    ExprLeaves r (.call n target args t) := by
  refine .of_value ?_ rfl rfl rfl fun _ _ ↦ rfl
  rcases t with _ | ⟨callee, ret, cs⟩
  · exact .fail
  have hpassed : Leaves r (exprsExits r args) (arguments r cs 0 args) := arguments_leaves ihs _ _
  cases callee with
  | method m =>
    rw [expr, exits, Emit.require_some]
    refine .require fun d hd ↦ ?_
    rw [hd, Option.any_some]
    refine (Leaves.append ?_ hpassed).before (.put rfl rfl)
    split
    · exact .nothing
    · exact ih.owner
  | script index => exact hpassed.before (.put rfl rfl)
  | delegate => exact (ih.value.append hpassed).before (.put rfl rfl)
  | arrayElement => exact .fail
  | defaultConstructor ty => exact .fail

theorem new_leaves {n : Node} {target : Expr} {args : List Expr} {t : Option CallTarget}
    (ihs : ∀ e ∈ args, ExprLeaves r e) : ExprLeaves r (.new n target args t) := by
  refine .of_value (.require fun t _ ↦ (arguments_leaves ihs _ _).before ?_) rfl rfl rfl
    fun _ _ ↦ rfl
  split
  · exact .put rfl rfl
  · exact .put rfl rfl
  · exact .fail

theorem index_leaves {n : Node} {target : Expr} {args : List Expr} {t : Option CallTarget}
    (ih : ExprLeaves r target) (ihs : ∀ e ∈ args, ExprLeaves r e) :
    ExprLeaves r (.index n target args t) where
  value := by
    refine .require fun t _ ↦ (ih.value.append (arguments_leaves ihs _ _)).before ?_
    split
    · exact .put rfl rfl
    · exact .put rfl rfl
    · exact .fail
  owner := .put rfl rfl
  target hvalue := .require fun t _ ↦
    (((ih.value.append (arguments_leaves ihs _ _)).append hvalue).before (.put rfl rfl)).before
      (.put rfl rfl)

theorem declare_leaves {n : Node} {x : String} {ty : Option TypeExpr} {init : Option Expr}
    {k : Option (Option Conversion)} (ih : ∀ e ∈ init, ExprLeaves r e) :
    ExprLeaves r (.declare n x ty init k) := by
  cases init with
  | none => exact .of_value (.require fun _ _ ↦ .nothing) rfl rfl rfl fun _ _ ↦ rfl
  | some e =>
    exact .of_value (.require fun b _ ↦ ((ih e rfl).value.before (.conversion? _)).before
      (.store b _)) rfl rfl rfl fun _ _ ↦ rfl

theorem cond_leaves {l : Location} {x : Expr} {a : Statement} {b : Option Statement}
    (ihx : ExprLeaves r x) (iha : StatementLeaves r a) (ihb : ∀ st ∈ b, StatementLeaves r st) :
    StatementLeaves r (.cond l x a b) where
  code := by
    cases b with
    | none => exact ihx.value.either iha.code .nothing
    | some b => exact ihx.value.either iha.code (ihb b rfl).code
  value := nofun

/-- Control leaves every form as its parts say. -/
theorem tree_leaves (r : Registry) : Tree.Cases (ExprLeaves r) (StatementLeaves r) where
  literal n v := .of_value (.put rfl rfl) rfl rfl rfl fun _ _ ↦ rfl
  null n := .of_value (.put rfl rfl) rfl rfl rfl fun _ _ ↦ rfl
  this n := .of_value (.put rfl rfl) rfl rfl rfl fun _ _ ↦ rfl
  empty n := .of_value .fail rfl rfl rfl fun _ _ ↦ rfl
  lambda n params body _ := .of_value .fail rfl rfl rfl fun _ _ ↦ rfl
  name n x := .of_value named_leaves rfl rfl rfl fun _ _ ↦ rfl
  variableRef n x := .of_value named_leaves rfl rfl rfl fun _ _ ↦ rfl
  constantRef n x := .of_value named_leaves rfl rfl rfl fun _ _ ↦ rfl
  member n target x ih := member_leaves ih
  unary n op e t ih := unary_leaves ih
  binary n op a b t iha ihb := binary_leaves iha ihb
  coalesce n a b iha ihb := .of_value (iha.value.skip ihb.value) rfl rfl rfl fun _ _ ↦ rfl
  ternary n x a b v ihx iha ihb := by
    refine .of_value ?_ rfl rfl rfl fun _ _ ↦ rfl
    have hthen : Leaves r (exits r a) (expr r a ++ .branchConversion v .thenBranch) :=
      iha.value.before (.branchConversion _ _)
    have helse : Leaves r (exits r b) (expr r b ++ .branchConversion v .elseBranch) :=
      ihb.value.before (.branchConversion _ _)
    simpa only [expr, exits, Emit.append_assoc] using ihx.value.either hthen helse
  assign n target v k iht ihv :=
    .of_value (iht.target (ihv.value.before (.conversion? _))) rfl rfl rfl fun _ _ ↦ rfl
  call n target args t ih ihs := call_leaves ih ihs
  new n target args t _ ihs := new_leaves ihs
  index n target args t ih ihs := index_leaves ih ihs
  declare n x ty init k ih := declare_leaves ih
  array n ty items cs ih := .of_value (.require fun _ _ ↦ .require fun _ _ ↦ .require fun _ _ ↦
    Leaves.behind (.put rfl rfl) (elements_leaves ih _ _)) rfl rfl rfl fun _ _ ↦ rfl
  block n body ih := .of_value (blockValue_leaves ih) rfl rfl rfl fun _ _ ↦ rfl
  exprStatement e ih :=
    { code := ih.value.before (.ite (.put rfl rfl) .nothing)
      value := by
        rintro e' ⟨⟩
        exact ih }
  blockStatement l body ih := ⟨statements_leaves ih, nofun⟩
  cond l x a b ihx iha ihb := cond_leaves ihx iha ihb
  ret l value k ih := by
    cases value with
    | none => exact ⟨Leaves.ret (a := .nothing) rfl .nothing, nofun⟩
    | some e => exact ⟨.ret rfl ((ih e rfl).value.before (.conversion? _)), nofun⟩
  throw l value ih := by
    refine ⟨?_, nofun⟩
    cases value with
    | none => exact Leaves.behind (.put rfl rfl) .throw
    | some e => exact (ih e rfl).value.append .throw
  vars l declarations ih := ⟨exprs_leaves ih, nofun⟩
  function l signature body _ := ⟨.nothing, nofun⟩

end Code

end Scriptlet
