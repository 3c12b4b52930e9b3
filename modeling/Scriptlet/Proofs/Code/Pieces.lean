import Scriptlet.Code.Emission
import Scriptlet.Proofs.Code.Layout

/-!
# Balanced pieces of code

A piece of code is balanced from one height to another if, wherever its labels start, its code has a
layout between the two, and its labels are its own. Pieces that are balanced can be put together:
one after another, and in the two patterns in which code is skipped.
-/

namespace Scriptlet

namespace Emit

/-- From the first free label `n` the piece makes the code and leaves `m` as the first free
label. -/
def Gives (piece : Emit) (n : Nat) (code : List Instruction) (m : Nat) : Prop :=
  piece n = ⟨code, m, none⟩

variable {n m : Nat} {code : List Instruction}

theorem gives_of_failure {piece : Emit} (h : (piece n).failure = none) :
    piece.Gives n (piece n).code (piece n).labels := by
  rw [Gives, ← h]

theorem gives_nothing : nothing.Gives n code m ↔ code = [] ∧ m = n := by
  simp [Gives, nothing, eq_comm]

theorem gives_put {i : Instruction} : (put i).Gives n code m ↔ code = [i] ∧ m = n := by
  simp [Gives, put, eq_comm]

theorem not_gives_fail {e : EmitError} : ¬(fail e).Gives n code m := by
  simp [Gives, fail]

theorem gives_fresh {piece : Nat → Emit} :
    (fresh piece).Gives n code m ↔ (piece n).Gives (n + 1) code m :=
  Iff.rfl

theorem gives_append {a b : Emit} :
    (a ++ b).Gives n code m ↔
      ∃ c₁ k c₂, a.Gives n c₁ k ∧ b.Gives k c₂ m ∧ code = c₁ ++ c₂ := by
  have happend : (a ++ b) n = andThen a b n := rfl
  rw [Gives, happend, andThen]
  constructor
  · intro h
    rcases ha : a n with ⟨c₁, k, _ | e⟩
    · rcases hb : b k with ⟨c₂, m', f⟩
      simp only [ha, hb, Emission.mk.injEq] at h
      obtain ⟨rfl, rfl, rfl⟩ := h
      exact ⟨c₁, k, c₂, ha, hb, rfl⟩
    · simp [ha] at h
  · rintro ⟨c₁, k, c₂, ha, hb, rfl⟩
    rw [Gives] at ha hb
    simp only [ha, hb]

/-- What is emitted where a branch skips the second of two pieces. -/
theorem of_gives_skip {a b : Emit} {c : BranchCondition}
    (h : (fresh fun stop ↦ a ++ put .dup ++ put (.branch c stop) ++ put .pop ++ b
      ++ put (.label stop)).Gives n code m) :
    ∃ ca k cb, a.Gives (n + 1) ca k ∧ b.Gives k cb m ∧
      code = ca ++ [.dup] ++ [.branch c n] ++ [.pop] ++ cb ++ [.label n] := by
  obtain ⟨_, _, _, hskipped, hlabel, rfl⟩ := gives_append.mp (gives_fresh.mp h)
  obtain ⟨_, k, cb, hfront, hb, rfl⟩ := gives_append.mp hskipped
  obtain ⟨_, _, _, hbranched, hpop, rfl⟩ := gives_append.mp hfront
  obtain ⟨_, _, _, hcopied, hbranch, rfl⟩ := gives_append.mp hbranched
  obtain ⟨ca, _, _, ha, hdup, rfl⟩ := gives_append.mp hcopied
  obtain ⟨rfl, rfl⟩ := gives_put.mp hdup
  obtain ⟨rfl, rfl⟩ := gives_put.mp hbranch
  obtain ⟨rfl, rfl⟩ := gives_put.mp hpop
  obtain ⟨rfl, rfl⟩ := gives_put.mp hlabel
  exact ⟨ca, k, cb, ha, hb, rfl⟩

/-- What is emitted where a branch chooses one of two pieces. -/
theorem of_gives_either {x a b : Emit}
    (h : (fresh fun other ↦ fresh fun stop ↦ x ++ put (.branch .ifFalse other) ++ a
      ++ put (.branch .always stop) ++ put (.label other) ++ b
      ++ put (.label stop)).Gives n code m) :
    ∃ cx kx ca ka cb, x.Gives (n + 2) cx kx ∧ a.Gives kx ca ka ∧ b.Gives ka cb m ∧
      code = cx ++ [.branch .ifFalse n] ++ ca ++ [.branch .always (n + 1)] ++ [.label n] ++ cb
        ++ [.label (n + 1)] := by
  obtain ⟨_, _, _, hchosen, hstop, rfl⟩ := gives_append.mp (gives_fresh.mp (gives_fresh.mp h))
  obtain ⟨_, ka, cb, hfront, hb, rfl⟩ := gives_append.mp hchosen
  obtain ⟨_, _, _, hjumped, hother, rfl⟩ := gives_append.mp hfront
  obtain ⟨_, _, _, hthen, hjump, rfl⟩ := gives_append.mp hjumped
  obtain ⟨_, kx, ca, htested, ha, rfl⟩ := gives_append.mp hthen
  obtain ⟨cx, _, _, hx, hbranch, rfl⟩ := gives_append.mp htested
  obtain ⟨rfl, rfl⟩ := gives_put.mp hbranch
  obtain ⟨rfl, rfl⟩ := gives_put.mp hjump
  obtain ⟨rfl, rfl⟩ := gives_put.mp hother
  obtain ⟨rfl, rfl⟩ := gives_put.mp hstop
  exact ⟨cx, kx, ca, ka, cb, hx, ha, hb, rfl⟩

theorem require_some {α : Type} (a : α) (l : Location) (piece : α → Emit) :
    require (some a) l piece = piece a :=
  rfl

theorem append_nothing (a : Emit) : a ++ nothing = a := by
  funext n
  change andThen a nothing n = a n
  rcases ha : a n with ⟨code, m, _ | e⟩ <;> simp [andThen, nothing, ha]

theorem append_assoc (a b c : Emit) : a ++ b ++ c = a ++ (b ++ c) := by
  funext n
  have happend : ∀ (a b : Emit) n, (a ++ b) n = andThen a b n := fun _ _ _ ↦ rfl
  simp only [happend, andThen]
  rcases ha : a n with ⟨c₁, k, _ | e⟩
  · rcases b k with ⟨c₂, m', _ | e⟩ <;> simp
  · simp

end Emit

/-! ## Labels of a piece -/

/-- The labels are from `n` on and before `m`, and there is none twice. -/
structure Numbered (n m : Nat) (labels : List Nat) : Prop where
  le : n ≤ m
  between : ∀ l ∈ labels, n ≤ l ∧ l < m
  nodup : labels.Nodup

namespace Numbered

theorem nil (n : Nat) : Numbered n n [] := ⟨Nat.le_refl n, nofun, List.nodup_nil⟩

theorem singleton (n : Nat) : Numbered n (n + 1) [n] :=
  ⟨Nat.le_succ n, by simp, by simp⟩

theorem append {n k m : Nat} {a b : List Nat} (ha : Numbered n k a) (hb : Numbered k m b) :
    Numbered n m (a ++ b) := by
  have hle := ha.le
  have hle' := hb.le
  refine ⟨Nat.le_trans hle hle', fun l hl ↦ ?_, ?_⟩
  · rcases List.mem_append.mp hl with hl | hl
    · have := ha.between l hl
      omega
    · have := hb.between l hl
      omega
  · refine List.nodup_append.mpr ⟨ha.nodup, hb.nodup, fun l hl l' hl' ↦ ?_⟩
    have := ha.between l hl
    have := hb.between l' hl'
    omega

theorem perm {n m : Nat} {a b : List Nat} (h : Numbered n m a) (hperm : b.Perm a) :
    Numbered n m b :=
  ⟨h.le, fun l hl ↦ h.between l (hperm.mem_iff.mp hl), hperm.nodup_iff.mpr h.nodup⟩

end Numbered

namespace Tables

variable {Γ : Tables}

/-- The code has a layout between the two heights, and its labels are its own. -/
structure Laid (Γ : Tables) (n m : Nat) (code : List Instruction) (rets : List Ty)
    (h out : Nat) : Prop where
  numbered : Numbered n m (labelsOf code)
  layout : ∃ rows : List Row, rows.map Row.instruction = code ∧
    Γ.Effects code rets (rows.map Row.effect) ∧ Layout h rows out

/-- The piece is balanced between the two heights, given the return types of the function values
that it invokes. -/
def Balances (Γ : Tables) (rets : List Ty) (piece : Emit) (h out : Nat) : Prop :=
  ∀ n code m, piece.Gives n code m → Γ.Laid n m code rets h out

/-- Code that is laid out from the ground is balanced. -/
theorem Laid.stackBalanced {n m out : Nat} {code : List Instruction} {rets : List Ty}
    (h : Γ.Laid n m code rets 0 out) :
    ∃ effects, Γ.Effects code rets effects ∧ StackBalanced code effects out := by
  obtain ⟨rows, rfl, heffects, hlayout⟩ := h.layout
  exact ⟨_, heffects, hlayout.stackBalanced h.numbered.nodup⟩

theorem Laid.append {n k m h g out : Nat} {a b : List Instruction} {ra rb : List Ty}
    (ha : Γ.Laid n k a ra h g) (hb : Γ.Laid k m b rb g out) :
    Γ.Laid n m (a ++ b) (ra ++ rb) h out where
  numbered := labelsOf_append a b ▸ ha.numbered.append hb.numbered
  layout := by
    obtain ⟨rows, rfl, heffects, hlayout⟩ := ha.layout
    obtain ⟨rows', rfl, heffects', hlayout'⟩ := hb.layout
    refine ⟨rows ++ rows', List.map_append, ?_, hlayout.append hlayout'⟩
    rw [List.map_append]
    exact heffects.append heffects'

namespace Balances

variable {h g out : Nat} {rets ra rb : List Ty} {a b : Emit}

theorem nothing : Γ.Balances [] .nothing h h := by
  intro n code m hgives
  obtain ⟨rfl, rfl⟩ := Emit.gives_nothing.mp hgives
  exact ⟨.nil _, [], rfl, .nil, .nil⟩

theorem fail {e : EmitError} : Γ.Balances rets (.fail e) h out :=
  fun _ _ _ hgives ↦ absurd hgives Emit.not_gives_fail

theorem require {α : Type} {o : Option α} {l : Location} {piece : α → Emit}
    (hpiece : ∀ a, o = some a → Γ.Balances rets (piece a) h out) :
    Γ.Balances rets (.require o l piece) h out := by
  cases o with
  | none => exact fail
  | some a => exact hpiece a rfl

theorem append (ha : Γ.Balances ra a h g) (hb : Γ.Balances rb b g out) :
    Γ.Balances (ra ++ rb) (a ++ b) h out := by
  intro n code m hgives
  obtain ⟨c₁, k, c₂, h₁, h₂, rfl⟩ := Emit.gives_append.mp hgives
  exact (ha _ _ _ h₁).append (hb _ _ _ h₂)

/-- A piece in front of one that invokes nothing. -/
theorem before (ha : Γ.Balances ra a h g) (hb : Γ.Balances [] b g out) :
    Γ.Balances ra (a ++ b) h out := by
  simpa only [List.append_nil] using ha.append hb

/-- A piece behind one that invokes nothing. -/
theorem behind (ha : Γ.Balances [] a h g) (hb : Γ.Balances rb b g out) :
    Γ.Balances rb (a ++ b) h out :=
  ha.append hb

/-! ## Single instructions -/

/-- One instruction that marks no label. -/
theorem of_row (row : Row) (hlabel : row.instruction.label? = none)
    (heffects : Γ.Effects [row.instruction] rets [row.effect])
    (hlayout : Layout row.height [row] out) :
    Γ.Balances rets (.put row.instruction) row.height out := by
  intro n code m hgives
  obtain ⟨rfl, rfl⟩ := Emit.gives_put.mp hgives
  have hlabels : labelsOf [row.instruction] = [] := by simp [labelsOf, hlabel]
  exact ⟨hlabels ▸ .nil _, [row], rfl, heffects, hlayout⟩

/-- An instruction that is no branch and marks no label. -/
theorem put {i : Instruction} {e : Effect} (hi : Γ.effect i = some e)
    (hlabel : i.label? = none) (htarget : i.target? = none) :
    Γ.Balances [] (.put i) (h + e.pops) (h + e.pushes) :=
  of_row ⟨i, e, h + e.pops⟩ hlabel (.plain hi .nil) (.step h i e htarget .nil)

theorem invoke (ty : Ty) (arity : Nat) :
    Γ.Balances [ty] (.call (.delegate arity)) (h + (arity + 1)) (h + ty.cells) :=
  of_row ⟨.call (.delegate arity), ⟨arity + 1, ty.cells⟩, h + (arity + 1)⟩ rfl
    (.invoke .nil) (.step h _ ⟨arity + 1, ty.cells⟩ rfl .nil)

/-- Nothing is asked of the height behind a return. -/
theorem ret : Γ.Balances [] (.put .ret) h out :=
  of_row ⟨.ret, ⟨0, 0⟩, h⟩ rfl (.plain rfl .nil)
    (.cons _ (fun hret ↦ absurd rfl hret) nofun nofun .nil)

theorem throw : Γ.Balances [] (.put .throw) (h + 1) out :=
  of_row ⟨.throw, ⟨1, 0⟩, h + 1⟩ rfl (.plain rfl .nil)
    (.cons _ (fun _ ↦ Nat.le_add_left ..) nofun nofun .nil)

/-! ## Skipped code -/

theorem effect_branch {c : BranchCondition} (hc : c ≠ .always) (t : Nat) :
    Γ.effect (.branch c t) = some ⟨1, 0⟩ := by
  cases c <;> first | exact absurd rfl hc | rfl

/-- Code that is skipped, with the value on top of the stack as it is, and otherwise replaces the
value. -/
theorem skip {c : BranchCondition} (hc : c ≠ .always) (ha : Γ.Balances ra a h (h + 1))
    (hb : Γ.Balances rb b h (h + 1)) :
    Γ.Balances (ra ++ rb)
      (.fresh fun stop ↦ a ++ .put .dup ++ .put (.branch c stop) ++ .put .pop ++ b
        ++ .put (.label stop)) h (h + 1) := by
  intro n code m hgives
  obtain ⟨ca, k, cb, hca, hcb, rfl⟩ := Emit.of_gives_skip hgives
  have la := ha _ _ _ hca
  have lb := hb _ _ _ hcb
  obtain ⟨rowsA, rfl, effectsA, layoutA⟩ := la.layout
  obtain ⟨rowsB, rfl, effectsB, layoutB⟩ := lb.layout
  have hmark : (n, h + 1) ∈ marks (⟨.pop, ⟨1, 0⟩, h + 1⟩ ::
      (rowsB ++ [⟨.label n, ⟨0, 0⟩, h + 1⟩])) := by
    rw [← List.cons_append, marks_append]
    exact List.mem_append_right _ List.mem_cons_self
  have layout := layoutA.append (.step h .dup ⟨1, 2⟩ rfl (.branch (c := c) hmark
    (.step h .pop ⟨1, 0⟩ rfl (layoutB.append (.step (h + 1) (.label n) ⟨0, 0⟩ rfl .nil)))))
  have effects := effectsA.append (.plain (i := .dup) rfl (.plain (effect_branch hc n)
    (.plain (i := .pop) rfl (effectsB.append (.plain (i := .label n) rfl .nil)))))
  refine ⟨?_, _, by simp, by simpa using effects, layout⟩
  refine ((Numbered.singleton n).append (la.numbered.append lb.numbered)).perm ?_
  refine List.perm_iff_count.mpr fun l ↦ ?_
  simp only [labelsOf_append, labelsOf_cons, Instruction.label?, List.count_append,
    Option.toList_some, Option.toList_none, labelsOf_nil, List.append_nil]
  omega

/-- One of two pieces of code, as a truth value tells. -/
theorem either {x : Emit} {rx : List Ty} (hx : Γ.Balances rx x h (h + 1))
    (ha : Γ.Balances ra a h out) (hb : Γ.Balances rb b h out) :
    Γ.Balances (rx ++ ra ++ rb)
      (.fresh fun other ↦ .fresh fun stop ↦ x ++ .put (.branch .ifFalse other) ++ a
        ++ .put (.branch .always stop) ++ .put (.label other) ++ b ++ .put (.label stop))
      h out := by
  intro n code m hgives
  obtain ⟨cx, kx, ca, ka, cb, hcx, hca, hcb, rfl⟩ := Emit.of_gives_either hgives
  have lx := hx _ _ _ hcx
  have la := ha _ _ _ hca
  have lb := hb _ _ _ hcb
  obtain ⟨rowsX, rfl, effectsX, layoutX⟩ := lx.layout
  obtain ⟨rowsA, rfl, effectsA, layoutA⟩ := la.layout
  obtain ⟨rowsB, rfl, effectsB, layoutB⟩ := lb.layout
  have layoutRest := layoutB.append (.step out (.label (n + 1)) ⟨0, 0⟩ rfl .nil)
  have hstop : (n + 1, out) ∈ marks (⟨.label n, ⟨0, 0⟩, h⟩ ::
      (rowsB ++ [⟨.label (n + 1), ⟨0, 0⟩, out⟩])) := by
    rw [marks_label, marks_append]
    exact List.mem_cons_of_mem _ (List.mem_append_right _ List.mem_cons_self)
  have hother : (n, h) ∈ marks (rowsA ++ ⟨.branch .always (n + 1), ⟨0, 0⟩, out⟩ ::
      ⟨.label n, ⟨0, 0⟩, h⟩ :: (rowsB ++ [⟨.label (n + 1), ⟨0, 0⟩, out⟩])) := by
    rw [marks_append]
    exact List.mem_append_right _ List.mem_cons_self
  have layout := layoutX.append (.branch (c := .ifFalse) hother (layoutA.append
    (.jump hstop (.step h (.label n) ⟨0, 0⟩ rfl layoutRest))))
  have effects := effectsX.append (.plain (i := .branch .ifFalse n) rfl (effectsA.append
    (.plain (i := .branch .always (n + 1)) rfl (.plain (i := .label n) rfl
      (effectsB.append (.plain (i := .label (n + 1)) rfl .nil))))))
  refine ⟨?_, _, by simp, by simpa using effects, layout⟩
  refine (((Numbered.singleton n).append (.singleton (n + 1))).append
    (lx.numbered.append (la.numbered.append lb.numbered))).perm ?_
  refine List.perm_iff_count.mpr fun l ↦ ?_
  simp only [labelsOf_append, labelsOf_cons, Instruction.label?, List.count_append,
    Option.toList_some, Option.toList_none, labelsOf_nil, List.append_nil]
  omega

end Balances

end Tables

end Scriptlet
