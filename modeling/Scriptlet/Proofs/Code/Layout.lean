import Scriptlet.Proofs.Code.Effect

/-!
# Layouts of the stack

A layout gives a height to each place of a piece of code: how many cells lie on the stack there, not
counting those that were on it at the start. It is one if each instruction finds its operands,
leaves the height of the next place, and finds the height of its label, further on in the code, if
it is a branch. After an instruction that does not fall through any height will do. Code that has a
layout, and that marks no label twice, is balanced: every path keeps to the layout.
-/

namespace Scriptlet

/-- An instruction with its effect, and the height of the stack in front of it. -/
structure Row where
  instruction : Instruction
  effect : Effect
  height : Nat

namespace Row

/-- The height behind the instruction. -/
def after (row : Row) : Nat := row.height - row.effect.pops + row.effect.pushes

/-- The label that the instruction marks, with the height there. -/
def mark? (row : Row) : Option (Nat × Nat) := row.instruction.label?.map (·, row.height)

end Row

/-- The labels that are marked, each with the height there. -/
def marks (rows : List Row) : List (Nat × Nat) := rows.filterMap Row.mark?

@[simp] theorem marks_append (a b : List Row) : marks (a ++ b) = marks a ++ marks b :=
  List.filterMap_append

@[simp] theorem marks_label (l height : Nat) (e : Effect) (rows : List Row) :
    marks (⟨.label l, e, height⟩ :: rows) = (l, height) :: marks rows :=
  rfl

/-- The heights of the rows fit together, from one height at the start to another at the end. -/
inductive Layout : Nat → List Row → Nat → Prop where
  | nil {h} : Layout h [] h
  | cons (row : Row) {rows next out}
      (henough : row.instruction ≠ .ret → row.effect.pops ≤ row.height)
      (hnext : row.instruction.fallsThrough → next = row.after)
      (hjump : ∀ t ∈ row.instruction.target?, (t, row.after) ∈ marks rows)
      (rest : Layout next rows out) : Layout row.height (row :: rows) out

/-- The heights of all places, the end included. -/
def heights (rows : List Row) (out : Nat) : List Nat := rows.map Row.height ++ [out]

namespace Layout

variable {h g out : Nat} {rows : List Row}

theorem append {a b : List Row} (ha : Layout h a g) (hb : Layout g b out) :
    Layout h (a ++ b) out := by
  induction ha with
  | nil => exact hb
  | cons row henough hnext hjump _ ih =>
    refine .cons row henough hnext (fun t ht ↦ ?_) (ih hb)
    exact marks_append .. ▸ List.mem_append_left _ (hjump t ht)

/-- An instruction that is no branch. -/
theorem step (h : Nat) (i : Instruction) (e : Effect) (htarget : i.target? = none)
    (rest : Layout (h + e.pushes) rows out) :
    Layout (h + e.pops) (⟨i, e, h + e.pops⟩ :: rows) out := by
  refine .cons ⟨i, e, h + e.pops⟩ (fun _ ↦ Nat.le_add_left ..) (fun _ ↦ ?_)
    (fun t ht ↦ ?_) rest
  · simp [Row.after]
  · simp [htarget] at ht

/-- A branch that may be taken. -/
theorem branch {c : BranchCondition} {t : Nat} (hmark : (t, h) ∈ marks rows)
    (rest : Layout h rows out) : Layout (h + 1) (⟨.branch c t, ⟨1, 0⟩, h + 1⟩ :: rows) out := by
  refine .cons ⟨.branch c t, ⟨1, 0⟩, h + 1⟩ (fun _ ↦ Nat.le_add_left ..) (fun _ ↦ rfl)
    (fun t' ht' ↦ ?_) rest
  obtain rfl := Option.mem_some.mp ht'
  exact hmark

/-- A branch that is always taken. -/
theorem jump {t : Nat} (hmark : (t, h) ∈ marks rows) (rest : Layout g rows out) :
    Layout h (⟨.branch .always t, ⟨0, 0⟩, h⟩ :: rows) out := by
  refine .cons ⟨.branch .always t, ⟨0, 0⟩, h⟩ (fun _ ↦ Nat.zero_le _) nofun
    (fun t' ht' ↦ ?_) rest
  obtain rfl := Option.mem_some.mp ht'
  exact hmark

theorem heights_zero (h : Layout g rows out) : (heights rows out)[0]? = some g := by
  cases h <;> rfl

theorem exists_of_mem_marks {t height : Nat} (h : (t, height) ∈ marks rows) :
    ∃ (j : Nat) (row : Row), rows[j]? = some row ∧ row.instruction = .label t ∧
      row.height = height := by
  obtain ⟨row, hrow, hmark⟩ := List.mem_filterMap.mp h
  obtain ⟨j, hj⟩ := List.mem_iff_getElem?.mp hrow
  obtain ⟨l, hl, heq⟩ := Option.map_eq_some_iff.mp hmark
  obtain ⟨rfl, rfl⟩ := Prod.mk.inj heq
  refine ⟨j, row, hj, ?_, rfl⟩
  cases hi : row.instruction <;> simp_all [Instruction.label?]

/-- What the layout says about one place. -/
theorem at_place (hl : Layout g rows out) {i : Nat} {row : Row} (hi : rows[i]? = some row) :
    (row.instruction ≠ .ret → row.effect.pops ≤ row.height) ∧
      (row.instruction.fallsThrough → (heights rows out)[i + 1]? = some row.after) ∧
      ∀ t ∈ row.instruction.target?, ∃ (j : Nat) (row' : Row), i < j ∧ rows[j]? = some row' ∧
        row'.instruction = .label t ∧ row'.height = row.after := by
  induction hl generalizing i with
  | nil => simp at hi
  | cons row henough hnext hjump rest ih =>
    cases i with
    | zero =>
      obtain rfl := Option.some.inj hi
      refine ⟨henough, fun hfalls ↦ ?_, fun t ht ↦ ?_⟩
      · rw [← hnext hfalls]
        exact rest.heights_zero
      · obtain ⟨j, row', hj, hlabel, hheight⟩ := exists_of_mem_marks (hjump t ht)
        exact ⟨j + 1, row', Nat.zero_lt_succ j, hj, hlabel, hheight⟩
    | succ i =>
      obtain ⟨henough', hnext', hjump'⟩ := ih hi
      refine ⟨henough', hnext', fun t ht ↦ ?_⟩
      obtain ⟨j, row', hij, hj, hlabel⟩ := hjump' t ht
      exact ⟨j + 1, row', Nat.succ_lt_succ hij, hj, hlabel⟩

end Layout

/-! ## Labels -/

/-- The labels that are marked. -/
def labelsOf (code : List Instruction) : List Nat := code.filterMap Instruction.label?

@[simp] theorem labelsOf_append (a b : List Instruction) :
    labelsOf (a ++ b) = labelsOf a ++ labelsOf b :=
  List.filterMap_append

@[simp] theorem labelsOf_nil : labelsOf [] = [] := rfl

@[simp] theorem labelsOf_cons (i : Instruction) (code : List Instruction) :
    labelsOf (i :: code) = i.label?.toList ++ labelsOf code := by
  cases h : i.label? <;> simp [labelsOf, h]

theorem mem_labelsOf {code : List Instruction} {i l : Nat} (h : code[i]? = some (.label l)) :
    l ∈ labelsOf code :=
  List.mem_filterMap.mpr ⟨_, List.mem_of_getElem? h, rfl⟩

/-- A label that is marked once is marked in one place. -/
theorem eq_of_label {code : List Instruction} (hnodup : (labelsOf code).Nodup) {i j l : Nat}
    (hi : code[i]? = some (.label l)) (hj : code[j]? = some (.label l)) : i = j := by
  induction code generalizing i j with
  | nil => simp at hi
  | cons instruction code ih =>
    -- the head cannot mark a label that the tail marks again
    have hhead : ∀ {k : Nat}, instruction = .label l → code[k]? ≠ some (Instruction.label l) := by
      rintro k rfl hk
      rw [labelsOf_cons, Instruction.label?] at hnodup
      exact (List.nodup_cons.mp hnodup).1 (mem_labelsOf hk)
    have htail : (labelsOf code).Nodup := by
      rw [labelsOf_cons] at hnodup
      exact (List.nodup_append.mp hnodup).2.1
    cases i with
    | zero =>
      cases j with
      | zero => rfl
      | succ j => exact absurd hj (hhead (Option.some.inj hi))
    | succ i =>
      cases j with
      | zero => exact absurd hi (hhead (Option.some.inj hj))
      | succ j => rw [ih htail hi hj]

/-! ## Paths keep to the layout -/

section Paths

variable {rows : List Row} {out : Nat} {d : Int}

theorem row_of_getElem? {i : Nat} {instruction : Instruction} {effect : Effect}
    (hi : (rows.map Row.instruction)[i]? = some instruction)
    (he : (rows.map Row.effect)[i]? = some effect) :
    ∃ row, rows[i]? = some row ∧ row.instruction = instruction ∧ row.effect = effect := by
  rw [List.getElem?_map] at hi he
  obtain ⟨row, hrow, rfl⟩ := Option.map_eq_some_iff.mp hi
  rw [hrow] at he
  exact ⟨row, hrow, rfl, Option.some.inj he⟩

theorem heights_of_row {i : Nat} {row : Row} (hi : rows[i]? = some row) :
    (heights rows out)[i]? = some row.height := by
  obtain ⟨hlt, -⟩ := List.getElem?_eq_some_iff.mp hi
  rw [heights, List.getElem?_append_left (by rwa [List.length_map]), List.getElem?_map, hi]
  rfl

/-- A branch goes forward, to a place with the height behind it. -/
theorem Layout.at_target (hl : Layout 0 rows out)
    (hnodup : (labelsOf (rows.map Row.instruction)).Nodup) {i j t : Nat} {row : Row}
    (hrow : rows[i]? = some row) (ht : row.instruction.target? = some t)
    (hj : (rows.map Row.instruction)[j]? = some (.label t)) :
    i < j ∧ (heights rows out)[j]? = some row.after := by
  obtain ⟨j', row', hij, hj', hlabel, hafter⟩ := (hl.at_place hrow).2.2 t ht
  have hmark : (rows.map Row.instruction)[j']? = some (.label t) := by
    rw [List.getElem?_map, hj', Option.map_some, hlabel]
  obtain rfl := eq_of_label hnodup hj hmark
  exact ⟨hij, hafter ▸ heights_of_row hj'⟩

/-- A step that starts at the height of its place ends at the height of its place. -/
theorem Layout.step_keeps (hl : Layout 0 rows out)
    (hnodup : (labelsOf (rows.map Row.instruction)).Nodup) {i j : Nat} {depth depth' : Int}
    (h : PathStep (rows.map Row.instruction) (rows.map Row.effect) (i, depth) (j, depth'))
    {height : Nat} (hheight : (heights rows out)[i]? = some height) (hdepth : depth = d + height) :
    ∃ height', (heights rows out)[j]? = some height' ∧ depth' = d + height' := by
  cases h with
  | next hi he hnext =>
    obtain ⟨row, hrow, rfl, rfl⟩ := row_of_getElem? hi he
    obtain ⟨henough, hfalls, -⟩ := hl.at_place hrow
    obtain rfl := Option.some.inj ((heights_of_row hrow).symm.trans hheight)
    refine ⟨row.after, hfalls hnext, ?_⟩
    have hpops := henough (by rintro h; simp [h, Instruction.fallsThrough] at hnext)
    rw [hdepth, Row.after]
    omega
  | jump hi he ht hj =>
    obtain ⟨row, hrow, rfl, rfl⟩ := row_of_getElem? hi he
    obtain rfl := Option.some.inj ((heights_of_row hrow).symm.trans hheight)
    refine ⟨row.after, (hl.at_target hnodup hrow ht hj).2, ?_⟩
    have hpops := (hl.at_place hrow).1 (by rintro h; simp [h, Instruction.target?] at ht)
    rw [hdepth, Row.after]
    omega

/-- A path arrives at each place with the height of the place. -/
theorem Layout.path_keeps (hl : Layout 0 rows out)
    (hnodup : (labelsOf (rows.map Row.instruction)).Nodup) {place : Nat × Int}
    (h : Path (rows.map Row.instruction) (rows.map Row.effect) (0, d) place) :
    ∃ height : Nat, (heights rows out)[place.1]? = some height ∧ place.2 = d + height := by
  induction h with
  | refl => exact ⟨0, hl.heights_zero, by simp⟩
  | tail _ hstep ih =>
    obtain ⟨height, hheight, hdepth⟩ := ih
    exact hl.step_keeps hnodup hstep hheight hdepth

/-- Code that has a layout, and that marks no label twice, is balanced. -/
theorem Layout.stackBalanced (hl : Layout 0 rows out)
    (hnodup : (labelsOf (rows.map Row.instruction)).Nodup) :
    StackBalanced (rows.map Row.instruction) (rows.map Row.effect) out where
  above h := by
    obtain ⟨height, -, hdepth⟩ := hl.path_keeps hnodup h
    simp only at hdepth
    omega
  enough h hi he hret := by
    obtain ⟨height, hheight, hdepth⟩ := hl.path_keeps hnodup h
    obtain ⟨row, hrow, rfl, rfl⟩ := row_of_getElem? hi he
    obtain rfl := Option.some.inj ((heights_of_row hrow).symm.trans hheight)
    have hpops := (hl.at_place hrow).1 hret
    simp only at hdepth
    omega
  arrives h := by
    obtain ⟨height, hheight, hdepth⟩ := hl.path_keeps hnodup h
    have hend : (heights rows out)[(rows.map Row.instruction).length]? = some out := by
      simp [heights]
    obtain rfl := Option.some.inj (hend.symm.trans hheight)
    exact hdepth
  meets h h' := by
    obtain ⟨height, hheight, hdepth⟩ := hl.path_keeps hnodup h
    obtain ⟨height', hheight', hdepth'⟩ := hl.path_keeps hnodup h'
    obtain rfl := Option.some.inj (hheight.symm.trans hheight')
    exact hdepth.trans hdepth'.symm
  proceeds {d i depth} h := by
    obtain ⟨height, hheight, -⟩ := hl.path_keeps hnodup h
    obtain ⟨hlt, -⟩ := List.getElem?_eq_some_iff.mp hheight
    simp only [heights, List.length_append, List.length_map, List.length_singleton] at hlt
    -- a place with a height is that of an instruction, or the end
    rcases Nat.lt_succ_iff_lt_or_eq.mp hlt with hlt | heq
    · have hrow : rows[i]? = some rows[i] := List.getElem?_eq_getElem hlt
      have hi : (rows.map Row.instruction)[i]? = some rows[i].instruction := by simp [hlt]
      have he : (rows.map Row.effect)[i]? = some rows[i].effect := by simp [hlt]
      rw [hi]
      obtain ⟨-, -, hjump⟩ := hl.at_place hrow
      rcases ht : rows[i].instruction.target? with _ | t
      · by_cases hfalls : rows[i].instruction.fallsThrough
        · exact .inr (.inr (.inr ⟨_, .next hi he hfalls⟩))
        · cases hinstruction : rows[i].instruction <;>
            simp_all [Instruction.fallsThrough, Instruction.target?]
      · obtain ⟨j, row', -, hj, hlabel, -⟩ := hjump t ht
        have hlabel' : (rows.map Row.instruction)[j]? = some (.label t) := by
          rw [List.getElem?_map, hj, Option.map_some, hlabel]
        exact .inr (.inr (.inr ⟨_, .jump hi he ht hlabel'⟩))
    · exact .inl (by simpa using heq)
  forward {place place'} h := by
    cases h with
    | next hi _ _ =>
      obtain ⟨hlt, -⟩ := List.getElem?_eq_some_iff.mp hi
      exact ⟨Nat.lt_succ_self _, hlt⟩
    | jump hi he ht hj =>
      obtain ⟨row, hrow, rfl, rfl⟩ := row_of_getElem? hi he
      obtain ⟨hlt, -⟩ := List.getElem?_eq_some_iff.mp hj
      exact ⟨(hl.at_target hnodup hrow ht hj).1, Nat.le_of_lt hlt⟩

end Paths

end Scriptlet
