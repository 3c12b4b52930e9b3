import Scriptlet.Proofs.Environment.Functions
import Scriptlet.Proofs.Environment.Visible

/-!
# Which part a call reaches

A call chooses in two ways at once. Within a frame the parts of a function are ranked by how well
they suit the call, and the newest part of the highest rank is taken; among the frames it is the
innermost visible one that decides which has any part for the call, so a frame whose parts do not
suit hides nothing. The ranks are given here by themselves, and four searches, one after the other,
are shown to come to the same.

The frames themselves are told by their history. Each frame is a sheet with the definitions made in
it, in order, and pushing, popping and defining act on a stack of sheets in the obvious way; tables
of functions follow the sheets.
-/

namespace Scriptlet

/-! ## Ranks -/

namespace Part

/-- How well a part suits a call with a number of arguments from a scope. A part for this number of
arguments is better than a variadic one, and of each kind one for exactly the scope is better than
one for all scopes. Any other part does not suit at all. -/
def rank? (arity : Nat) (scope : Scope) (p : Part) : Option Nat :=
  if p.arity = .fixed arity then
    if p.scope = scope then some 3 else if p.scope = .any then some 2 else none
  else if p.arity = .variadic then
    if p.scope = scope then some 1 else if p.scope = .any then some 0 else none
  else none

/-- The part is the newest of those with the highest rank; the parts stand in the order of
definition. -/
def IsBest (parts : List Part) (arity : Nat) (scope : Scope) (p : Part) : Prop :=
  ∃ older newer r, parts = older ++ p :: newer ∧ p.rank? arity scope = some r ∧
    (∀ q ∈ older, ∀ k ∈ q.rank? arity scope, k ≤ r) ∧
    ∀ q ∈ newer, ∀ k ∈ q.rank? arity scope, k < r

variable {parts : List Part} {arity : Nat} {scope : Scope} {p q : Part}

theorem newest?_eq_some {a : Arity} {s : Scope} (h : newest? parts a s = some p) :
    p.arity = a ∧ p.scope = s ∧
      ∃ older newer, parts = older ++ p :: newer ∧ ∀ q ∈ newer, ¬(q.arity = a ∧ q.scope = s) := by
  obtain ⟨hp, after, before, hparts, hafter⟩ := List.find?_eq_some_iff_append.mp h
  rw [Bool.and_eq_true, beq_iff_eq, beq_iff_eq] at hp
  refine ⟨hp.1, hp.2, before.reverse, after.reverse, ?_, fun q hq hmatch ↦ ?_⟩
  · rw [← List.reverse_reverse parts, hparts]
    simp
  · have hno := hafter q (List.mem_reverse.mp hq)
    simp [hmatch] at hno

theorem newest?_eq_none {a : Arity} {s : Scope} (h : newest? parts a s = none) :
    ∀ q ∈ parts, ¬(q.arity = a ∧ q.scope = s) := by
  intro q hq
  have hno := List.find?_eq_none.mp h q (List.mem_reverse.mpr hq)
  rwa [Bool.and_eq_true, beq_iff_eq, beq_iff_eq] at hno

/-- The newest of the parts with an arity and a scope is the best, if these stand for a rank and no
part has a higher one. -/
theorem isBest_of_newest? {a : Arity} {s : Scope} {r : Nat} (h : newest? parts a s = some p)
    (hp : p.rank? arity scope = some r)
    (hr : ∀ q ∈ parts, q.rank? arity scope = some r → q.arity = a ∧ q.scope = s)
    (hmax : ∀ q ∈ parts, ∀ k ∈ q.rank? arity scope, k ≤ r) : IsBest parts arity scope p := by
  obtain ⟨-, -, older, newer, rfl, hnewer⟩ := newest?_eq_some h
  refine ⟨older, newer, r, rfl, hp, fun q hq ↦ hmax q (by simp [hq]), fun q hq k hk ↦ ?_⟩
  have hmem : q ∈ older ++ p :: newer := by simp [hq]
  refine Nat.lt_of_le_of_ne (hmax q hmem k hk) ?_
  rintro rfl
  exact hnewer q hq (hr q hmem hk)

theorem isBest_of_select? (h : select? parts arity scope = some p) :
    IsBest parts arity scope p := by
  simp only [select?, Option.orElse_eq_or, Option.or_eq_some_iff] at h
  rcases h with h | ⟨h₃, h | ⟨h₂, h | ⟨h₁, h⟩⟩⟩ <;> have hp := newest?_eq_some h
  · exact isBest_of_newest? h (r := 3) (by grind [rank?]) (by grind [rank?]) (by grind [rank?])
  · have h₃ := newest?_eq_none h₃
    exact isBest_of_newest? h (r := 2) (by grind [rank?]) (by grind [rank?]) (by grind [rank?])
  · have h₃ := newest?_eq_none h₃
    have h₂ := newest?_eq_none h₂
    exact isBest_of_newest? h (r := 1) (by grind [rank?]) (by grind [rank?]) (by grind [rank?])
  · have h₃ := newest?_eq_none h₃
    have h₂ := newest?_eq_none h₂
    have h₁ := newest?_eq_none h₁
    exact isBest_of_newest? h (r := 0) (by grind [rank?]) (by grind [rank?]) (by grind [rank?])

theorem select?_eq_none_iff :
    select? parts arity scope = none ↔ ∀ q ∈ parts, q.rank? arity scope = none := by
  simp only [select?, Option.orElse_eq_or, Option.or_eq_none_iff]
  constructor
  · rintro ⟨h₃, h₂, h₁, h₀⟩ q hq
    have h₃ := newest?_eq_none h₃ q hq
    have h₂ := newest?_eq_none h₂ q hq
    have h₁ := newest?_eq_none h₁ q hq
    have h₀ := newest?_eq_none h₀ q hq
    grind [rank?]
  · intro h
    have hnone : ∀ a s, (a = .fixed arity ∨ a = .variadic) → (s = scope ∨ s = .any) →
        newest? parts a s = none := by
      intro a s ha hs
      cases hnewest : newest? parts a s with
      | none => rfl
      | some p =>
        obtain ⟨harity, hscope, older, newer, hparts, -⟩ := newest?_eq_some hnewest
        have hp := h p (by simp [hparts])
        grind [rank?]
    exact ⟨hnone _ _ (.inl rfl) (.inl rfl), hnone _ _ (.inl rfl) (.inr rfl),
      hnone _ _ (.inr rfl) (.inl rfl), hnone _ _ (.inr rfl) (.inr rfl)⟩

theorem IsBest.mem (h : IsBest parts arity scope p) : p ∈ parts := by
  obtain ⟨older, newer, r, rfl, -⟩ := h
  simp

theorem IsBest.unique (hp : IsBest parts arity scope p) (hq : IsBest parts arity scope q) :
    p = q := by
  obtain ⟨older, newer, r, hparts, hr, holder, hnewer⟩ := hp
  obtain ⟨older', newer', r', hparts', hr', holder', hnewer'⟩ := hq
  rw [hparts] at hparts'
  -- the one that stands after the other has a higher rank, and a lower or the same one
  rcases List.append_eq_append_iff.mp hparts' with
    ⟨between, rfl, htail⟩ | ⟨between, rfl, htail⟩ <;> rcases between with _ | ⟨b, between⟩
  · exact (List.cons.inj htail).1
  · obtain ⟨rfl, rfl⟩ := List.cons.inj htail
    have hlt := hnewer q (by simp) r' hr'
    have hle := holder' p (by simp) r hr
    omega
  · exact (List.cons.inj htail).1.symm
  · obtain ⟨rfl, rfl⟩ := List.cons.inj htail
    have hlt := hnewer' p (by simp) r hr
    have hle := holder q (by simp) r' hr'
    omega

/-- The four searches find the newest part of the highest rank. -/
theorem select?_eq_some_iff :
    select? parts arity scope = some p ↔ IsBest parts arity scope p := by
  refine ⟨isBest_of_select?, fun h ↦ ?_⟩
  cases hselect : select? parts arity scope with
  | some q => rw [(isBest_of_select? hselect).unique h]
  | none =>
    obtain ⟨older, newer, r, rfl, hr, -⟩ := h
    rw [select?_eq_none_iff.mp hselect p (by simp)] at hr
    cases hr

/-- Of the parts with one more, the best is the new part, which no part outranks, or it is the best
without it. -/
theorem isBest_append_singleton (h : IsBest (parts ++ [q]) arity scope p) :
    (p = q ∧ ∃ r, q.rank? arity scope = some r ∧
      ∀ p' ∈ parts, ∀ k ∈ p'.rank? arity scope, k ≤ r) ∨ IsBest parts arity scope p := by
  obtain ⟨older, newer, r, hparts, hr, holder, hnewer⟩ := h
  rcases List.eq_nil_or_concat newer with rfl | ⟨newer, last, rfl⟩
  · obtain ⟨rfl, hq⟩ := List.append_inj' hparts rfl
    obtain rfl := List.singleton_inj.mp hq
    exact .inl ⟨rfl, r, hr, holder⟩
  · rw [List.concat_eq_append, ← List.cons_append, ← List.append_assoc] at hparts
    obtain ⟨rfl, -⟩ := List.append_inj' hparts rfl
    exact .inr ⟨older, newer, r, rfl, hr, holder, fun p' hp' ↦ hnewer p' (by simp [hp'])⟩

end Part

/-! ## Histories -/

/-- A frame by its history: what it was made for and the parts that were defined in it, in order. -/
structure Sheet where
  kind : FrameKind
  definitions : List (String × Part)

namespace Sheet

/-- The parts of a function. -/
def named (t : Sheet) (name : String) : List Part :=
  (t.definitions.filter fun d ↦ d.1 = name).map Prod.snd

/-- The sheet with one more definition. -/
def define (t : Sheet) (name : String) (part : Part) : Sheet :=
  { t with definitions := t.definitions ++ [(name, part)] }

variable {t : Sheet} {name x : String} {part : Part}

theorem named_define_self : (t.define name part).named name = t.named name ++ [part] := by
  simp [named, define]

theorem named_define_of_ne (h : x ≠ name) : (t.define x part).named name = t.named name := by
  simp [named, define, h]

/-- The sheet has a part for the call. -/
def Answers (t : Sheet) (name : String) (arity : Nat) (scope : Scope) : Prop :=
  ∃ p ∈ t.named name, (p.rank? arity scope).isSome

theorem answers_iff {arity : Nat} {scope : Scope} :
    t.Answers name arity scope ↔ (Part.select? (t.named name) arity scope).isSome := by
  rw [Option.isSome_iff_ne_none, ne_eq, Part.select?_eq_none_iff, Answers]
  push Not
  simp only [Option.isSome_iff_ne_none]

end Sheet

/-- The sheet with the number is that of a visible frame. -/
def SeesSheet (sheets : List Sheet) (i : Nat) (t : Sheet) : Prop :=
  SeenAmong (sheets.map Sheet.kind) i ∧ sheets[i]? = some t

/-- What a script does with frames and functions. -/
inductive FrameStep where
  | push (kind : FrameKind)
  | pop
  | define (name : String) (part : Part)

namespace FrameStep

/-- The environment after a step. -/
def apply (env : Environment) : FrameStep → Environment
  | push kind => env.push kind
  | pop => env.pop
  | define name part => env.defineFunction name part

/-- The sheets after a step, innermost first. The last one, that of the global frame, is never
removed. -/
def note : List Sheet → FrameStep → List Sheet
  | sheets, push kind => ⟨kind, []⟩ :: sheets
  | _ :: t :: sheets, pop => t :: sheets
  | sheets, pop => sheets
  | t :: sheets, define name part => t.define name part :: sheets
  | [], define .. => []

end FrameStep

/-- The environment that the steps lead to. -/
def Environment.after (steps : List FrameStep) : Environment :=
  steps.foldl FrameStep.apply .empty

/-- The sheets that the steps lead to. -/
def sheetsAfter (steps : List FrameStep) : List Sheet :=
  steps.foldl FrameStep.note [⟨.global, []⟩]

/-- The frame has the functions of the sheet, and a name only where it has parts. -/
structure Frame.Follows (f : Frame) (t : Sheet) : Prop where
  kind : f.kind = t.kind
  parts : ∀ name, f.functions.get? name = if t.named name = [] then none else some (t.named name)

namespace Frame.Follows

variable {f : Frame} {t : Sheet} {name : String}

theorem empty (kind : FrameKind) : (Frame.empty kind).Follows ⟨kind, []⟩ := ⟨rfl, fun _ ↦ rfl⟩

theorem define (h : f.Follows t) (name : String) (part : Part) :
    (Environment.addPart name part f).Follows (t.define name part) := by
  refine ⟨h.kind, fun x ↦ ?_⟩
  rw [Environment.addPart, Table.get?_put, h.parts name]
  by_cases hx : x = name
  · subst hx
    have hnew : t.named x ++ [part] ≠ [] := by simp
    rw [if_pos rfl, Sheet.named_define_self, if_neg hnew]
    split <;> simp_all
  · rw [if_neg hx, h.parts x, Sheet.named_define_of_ne (Ne.symm hx)]

theorem get?_eq_none_iff (h : f.Follows t) : f.functions.get? name = none ↔ t.named name = [] := by
  rw [h.parts]
  split <;> simp_all

/-- The part that the frame has for a call. -/
theorem bind_select? (h : f.Follows t) (arity : Nat) (scope : Scope) :
    (f.functions.get? name).bind (Part.select? · arity scope) =
      Part.select? (t.named name) arity scope := by
  rw [h.parts]
  split
  · rename_i hnil
    rw [hnil]
    rfl
  · rfl

/-- The frame has a part for a call if its sheet has one. -/
theorem answers_iff {arity : Nat} {scope : Scope} (h : f.Follows t) :
    (f.functions.get? name).bind (Part.select? · arity scope) ≠ none ↔
      t.Answers name arity scope := by
  rw [h.bind_select?, Sheet.answers_iff, Option.isSome_iff_ne_none]

end Frame.Follows

namespace Environment

variable {env : Environment} {sheets : List Sheet}

theorem follows_step (h : List.Forall₂ Frame.Follows env.frames sheets) (step : FrameStep) :
    List.Forall₂ Frame.Follows (step.apply env).frames (step.note sheets) := by
  obtain ⟨inner, global, output⟩ := env
  cases step with
  | push kind => exact .cons (.empty kind) h
  | pop =>
    match inner, h with
    | [], .cons hglobal .nil => exact .cons hglobal .nil
    | _ :: [], .cons _ (.cons hnext hrest) => exact .cons hnext hrest
    | _ :: _ :: _, .cons _ (.cons hnext hrest) => exact .cons hnext hrest
  | define name part =>
    match inner, h with
    | [], .cons hglobal .nil => exact .cons (hglobal.define name part) .nil
    | _ :: _, .cons hfirst hrest => exact .cons (hfirst.define name part) hrest

/-- The frames follow the sheets through any history. -/
theorem follows_after (steps : List FrameStep) :
    List.Forall₂ Frame.Follows (after steps).frames (sheetsAfter steps) := by
  have hrun : ∀ env sheets, List.Forall₂ Frame.Follows env.frames sheets →
      List.Forall₂ Frame.Follows (steps.foldl FrameStep.apply env).frames
        (steps.foldl FrameStep.note sheets) := by
    induction steps with
    | nil => exact fun _ _ h ↦ h
    | cons step steps ih => exact fun env sheets h ↦ ih _ _ (follows_step h step)
  exact hrun _ _ (.cons (.empty .global) .nil)

/-! ## The choice -/

theorem rel_getElem? (h : List.Forall₂ Frame.Follows env.frames sheets) (i : Nat) :
    Option.Rel Frame.Follows env.frames[i]? sheets[i]? := by
  generalize env.frames = fs at h
  induction h generalizing i with
  | nil => exact .none
  | cons hf _ ih =>
    cases i with
    | zero => exact .some hf
    | succ i => exact ih i

theorem kinds_eq_of_follows (h : List.Forall₂ Frame.Follows env.frames sheets) :
    env.kinds = sheets.map Sheet.kind := by
  rw [kinds]
  generalize env.frames = fs at h
  induction h with
  | nil => rfl
  | cons hf _ ih => rw [List.map_cons, List.map_cons, hf.kind, ih]

/-- A visible frame has a property if its sheet has the property that corresponds. -/
theorem sees_iff (h : List.Forall₂ Frame.Follows env.frames sheets) {i : Nat}
    {P : Frame → Prop} {Q : Sheet → Prop} (hPQ : ∀ f t, f.Follows t → (P f ↔ Q t)) :
    (env.SeesFrame i ∧ ∃ f ∈ env.frames[i]?, P f) ↔ ∃ t, SeesSheet sheets i t ∧ Q t := by
  have hrel := rel_getElem? h i
  simp only [SeesSheet, SeesFrame, kinds_eq_of_follows h]
  generalize env.frames[i]? = f? at hrel
  generalize sheets[i]? = t? at hrel
  cases hrel with
  | none => simp
  | some hft => simp [hPQ _ _ hft]

/-- What the visible frames have for a call. -/
def choice? (env : Environment) (name : String) (arity : Nat) (scope : Scope) : Option Part :=
  env.visible.findSome? fun f ↦ (f.functions.get? name).bind (Part.select? · arity scope)

variable {name : String} {arity : Nat} {scope : Scope} {l : Location} {p : Part}

theorem toOption_part :
    (env.part name arity scope l).toOption = env.choice? name arity scope := by
  rw [part, ← choice?]
  cases env.choice? name arity scope with
  | some q => rfl
  | none => cases env.hasFunction name <;> rfl

theorem part_eq_ok_iff :
    env.part name arity scope l = .ok p ↔ env.choice? name arity scope = some p := by
  rw [← toOption_part (l := l)]
  cases env.part name arity scope l <;> simp [Except.toOption]

theorem findSome?_visible_ne_none_iff {β : Type} {read : Frame → Option β} :
    env.visible.findSome? read ≠ none ↔
      ∃ i, env.SeesFrame i ∧ ∃ f ∈ env.frames[i]?, read f ≠ none := by
  rw [ne_eq, findSome?_visible_eq_none_iff]
  push Not
  rfl

theorem hasFunction_iff :
    env.hasFunction name = true ↔
      ∃ i, env.SeesFrame i ∧ ∃ f ∈ env.frames[i]?, f.functions.get? name ≠ none := by
  rw [← findSome?_visible_ne_none_iff, ne_eq, List.findSome?_eq_none_iff, hasFunction,
    List.any_eq_true]
  simp [Table.has, Option.isSome_iff_ne_none]

theorem hasFunction_of_choice? (h : env.choice? name arity scope ≠ none) :
    env.hasFunction name = true := by
  obtain ⟨i, hi, f, hf, hread⟩ := findSome?_visible_ne_none_iff.mp h
  exact hasFunction_iff.mpr ⟨i, hi, f, hf, fun hnone ↦ hread (by rw [hnone, Option.bind_none])⟩

theorem part_eq_undefined_iff :
    env.part name arity scope l = .error (.undefinedFunction name l) ↔
      env.hasFunction name = false := by
  rw [part, ← choice?]
  cases hchoice : env.choice? name arity scope with
  | some q => simp [hasFunction_of_choice? (hchoice ▸ Option.some_ne_none q)]
  | none => cases env.hasFunction name <;> simp

theorem part_eq_missing_iff :
    env.part name arity scope l = .error (.missingPart name arity l) ↔
      env.hasFunction name = true ∧ env.choice? name arity scope = none := by
  rw [part, ← choice?]
  cases hchoice : env.choice? name arity scope with
  | some q => simp
  | none => cases env.hasFunction name <;> simp

/-- The visible frames after a change of the innermost one. -/
theorem exists_visible_changeInnermost (env : Environment) {change : Frame → Frame}
    (hchange : ∀ f, (change f).kind = f.kind) :
    ∃ f fs, env.frames[0]? = some f ∧ env.visible = f :: fs ∧
      (env.changeInnermost change).visible = change f :: fs := by
  obtain ⟨inner, global, output⟩ := env
  cases inner with
  | nil => exact ⟨global, [], rfl, rfl, rfl⟩
  | cons f fs =>
    simp only [visible, changeInnermost, upToFunction, hchange]
    split
    · exact ⟨f, [global], rfl, rfl, rfl⟩
    · exact ⟨f, upToFunction fs ++ [global], rfl, rfl, rfl⟩

/-- Defining a part changes what the frames have for a call only if the part suits the call and no
part of the innermost frame suits it better; then it is the new part that they have. -/
theorem choice?_defineFunction_ne {f : Frame} {t : Sheet} {x : String} {q : Part}
    (hf : env.frames[0]? = some f) (ht : f.Follows t)
    (hne : (env.defineFunction x q).choice? name arity scope ≠ env.choice? name arity scope) :
    x = name ∧ (env.defineFunction x q).choice? name arity scope = some q ∧
      ∃ r, q.rank? arity scope = some r ∧
        ∀ p ∈ t.named name, ∀ k ∈ p.rank? arity scope, k ≤ r := by
  have hkind : ∀ f, (addPart x q f).kind = f.kind := fun _ ↦ rfl
  obtain ⟨g, fs, hg, hvisible, hvisible'⟩ := exists_visible_changeInnermost env hkind
  obtain rfl : f = g := Option.some.inj (hf.symm.trans hg)
  rw [choice?, defineFunction, hvisible', choice?, hvisible, List.findSome?_cons,
    List.findSome?_cons, (ht.define x q).bind_select?, ht.bind_select?] at hne
  rw [choice?, defineFunction, hvisible', List.findSome?_cons, (ht.define x q).bind_select?]
  by_cases hx : x = name
  · subst hx
    rw [Sheet.named_define_self] at hne ⊢
    cases hnew : Part.select? (t.named x ++ [q]) arity scope with
    | some p =>
      rcases Part.isBest_append_singleton (Part.select?_eq_some_iff.mp hnew) with
        ⟨rfl, hrank⟩ | hold
      · exact ⟨rfl, rfl, hrank⟩
      · rw [hnew, Part.select?_eq_some_iff.mpr hold] at hne
        exact absurd rfl hne
    | none =>
      have hold : Part.select? (t.named x) arity scope = none :=
        Part.select?_eq_none_iff.mpr fun p hp ↦
          Part.select?_eq_none_iff.mp hnew p (List.mem_append_left _ hp)
      rw [hnew, hold] at hne
      exact absurd rfl hne
  · rw [Sheet.named_define_of_ne hx] at hne
    exact absurd rfl hne

/-! ## The choice by sheets -/

section Sheets

variable (h : List.Forall₂ Frame.Follows env.frames sheets)
include h

theorem hasFunction_iff_named :
    env.hasFunction name = true ↔ ∃ i t, SeesSheet sheets i t ∧ t.named name ≠ [] := by
  rw [hasFunction_iff]
  exact exists_congr fun i ↦ sees_iff h fun f t hft ↦ hft.get?_eq_none_iff.not

theorem choice?_ne_none_iff_answers :
    env.choice? name arity scope ≠ none ↔
      ∃ i t, SeesSheet sheets i t ∧ t.Answers name arity scope :=
  findSome?_visible_ne_none_iff.trans
    (exists_congr fun _ ↦ sees_iff h fun _ _ ↦ Frame.Follows.answers_iff)

theorem choice?_eq_some_iff_isBest :
    env.choice? name arity scope = some p ↔
      ∃ i t, SeesSheet sheets i t ∧ Part.IsBest (t.named name) arity scope p ∧
        ∀ j < i, ∀ t', SeesSheet sheets j t' → ¬t'.Answers name arity scope := by
  have hbest : ∀ f t, Frame.Follows f t →
      ((f.functions.get? name).bind (Part.select? · arity scope) = some p ↔
        Part.IsBest (t.named name) arity scope p) := by
    intro f t hft
    rw [hft.bind_select?, Part.select?_eq_some_iff]
  have hanswers : ∀ f t, Frame.Follows f t →
      ((f.functions.get? name).bind (Part.select? · arity scope) ≠ none ↔
        t.Answers name arity scope) :=
    fun _ _ ↦ Frame.Follows.answers_iff
  rw [choice?, findSome?_visible_eq_some_iff]
  refine exists_congr fun i ↦ ⟨?_, ?_⟩
  · rintro ⟨hi, hread⟩
    obtain ⟨t, ht, hp⟩ := (sees_iff h hbest).mp ⟨hi.1, hread⟩
    refine ⟨t, ht, hp, fun j hj t' ht' hanswer ↦ ?_⟩
    obtain ⟨hseen, f, hf, hsome⟩ := (sees_iff h hanswers).mpr ⟨t', ht', hanswer⟩
    exact hi.2.2 j hj hseen ⟨f, hf, Option.isSome_iff_ne_none.mpr hsome⟩
  · rintro ⟨t, ht, hp, hbefore⟩
    obtain ⟨hseen, f, hf, hread⟩ := (sees_iff h hbest).mpr ⟨t, ht, hp⟩
    refine ⟨⟨hseen, ⟨f, hf, Option.isSome_of_eq_some hread⟩, ?_⟩, f, hf, hread⟩
    rintro j hj hseenj ⟨g, hg, hsome⟩
    obtain ⟨t', ht', hanswer⟩ := (sees_iff h hanswers).mp
      ⟨hseenj, g, hg, Option.isSome_iff_ne_none.mp hsome⟩
    exact hbefore j hj t' ht' hanswer

end Sheets

/-! ## The rule -/

/-- The call reaches the best part of the innermost visible frame that has a part for it. No visible
frame having the function, and some having it but none a part for the call, are two different
errors. A new part is reached only if it suits the call and no part of the innermost frame suits it
better, and otherwise it changes nothing about what is reached. -/
theorem part_after (steps : List FrameStep) (name : String) (arity : Nat) (scope : Scope)
    (l : Location) :
    (∀ p, (after steps).part name arity scope l = .ok p ↔
      ∃ i t, SeesSheet (sheetsAfter steps) i t ∧ Part.IsBest (t.named name) arity scope p ∧
        ∀ j < i, ∀ t', SeesSheet (sheetsAfter steps) j t' → ¬t'.Answers name arity scope) ∧
    ((after steps).part name arity scope l = .error (.undefinedFunction name l) ↔
      ∀ i t, SeesSheet (sheetsAfter steps) i t → t.named name = []) ∧
    ((after steps).part name arity scope l = .error (.missingPart name arity l) ↔
      (∃ i t, SeesSheet (sheetsAfter steps) i t ∧ t.named name ≠ []) ∧
        ∀ i t, SeesSheet (sheetsAfter steps) i t → ¬t.Answers name arity scope) ∧
    ∀ x q,
      ((after (steps ++ [.define x q])).part name arity scope l).toOption ≠
        ((after steps).part name arity scope l).toOption →
      x = name ∧ (after (steps ++ [.define x q])).part name arity scope l = .ok q ∧
        ∃ r, q.rank? arity scope = some r ∧ ∀ t, (sheetsAfter steps)[0]? = some t →
          ∀ p ∈ t.named name, ∀ k ∈ p.rank? arity scope, k ≤ r := by
  have hfollows := follows_after steps
  refine ⟨fun p ↦ ?_, ?_, ?_, fun x q hne ↦ ?_⟩
  · rw [part_eq_ok_iff, choice?_eq_some_iff_isBest hfollows]
  · rw [part_eq_undefined_iff, ← Bool.not_eq_true, hasFunction_iff_named hfollows]
    push Not
    rfl
  · rw [part_eq_missing_iff, hasFunction_iff_named hfollows, ← not_ne_iff,
      choice?_ne_none_iff_answers hfollows]
    push Not
    rfl
  · have hafter : after (steps ++ [.define x q]) = (after steps).defineFunction x q := by
      rw [after, List.foldl_append]
      rfl
    rw [toOption_part, toOption_part, hafter] at hne
    rw [hafter, part_eq_ok_iff]
    obtain ⟨f, hf⟩ := (seesFrame_zero (after steps)).exists_frame
    have hrel := rel_getElem? hfollows 0
    rw [hf] at hrel
    generalize (sheetsAfter steps)[0]? = t? at hrel ⊢
    cases hrel with
    | some hft =>
      obtain ⟨hx, hq, r, hr, hmax⟩ := choice?_defineFunction_ne hf hft hne
      refine ⟨hx, hq, r, hr, fun t' ht' ↦ ?_⟩
      obtain rfl := Option.some.inj ht'
      exact hmax

end Environment

end Scriptlet
