import Scriptlet.Proofs.Environment.Rewrite

/-!
# Frames by number

A frame is named by its distance from the innermost one, which has number zero; the global frame has
the greatest number. Which frames are visible depends on their kinds only, and it can be said
without walking: the global frame is, and so is any other that has no frame of a function further
in.

Reading and writing both ask for the innermost visible frame with a property. That they ask the same
frame is the content of the two characterizations below, one of the search that reading makes and
one of the change that writing makes.
-/

namespace Scriptlet

/-- Among frames of these kinds, innermost first and the global one last, the one with the number is
visible: it is the global one, or no frame of a function is further in. -/
def SeenAmong (kinds : List FrameKind) (i : Nat) : Prop :=
  i < kinds.length ∧ (i + 1 = kinds.length ∨ .function ∉ kinds.take i)

/-- The number is that of the innermost visible frame with the property. -/
def FirstSeen (kinds : List FrameKind) (p : Nat → Prop) (i : Nat) : Prop :=
  SeenAmong kinds i ∧ p i ∧ ∀ j < i, SeenAmong kinds j → ¬p j

section Kinds

variable {kind : FrameKind} {kinds : List FrameKind} {p : Nat → Prop} {i j : Nat}

theorem seenAmong_zero : SeenAmong (kind :: kinds) 0 :=
  ⟨Nat.succ_pos _, .inr List.not_mem_nil⟩

/-- A frame that is no function's hides nothing. -/
theorem seenAmong_succ (h : kind ≠ .function) :
    SeenAmong (kind :: kinds) (i + 1) ↔ SeenAmong kinds i := by
  simp [SeenAmong, Ne.symm h]

/-- Behind a function's frame only the global one is visible. -/
theorem seenAmong_function_succ :
    SeenAmong (.function :: kinds) (i + 1) ↔ i + 1 = kinds.length := by
  simp only [SeenAmong, List.length_cons, List.take_succ_cons, List.mem_cons, true_or,
    not_true_eq_false, or_false]
  omega

theorem FirstSeen.unique (hi : FirstSeen kinds p i) (hj : FirstSeen kinds p j) : i = j := by
  rcases Nat.lt_trichotomy i j with h | h | h
  · exact absurd hi.2.1 (hj.2.2 i h hi.1)
  · exact h
  · exact absurd hj.2.1 (hi.2.2 j h hj.1)

/-- If any visible frame has the property, there is an innermost one. -/
theorem exists_firstSeen (hseen : SeenAmong kinds i) (hi : p i) : ∃ j, FirstSeen kinds p j := by
  induction i using Nat.strongRecOn with
  | ind i ih =>
    by_cases h : ∃ j < i, SeenAmong kinds j ∧ p j
    · obtain ⟨j, hj, hseenj, hpj⟩ := h
      exact ih j hj hseenj hpj
    · exact ⟨i, hseen, hi, fun j hj hseenj hpj ↦ h ⟨j, hj, hseenj, hpj⟩⟩

theorem firstSeen_zero (h : p 0) : FirstSeen (kind :: kinds) p 0 :=
  ⟨seenAmong_zero, h, fun _ hj ↦ absurd hj (Nat.not_lt_zero _)⟩

/-- Where the innermost frame does not have the property, the search goes on behind it. -/
theorem firstSeen_succ (hkind : kind ≠ .function) (h : ¬p 0) :
    FirstSeen (kind :: kinds) p (i + 1) ↔ FirstSeen kinds (fun j ↦ p (j + 1)) i := by
  rw [FirstSeen, FirstSeen, seenAmong_succ hkind]
  refine and_congr_right fun _ ↦ and_congr_right fun _ ↦ ⟨fun hbefore j hj hseen ↦ ?_, ?_⟩
  · exact hbefore (j + 1) (Nat.succ_lt_succ hj) ((seenAmong_succ hkind).mpr hseen)
  · rintro hbefore (_ | j) hj hseen
    · exact h
    · exact hbefore j (Nat.lt_of_succ_lt_succ hj) ((seenAmong_succ hkind).mp hseen)

/-- Where the innermost frame is a function's and does not have the property, only the global one is
left. -/
theorem firstSeen_function_succ (h : ¬p 0) :
    FirstSeen (.function :: kinds) p (i + 1) ↔ i + 1 = kinds.length ∧ p (i + 1) := by
  rw [FirstSeen, seenAmong_function_succ]
  refine and_congr_right fun hi ↦ and_iff_left_of_imp fun _ ↦ ?_
  rintro (_ | j) hj hseen
  · exact h
  · have hlast := seenAmong_function_succ.mp hseen
    omega

end Kinds

namespace Environment

variable {env env' : Environment} {i : Nat}

/-- The frame with the number is visible. -/
def SeesFrame (env : Environment) (i : Nat) : Prop := SeenAmong env.kinds i

/-- The number is that of the innermost visible frame with the property. -/
def Innermost (env : Environment) (p : Frame → Prop) (i : Nat) : Prop :=
  FirstSeen env.kinds (fun j ↦ ∃ f ∈ env.frames[j]?, p f) i

theorem frames_cons_succ {f global : Frame} {fs : List Frame} {output : List String} :
    (frames ⟨f :: fs, global, output⟩)[i + 1]? = (frames ⟨fs, global, output⟩)[i]? := rfl

theorem frames_length (env : Environment) : env.frames[env.inner.length]? = some env.global := by
  simp [frames]

theorem SeesFrame.exists_frame (h : env.SeesFrame i) : ∃ f, env.frames[i]? = some f :=
  ⟨_, List.getElem?_eq_getElem (by simpa [kinds] using h.1)⟩

theorem seesFrame_zero (env : Environment) : env.SeesFrame 0 := by
  refine ⟨?_, .inr List.not_mem_nil⟩
  rw [length_kinds]
  exact Nat.succ_pos _

/-- The global frame is always visible. -/
theorem seesFrame_global (env : Environment) : env.SeesFrame env.inner.length := by
  have hlength : env.kinds.length = env.inner.length + 1 := length_kinds env
  exact ⟨by omega, .inl hlength.symm⟩

/-- The environment with the frame of a number changed. -/
def changeAt (env : Environment) (i : Nat) (change : Frame → Frame) : Environment :=
  { env with
    inner := env.inner.modify i change
    global := if i = env.inner.length then change env.global else env.global }

theorem changeInnermost_eq (env : Environment) (change : Frame → Frame) :
    env.changeInnermost change = env.changeAt 0 change := by
  obtain ⟨inner, global, output⟩ := env
  cases inner <;> rfl

theorem frames_changeAt (env : Environment) (i : Nat) (change : Frame → Frame) :
    (env.changeAt i change).frames = env.frames.modify i change := by
  obtain ⟨inner, global, output⟩ := env
  rw [frames, frames, changeAt]
  refine List.ext_getElem? fun j ↦ ?_
  rw [List.getElem?_modify, List.getElem?_append, List.getElem?_append, List.length_modify]
  by_cases hj : j < inner.length
  · rw [if_pos hj, if_pos hj, List.getElem?_modify]
  · rw [if_neg hj, if_neg hj]
    rcases Nat.lt_or_eq_of_le (Nat.le_of_not_lt hj) with hlt | rfl
    · rw [List.getElem?_eq_none (by simpa using by omega),
        List.getElem?_eq_none (by simpa using by omega)]
      rfl
    · by_cases hi : i = inner.length <;> simp [hi]

/-! ## Walking outward -/

section Walk

variable {f global : Frame} {fs : List Frame} {output : List String} {p : Frame → Prop}

theorem innermost_global : Innermost ⟨[], global, output⟩ p i ↔ i = 0 ∧ p global := by
  constructor
  · rintro ⟨⟨hi, -⟩, ⟨f, hf, hp⟩, -⟩
    obtain rfl : i = 0 := Nat.lt_one_iff.mp hi
    obtain rfl : global = f := Option.some.inj hf
    exact ⟨rfl, hp⟩
  · rintro ⟨rfl, hp⟩
    exact firstSeen_zero ⟨global, rfl, hp⟩

theorem innermost_zero : Innermost ⟨f :: fs, global, output⟩ p 0 ↔ p f := by
  constructor
  · rintro ⟨-, ⟨g, hg, hp⟩, -⟩
    obtain rfl : f = g := Option.some.inj hg
    exact hp
  · intro hp
    exact firstSeen_zero ⟨f, rfl, hp⟩

theorem innermost_succ (hkind : f.kind ≠ .function) :
    Innermost ⟨f :: fs, global, output⟩ p (i + 1) ↔
      ¬p f ∧ Innermost ⟨fs, global, output⟩ p i := by
  constructor
  · intro h
    have hf : ¬p f := fun hp ↦ h.2.2 0 (Nat.succ_pos i) seenAmong_zero ⟨f, rfl, hp⟩
    refine ⟨hf, (firstSeen_succ hkind ?_).mp h⟩
    rintro ⟨g, hg, hp⟩
    obtain rfl : f = g := Option.some.inj hg
    exact hf hp
  · rintro ⟨hf, h⟩
    refine (firstSeen_succ hkind ?_).mpr h
    rintro ⟨g, hg, hp⟩
    obtain rfl : f = g := Option.some.inj hg
    exact hf hp

theorem innermost_function_succ (hkind : f.kind = .function) :
    Innermost ⟨f :: fs, global, output⟩ p (i + 1) ↔ ¬p f ∧ i = fs.length ∧ p global := by
  have hkinds : kinds ⟨f :: fs, global, output⟩ =
      .function :: kinds ⟨fs, global, output⟩ := by
    rw [← hkind]
    rfl
  have hlength : (kinds ⟨fs, global, output⟩).length = fs.length + 1 := length_kinds _
  have hlast : (frames ⟨f :: fs, global, output⟩)[fs.length + 1]? = some global :=
    frames_length _
  rw [Innermost, hkinds]
  constructor
  · intro h
    have hf : ¬p f := fun hp ↦ h.2.2 0 (Nat.succ_pos i) seenAmong_zero ⟨f, rfl, hp⟩
    obtain ⟨hi, g, hg, hp⟩ := (firstSeen_function_succ fun ⟨g, hg, hp⟩ ↦
      hf (Option.some.inj hg ▸ hp)).mp h
    obtain rfl : i = fs.length := by omega
    rw [hlast] at hg
    exact ⟨hf, rfl, Option.some.inj hg ▸ hp⟩
  · rintro ⟨hf, rfl, hp⟩
    refine (firstSeen_function_succ fun ⟨g, hg, hp⟩ ↦ hf (Option.some.inj hg ▸ hp)).mpr ?_
    exact ⟨hlength.symm, global, hlast, hp⟩

end Walk

/-! ## Reading -/

/-- A search through the visible frames finds what the innermost frame gives that gives anything. -/
theorem findSome?_visible_eq_some_iff {β : Type} {read : Frame → Option β} {b : β} :
    env.visible.findSome? read = some b ↔
      ∃ i, env.Innermost (fun f ↦ (read f).isSome) i ∧ ∃ f ∈ env.frames[i]?, read f = some b := by
  obtain ⟨inner, global, output⟩ := env
  rw [visible]
  induction inner with
  | nil =>
    rw [upToFunction, List.nil_append, List.findSome?_singleton]
    constructor
    · intro h
      exact ⟨0, innermost_global.mpr ⟨rfl, Option.isSome_of_eq_some h⟩, global, rfl, h⟩
    · rintro ⟨i, hi, f, hf, h⟩
      obtain ⟨rfl, -⟩ := innermost_global.mp hi
      obtain rfl : global = f := Option.some.inj hf
      exact h
  | cons f fs ih =>
    rw [upToFunction, ← Nat.or_exists_add_one]
    cases hread : read f with
    | some a =>
      -- the innermost frame decides
      have hhead : (if f.kind = .function then [f] else f :: upToFunction fs) =
          f :: if f.kind = .function then [] else upToFunction fs := by
        split <;> rfl
      rw [hhead, List.cons_append, List.findSome?_cons, hread]
      constructor
      · intro h
        exact .inl ⟨innermost_zero.mpr (by simp [hread]), f, rfl, hread.trans h⟩
      · rintro (⟨-, g, hg, h⟩ | ⟨i, hi, -⟩)
        · obtain rfl : f = g := Option.some.inj hg
          exact hread.symm.trans h
        · exact absurd ⟨f, rfl, by simp [hread]⟩ (hi.2.2 0 (Nat.succ_pos i) seenAmong_zero)
    | none =>
      have hzero : ¬(read f).isSome = true := by simp [hread]
      have hf : ¬Innermost ⟨f :: fs, global, output⟩ (fun f ↦ (read f).isSome) 0 :=
        fun h ↦ hzero (innermost_zero.mp h)
      rw [or_iff_right fun h ↦ hf h.1]
      by_cases hkind : f.kind = .function
      · rw [if_pos hkind, List.singleton_append, List.findSome?_cons, hread,
          List.findSome?_singleton]
        simp only [innermost_function_succ hkind]
        constructor
        · intro h
          exact ⟨fs.length, ⟨hzero, rfl, Option.isSome_of_eq_some h⟩, global, frames_length _, h⟩
        · rintro ⟨i, ⟨-, rfl, -⟩, g, hg, h⟩
          rw [frames_cons_succ] at hg
          obtain rfl := Option.some.inj ((frames_length _).symm.trans hg)
          exact h
      · rw [if_neg hkind, List.cons_append, List.findSome?_cons, hread]
        simp only [innermost_succ hkind, hzero, Bool.false_eq_true, not_false_eq_true, true_and]
        exact ih

/-- A search through the visible frames finds nothing if none of them gives anything. -/
theorem findSome?_visible_eq_none_iff {β : Type} {read : Frame → Option β} :
    env.visible.findSome? read = none ↔
      ∀ i, env.SeesFrame i → ∀ f ∈ env.frames[i]?, read f = none := by
  rw [← not_iff_not, ← ne_eq, Option.ne_none_iff_exists']
  push Not
  constructor
  · rintro ⟨b, hb⟩
    obtain ⟨i, hi, f, hf, h⟩ := findSome?_visible_eq_some_iff.mp hb
    exact ⟨i, hi.1, f, hf, by simp [h]⟩
  · rintro ⟨i, hi, f, hf, h⟩
    have hsome : (read f).isSome := Option.isSome_iff_ne_none.mpr h
    obtain ⟨j, hj⟩ := exists_firstSeen (p := fun j ↦ ∃ f ∈ env.frames[j]?, (read f).isSome) hi
      ⟨f, hf, hsome⟩
    obtain ⟨g, hg, hread⟩ := hj.2.1
    obtain ⟨b, hb⟩ := Option.isSome_iff_exists.mp hread
    exact ⟨b, findSome?_visible_eq_some_iff.mpr ⟨j, hj, g, hg, hb⟩⟩

/-! ## Writing -/

section Walk

variable {f global : Frame} {fs : List Frame} {output : List String} {p : Frame → Bool}
  {change : Frame → Frame}

theorem changeVisible?_function (hp : ¬p f) (hkind : f.kind = .function) :
    changeVisible? ⟨f :: fs, global, output⟩ p change =
      if p global then some ⟨f :: fs, change global, output⟩ else none := by
  simp [changeVisible?, changeUpToFunction, hp, hkind]

theorem changeVisible?_block (hp : ¬p f) (hkind : f.kind ≠ .function) :
    changeVisible? ⟨f :: fs, global, output⟩ p change =
      (changeVisible? ⟨fs, global, output⟩ p change).map
        fun e ↦ { e with inner := f :: e.inner } := by
  simp only [changeVisible?, changeUpToFunction, hp, hkind, if_false, Bool.false_eq_true]
  cases changeUpToFunction p change fs with
  | some fs' => rfl
  | none => by_cases hg : p global <;> simp [hg]

end Walk

/-- What is changed is the innermost visible frame with the property. -/
theorem changeVisible?_eq_some_iff {p : Frame → Bool} {change : Frame → Frame} :
    env.changeVisible? p change = some env' ↔
      ∃ i, env.Innermost (fun f ↦ p f) i ∧ env' = env.changeAt i change := by
  obtain ⟨inner, global, output⟩ := env
  induction inner generalizing env' with
  | nil =>
    simp only [innermost_global]
    by_cases hp : p global <;> simp [changeVisible?, changeUpToFunction, changeAt, hp, eq_comm]
  | cons f fs ih =>
    by_cases hp : p f
    · have hhead : changeVisible? ⟨f :: fs, global, output⟩ p change =
          some (changeAt ⟨f :: fs, global, output⟩ 0 change) := by
        simp [changeVisible?, changeUpToFunction, changeAt, hp]
      rw [hhead, Option.some.injEq]
      constructor
      · rintro rfl
        exact ⟨0, innermost_zero.mpr hp, rfl⟩
      · rintro ⟨i, hi, rfl⟩
        rw [hi.unique (innermost_zero.mpr hp)]
    · have hzero : ∀ i, Innermost ⟨f :: fs, global, output⟩ (fun f ↦ p f) i → ∃ j, i = j + 1 := by
        rintro (_ | j) hi
        · exact absurd (innermost_zero.mp hi) hp
        · exact ⟨j, rfl⟩
      -- past the frame of a function there is only the global one to look at
      by_cases hkind : f.kind = .function
      · rw [changeVisible?_function hp hkind]
        constructor
        · intro h
          by_cases hg : p global
          · rw [if_pos hg] at h
            refine ⟨fs.length + 1, (innermost_function_succ hkind).mpr ⟨hp, rfl, hg⟩, ?_⟩
            simp [← Option.some.inj h, changeAt, List.modify_eq_self]
          · simp [hg] at h
        · rintro ⟨i, hi, rfl⟩
          obtain ⟨j, rfl⟩ := hzero i hi
          obtain ⟨-, rfl, hg⟩ := (innermost_function_succ hkind).mp hi
          rw [if_pos hg]
          simp [changeAt, List.modify_eq_self]
      · rw [changeVisible?_block hp hkind, Option.map_eq_some_iff]
        constructor
        · rintro ⟨e, he, rfl⟩
          obtain ⟨i, hi, rfl⟩ := ih.mp he
          exact ⟨i + 1, (innermost_succ hkind).mpr ⟨hp, hi⟩, by simp [changeAt]⟩
        · rintro ⟨i, hi, rfl⟩
          obtain ⟨j, rfl⟩ := hzero i hi
          obtain ⟨-, hj⟩ := (innermost_succ hkind).mp hi
          exact ⟨_, ih.mpr ⟨j, hj, rfl⟩, by simp [changeAt]⟩

/-- Nothing is changed if no visible frame has the property. -/
theorem changeVisible?_eq_none_iff {p : Frame → Bool} {change : Frame → Frame} :
    env.changeVisible? p change = none ↔ ∀ i, env.SeesFrame i → ∀ f ∈ env.frames[i]?, ¬p f := by
  rw [Option.eq_none_iff_forall_not_mem]
  constructor
  · intro h i hi f hf hp
    obtain ⟨j, hj⟩ := exists_firstSeen (p := fun j ↦ ∃ f ∈ env.frames[j]?, p f) hi ⟨f, hf, hp⟩
    exact h _ (changeVisible?_eq_some_iff.mpr ⟨j, hj, rfl⟩)
  · intro h env' henv
    obtain ⟨i, hi, -⟩ := changeVisible?_eq_some_iff.mp henv
    obtain ⟨f, hf, hp⟩ := hi.2.1
    exact h i hi.1 f hf hp

end Environment

end Scriptlet
