import Scriptlet.Proofs.Bind.Evidence
import Scriptlet.Registry.Primitive
import Mathlib.Data.List.Lex
import Mathlib.Data.List.MinMax
import Mathlib.Order.BooleanAlgebra.Basic

/-!
# The first of the best overloads

The choice among overloads is made in one pass that keeps the best candidate so far. What comes out
of it is said here without the pass: every candidate that fits has a row of answers, one per
argument and `true` where the argument fits as it is; rows are compared from the left; and the
choice is a candidate with the greatest row, the earliest one if there are several.

The comparison in the pass looks at rows of conversions and not at such answers, and it only agrees
with the order from the left on rows of equal length. That is why candidates with another number of
parameters have to be gone before the pass, and why the length of the best row so far is carried
through the induction.
-/

namespace Scriptlet

/-! ## The first maximum of a list -/

/-- The first maximum cuts the list: what stands before it is smaller, what stands behind it is not
greater. -/
theorem argmax_eq_some_iff_split {α β : Type} [LinearOrder β] [dec : DecidableLT β] {f : α → β}
    {as : List α} {m : α} :
    as.argmax f = some m ↔ ∃ before behind, as = before ++ m :: behind ∧
      (∀ a ∈ before, f a < f m) ∧ ∀ a ∈ behind, f a ≤ f m := by
  -- lists decide their order by an instance of their own, the library states its laws for another
  obtain rfl : dec = LinearOrder.toDecidableLT := Subsingleton.elim _ _
  induction as generalizing m with
  | nil => simp
  | cons a as ih =>
    rw [List.argmax_cons]
    rcases hc : as.argmax f with _ | c
    · rw [List.argmax_eq_none] at hc
      subst hc
      simp only [Option.some.injEq, List.cons_eq_append_iff, List.nil_eq_append_iff]
      constructor
      · rintro rfl
        exact ⟨[], [], .inl ⟨rfl, rfl⟩, by simp, by simp⟩
      · rintro ⟨before, behind, ⟨rfl, h⟩ | ⟨_, -, -, h⟩, -, -⟩
        · exact (List.cons.inj h).1.symm
        · cases h
    · constructor
      · intro h
        by_cases hlt : f a < f c
        · obtain rfl : c = m := by simpa [hlt] using h
          obtain ⟨before, behind, rfl, hbefore, hbehind⟩ := ih.mp hc
          exact ⟨a :: before, behind, rfl, List.forall_mem_cons.mpr ⟨hlt, hbefore⟩, hbehind⟩
        · obtain rfl : a = m := by simpa [hlt] using h
          refine ⟨[], as, rfl, by simp, fun b hb ↦ ?_⟩
          exact (List.le_of_mem_argmax hb hc).trans (le_of_not_gt hlt)
      · rintro ⟨_ | ⟨b, before⟩, behind, heq, hbefore, hbehind⟩
        · obtain ⟨rfl, rfl⟩ := List.cons.inj heq
          have hle : ¬f a < f c := not_lt_of_ge (hbehind c (List.argmax_mem hc))
          simp [hle]
        · obtain ⟨rfl, rfl⟩ := List.cons.inj heq
          have hm := ih.mpr ⟨before, behind, rfl, (List.forall_mem_cons.mp hbefore).2, hbehind⟩
          obtain rfl : c = m := Option.some.inj (hc.symm.trans hm)
          simp [(List.forall_mem_cons.mp hbefore).1]

namespace Candidate

variable {κ : Type} {r : Registry} {args : List Ty} {name : String} {l : Location}
  {candidates : List (Candidate κ)}

/-! ## Candidates that apply, and their rows -/

/-- The candidate takes as many arguments as there are, and the arguments fit its parameters in
these ways, one by one and in order. -/
def Applies (r : Registry) (args : List Ty) (c : Candidate κ) (cs : Conversions) : Prop :=
  c.params.length = args.length ∧ (args.zip c.params).map (fun p ↦ r.fit p.1 p.2) = cs.map some

/-- Place by place, whether the argument fits as it is. -/
def exactness (cs : Conversions) : List Bool := cs.map Option.isNone

/-- The choice: what fits an earlier candidate has a smaller row, and what fits a later one a row
that is not greater. -/
def FirstBest (r : Registry) (args : List Ty) (candidates : List (Candidate κ))
    (w : κ × Conversions) : Prop :=
  ∃ before c behind, candidates = before ++ c :: behind ∧ c.key = w.1 ∧ c.Applies r args w.2 ∧
    (∀ b ∈ before, ∀ cs, b.Applies r args cs → exactness cs < exactness w.2) ∧
    ∀ b ∈ behind, ∀ cs, b.Applies r args cs → exactness cs ≤ exactness w.2

theorem Applies.length_eq {c : Candidate κ} {cs : Conversions} (h : c.Applies r args cs) :
    cs.length = args.length := by
  have hlen := congrArg List.length h.2
  rw [List.length_map, List.length_map, List.length_zip, h.1, Nat.min_self] at hlen
  exact hlen.symm

/-- On rows of equal length the comparison of the pass is the order from the left. -/
theorem better_iff {mine theirs : Conversions} (h : mine.length = theirs.length) :
    better mine theirs = true ↔ exactness theirs < exactness mine := by
  induction mine generalizing theirs with
  | nil =>
    obtain rfl := List.length_eq_zero_iff.mp h.symm
    simp [better, exactness]
  | cons a mine ih =>
    obtain _ | ⟨b, theirs⟩ := theirs
    · cases h
    · have ih := ih (Nat.succ.inj h)
      simp only [exactness, List.map_cons, List.cons_lt_cons_iff] at ih ⊢
      rcases a with _ | a <;> rcases b with _ | b <;> simp [better, ih]

/-! ## The pass -/

/-- What a candidate contributes to the pass. -/
def fits? (r : Registry) (args : List Ty) (c : Candidate κ) : Option (κ × Conversions) :=
  if c.params.length = args.length then (r.fitAll args c.params).map (c.key, ·) else none

theorem fitAll_eq_some_iff {params : List Ty} {cs : Conversions} :
    r.fitAll args params = some cs ↔
      (args.zip params).map (fun p ↦ r.fit p.1 p.2) = cs.map some := by
  induction args generalizing params cs with
  | nil => simp [Registry.fitAll, @eq_comm _ []]
  | cons a as ih =>
    obtain _ | ⟨p, ps⟩ := params
    · simp [Registry.fitAll, @eq_comm _ []]
    · simp only [Registry.fitAll, Option.bind_eq_bind, Option.bind_eq_some_iff, ih,
        List.zip_cons_cons, List.map_cons]
      constructor
      · rintro ⟨c, hc, cs', hcs, hret⟩
        obtain rfl := Option.some.inj hret
        rw [hc, hcs, List.map_cons]
      · intro h
        obtain _ | ⟨c, cs⟩ := cs
        · cases h
        · obtain ⟨hc, hcs⟩ := List.cons.inj h
          exact ⟨c, hc, cs, hcs, rfl⟩

theorem fits?_eq_some_iff {c : Candidate κ} {w : κ × Conversions} :
    c.fits? r args = some w ↔ c.key = w.1 ∧ c.Applies r args w.2 := by
  rw [fits?, Applies, ← fitAll_eq_some_iff]
  by_cases hlen : c.params.length = args.length
  · rw [if_pos hlen, Option.map_eq_some_iff]
    constructor
    · rintro ⟨cs, hcs, rfl⟩
      exact ⟨rfl, hlen, hcs⟩
    · rintro ⟨hkey, -, hcs⟩
      exact ⟨w.2, hcs, by rw [hkey]⟩
  · simp [hlen]

theorem fits?_of_applies {c : Candidate κ} {cs : Conversions} (h : c.Applies r args cs) :
    c.fits? r args = some (c.key, cs) :=
  fits?_eq_some_iff.mpr ⟨rfl, h⟩

/-- The pass is a search for the first maximum among what the candidates contribute. -/
theorem best_eq_foldl {sofar : Option (κ × Conversions)}
    (hsofar : ∀ w ∈ sofar, w.2.length = args.length) :
    best r args sofar (candidates.filter fun c ↦ c.params.length == args.length) =
      (candidates.filterMap (fits? r args)).foldl
        (List.argAux fun b c ↦ exactness c.2 < exactness b.2) sofar := by
  induction candidates generalizing sofar with
  | nil => rfl
  | cons c candidates ih =>
    by_cases hlen : c.params.length = args.length
    · rw [List.filter_cons_of_pos (by simpa using hlen), best]
      rcases hfits : r.fitAll args c.params with _ | fits
      · rw [List.filterMap_cons_none (by rw [fits?, if_pos hlen, hfits, Option.map_none])]
        exact ih hsofar
      · have hc : c.fits? r args = some (c.key, fits) := by
          rw [fits?, if_pos hlen, hfits, Option.map_some]
        have hlength : fits.length = args.length := (fits?_eq_some_iff.mp hc).2.length_eq
        rw [List.filterMap_cons_some hc, List.foldl_cons]
        obtain _ | ⟨key, old⟩ := sofar
        · exact ih (by simpa using hlength)
        · have hold : old.length = args.length := hsofar _ rfl
          by_cases hbetter : exactness old < exactness fits
          · have hpass := (better_iff (hlength.trans hold.symm)).mpr hbetter
            simp only [hpass, if_true, List.argAux, if_pos hbetter]
            exact ih (by simpa using hlength)
          · have hpass := mt (better_iff (hlength.trans hold.symm)).mp hbetter
            simp only [hpass, Bool.false_eq_true, if_false, List.argAux, if_neg hbetter]
            exact ih hsofar
    · rw [List.filter_cons_of_neg (by simpa using hlen),
        List.filterMap_cons_none (by rw [fits?, if_neg hlen])]
      exact ih hsofar

/-- The first of those with the greatest row, if any candidate applies. -/
def winner? (r : Registry) (args : List Ty) (candidates : List (Candidate κ)) :
    Option (κ × Conversions) :=
  (candidates.filterMap (fits? r args)).argmax fun w ↦ exactness w.2

/-- The choice is the winner, told from the two ways in which there is none. -/
theorem select_eq : select r name candidates args l =
    if ∀ c ∈ candidates, c.params.length ≠ args.length then
      .error (.overloadNotFound name args.length l)
    else
      match winner? r args candidates with
      | some w => .ok w
      | none => .error (.argumentTypeMismatch name args l) := by
  have hnone : ∀ w ∈ (none : Option (κ × Conversions)), w.2.length = args.length := by simp
  have hempty : (candidates.filter fun c ↦ c.params.length == args.length).isEmpty = true ↔
      ∀ c ∈ candidates, c.params.length ≠ args.length := by
    simp only [List.isEmpty_iff, List.filter_eq_nil_iff, beq_iff_eq, ne_eq]
  rw [select, best_eq_foldl hnone]
  exact if_congr hempty rfl rfl

theorem winner?_eq_none_iff :
    winner? r args candidates = none ↔ ∀ c ∈ candidates, ∀ cs, ¬c.Applies r args cs := by
  rw [winner?, List.argmax_eq_none, List.filterMap_eq_nil_iff]
  constructor
  · intro h c hc cs hcs
    have hfits := fits?_of_applies hcs
    rw [h c hc] at hfits
    cases hfits
  · intro h c hc
    rw [Option.eq_none_iff_forall_ne_some]
    intro w hw
    exact h c hc w.2 (fits?_eq_some_iff.mp hw).2

theorem winner?_eq_some_iff {w : κ × Conversions} :
    winner? r args candidates = some w ↔ FirstBest r args candidates w := by
  rw [winner?, argmax_eq_some_iff_split]
  constructor
  · rintro ⟨before, behind, heq, hbefore, hbehind⟩
    -- the cut of those that fit is a cut of all candidates, those that do not fit included
    obtain ⟨front, back, rfl, rfl, hback⟩ := List.filterMap_eq_append_iff.mp heq
    obtain ⟨skipped, c, rest, rfl, hskipped, hc, rfl⟩ := List.filterMap_eq_cons_iff.mp hback
    obtain ⟨hkey, happlies⟩ := fits?_eq_some_iff.mp hc
    refine ⟨front ++ skipped, c, rest, by simp, hkey, happlies, ?_, ?_⟩
    · intro b hb cs hcs
      have hfits := fits?_of_applies hcs
      rcases List.mem_append.mp hb with hb | hb
      · exact hbefore _ (List.mem_filterMap.mpr ⟨b, hb, hfits⟩)
      · rw [hskipped b hb] at hfits
        cases hfits
    · intro b hb cs hcs
      exact hbehind _ (List.mem_filterMap.mpr ⟨b, hb, fits?_of_applies hcs⟩)
  · rintro ⟨before, c, behind, rfl, hkey, happlies, hbefore, hbehind⟩
    have hc : c.fits? r args = some w := fits?_eq_some_iff.mpr ⟨hkey, happlies⟩
    refine ⟨before.filterMap (fits? r args), behind.filterMap (fits? r args), ?_, ?_, ?_⟩
    · rw [List.filterMap_append, List.filterMap_cons_some hc]
    · intro v hv
      obtain ⟨b, hb, hfits⟩ := List.mem_filterMap.mp hv
      exact hbefore b hb v.2 (fits?_eq_some_iff.mp hfits).2
    · intro v hv
      obtain ⟨b, hb, hfits⟩ := List.mem_filterMap.mp hv
      exact hbehind b hb v.2 (fits?_eq_some_iff.mp hfits).2

/-! ## The three outcomes -/

theorem select_eq_overloadNotFound_iff :
    select r name candidates args l = .error (.overloadNotFound name args.length l) ↔
      ∀ c ∈ candidates, c.params.length ≠ args.length := by
  rw [select_eq]
  split
  · rename_i hnone
    exact iff_of_true rfl hnone
  · rename_i hsome
    refine iff_of_false ?_ hsome
    split <;> simp

theorem select_eq_ok_iff {w : κ × Conversions} :
    select r name candidates args l = .ok w ↔ FirstBest r args candidates w := by
  rw [select_eq, ← winner?_eq_some_iff]
  split
  · rename_i hnone
    have hwinner : winner? r args candidates = none :=
      winner?_eq_none_iff.mpr fun c hc cs hcs ↦ hnone c hc hcs.1
    simp [hwinner]
  · rcases winner? r args candidates with _ | v <;> simp

theorem select_eq_argumentTypeMismatch_iff :
    select r name candidates args l = .error (.argumentTypeMismatch name args l) ↔
      (∃ c ∈ candidates, c.params.length = args.length) ∧
        ∀ c ∈ candidates, ∀ cs, ¬c.Applies r args cs := by
  rw [select_eq]
  split
  · rename_i hnone
    refine iff_of_false (by simp) ?_
    rintro ⟨⟨c, hc, hlen⟩, -⟩
    exact hnone c hc hlen
  · rename_i hsome
    push Not at hsome
    rw [← winner?_eq_none_iff]
    rcases winner? r args candidates with _ | v
    · exact iff_of_true rfl ⟨hsome, rfl⟩
    · exact iff_of_false (by simp) (by simp)

theorem select_outcome (r : Registry) (name : String) (args : List Ty) (l : Location)
    (candidates : List (Candidate κ)) :
    select r name candidates args l = .error (.overloadNotFound name args.length l) ∨
      select r name candidates args l = .error (.argumentTypeMismatch name args l) ∨
      ∃ w, select r name candidates args l = .ok w := by
  rw [select_eq]
  split
  · exact .inl rfl
  · split
    · exact .inr (.inr ⟨_, rfl⟩)
    · exact .inr (.inl rfl)

/-- One candidate that applies is enough for there to be a choice. -/
theorem exists_select_eq_ok (name : String) (l : Location) {c : Candidate κ} {cs : Conversions}
    (hc : c ∈ candidates) (hcs : c.Applies r args cs) :
    ∃ w, select r name candidates args l = .ok w := by
  rcases select_outcome r name args l candidates with hnone | hmismatch | hok
  · exact absurd hcs.1 (select_eq_overloadNotFound_iff.mp hnone c hc)
  · exact absurd hcs ((select_eq_argumentTypeMismatch_iff.mp hmismatch).2 c hc cs)
  · exact hok

/-! ## What the choice does not depend on -/

theorem FirstBest.applies {w : κ × Conversions} (h : FirstBest r args candidates w) :
    ∃ c ∈ candidates, c.Applies r args w.2 := by
  obtain ⟨before, c, behind, rfl, -, happlies, -, -⟩ := h
  exact ⟨c, by simp, happlies⟩

/-- No candidate has a greater row than the choice. -/
theorem FirstBest.exactness_le {w : κ × Conversions} (h : FirstBest r args candidates w)
    {c : Candidate κ} {cs : Conversions} (hc : c ∈ candidates) (hcs : c.Applies r args cs) :
    exactness cs ≤ exactness w.2 := by
  obtain ⟨before, d, behind, rfl, -, happlies, hbefore, hbehind⟩ := h
  rcases List.mem_append.mp hc with hc | hc
  · exact (hbefore c hc cs hcs).le
  · rcases List.mem_cons.mp hc with rfl | hc
    · have hsame : cs.map some = w.2.map some := hcs.2.symm.trans happlies.2
      rw [List.map_injective_iff.mpr (Option.some_injective _) hsame]
    · exact hbehind c hc cs hcs

/-- The order of the candidates decides between equals only: the row of the choice, like the way in
which there is none, stays the same. -/
theorem map_exactness_select_of_perm {others : List (Candidate κ)} (h : candidates.Perm others) :
    (select r name candidates args l).map (fun w ↦ exactness w.2) =
      (select r name others args l).map fun w ↦ exactness w.2 := by
  rcases select_outcome r name args l candidates with hnone | hmismatch | ⟨w, hw⟩
  · have hothers := select_eq_overloadNotFound_iff.mp hnone
    simp only [h.mem_iff] at hothers
    rw [hnone, select_eq_overloadNotFound_iff.mpr hothers]
  · have hothers := select_eq_argumentTypeMismatch_iff.mp hmismatch
    simp only [h.mem_iff] at hothers
    rw [hmismatch, select_eq_argumentTypeMismatch_iff.mpr hothers]
  · have hfirst := select_eq_ok_iff.mp hw
    obtain ⟨c, hc, hcs⟩ := hfirst.applies
    obtain ⟨v, hv⟩ := exists_select_eq_ok name l (h.mem_iff.mp hc) hcs
    have hother := select_eq_ok_iff.mp hv
    obtain ⟨d, hd, hds⟩ := hother.applies
    have hrow : exactness w.2 = exactness v.2 := le_antisymm
      (hother.exactness_le (h.mem_iff.mp hc) hcs) (hfirst.exactness_le (h.mem_iff.mpr hd) hds)
    rw [hw, hv, Except.map, Except.map, hrow]

theorem FirstBest.append {w : κ × Conversions} (h : FirstBest r args candidates w)
    {c : Candidate κ} (hc : ∀ cs, c.Applies r args cs → ¬exactness w.2 < exactness cs) :
    FirstBest r args (candidates ++ [c]) w := by
  obtain ⟨before, d, behind, rfl, hkey, happlies, hbefore, hbehind⟩ := h
  refine ⟨before, d, behind ++ [c], by simp, hkey, happlies, hbefore, fun b hb cs hcs ↦ ?_⟩
  rcases List.mem_append.mp hb with hb | hb
  · exact hbehind b hb cs hcs
  · obtain rfl := List.mem_singleton.mp hb
    exact le_of_not_gt (hc cs hcs)

/-- Selection in full. There is no candidate with the number of arguments, or there is one but none
applies, or the result is the earliest one that applies among those with the greatest row, together
with the ways in which the arguments fit it. So the row does not depend on the order of the
candidates, and one more candidate at the end changes nothing unless its row is greater. -/
theorem select_eq_first_best (r : Registry) (name : String) (args : List Ty) (l : Location)
    (candidates : List (Candidate κ)) :
    (select r name candidates args l = .error (.overloadNotFound name args.length l) ↔
      ∀ c ∈ candidates, c.params.length ≠ args.length) ∧
    (select r name candidates args l = .error (.argumentTypeMismatch name args l) ↔
      (∃ c ∈ candidates, c.params.length = args.length) ∧
        ∀ c ∈ candidates, ∀ cs, ¬c.Applies r args cs) ∧
    ((∃ c ∈ candidates, ∃ cs, c.Applies r args cs) ↔
      ∃ w, select r name candidates args l = .ok w) ∧
    (∀ w, select r name candidates args l = .ok w ↔ FirstBest r args candidates w) ∧
    (∀ others, candidates.Perm others →
      (select r name candidates args l).map (fun w ↦ exactness w.2) =
        (select r name others args l).map fun w ↦ exactness w.2) ∧
    ∀ w c, select r name candidates args l = .ok w →
      (∀ cs, c.Applies r args cs → ¬exactness w.2 < exactness cs) →
        select r name (candidates ++ [c]) args l = .ok w := by
  refine ⟨select_eq_overloadNotFound_iff, select_eq_argumentTypeMismatch_iff, ⟨?_, ?_⟩,
    fun w ↦ select_eq_ok_iff, fun others h ↦ map_exactness_select_of_perm h, ?_⟩
  · rintro ⟨c, hc, cs, hcs⟩
    exact exists_select_eq_ok name l hc hcs
  · rintro ⟨w, hw⟩
    obtain ⟨c, hc, hcs⟩ := (select_eq_ok_iff.mp hw).applies
    exact ⟨c, hc, w.2, hcs⟩
  · intro w c hw hc
    exact select_eq_ok_iff.mpr ((select_eq_ok_iff.mp hw).append hc)

/-- Of four meanings for two whole numbers the third is chosen: it is the first of two that take the
first number as it is. A fifth that takes neither number as it is changes nothing, and the other way
round the row of the choice is the same, though the choice is the other one. -/
theorem select_two_ints :
    let meanings : List (Candidate ℕ) :=
      [⟨0, [.int]⟩, ⟨1, [.double, .int]⟩, ⟨2, [.int, .double]⟩, ⟨3, [.int, .float]⟩]
    let pick (candidates : List (Candidate ℕ)) :=
      select Registry.primitive "Max" candidates [.int, .int] ⟨1, 1⟩
    let widened : ℕ × Conversions := (2, [none, some ⟨⟨.int, 21, false⟩, .int, .double, true⟩])
    pick meanings = .ok widened ∧ pick (meanings ++ [⟨4, [.double, .double]⟩]) = .ok widened ∧
      (pick meanings.reverse).map (fun w ↦ exactness w.2) = .ok [true, false] ∧
      pick meanings.reverse ≠ .ok widened := by
  intro meanings pick widened
  have hspec := select_eq_first_best Registry.primitive "Max" [.int, .int] ⟨1, 1⟩ meanings
  have hpick : pick meanings = .ok widened := by decide +kernel
  refine ⟨hpick, hspec.2.2.2.2.2 widened _ hpick ?_, ?_, by decide +kernel⟩
  · rintro cs ⟨-, hcs⟩
    have hboth : ([Ty.int, .int].zip [.double, .double]).map
          (fun p ↦ Registry.primitive.fit p.1 p.2) =
        [some ⟨⟨.int, 21, false⟩, .int, .double, true⟩,
          some ⟨⟨.int, 21, false⟩, .int, .double, true⟩].map some := by decide +kernel
    obtain rfl := List.map_injective_iff.mpr (Option.some_injective _) (hboth.symm.trans hcs)
    decide
  · exact (hspec.2.2.2.2.1 _ meanings.reverse_perm.symm).symm.trans
      (congrArg (Except.map fun w ↦ exactness w.2) hpick)

end Candidate

end Scriptlet
