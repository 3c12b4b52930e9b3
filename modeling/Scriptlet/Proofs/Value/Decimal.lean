import Scriptlet.Proofs.Token.Literal
import Scriptlet.Proofs.Whole
import Scriptlet.Value.Convert

/-!
# Whole numbers and their texts

A text is converted to a whole number by its digits: one sign may stand before them, blanks may
stand around both, and any number of leading zeros is read. The exact value decides whether there is
a whole number, so the two ends of the range, which differ in magnitude by one, need no rule of
their own. The text that a whole number is converted to is one of these, and so it is read back as
the number, also where the number has no opposite.
-/

namespace Scriptlet

/-! ## Blanks -/

namespace Text

theorem isBlank_of_isDigit {c : Char} (h : c.isDigit) : isBlank c = false := by
  have hcode : 48 ≤ c.toNat ∧ c.toNat ≤ 57 := by simpa [Char.isDigit_iff_toNat] using h
  simp only [isBlank, inRanges, blankRanges, List.any_cons, List.any_nil, Bool.or_eq_false_iff,
    Bool.and_eq_false_iff, decide_eq_false_iff_not, and_true]
  omega

theorem trim_eq_self {cs : List Char} (h : ∀ c ∈ cs, isBlank c = false) : trim cs = cs := by
  have hdrop : ∀ ds : List Char, (∀ c ∈ ds, isBlank c = false) → ds.dropWhile isBlank = ds := by
    intro ds hds
    cases ds with
    | nil => rfl
    | cons d ds => rw [List.dropWhile_cons_of_neg (by simp [hds d List.mem_cons_self])]
  have hreverse : ∀ c ∈ cs.reverse, isBlank c = false := fun c hc ↦ h c (List.mem_reverse.mp hc)
  rw [trim, hdrop cs h, hdrop cs.reverse hreverse, List.reverse_reverse]

end Text

/-! ## Digits behind a sign -/

namespace Whole

/-- The text writes the integer: decimal digits, at least one, with a sign before them or none. -/
inductive Writes : List Char → Int → Prop where
  | unsigned {ds : List Char} (hne : ds ≠ []) (hds : ∀ d ∈ ds, d.isDigit) :
      Writes ds (numeral 10 ds)
  | plus {ds : List Char} (hne : ds ≠ []) (hds : ∀ d ∈ ds, d.isDigit) :
      Writes ('+' :: ds) (numeral 10 ds)
  | minus {ds : List Char} (hne : ds ≠ []) (hds : ∀ d ∈ ds, d.isDigit) :
      Writes ('-' :: ds) (-numeral 10 ds)

variable {cs : List Char} {i : Int} {n : Int64}

theorem ofInt?_eq_some_iff : ofInt? i = some n ↔ n.toInt = i := by
  refine ⟨toInt_of_ofInt?, ?_⟩
  rintro rfl
  exact ofInt?_toInt n

theorem ofInt?_eq_none_iff : ofInt? i = none ↔ ¬Fits i := by
  refine ⟨fun h hfits ↦ ?_, ofInt?_of_not_fits⟩
  obtain ⟨m, hm, -⟩ := ofInt?_of_fits hfits
  rw [h] at hm
  cases hm

/-- What a text writes is its value, if that fits. -/
theorem Writes.ofText?_eq (h : Writes cs i) : ofText? cs = ofInt? i := by
  cases h with
  | unsigned hne hds =>
    -- a digit is neither of the signs
    obtain ⟨d, ds, rfl⟩ := List.exists_cons_of_ne_nil hne
    have hd : d.isDigit := hds d List.mem_cons_self
    have hminus : d ≠ '-' := by rintro rfl; exact absurd hd (by decide)
    have hplus : d ≠ '+' := by rintro rfl; exact absurd hd (by decide)
    simp [ofText?, hminus, hplus, List.all_eq_true.mpr hds, valueOfDigits_eq_numeral]
  | plus hne hds =>
    simp [ofText?, hne, List.all_eq_true.mpr hds, valueOfDigits_eq_numeral]
  | minus hne hds =>
    simp [ofText?, hne, List.all_eq_true.mpr hds, valueOfDigits_eq_numeral]

theorem exists_writes_of_ofText? (h : ofText? cs = some n) : ∃ i, Writes cs i := by
  unfold ofText? at h
  split at h
  split at h
  · rename_i neg ds hsplit hdigits
    obtain ⟨hne, hds⟩ : ds ≠ [] ∧ ∀ d ∈ ds, d.isDigit := by simpa using hdigits
    split at hsplit
    · cases hsplit
      exact ⟨_, .minus hne hds⟩
    · cases hsplit
      exact ⟨_, .plus hne hds⟩
    · cases hsplit
      exact ⟨_, .unsigned hne hds⟩
  · cases h

/-- A text is read as a whole number where it writes the number's value. -/
theorem ofText?_eq_some_iff : ofText? cs = some n ↔ Writes cs n.toInt := by
  constructor
  · intro h
    obtain ⟨i, hi⟩ := exists_writes_of_ofText? h
    rw [hi.ofText?_eq, ofInt?_eq_some_iff] at h
    rwa [h]
  · intro h
    rw [h.ofText?_eq, ofInt?_toInt]

/-- A text is not read where it writes nothing, or an integer that does not fit. -/
theorem ofText?_eq_none_iff : ofText? cs = none ↔ ∀ i, Writes cs i → ¬Fits i := by
  constructor
  · intro h i hi
    rwa [hi.ofText?_eq, ofInt?_eq_none_iff] at h
  · intro h
    refine Option.eq_none_iff_forall_ne_some.mpr fun n hn ↦ ?_
    have hwrites := ofText?_eq_some_iff.mp hn
    exact h n.toInt hwrites ⟨n.le_toInt, n.toInt_lt⟩

/-- The text of a whole number writes it. -/
theorem writes_text (n : Int64) : Writes (text n).toList n.toInt := by
  have hne : Nat.toDigits 10 n.toInt.natAbs ≠ [] := Nat.toDigits_ne_nil
  have hds : ∀ d ∈ Nat.toDigits 10 n.toInt.natAbs, d.isDigit :=
    fun d hd ↦ Nat.isDigit_of_mem_toDigits (by decide) (by decide) hd
  have hvalue : numeral 10 (Nat.toDigits 10 n.toInt.natAbs) = n.toInt.natAbs := by
    rw [← valueOfDigits_eq_numeral, valueOfDigits_toDigits]
  by_cases hn : n.toInt < 0
  · have htext : (text n).toList = '-' :: Nat.toDigits 10 n.toInt.natAbs := by simp [text, hn]
    have hwrites := Writes.minus hne hds
    rwa [← htext, hvalue, show -(n.toInt.natAbs : Int) = n.toInt by omega] at hwrites
  · have hwrites := Writes.unsigned hne hds
    rwa [hvalue, Int.natAbs_of_nonneg (by omega), ← text_eq_toDigits (by omega)] at hwrites

theorem Writes.isBlank_eq_false (h : Writes cs i) : ∀ c ∈ cs, Text.isBlank c = false := by
  cases h with
  | unsigned _ hds => exact fun c hc ↦ Text.isBlank_of_isDigit (hds c hc)
  | plus _ hds =>
    exact List.forall_mem_cons.mpr ⟨by decide, fun c hc ↦ Text.isBlank_of_isDigit (hds c hc)⟩
  | minus _ hds =>
    exact List.forall_mem_cons.mpr ⟨by decide, fun c hc ↦ Text.isBlank_of_isDigit (hds c hc)⟩

end Whole

/-! ## Conversions -/

namespace Value

theorem convertTo_int_of_str (s : String) :
    (str s).convertTo .int = (Whole.ofText? (Text.trim s.toList)).map .int := rfl

theorem convertTo_string_of_int (n : Int64) :
    (int n).convertTo .string = some (.str (Whole.text n)) := rfl

/-- **Conversions between whole numbers and texts are exact.** A whole number converted to a text
and back is the number it was. A text is converted to a whole number where, without the blanks
around it, it writes the value of that number, and to nothing else; it cannot be converted where it
writes no integer at all or one that does not fit. -/
theorem whole_texts_exact :
    (∀ n : Int64, ((int n).convertTo .string).bind (·.convertTo .int) = some (.int n)) ∧
    ∀ s : String,
      (∀ v : Value, (str s).convertTo .int = some v ↔
        ∃ n : Int64, v = .int n ∧ Whole.Writes (Text.trim s.toList) n.toInt) ∧
      ((str s).convertTo .int = none ↔
        ∀ i, Whole.Writes (Text.trim s.toList) i → ¬Whole.Fits i) := by
  refine ⟨fun n ↦ ?_, fun s ↦ ⟨fun v ↦ ?_, ?_⟩⟩
  · have hwrites := Whole.writes_text n
    rw [convertTo_string_of_int, Option.bind_some, convertTo_int_of_str,
      Text.trim_eq_self hwrites.isBlank_eq_false, Whole.ofText?_eq_some_iff.mpr hwrites,
      Option.map_some]
  · simp only [convertTo_int_of_str, Option.map_eq_some_iff, Whole.ofText?_eq_some_iff]
    exact exists_congr fun n ↦ and_comm.trans (and_congr_left' eq_comm)
  · rw [convertTo_int_of_str, Option.map_eq_none_iff, Whole.ofText?_eq_none_iff]

example : (str " -09223372036854775808\n").convertTo .int = some (.int Int64.minValue) := by
  decide +kernel

example : (str "9223372036854775808").convertTo .int = none := by decide +kernel

end Value

end Scriptlet
