import Mathlib.Computability.Language
import Scriptlet.Proofs.Token.Lexemes

/-!
# The forms of number literals

Of the digits, points, signs and marks that stand behind a digit, the scanner takes as many as
belong to the literal that this digit begins. Here a form of literal is a language, and what is
taken is the longest word of the language that the text begins with.

The scanner does not look for a longest word: it takes runs of digits and looks one or two
characters ahead. That the two agree rests on one fact about languages. The longest word of a
product is a longest word of the first factor with one of the second behind it, if no word of the
second begins with a character that continues a shorter word of the first. All the forms are such
products.
-/

open scoped Computability

namespace Scriptlet

/-! ## Longest matches -/

/-- Of the words of a language that a text begins with, this is the longest. -/
structure LongestMatch (L : Language Char) (cs word : List Char) : Prop where
  front : word <+: cs
  mem : word ∈ L
  longest : ∀ other ∈ L, other <+: cs → other.length ≤ word.length

/-- The words of one character that has the property. -/
def oneOf (p : Char → Bool) : Language Char := {word | ∃ c, p c ∧ word = [c]}

variable {L M : Language Char} {p : Char → Bool} {c : Char} {cs word v : List Char}

theorem mem_oneOf_mul : word ∈ oneOf p * L ↔ ∃ c w, p c ∧ w ∈ L ∧ word = c :: w := by
  rw [Language.mem_mul]
  constructor
  · rintro ⟨_, ⟨c, hc, rfl⟩, w, hw, rfl⟩
    exact ⟨c, w, hc, hw, rfl⟩
  · rintro ⟨c, w, hc, hw, rfl⟩
    exact ⟨[c], ⟨c, hc, rfl⟩, w, hw, rfl⟩

theorem mem_kstar_oneOf : word ∈ (oneOf p)∗ ↔ ∀ c ∈ word, p c := by
  rw [Language.mem_kstar]
  constructor
  · rintro ⟨words, rfl, hwords⟩ c hc
    obtain ⟨w, hw, hcw⟩ := List.mem_flatten.mp hc
    obtain ⟨d, hd, rfl⟩ := hwords w hw
    rwa [List.mem_singleton.mp hcw]
  · intro hword
    refine ⟨word.map ([·]), by simp [← List.flatMap_def], ?_⟩
    intro w hw
    obtain ⟨c, hc, rfl⟩ := List.mem_map.mp hw
    exact ⟨c, hword c hc, rfl⟩

theorem mem_optional : word ∈ 1 + L ↔ word = [] ∨ word ∈ L := by
  rw [Language.mem_add, Language.mem_one]

namespace LongestMatch

theorem unique (hword : LongestMatch L cs word) (hv : LongestMatch L cs v) :
    word = v :=
  have hle := hv.longest word hword.mem hword.front
  (List.prefix_of_prefix_length_le hword.front hv.front hle).eq_of_length_le
    (hword.longest v hv.mem hv.front)

/-- A character and then the longest match behind it. -/
theorem cons (hc : p c) (h : LongestMatch L cs word) :
    LongestMatch (oneOf p * L) (c :: cs) (c :: word) where
  front := List.cons_prefix_cons.mpr ⟨rfl, h.front⟩
  mem := mem_oneOf_mul.mpr ⟨c, word, hc, h.mem, rfl⟩
  longest other hother hfront := by
    obtain ⟨d, w, -, hw, rfl⟩ := mem_oneOf_mul.mp hother
    exact Nat.succ_le_succ (h.longest w hw (List.cons_prefix_cons.mp hfront).2)

theorem one (hc : p c) (cs : List Char) : LongestMatch (oneOf p) (c :: cs) [c] where
  front := List.cons_prefix_cons.mpr ⟨rfl, List.nil_prefix⟩
  mem := ⟨c, hc, rfl⟩
  longest := by
    rintro other ⟨d, -, rfl⟩ -
    exact Nat.le_refl 1

/-- A run of characters that have the property. -/
theorem run (p : Char → Bool) (cs : List Char) : LongestMatch (oneOf p)∗ cs (cs.takeWhile p) where
  front := List.takeWhile_prefix p
  mem := mem_kstar_oneOf.mpr fun _ ↦ List.mem_takeWhile_imp
  longest other hother hfront := by
    obtain ⟨rest, rfl⟩ := hfront
    rw [List.takeWhile_append_of_pos (mem_kstar_oneOf.mp hother), List.length_append]
    exact Nat.le_add_right _ _

theorem optional (h : LongestMatch L cs word) : LongestMatch (1 + L) cs word where
  front := h.front
  mem := mem_optional.mpr (.inr h.mem)
  longest other hother hfront := by
    rcases mem_optional.mp hother with rfl | hother
    · exact Nat.zero_le _
    · exact h.longest other hother hfront

theorem omitted (h : ∀ word ∈ L, ¬word <+: cs) : LongestMatch (1 + L) cs [] where
  front := List.nil_prefix
  mem := mem_optional.mpr (.inl rfl)
  longest other hother hfront := by
    rcases mem_optional.mp hother with rfl | hother
    · exact Nat.le_refl _
    · exact absurd hfront (h other hother)

/-- The longest match of one language and then the longest match of another one, if no word of the
other one begins with a character that continues a word of the first inside its longest match. -/
theorem append {rest : List Char} (hL : LongestMatch L (word ++ rest) word)
    (hM : LongestMatch M rest v)
    (hstop : ∀ w ∈ L, ∀ c tail, word = w ++ c :: tail → ∀ u ∈ M, c ∉ u.head?) :
    LongestMatch (L * M) (word ++ rest) (word ++ v) where
  front := (List.prefix_append_right_inj word).mpr hM.front
  mem := Language.mem_mul.mpr ⟨word, hL.mem, v, hM.mem, rfl⟩
  longest other hother hfront := by
    obtain ⟨w, hw, u, hu, rfl⟩ := Language.mem_mul.mp hother
    have hwfront : w <+: word ++ rest := (List.prefix_append w u).trans hfront
    have hwlen := hL.longest w hw hwfront
    rw [List.length_append, List.length_append]
    obtain ⟨tail, rfl⟩ :=
      List.prefix_of_prefix_length_le hwfront (List.prefix_append word rest) hwlen
    rw [List.append_assoc, List.prefix_append_right_inj] at hfront
    cases tail with
    | nil =>
      have hulen := hM.longest u hu hfront
      rw [List.append_nil]
      omega
    | cons c tail =>
      -- `w` stops short, so `u` would have to begin with the character that continues it
      cases u with
      | nil =>
        rw [List.length_nil]
        omega
      | cons d u =>
        obtain ⟨rfl, -⟩ := List.cons_prefix_cons.mp hfront
        exact absurd rfl (hstop w hw d tail rfl _ hu)

end LongestMatch

/-! ## The forms of a number literal -/

namespace NumberForm

/-- A run of decimal digits, perhaps empty. -/
def run : Language Char := (oneOf Char.isDigit)∗

/-- At least one decimal digit. -/
def digits : Language Char := oneOf Char.isDigit * run

/-- A point and digits behind it. -/
def fraction : Language Char := oneOf (· == '.') * digits

/-- A mark, an optional sign and any digits, perhaps none. -/
def exponent : Language Char :=
  oneOf (fun c ↦ c == 'e' || c == 'E') * ((1 + oneOf fun c ↦ c == '+' || c == '-') * run)

/-- A decimal literal: digits, an optional fraction and an optional exponent. -/
def decimal : Language Char := digits * (1 + fraction) * (1 + exponent)

/-- A literal in base sixteen: a zero, its mark and any digits, perhaps none. -/
def hexadecimal : Language Char :=
  oneOf (· == '0') * (oneOf (fun c ↦ c == 'x' || c == 'X') * (oneOf isHexDigit)∗)

/-- A literal in base eight: a zero and at least one digit. -/
def octal : Language Char := oneOf (· == '0') * (oneOf isOctDigit * (oneOf isOctDigit)∗)

theorem longest_digits (hc : c.isDigit) (cs : List Char) :
    LongestMatch digits (c :: cs) ((c :: cs).takeWhile Char.isDigit) := by
  rw [List.takeWhile_cons_of_pos hc]
  exact (LongestMatch.run Char.isDigit cs).cons hc

theorem mem_digits : word ∈ digits ↔ word ≠ [] ∧ ∀ c ∈ word, c.isDigit := by
  rw [digits, mem_oneOf_mul]
  constructor
  · rintro ⟨c, w, hc, hw, rfl⟩
    exact ⟨List.cons_ne_nil c w, List.forall_mem_cons.mpr ⟨hc, mem_kstar_oneOf.mp hw⟩⟩
  · rintro ⟨hne, hword⟩
    obtain ⟨c, w, rfl⟩ := List.exists_cons_of_ne_nil hne
    obtain ⟨hc, hw⟩ := List.forall_mem_cons.mp hword
    exact ⟨c, w, hc, mem_kstar_oneOf.mpr hw, rfl⟩

/-! ### Fractions -/

theorem mem_fraction :
    word ∈ fraction ↔ ∃ ds, word = '.' :: ds ∧ ds ≠ [] ∧ ∀ c ∈ ds, c.isDigit := by
  rw [fraction, mem_oneOf_mul]
  constructor
  · rintro ⟨c, w, hc, hw, rfl⟩
    obtain rfl : c = '.' := by simpa using hc
    exact ⟨w, rfl, mem_digits.mp hw⟩
  · rintro ⟨ds, rfl, hds⟩
    exact ⟨'.', ds, rfl, mem_digits.mpr hds, rfl⟩

theorem longest_fraction (cs : List Char) : LongestMatch (1 + fraction) cs (fractionPart cs) := by
  unfold fractionPart
  split
  · rename_i d cs
    split
    · rename_i hd
      have hdigits := longest_digits hd cs
      rw [List.takeWhile_cons_of_pos hd] at hdigits
      exact (hdigits.cons (p := (· == '.')) rfl).optional
    · rename_i hd
      refine .omitted fun word hword hfront ↦ ?_
      obtain ⟨ds, rfl, hne, hds⟩ := mem_fraction.mp hword
      obtain ⟨d', ds, rfl⟩ := List.exists_cons_of_ne_nil hne
      obtain ⟨-, hfront⟩ := List.cons_prefix_cons.mp hfront
      obtain ⟨rfl, -⟩ := List.cons_prefix_cons.mp hfront
      exact hd (hds d' List.mem_cons_self)
  · rename_i hform
    refine .omitted fun word hword hfront ↦ ?_
    obtain ⟨ds, rfl, hne, -⟩ := mem_fraction.mp hword
    obtain ⟨d, ds, rfl⟩ := List.exists_cons_of_ne_nil hne
    obtain ⟨rest, rfl⟩ := hfront
    exact hform d (ds ++ rest) rfl

/-! ### Exponents -/

theorem head_of_mem_exponent (h : word ∈ 1 + exponent) : ∀ c ∈ word.head?, c = 'e' ∨ c = 'E' := by
  intro c hc
  rcases mem_optional.mp h with rfl | h
  · cases hc
  · obtain ⟨d, w, hd, -, rfl⟩ := mem_oneOf_mul.mp h
    obtain rfl : d = c := Option.some.inj hc
    simpa using hd

theorem longest_signed {s : Char} (hs : (s == '+' || s == '-') = true) (cs : List Char) :
    LongestMatch ((1 + oneOf fun c ↦ c == '+' || c == '-') * run) (s :: cs)
      (s :: cs.takeWhile Char.isDigit) := by
  have hsign : LongestMatch (1 + oneOf fun c ↦ c == '+' || c == '-') ([s] ++ cs) [s] :=
    (LongestMatch.one hs cs).optional
  refine hsign.append (.run _ cs) ?_
  -- without the sign the digits would have to begin with it
  intro w _ c tail hword u hu hc
  obtain ⟨u, rfl⟩ := List.head?_eq_some_iff.mp hc
  have hdigit : c.isDigit := mem_kstar_oneOf.mp hu c List.mem_cons_self
  obtain rfl : c = s := List.mem_singleton.mp (hword ▸ List.mem_append_cons_self)
  simp only [Bool.or_eq_true, beq_iff_eq] at hs
  rcases hs with rfl | rfl <;> cases hdigit

theorem longest_unsigned (hcs : ∀ c ∈ cs.head?, (c == '+' || c == '-') = false) :
    LongestMatch ((1 + oneOf fun c ↦ c == '+' || c == '-') * run) cs
      (cs.takeWhile Char.isDigit) := by
  have hsign : ∀ w ∈ oneOf fun c ↦ c == '+' || c == '-', ¬w <+: cs := by
    rintro _ ⟨d, hd, rfl⟩ ⟨rest, rfl⟩
    exact absurd hd (by simp [hcs d rfl])
  have hnone : LongestMatch (1 + oneOf fun c ↦ c == '+' || c == '-') ([] ++ cs) [] :=
    .omitted hsign
  refine hnone.append (.run _ cs) ?_
  intro w _ c tail hword
  exact absurd hword.symm (by simp)

theorem longest_exponent (cs : List Char) : LongestMatch (1 + exponent) cs (exponentPart cs) := by
  unfold exponentPart
  split
  · rename_i c cs
    split
    · rename_i hc
      split
      · rename_i ds
        exact ((longest_signed rfl ds).cons hc).optional
      · rename_i ds
        exact ((longest_signed rfl ds).cons hc).optional
      · rename_i hplus hminus
        refine LongestMatch.optional (.cons hc (longest_unsigned ?_))
        intro d hd
        obtain ⟨ds, rfl⟩ := List.head?_eq_some_iff.mp hd
        have hplus : d ≠ '+' := fun h ↦ hplus ds (by rw [h])
        have hminus : d ≠ '-' := fun h ↦ hminus ds (by rw [h])
        simp [hplus, hminus]
    · rename_i hc
      refine .omitted fun word hword hfront ↦ ?_
      obtain ⟨d, w, hd, -, rfl⟩ := mem_oneOf_mul.mp hword
      obtain ⟨rfl, -⟩ := List.cons_prefix_cons.mp hfront
      exact hc hd
  · refine .omitted fun word hword hfront ↦ ?_
    obtain ⟨d, w, -, -, rfl⟩ := mem_oneOf_mul.mp hword
    exact absurd (List.prefix_nil.mp hfront) (List.cons_ne_nil d w)

/-! ### Decimal literals -/

theorem mem_chars_of_mem_fraction (h : word ∈ 1 + fraction) : ∀ c ∈ word, c = '.' ∨ c.isDigit := by
  intro c hc
  rcases mem_optional.mp h with rfl | h
  · cases hc
  · obtain ⟨ds, rfl, -, hds⟩ := mem_fraction.mp h
    exact (List.mem_cons.mp hc).imp_right (hds c)

theorem head_of_mem_behind_digits (h : word ∈ (1 + fraction) * (1 + exponent)) :
    ∀ c ∈ word.head?, c = '.' ∨ c = 'e' ∨ c = 'E' := by
  intro c hc
  obtain ⟨f, hf, e, he, rfl⟩ := Language.mem_mul.mp h
  rcases mem_optional.mp hf with rfl | hf
  · exact .inr (head_of_mem_exponent he c hc)
  · obtain ⟨ds, rfl, -⟩ := mem_fraction.mp hf
    exact .inl (Option.some.inj hc).symm

theorem longest_behind_digits (cs : List Char) :
    LongestMatch ((1 + fraction) * (1 + exponent)) cs
      (fractionPart cs ++ exponentPart (cs.drop (fractionPart cs).length)) := by
  have hlongest := longest_fraction cs
  generalize fractionPart cs = front at hlongest
  obtain ⟨rest, rfl⟩ := hlongest.front
  rw [List.drop_left]
  refine hlongest.append (longest_exponent rest) ?_
  rintro w _ c tail rfl u hu hc
  have hfront := mem_chars_of_mem_fraction hlongest.mem c List.mem_append_cons_self
  rcases head_of_mem_exponent hu c hc with rfl | rfl <;> simp at hfront

/-- The digits, the fraction behind them and the exponent behind that. -/
theorem longest_decimal (hc : c.isDigit) (cs : List Char) :
    let whole := (c :: cs).takeWhile Char.isDigit
    let rest := (c :: cs).dropWhile Char.isDigit
    LongestMatch decimal (c :: cs)
      (whole ++ (fractionPart rest ++ exponentPart (rest.drop (fractionPart rest).length))) := by
  intro whole rest
  have hcs : c :: cs = whole ++ rest := List.takeWhile_append_dropWhile.symm
  have hdigits : LongestMatch digits (whole ++ rest) whole := hcs ▸ longest_digits hc cs
  rw [decimal, mul_assoc, hcs]
  refine hdigits.append (longest_behind_digits rest) ?_
  intro w _ d tail hword u hu hd
  have hwhole : d.isDigit := (mem_digits.mp hdigits.mem).2 d (hword ▸ List.mem_append_cons_self)
  rcases head_of_mem_behind_digits hu d hd with rfl | rfl | rfl <;> cases hwhole

/-! ### Literals with a mark -/

/-- A literal that is not decimal is known by its first two characters. -/
theorem marked_of_front (hword : word ∈ oneOf (· == '0') * (oneOf p * L)) (hfront : word <+: cs) :
    ∃ x ds, cs = '0' :: x :: ds ∧ p x := by
  obtain ⟨z, w, hz, hw, rfl⟩ := mem_oneOf_mul.mp hword
  obtain ⟨x, ds, hx, -, rfl⟩ := mem_oneOf_mul.mp hw
  obtain rfl : z = '0' := by simpa using hz
  obtain ⟨rest, rfl⟩ := hfront
  exact ⟨x, ds ++ rest, rfl, hx⟩

theorem not_isOctDigit_of_mark (hx : (c == 'x' || c == 'X') = true) : ¬isOctDigit c := by
  simp only [Bool.or_eq_true, beq_iff_eq] at hx
  rcases hx with rfl | rfl <;> decide

end NumberForm

end Scriptlet
