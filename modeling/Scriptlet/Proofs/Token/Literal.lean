import Mathlib.Data.Nat.Digits.Defs
import Scriptlet.Proofs.Token.Longest
import Scriptlet.Proofs.Token.Seam

/-!
# Number literals

A text that begins with a digit begins with a number literal: one in base sixteen or eight if the
digit is a zero and a mark of the base stands behind it, else a decimal one. The literal is the
longest of its form, and its value is what its digits write in the base. The value is a whole number
if it fits; a decimal literal that does not fit is the nearest double, as one with a fraction or an
exponent is, and all others are not numbers.
-/

namespace Scriptlet

variable {L : Language Char} {c : Char} {cs word v : List Char}

/-! ## Values -/

/-- The number that digits write in a base, the last digit being the one of least weight. -/
def numeral (base : Nat) (ds : List Char) : Nat := Nat.ofDigits base (ds.reverse.map digitValue)

theorem valueOfDigits_eq_numeral (base : Nat) (ds : List Char) :
    valueOfDigits base ds = numeral base ds := by
  induction ds using List.reverseRecOn with
  | nil => rfl
  | append_singleton ds c ih =>
    rw [valueOfDigits] at ih ⊢
    rw [List.foldl_append, List.foldl_cons, List.foldl_nil, ih, numeral, numeral,
      List.reverse_append, List.reverse_singleton, List.singleton_append, List.map_cons,
      Nat.ofDigits_cons, Nat.add_comm]

theorem numeral_zero_cons (base : Nat) (ds : List Char) :
    numeral base ('0' :: ds) = numeral base ds := by
  rw [← valueOfDigits_eq_numeral, ← valueOfDigits_eq_numeral]
  rfl

namespace Number

/-- What a literal without a value is. -/
def invalid : Number := .double (.nan false)

/-- A whole number if it fits, else the number that stands in for it. -/
def fitted (v : Nat) (other : Number) : Number :=
  if v < 2 ^ 63 then .int (Int64.ofNat v) else other

/-- The double nearest to what a text writes, if it writes a number. -/
def nearest (text : List Char) : Number := .double ((Binary.ofText? text).getD (.nan false))

end Number

theorem Whole.ofDigits?_eq {base : Nat} {ds : List Char} (hds : ds ≠ []) :
    ofDigits? base ds
      = if numeral base ds < 2 ^ 63 then some (Int64.ofNat (numeral base ds)) else none := by
  rw [ofDigits?, if_neg (by simpa using hds), valueOfDigits_eq_numeral, ofInt?]
  have hbounds : (least ≤ (numeral base ds : Int) ∧ (numeral base ds : Int) ≤ greatest)
      ↔ numeral base ds < 2 ^ 63 := by
    simp only [least, greatest]
    omega
  simp only [hbounds, Int64.ofInt_eq_ofNat]

/-- Digits are a whole number where their value fits. -/
theorem Number.fitted_numeral {base : Nat} {ds : List Char} (hds : ds ≠ []) (other : Number) :
    (match Whole.ofDigits? base ds with
      | some n => .int n
      | none => other) = fitted (numeral base ds) other := by
  rw [Whole.ofDigits?_eq hds, fitted]
  by_cases hfits : numeral base ds < 2 ^ 63
  · rw [if_pos hfits, if_pos hfits]
  · rw [if_neg hfits, if_neg hfits]

theorem radixNumber_eq {base : Nat} {ds : List Char} (hds : ds ≠ []) :
    radixNumber base ds = .fitted (numeral base ds) .invalid :=
  Number.fitted_numeral hds .invalid

/-! ## Literals -/

/-- The literal at the front of a text and the number that it stands for. The forms with a mark come
before the decimal one. -/
inductive IsLiteral (cs : List Char) : List Char → Number → Prop
  | hexadecimal {z x : Char} {ds : List Char}
      (h : LongestMatch NumberForm.hexadecimal cs (z :: x :: ds)) :
      IsLiteral cs (z :: x :: ds)
        (if ds = [] then .invalid else .fitted (numeral 16 ds) .invalid)
  | octal {word : List Char} (h : LongestMatch NumberForm.octal cs word) :
      IsLiteral cs word (.fitted (numeral 8 word) .invalid)
  | whole {word : List Char} (hhex : ∀ w ∈ NumberForm.hexadecimal, ¬w <+: cs)
      (hoct : ∀ w ∈ NumberForm.octal, ¬w <+: cs) (h : LongestMatch NumberForm.decimal cs word)
      (hdigits : word ∈ NumberForm.digits) :
      IsLiteral cs word (.fitted (numeral 10 word) (.nearest word))
  | double {word : List Char} (hhex : ∀ w ∈ NumberForm.hexadecimal, ¬w <+: cs)
      (hoct : ∀ w ∈ NumberForm.octal, ¬w <+: cs) (h : LongestMatch NumberForm.decimal cs word)
      (hdigits : word ∉ NumberForm.digits) : IsLiteral cs word (.nearest word)

theorem decimalNumber_eq {whole fraction exponent : List Char} (hwhole : whole ≠ []) :
    decimalNumber whole fraction exponent
      = if fraction ++ exponent = [] then .fitted (numeral 10 whole) (.nearest whole)
        else .nearest (whole ++ (fraction ++ exponent)) := by
  by_cases hbare : fraction ++ exponent = []
  · obtain ⟨rfl, rfl⟩ := List.append_eq_nil_iff.mp hbare
    rw [if_pos (List.append_nil _), decimalNumber, List.append_nil, List.append_nil]
    exact Number.fitted_numeral hwhole (.nearest whole)
  · have hflag : (fraction.isEmpty && exponent.isEmpty) = false := by
      simpa [Bool.eq_false_iff, List.append_eq_nil_iff] using hbare
    rw [if_neg hbare, decimalNumber, hflag, List.append_assoc]
    rfl

/-- A text that begins with a digit and with no mark of a base begins with a decimal literal. -/
theorem isLiteral_readDecimal (hc : c.isDigit)
    (hhex : ∀ w ∈ NumberForm.hexadecimal, ¬w <+: c :: cs)
    (hoct : ∀ w ∈ NumberForm.octal, ¬w <+: c :: cs) :
    ∃ text, text.length = (readDecimal (c :: cs)).2 - 1
      ∧ IsLiteral (c :: cs) (c :: text) (readDecimal (c :: cs)).1 := by
  set whole := (c :: cs).takeWhile Char.isDigit with hwhole
  set rest := (c :: cs).dropWhile Char.isDigit with hrest
  set fraction := fractionPart rest with hfraction
  set exponent := exponentPart (rest.drop fraction.length) with hexponent
  have hread : readDecimal (c :: cs) = (decimalNumber whole fraction exponent,
      whole.length + fraction.length + exponent.length) := rfl
  have hlongest : LongestMatch NumberForm.decimal (c :: cs) (whole ++ (fraction ++ exponent)) :=
    NumberForm.longest_decimal hc cs
  have hfirst : whole = c :: cs.takeWhile Char.isDigit := List.takeWhile_cons_of_pos hc
  have hdigits : ∀ d ∈ whole, d.isDigit := fun _ ↦ List.mem_takeWhile_imp
  refine ⟨cs.takeWhile Char.isDigit ++ (fraction ++ exponent), ?_, ?_⟩
  · rw [hread, hfirst]
    simp only [List.length_append, List.length_cons]
    omega
  · rw [hread, decimalNumber_eq (hfirst ▸ List.cons_ne_nil _ _), ← List.cons_append, ← hfirst]
    split
    · rename_i hbare
      rw [hbare, List.append_nil] at hlongest ⊢
      exact .whole hhex hoct hlongest (NumberForm.mem_digits.mpr ⟨by simp [hfirst], hdigits⟩)
    · rename_i hbare
      -- a fraction or an exponent does not begin with a digit, so the word is not a run of digits
      refine .double hhex hoct hlongest fun hword ↦ ?_
      obtain ⟨d, tail, hcons⟩ := List.exists_cons_of_ne_nil hbare
      have hdigit := (NumberForm.mem_digits.mp hword).2 d (by simp [hcons])
      have hstop : d.isDigit = false :=
        fractionPart_stops rest _ d (List.head?_eq_some_iff.mpr ⟨tail, hcons⟩)
      exact absurd hdigit (by simp [hstop])

section Marked

variable {x : Char} {ds : List Char}

theorem isLiteral_of_hex_mark (hx : (x == 'x' || x == 'X') = true) :
    IsLiteral ('0' :: x :: ds) ('0' :: x :: ds.takeWhile isHexDigit)
      (readNumber '0' (x :: ds)).1 := by
  have hread : (readNumber '0' (x :: ds)).1 = radixNumber 16 (ds.takeWhile isHexDigit) := by
    simp [readNumber, hx]
  have hvalue : radixNumber 16 (ds.takeWhile isHexDigit)
      = if ds.takeWhile isHexDigit = [] then .invalid
        else .fitted (numeral 16 (ds.takeWhile isHexDigit)) .invalid := by
    split
    · rename_i hnone
      rw [hnone]
      rfl
    · rename_i hsome
      exact radixNumber_eq hsome
  rw [hread, hvalue]
  exact .hexadecimal (((LongestMatch.run isHexDigit ds).cons hx).cons (p := (· == '0')) rfl)

theorem isLiteral_of_octal_digit (hx : isOctDigit x) :
    IsLiteral ('0' :: x :: ds) ('0' :: x :: ds.takeWhile isOctDigit)
      (readNumber '0' (x :: ds)).1 := by
  have hmark : ¬(x == 'x' || x == 'X') = true :=
    fun hmark ↦ NumberForm.not_isOctDigit_of_mark hmark hx
  have hread : (readNumber '0' (x :: ds)).1 = radixNumber 8 (x :: ds.takeWhile isOctDigit) := by
    simp [readNumber, hmark, hx]
  rw [hread, radixNumber_eq (List.cons_ne_nil _ _), ← numeral_zero_cons]
  exact .octal (((LongestMatch.run isOctDigit ds).cons hx).cons (p := (· == '0')) rfl)

/-- Without a mark the literal is decimal. -/
theorem readNumber_unmarked
    (hhex : ∀ x ds, c :: cs = '0' :: x :: ds → ¬(x == 'x' || x == 'X') = true)
    (hoct : ∀ x ds, c :: cs = '0' :: x :: ds → ¬isOctDigit x) :
    readNumber c cs = ((readDecimal (c :: cs)).1, (readDecimal (c :: cs)).2 - 1) := by
  by_cases hzero : c = '0'
  · subst hzero
    cases cs with
    | nil => rfl
    | cons x ds => simp [readNumber, hhex x ds rfl, hoct x ds rfl]
  · exact readNumber_of_ne hzero

end Marked

/-- What is read from a digit on is the literal at the front of the text, and its number. -/
theorem isLiteral_readNumber (hc : c.isDigit) (cs : List Char) :
    ∃ text, text.length = (readNumber c cs).2
      ∧ IsLiteral (c :: cs) (c :: text) (readNumber c cs).1 := by
  by_cases hhex : ∃ x ds, c :: cs = '0' :: x :: ds ∧ (x == 'x' || x == 'X') = true
  · obtain ⟨x, ds, hcs, hx⟩ := hhex
    obtain ⟨rfl, rfl⟩ := List.cons.inj hcs
    exact ⟨x :: ds.takeWhile isHexDigit, by simp [readNumber, hx], isLiteral_of_hex_mark hx⟩
  · by_cases hoct : ∃ x ds, c :: cs = '0' :: x :: ds ∧ isOctDigit x
    · obtain ⟨x, ds, hcs, hx⟩ := hoct
      obtain ⟨rfl, rfl⟩ := List.cons.inj hcs
      have hmark : ¬(x == 'x' || x == 'X') = true := fun hmark ↦ hhex ⟨x, ds, rfl, hmark⟩
      exact ⟨x :: ds.takeWhile isOctDigit, by simp [readNumber, hmark, hx],
        isLiteral_of_octal_digit hx⟩
    · rw [readNumber_unmarked (fun x ds hcs hx ↦ hhex ⟨x, ds, hcs, hx⟩)
        (fun x ds hcs hx ↦ hoct ⟨x, ds, hcs, hx⟩)]
      exact isLiteral_readDecimal hc (fun w hw hfront ↦ hhex (NumberForm.marked_of_front hw hfront))
        (fun w hw hfront ↦ hoct (NumberForm.marked_of_front hw hfront))

/-! ### No other literal -/

/-- The forms of literal do not overlap, and each takes as much as it can. -/
theorem IsLiteral.unique {m n : Number} (hword : IsLiteral cs word m) (hv : IsLiteral cs v n) :
    word = v ∧ m = n := by
  -- the decimal forms say that there is no mark in front, and the marks of the other two differ
  have hmarks : ∀ w ∈ NumberForm.hexadecimal, ∀ u ∈ NumberForm.octal, w <+: cs → ¬u <+: cs := by
    intro w hw u hu hwfront hufront
    obtain ⟨x, ds, rfl, hx⟩ := NumberForm.marked_of_front hw hwfront
    obtain ⟨y, es, hes, hy⟩ := NumberForm.marked_of_front hu hufront
    obtain ⟨-, hes⟩ := List.cons.inj hes
    obtain ⟨rfl, -⟩ := List.cons.inj hes
    exact NumberForm.not_isOctDigit_of_mark hx hy
  cases hword with
  | hexadecimal h =>
    cases hv with
    | hexadecimal h' =>
      obtain ⟨rfl, hcons⟩ := List.cons.inj (h.unique h')
      obtain ⟨rfl, rfl⟩ := List.cons.inj hcons
      exact ⟨rfl, rfl⟩
    | octal h' => exact absurd h'.front (hmarks _ h.mem _ h'.mem h.front)
    | whole hhex => exact absurd h.front (hhex _ h.mem)
    | double hhex => exact absurd h.front (hhex _ h.mem)
  | octal h =>
    cases hv with
    | hexadecimal h' => exact absurd h.front (hmarks _ h'.mem _ h.mem h'.front)
    | octal h' => exact ⟨h.unique h', by rw [h.unique h']⟩
    | whole _ hoct => exact absurd h.front (hoct _ h.mem)
    | double _ hoct => exact absurd h.front (hoct _ h.mem)
  | whole hhex hoct h hdigits =>
    cases hv with
    | hexadecimal h' => exact absurd h'.front (hhex _ h'.mem)
    | octal h' => exact absurd h'.front (hoct _ h'.mem)
    | whole _ _ h' => exact ⟨h.unique h', by rw [h.unique h']⟩
    | double _ _ h' hdigits' => exact absurd (h.unique h' ▸ hdigits) hdigits'
  | double hhex hoct h hdigits =>
    cases hv with
    | hexadecimal h' => exact absurd h'.front (hhex _ h'.mem)
    | octal h' => exact absurd h'.front (hoct _ h'.mem)
    | whole _ _ h' hdigits' => exact absurd (h.unique h' ▸ hdigits') hdigits
    | double _ _ h' => exact ⟨h.unique h', by rw [h.unique h']⟩

theorem IsLiteral.front {n : Number} (h : IsLiteral cs word n) : word <+: cs := by
  cases h with
  | hexadecimal h => exact h.front
  | octal h => exact h.front
  | whole _ _ h => exact h.front
  | double _ _ h => exact h.front

/-! ## The first token -/

/-- A digit begins a number. -/
theorem Cursor.next_of_digit (hc : c.isDigit) (cs : List Char) (l : Location) :
    next ⟨c :: cs, l⟩ = (⟨.number (readNumber c cs).1, l⟩,
      advance ⟨c :: cs, l⟩ ((readNumber c cs).2 + 1)) := by
  have hword := Text.isWordChar_of_isDigit hc
  have hlen : gapLength false (c :: cs) = 0 := by
    rw [gapLength_cons, if_neg (by simp [isGapChar_of_isWordChar hword])]
    rintro ds rfl -
    exact absurd hc (by decide)
  have hskip : skipGap ⟨c :: cs, l⟩ = ⟨c :: cs, l⟩ := by
    rw [skipGap, hlen]
    rfl
  have hread : readToken c cs = (.number (readNumber c cs).1, (readNumber c cs).2) := by
    rw [readToken, if_pos hc]
  simp only [next, next?, hskip, hread, Option.getD_some]

/-- The first token of a text that begins with a digit is a number, its text is the literal that the
text begins with, and there is no other. -/
theorem number_scanned {source : String} (h : ∃ c ∈ source.toList.head?, c.isDigit) :
    ∃ word behind n, source.toList = word ++ behind
      ∧ (Cursor.ofText source).next
        = (⟨.number n, .start⟩, ⟨behind, word.foldl Location.after .start⟩)
      ∧ ∀ v m, IsLiteral source.toList v m ↔ v = word ∧ m = n := by
  obtain ⟨c, hhead, hc⟩ := h
  obtain ⟨cs, hsource⟩ := List.head?_eq_some_iff.mp hhead
  obtain ⟨text, hlen, hliteral⟩ := isLiteral_readNumber hc cs
  obtain ⟨behind, hbehind⟩ := hliteral.front
  refine ⟨c :: text, behind, (readNumber c cs).1, ?_, ?_, fun v m ↦ ⟨?_, ?_⟩⟩
  · exact hsource.trans hbehind.symm
  · rw [Cursor.ofText, hsource, Cursor.next_of_digit hc, ← hlen, Cursor.advance, ← hbehind,
      List.cons_append, List.drop_succ_cons, List.take_succ_cons, List.drop_left, List.take_left]
  · intro hv
    rw [hsource] at hv
    exact hv.unique hliteral
  · rintro ⟨rfl, rfl⟩
    rwa [hsource]

theorem number_scanned_behind_exponent :
    (∃ c ∈ "1e5.3".toList.head?, c.isDigit)
      ∧ ∀ v m, IsLiteral "1e5.3".toList v m
        ↔ v = ['1', 'e', '5'] ∧ m = .double (.finite false 6871947673600000 (-36)) := by
  have hdigit : ∃ c ∈ "1e5.3".toList.head?, c.isDigit := ⟨'1', rfl, rfl⟩
  refine ⟨hdigit, ?_⟩
  obtain ⟨word, behind, n, hsource, hnext, hliteral⟩ := number_scanned hdigit
  have hscan : (Cursor.ofText "1e5.3").next.1.kind
        = .number (.double (.finite false 6871947673600000 (-36)))
      ∧ (Cursor.ofText "1e5.3").next.2.rest = ['.', '3'] := by decide +kernel
  rw [hnext] at hscan
  obtain ⟨hkind, rfl⟩ := hscan
  obtain rfl : word = ['1', 'e', '5'] := (List.append_cancel_right hsource).symm
  rwa [← TokenKind.number.inj hkind]

end Scriptlet
