import Mathlib.Data.List.Basic
import Scriptlet.Proofs.Token.Scanned

/-!
# Scanning piece by piece

The kinds of the tokens of a text do not depend on where the text stands, so a text can be scanned
one piece at a time: a piece gives its token whenever what stands behind it cannot belong to the
same token. The lemmas here say so for each piece that the text of an expression is made of.
-/

namespace Scriptlet

/-- The kinds of the tokens of a text. -/
def kinds (cs : List Char) : List TokenKind := (Cursor.tokens ⟨cs, .start⟩).1.map Token.kind

namespace Cursor

variable {cs rest : List Char} {c : Char} {l : Location}

theorem next?_of_gap (h : cs.drop (gapLength false cs) = []) : next? ⟨cs, l⟩ = none := by
  simp only [next?, skipGap, advance, h]

/-- The token at a cursor and the text behind it; where they stand is left open. -/
theorem next?_of_token (h : cs.drop (gapLength false cs) = c :: rest) :
    ∃ l₁ l₂, next? ⟨cs, l⟩
      = some (⟨(readToken c rest).1, l₁⟩, ⟨rest.drop (readToken c rest).2, l₂⟩) := by
  simp only [next?, skipGap, advance, h, List.drop_succ_cons]
  exact ⟨_, _, rfl⟩

theorem tokens_of_gap (h : cs.drop (gapLength false cs) = []) : (tokens ⟨cs, l⟩).1 = [] := by
  rw [tokens]
  split
  · rfl
  · rename_i hnext
    rw [next?_of_gap h] at hnext
    cases hnext

theorem tokens_of_token (h : cs.drop (gapLength false cs) = c :: rest) :
    ∃ l₁ l₂, (tokens ⟨cs, l⟩).1 = ⟨(readToken c rest).1, l₁⟩
      :: (tokens ⟨rest.drop (readToken c rest).2, l₂⟩).1 := by
  obtain ⟨l₁, l₂, hnext⟩ := next?_of_token (l := l) h
  refine ⟨l₁, l₂, ?_⟩
  rw [tokens]
  split
  · rename_i hnone
    rw [hnext] at hnone
    cases hnone
  · rename_i t c' hsome
    rw [hnext] at hsome
    obtain ⟨rfl, rfl⟩ := Prod.mk.inj (Option.some.inj hsome)
    rfl

/-- The kinds do not depend on the place. -/
theorem map_kind_tokens (cs : List Char) (l l' : Location) :
    (tokens ⟨cs, l⟩).1.map Token.kind = (tokens ⟨cs, l'⟩).1.map Token.kind := by
  induction hn : cs.length using Nat.strongRecOn generalizing cs l l' with
  | ind n ih =>
    rcases hcs : cs.drop (gapLength false cs) with _ | ⟨c, rest⟩
    · rw [tokens_of_gap hcs, tokens_of_gap hcs]
    · obtain ⟨l₁, l₂, h⟩ := tokens_of_token (l := l) hcs
      obtain ⟨l₁', l₂', h'⟩ := tokens_of_token (l := l') hcs
      have hlen : (rest.drop (readToken c rest).2).length < n := by
        have hlen := congrArg List.length hcs
        simp only [List.length_drop, List.length_cons] at hlen ⊢
        omega
      rw [h, h', List.map_cons, List.map_cons, ih _ hlen _ l₂ l₂' rfl]

end Cursor

variable {cs rest : List Char} {c : Char}

theorem kinds_of_token (h : cs.drop (gapLength false cs) = c :: rest) :
    kinds cs = (readToken c rest).1 :: kinds (rest.drop (readToken c rest).2) := by
  obtain ⟨l₁, l₂, htokens⟩ := Cursor.tokens_of_token (l := .start) h
  rw [kinds, htokens, List.map_cons, kinds, Cursor.map_kind_tokens _ l₂ .start]

@[simp] theorem kinds_nil : kinds [] = [] := by
  rw [kinds, Cursor.tokens_of_gap rfl, List.map_nil]

/-- A blank changes nothing. -/
theorem kinds_blank (cs : List Char) : kinds (' ' :: cs) = kinds cs := by
  have hgap : (' ' :: cs).drop (gapLength false (' ' :: cs)) = cs.drop (gapLength false cs) := by
    rw [gapLength.eq_def]
    rfl
  rcases hcs : cs.drop (gapLength false cs) with _ | ⟨c, rest⟩
  · rw [kinds, kinds, Cursor.tokens_of_gap hcs, Cursor.tokens_of_gap (hgap.trans hcs)]
  · rw [kinds_of_token hcs, kinds_of_token (hgap.trans hcs)]

/-- A character that is neither a blank nor a slash begins a token. -/
theorem kinds_cons (hgap : isGapChar c = false) (hslash : c ≠ '/') :
    kinds (c :: cs) = (readToken c cs).1 :: kinds (cs.drop (readToken c cs).2) := by
  refine kinds_of_token ?_
  have hlen : gapLength false (c :: cs) = 0 := by
    rw [gapLength]
    · rw [if_neg (by simp [hgap])]
    · exact fun _ h _ ↦ hslash h
  rw [hlen, List.drop_zero]

/-! ## Symbols -/

/-- The characters that would make another token of the symbol if they stood right behind it. -/
def Symbol.completions : Symbol → List Char
  | .colon => [':']
  | .question => ['?']
  | .amp => ['&']
  | .pipe => ['|']
  | .bang => ['=']
  | .plus => ['+']
  | .minus => ['-', '>']
  | .eq => ['=', '>']
  | .lt => ['=', '<']
  | .gt => ['=', '>']
  | .slash => ['/']
  | _ => []

/-- A character that can only begin a symbol. -/
structure IsSymbolChar (c : Char) : Prop where
  digit : c.isDigit = false
  letter : Text.isLetter c = false
  quote : c ≠ '\x60'
  underscore : c ≠ '_'
  gap : isGapChar c = false
  slash : c ≠ '/'

/-- A symbol of one character, if the next one does not complete it to another. -/
theorem kinds_short {longer : List (Char × Symbol)} {s : Symbol} (hc : IsSymbolChar c)
    (hsymbol : symbolsOf c = (longer, some s)) (hcs : ∀ d ∈ cs.head?, d ∉ longer.map Prod.fst) :
    kinds (c :: cs) = .symbol s :: kinds cs := by
  have hnone : cs.head?.bind (fun d ↦ longer.lookup d) = none := by
    refine Option.bind_eq_none_iff.mpr fun d hd ↦ List.lookup_eq_none_iff.mpr fun p hp ↦ ?_
    refine bne_iff_ne.mpr ?_
    rintro rfl
    exact hcs p.1 hd (List.mem_map_of_mem hp)
  rw [kinds_cons hc.gap hc.slash]
  simp [readToken, readSymbol, hc.digit, hc.letter, hc.quote, hc.underscore, hsymbol, hnone]

/-- A symbol of two characters. -/
theorem kinds_long {d : Char} {s : Symbol} (hc : IsSymbolChar c)
    (hsymbol : (symbolsOf c).1.lookup d = some s) :
    kinds (c :: d :: cs) = .symbol s :: kinds cs := by
  rw [kinds_cons hc.gap hc.slash]
  simp [readToken, readSymbol, hc.digit, hc.letter, hc.quote, hc.underscore, hsymbol]

/-- A slash that begins no comment. -/
theorem kinds_slash (hcs : ∀ d ∈ cs.head?, d ≠ '/') :
    kinds ('/' :: cs) = .symbol .slash :: kinds cs := by
  have hgap : gapLength false ('/' :: cs) = 0 := by
    rw [gapLength]
    · rfl
    · rintro ds - rfl
      exact absurd rfl (hcs '/' rfl)
  rw [kinds_of_token (by rw [hgap]; rfl)]
  cases cs <;> rfl

/-- A symbol that nothing completes gives its token. -/
theorem kinds_spelling (s : Symbol) (hs : s ≠ .underscore)
    (hcs : ∀ d ∈ cs.head?, d ∉ s.completions) :
    kinds (s.spelling.toList ++ cs) = .symbol s :: kinds cs := by
  cases s with
  | underscore => exact absurd rfl hs
  | slash => exact kinds_slash fun d hd ↦ by simpa [Symbol.completions] using hcs d hd
  | colonColon | plusPlus | minusMinus | arrow | fatArrow | eqEq | notEq | le | ltLt | ge | gtGt
  | ampAmp | pipePipe | questionQuestion =>
    exact kinds_long (by constructor <;> decide) rfl
  | _ => exact kinds_short (by constructor <;> decide) rfl hcs

/-! ## Words, strings and numbers -/

/-- What may stand behind a word or a number: no character that continues it, and no fraction. -/
def Stops : List Char → Prop
  | [] => True
  | c :: cs => Text.isWordChar c = false ∧ (c = '.' → ∀ d ∈ cs.head?, d.isDigit = false)

theorem Text.isWordChar_of_isLetter (h : isLetter c) : isWordChar c := by
  simp [isWordChar, h]

theorem Text.toNat_lt_of_isDigit (h : c.isDigit) : c.toNat < 0x80 :=
  Nat.lt_of_le_of_lt (Char.isDigit_iff_toNat.mp h).2 (by decide)

theorem Text.isWordChar_of_isDigit (h : c.isDigit) : isWordChar c := by
  simp [isWordChar, isNumeral, toNat_lt_of_isDigit h, h]

/-- What only continues a word does not stand behind it. -/
theorem Stops.head_of {p : Char → Bool} (h : Stops cs) (hp : ∀ c, p c → Text.isWordChar c) :
    ∀ c ∈ cs.head?, p c = false := by
  intro c hc
  cases cs with
  | nil => cases hc
  | cons d cs =>
    obtain rfl : d = c := Option.some.inj hc
    rw [Bool.eq_false_iff]
    intro hd
    exact absurd (hp d hd) (by simp [h.1])

/-- Reading on while a property holds takes a whole run that has it, if it ends there. -/
theorem takeWhile_run {p : Char → Bool} {run : List Char} (hrun : ∀ c ∈ run, p c)
    (hcs : ∀ c ∈ cs.head?, p c = false) : (run ++ cs).takeWhile p = run := by
  have hnil : cs.takeWhile p = [] := by
    cases cs with
    | nil => rfl
    | cons c cs => exact List.takeWhile_cons_of_neg (by simp [hcs c rfl])
  rw [List.takeWhile_append_of_pos hrun, hnil, List.append_nil]

theorem dropWhile_run {p : Char → Bool} {run : List Char} (hrun : ∀ c ∈ run, p c)
    (hcs : ∀ c ∈ cs.head?, p c = false) : (run ++ cs).dropWhile p = cs := by
  rw [List.dropWhile_append_of_pos hrun]
  cases cs with
  | nil => rfl
  | cons c cs => exact List.dropWhile_cons_of_neg (by simp [hcs c rfl])

theorem isGapChar_of_isWordChar (h : Text.isWordChar c) : isGapChar c = false := by
  rw [Bool.eq_false_iff]
  intro hgap
  simp only [isGapChar, Bool.or_eq_true, beq_iff_eq] at hgap
  rcases hgap with ((rfl | rfl) | rfl) | rfl <;> exact absurd h (by decide)

theorem ne_slash_of_isWordChar (h : Text.isWordChar c) : c ≠ '/' := by
  rintro rfl
  exact absurd h (by decide)

/-- A letter is no digit. -/
theorem Text.isDigit_of_isLetter (h : isLetter c) : c.isDigit = false := by
  rw [Bool.eq_false_iff]
  intro hd
  simp only [isLetter, toNat_lt_of_isDigit hd, if_true] at h
  have hletters : ∀ n ≤ '9'.toNat, (Char.ofNat n).isAlpha = false := by decide
  have hnone := hletters c.toNat (Char.isDigit_iff_toNat.mp hd).2
  rw [Char.ofNat_toNat, h] at hnone
  cases hnone

theorem kinds_word {w : String} (hw : IsWord w) (hcs : Stops cs) :
    kinds (w.toList ++ cs) = .word w :: kinds cs := by
  obtain ⟨c, ds, rfl, hc, hds⟩ := hw
  have hword := Text.isWordChar_of_isLetter hc
  have hrun : (ds ++ cs).takeWhile Text.isWordChar = ds :=
    takeWhile_run hds (hcs.head_of fun _ h ↦ h)
  have hread : readToken c (ds ++ cs) = (.word (String.ofList (c :: ds)), ds.length) := by
    simp [readToken, Text.isDigit_of_isLetter hc, hc, hrun]
  rw [String.toList_ofList, List.cons_append,
    kinds_cons (isGapChar_of_isWordChar hword) (ne_slash_of_isWordChar hword), hread,
    List.drop_left]

/-- A constant's mark before a word. -/
theorem kinds_underscore {w : String} (hw : IsWord w) (hcs : Stops cs) :
    kinds ('_' :: (w.toList ++ cs)) = .symbol .underscore :: .word w :: kinds cs := by
  obtain ⟨c, ds, hwc, hc, -⟩ := id hw
  have hread : readToken '_' (w.toList ++ cs) = (.symbol .underscore, 0) := by
    rw [hwc, String.toList_ofList]
    simp [readToken, readSymbol, hc]
    decide
  rw [kinds_cons rfl (by decide), hread, List.drop_zero, kinds_word hw hcs]

theorem kinds_string {t : String} (ht : '\x60' ∉ t.toList) :
    kinds ('\x60' :: (t.toList ++ '\x60' :: cs)) = .str t :: kinds cs := by
  have hrun : ∀ c ∈ t.toList, (c != '\x60') = true := by
    intro c hc
    refine bne_iff_ne.mpr ?_
    rintro rfl
    exact ht hc
  have hstop : ∀ c ∈ ('\x60' :: cs).head?, (c != '\x60') = false := by simp
  have hread : readToken '\x60' (t.toList ++ '\x60' :: cs) = (.str t, t.toList.length + 1) := by
    have hquote : readToken '\x60' (t.toList ++ '\x60' :: cs)
        = readString (t.toList ++ '\x60' :: cs) := rfl
    rw [hquote, readString, takeWhile_run hrun hstop, dropWhile_run hrun hstop,
      String.ofList_toList]
  rw [kinds_cons rfl (by decide), hread]
  simp

/-! ## Numbers -/

theorem valueOfDigits_toDigits (m : Nat) : valueOfDigits 10 (Nat.toDigits 10 m) = m := by
  calc valueOfDigits 10 (Nat.toDigits 10 m)
    _ = Nat.ofDigitChars 10 (Nat.toDigits 10 m) 0 := by
      rw [valueOfDigits, Nat.ofDigitChars_eq_foldl]
      refine List.foldl_ext _ _ _ fun v c hc ↦ ?_
      rw [digitValue, if_pos (Nat.isDigit_of_mem_toDigits (by decide) (by decide) hc)]
      rfl
    _ = m := Nat.ofDigitChars_ten_toDigits

/-- Only zero is written with a zero in front. -/
theorem head?_toDigits_ne {m : Nat} (hm : 0 < m) : (Nat.toDigits 10 m).head? ≠ some '0' := by
  induction m using Nat.strongRecOn with
  | ind m ih =>
    by_cases hlt : m < 10
    · rw [Nat.toDigits_of_lt_base hlt]
      simp [Nat.digitChar_eq_zero, Nat.pos_iff_ne_zero.mp hm]
    · have htail : (Nat.toDigits 10 (m / 10)).head? ≠ some '0' := ih (m / 10) (by omega) (by omega)
      rw [Nat.toDigits_of_base_le (by decide) (by omega),
        List.head?_append_of_ne_nil _ Nat.toDigits_ne_nil]
      exact htail

theorem Whole.ofDigits?_toDigits {n : Int64} (hn : 0 ≤ n.toInt) :
    ofDigits? 10 (Nat.toDigits 10 n.toInt.natAbs) = some n := by
  have hvalue : (n.toInt.natAbs : Int) = n.toInt := Int.natAbs_of_nonneg hn
  have hle := n.le_toInt
  have hlt := n.toInt_lt
  rw [ofDigits?, if_neg (by simp [Nat.toDigits_ne_nil]), valueOfDigits_toDigits, hvalue, ofInt?,
    if_pos (by simp only [least, greatest]; omega), Int64.ofInt_toInt]

theorem Stops.fractionPart_eq_nil (h : Stops cs) : fractionPart cs = [] := by
  unfold fractionPart
  split
  · rename_i d cs
    rw [if_neg (by simp [h.2 rfl d rfl])]
  · rfl

theorem Stops.exponentPart_eq_nil (h : Stops cs) : exponentPart cs = [] := by
  unfold exponentPart
  split
  · rename_i c cs
    rw [if_neg]
    intro hc
    have hword : Text.isWordChar c = true := by
      simp only [Bool.or_eq_true, beq_iff_eq] at hc
      rcases hc with rfl | rfl <;> decide
    exact absurd hword (by simp [h.1])
  · rfl

/-- The digits write the number in base ten: they do not mark another base, and the number fits. -/
structure WritesDecimal (ds : List Char) (n : Int64) : Prop where
  digits : ∀ c ∈ ds, c.isDigit
  unmarked : ∀ c rest, ds = '0' :: c :: rest → isOctDigit c = false
  value : Whole.ofDigits? 10 ds = some n

variable {ds : List Char} {n : Int64}

theorem WritesDecimal.exists_cons (h : WritesDecimal ds n) :
    ∃ c rest, ds = c :: rest ∧ c.isDigit := by
  cases ds with
  | nil => exact absurd h.value (by simp [Whole.ofDigits?])
  | cons c rest => exact ⟨c, rest, rfl, h.digits c List.mem_cons_self⟩

theorem WritesDecimal.readDecimal_eq (h : WritesDecimal ds n) (hcs : Stops cs) :
    readDecimal (ds ++ cs) = (.int n, ds.length) := by
  have hstop := hcs.head_of fun _ ↦ Text.isWordChar_of_isDigit
  simp [readDecimal, takeWhile_run h.digits hstop, dropWhile_run h.digits hstop,
    hcs.fractionPart_eq_nil, hcs.exponentPart_eq_nil, decimalNumber, h.value]

theorem isDigit_of_isOctDigit (h : isOctDigit c) : c.isDigit := by
  simp only [isOctDigit, Bool.and_eq_true, decide_eq_true_eq] at h
  simp only [Char.isDigit, Bool.and_eq_true, decide_eq_true_eq]
  exact ⟨h.1, UInt32.le_trans h.2 (by decide)⟩

/-- A zero marks no base before a character that is neither a base's letter nor an octal digit. -/
theorem readNumber_zero (hmark : ∀ x ∈ cs.head?, x ≠ 'x' ∧ x ≠ 'X' ∧ isOctDigit x = false) :
    readNumber '0' cs = ((readDecimal ('0' :: cs)).1, (readDecimal ('0' :: cs)).2 - 1) := by
  cases cs with
  | nil => rfl
  | cons x cs =>
    obtain ⟨hlower, hupper, hoct⟩ := hmark x rfl
    simp [readNumber, hlower, hupper, hoct]

/-- So does one that nothing continues. -/
theorem Stops.unmarked (hcs : Stops cs) :
    ∀ x ∈ cs.head?, x ≠ 'x' ∧ x ≠ 'X' ∧ isOctDigit x = false := by
  intro x hx
  have hword : Text.isWordChar x = false := hcs.head_of (fun _ h ↦ h) x hx
  refine ⟨?_, ?_, ?_⟩
  · rintro rfl
    exact absurd hword (by decide)
  · rintro rfl
    exact absurd hword (by decide)
  · rw [Bool.eq_false_iff]
    intro hoct
    exact absurd (Text.isWordChar_of_isDigit (isDigit_of_isOctDigit hoct)) (by simp [hword])

theorem readNumber_of_ne (hc : c ≠ '0') :
    readNumber c cs = ((readDecimal (c :: cs)).1, (readDecimal (c :: cs)).2 - 1) := by
  simp [readNumber, hc]

/-- Digits that write a number in base ten are read as that number. -/
theorem WritesDecimal.readNumber_eq (h : WritesDecimal (c :: ds) n) (hcs : Stops cs) :
    readNumber c (ds ++ cs) = (.int n, ds.length) := by
  have hdecimal := h.readDecimal_eq hcs
  rw [List.cons_append] at hdecimal
  by_cases hzero : c = '0'
  · have hmark : ∀ x ∈ (ds ++ cs).head?, x ≠ 'x' ∧ x ≠ 'X' ∧ isOctDigit x = false := by
      cases ds with
      | nil => exact hcs.unmarked
      | cons d rest =>
        intro x hx
        obtain rfl : d = x := Option.some.inj hx
        have hd : d.isDigit := h.digits d (List.mem_cons_of_mem _ List.mem_cons_self)
        refine ⟨?_, ?_, h.unmarked d rest (by rw [hzero])⟩
        · rintro rfl
          exact absurd hd (by decide)
        · rintro rfl
          exact absurd hd (by decide)
    rw [hzero] at hdecimal ⊢
    rw [readNumber_zero hmark, hdecimal]
    rfl
  · rw [readNumber_of_ne hzero, hdecimal]
    rfl

/-- Digits before anything that cannot continue them are one token. -/
theorem kinds_decimal (h : WritesDecimal ds n) (hcs : Stops cs) :
    kinds (ds ++ cs) = .number (.int n) :: kinds cs := by
  obtain ⟨c, rest, rfl, hc⟩ := h.exists_cons
  have hread : readToken c (rest ++ cs) = (.number (.int n), rest.length) := by
    rw [readToken, if_pos hc, h.readNumber_eq hcs]
  have hword := Text.isWordChar_of_isDigit hc
  rw [List.cons_append, kinds_cons (isGapChar_of_isWordChar hword) (ne_slash_of_isWordChar hword),
    hread, List.drop_left]

theorem Whole.text_eq_toDigits (hn : 0 ≤ n.toInt) :
    (text n).toList = Nat.toDigits 10 n.toInt.natAbs := by
  simp [text, Int.not_lt.mpr hn]

/-- The text of a number that is not negative writes it. -/
theorem writesDecimal_text (hn : 0 ≤ n.toInt) : WritesDecimal (Whole.text n).toList n where
  digits c hc := by
    rw [Whole.text_eq_toDigits hn] at hc
    exact Nat.isDigit_of_mem_toDigits (by decide) (by decide) hc
  unmarked c rest htext := by
    -- Only zero itself begins with a zero, and it has no other digit.
    rw [Whole.text_eq_toDigits hn] at htext
    have hm : n.toInt.natAbs = 0 := by
      by_contra hm
      exact head?_toDigits_ne (Nat.pos_of_ne_zero hm) (by rw [htext]; rfl)
    rw [hm, Nat.toDigits_zero] at htext
    cases htext
  value := by
    rw [Whole.text_eq_toDigits hn]
    exact Whole.ofDigits?_toDigits hn

/-- A number that is not negative is written as its digits. -/
theorem kinds_number (hn : 0 ≤ n.toInt) (hcs : Stops cs) :
    kinds ((Whole.text n).toList ++ cs) = .number (.int n) :: kinds cs :=
  kinds_decimal (writesDecimal_text hn) hcs

end Scriptlet
