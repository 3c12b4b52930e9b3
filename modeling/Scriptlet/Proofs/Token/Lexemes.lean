import Mathlib.Data.List.TakeWhile
import Scriptlet.Proofs.Token.Kinds

/-!
# The text of a token and the text between tokens

A text is cut into pieces: before each token a gap, which holds blanks and comments only, and then
the token's own text. The two relations here say what a gap and what the text of a token look like
without the functions that measure them, and the lemmas say that what is measured is of that form.
The text of a number is the text that reads as this number and that the reading uses up.
-/

namespace Scriptlet

variable {c : Char} {cs : List Char}

/-! ## Gaps -/

/-- Blanks and comments, before the text `behind`. A comment begins with two slashes and goes on to
the end of the line or of the text. -/
inductive IsGap : List Char → List Char → Prop
  | nil (behind : List Char) : IsGap [] behind
  | blank {c : Char} {gap behind : List Char} (hc : isGapChar c) (h : IsGap gap behind) :
      IsGap (c :: gap) behind
  | comment {body gap behind : List Char} (hbody : '\n' ∉ body)
      (hend : ∀ c ∈ (gap ++ behind).head?, c = '\n') (h : IsGap gap behind) :
      IsGap ('/' :: '/' :: (body ++ gap)) behind

/-- What is skipped is a gap; what is skipped inside a comment ends the comment first. -/
theorem isGap_gapLength (inside : Bool) (cs : List Char) :
    ∃ body gap, cs.take (gapLength inside cs) = body ++ gap ∧ '\n' ∉ body
      ∧ (inside = false → body = [])
      ∧ (inside = true → ∀ c ∈ (gap ++ cs.drop (gapLength inside cs)).head?, c = '\n')
      ∧ IsGap gap (cs.drop (gapLength inside cs)) := by
  fun_induction gapLength inside cs with
  | case1 inside => exact ⟨[], [], rfl, List.not_mem_nil, fun _ ↦ rfl, by simp, .nil _⟩
  | case2 c cs ih =>
    obtain ⟨body, gap, htake, hbody, hout, hin, hgap⟩ := ih
    rw [List.take_succ_cons, List.drop_succ_cons, htake]
    by_cases hc : c = '\n'
    · -- the newline ends the comment and belongs to the gap behind it
      subst hc
      obtain rfl := hout rfl
      exact ⟨[], '\n' :: gap, rfl, List.not_mem_nil, fun _ ↦ rfl, by simp, .blank rfl hgap⟩
    · refine ⟨c :: body, gap, rfl, ?_, by simp, fun _ ↦ hin (by simpa using hc), hgap⟩
      rw [List.mem_cons, not_or]
      exact ⟨fun h ↦ hc h.symm, hbody⟩
  | case3 cs ih =>
    obtain ⟨body, gap, htake, hbody, -, hin, hgap⟩ := ih
    refine ⟨[], '/' :: '/' :: (body ++ gap), ?_, List.not_mem_nil, fun _ ↦ rfl, by simp, ?_⟩
    · rw [List.take_succ_cons, List.take_succ_cons, htake, List.nil_append]
    · rw [List.drop_succ_cons, List.drop_succ_cons]
      exact .comment hbody (hin rfl) hgap
  | case4 c cs _ hc ih =>
    obtain ⟨body, gap, htake, -, hout, -, hgap⟩ := ih
    obtain rfl := hout rfl
    refine ⟨[], c :: gap, ?_, List.not_mem_nil, fun _ ↦ rfl, by simp, .blank hc hgap⟩
    rw [List.take_succ_cons, htake, List.nil_append, List.nil_append]
  | case5 c cs _ hc => exact ⟨[], [], rfl, List.not_mem_nil, fun _ ↦ rfl, by simp, .nil _⟩

theorem isGap_take (cs : List Char) :
    IsGap (cs.take (gapLength false cs)) (cs.drop (gapLength false cs)) := by
  obtain ⟨body, gap, htake, -, hout, -, hgap⟩ := isGap_gapLength false cs
  obtain rfl := hout rfl
  rwa [htake]

/-! ## Numbers

A number is read from the text that is its own: reading that text alone gives the same number. -/

/-- A fraction is the front of what it is read from. -/
theorem fractionPart_prefix_self (cs : List Char) : fractionPart cs <+: cs := by
  unfold fractionPart
  split
  · split
    · simp [List.takeWhile_prefix]
    · exact List.nil_prefix
  · exact List.nil_prefix

theorem exponentPart_prefix_self (cs : List Char) : exponentPart cs <+: cs := by
  unfold exponentPart
  split
  · split
    · split <;> simp [List.takeWhile_prefix]
    · exact List.nil_prefix
  · exact List.nil_prefix

theorem exponentPart_head? (cs : List Char) :
    ∀ c ∈ (exponentPart cs).head?, c = 'e' ∨ c = 'E' := by
  intro c hc
  unfold exponentPart at hc
  split at hc
  · split at hc
    · rename_i hmark
      split at hc
      all_goals
        obtain rfl := Option.some.inj hc
        simpa using hmark
    · cases hc
  · cases hc

/-- Digits behind a mark are all of the exponent. -/
theorem exponentPart_digits {ds : List Char} (hmark : (c == 'e' || c == 'E') = true)
    (hds : ∀ d ∈ ds, d.isDigit) : exponentPart (c :: ds) = c :: ds := by
  rw [exponentPart, if_pos hmark, List.takeWhile_eq_self_iff.mpr hds]
  · rintro es rfl
    exact absurd (hds '+' List.mem_cons_self) (by decide)
  · rintro es rfl
    exact absurd (hds '-' List.mem_cons_self) (by decide)

theorem exponentPart_self (cs : List Char) : exponentPart (exponentPart cs) = exponentPart cs := by
  generalize hread : exponentPart cs = text
  unfold exponentPart at hread
  split at hread
  · rename_i c cs
    by_cases hmark : (c == 'e' || c == 'E') = true
    · rw [if_pos hmark] at hread
      split at hread
      · simp [← hread, exponentPart, hmark, List.takeWhile_idem]
      · simp [← hread, exponentPart, hmark, List.takeWhile_idem]
      · rw [← hread]
        exact exponentPart_digits hmark fun _ ↦ List.mem_takeWhile_imp
    · rw [if_neg hmark] at hread
      rw [← hread]
      rfl
  · rw [← hread]
    rfl

/-- An exponent does not continue a run of digits, nor does it begin a fraction. -/
theorem exponentPart_stops (cs : List Char) :
    ∀ c ∈ (exponentPart cs).head?, c.isDigit = false := by
  intro c hc
  rcases exponentPart_head? cs c hc with rfl | rfl <;> rfl

theorem fractionPart_self (cs ds : List Char) :
    fractionPart (fractionPart cs ++ exponentPart ds) = fractionPart cs := by
  by_cases hnone : fractionPart cs = []
  · rw [hnone, List.nil_append, fractionPart]
    rintro d es hdot
    have hhead := exponentPart_head? ds '.' (by rw [hdot]; rfl)
    simp at hhead
  · unfold fractionPart at hnone ⊢
    split at hnone
    · rename_i d es
      by_cases hd : d.isDigit
      · have hrun : ∀ x ∈ es.takeWhile Char.isDigit, x.isDigit := fun _ ↦ List.mem_takeWhile_imp
        simp [hd, takeWhile_run hrun (exponentPart_stops ds)]
      · simp [hd] at hnone
    · exact absurd rfl hnone

theorem fractionPart_head? (cs : List Char) : ∀ c ∈ (fractionPart cs).head?, c = '.' := by
  intro c hc
  unfold fractionPart at hc
  split at hc
  · split at hc
    · exact (Option.some.inj hc).symm
    · cases hc
  · cases hc

/-- What follows the whole part of a decimal literal is no digit. -/
theorem fractionPart_stops (cs ds : List Char) :
    ∀ c ∈ (fractionPart cs ++ exponentPart ds).head?, c.isDigit = false := by
  intro c hc
  by_cases hnone : fractionPart cs = []
  · rw [hnone, List.nil_append] at hc
    exact exponentPart_stops ds c hc
  · rw [List.head?_append_of_ne_nil _ hnone] at hc
    rw [fractionPart_head? cs c hc]
    rfl

/-- The text of a decimal literal. -/
theorem readDecimal_of_prefix (cs : List Char) :
    ∃ text, text <+: cs ∧ text.length = (readDecimal cs).2 ∧ readDecimal text = readDecimal cs := by
  set whole := cs.takeWhile Char.isDigit with hwhole
  set rest := cs.dropWhile Char.isDigit with hrest
  set fraction := fractionPart rest with hfraction
  set exponent := exponentPart (rest.drop fraction.length) with hexponent
  have hdigits : ∀ c ∈ whole, c.isDigit := fun _ ↦ List.mem_takeWhile_imp
  have hread : readDecimal cs = (decimalNumber whole fraction exponent,
      whole.length + fraction.length + exponent.length) := rfl
  have hstop : ∀ c ∈ (fraction ++ exponent).head?, c.isDigit = false := fractionPart_stops _ _
  refine ⟨whole ++ (fraction ++ exponent), ?_, ?_, ?_⟩
  · have hcs : cs = whole ++ (fraction ++ rest.drop fraction.length) := by
      rw [List.prefix_iff_eq_append.mp (fractionPart_prefix_self rest),
        List.takeWhile_append_dropWhile]
    rw [hcs, List.prefix_append_right_inj, List.prefix_append_right_inj]
    exact exponentPart_prefix_self _
  · rw [hread, List.length_append, List.length_append, Nat.add_assoc]
  · rw [hread, readDecimal, takeWhile_run hdigits hstop, dropWhile_run hdigits hstop]
    have hfraction' : fractionPart (fraction ++ exponent) = fraction := fractionPart_self _ _
    have hexponent' : exponentPart exponent = exponent := exponentPart_self _
    simp only [hfraction', List.drop_left, hexponent']

/-- A first digit belongs to the decimal literal that it begins. -/
theorem readDecimal_cons_of_prefix (hc : c.isDigit) (cs : List Char) :
    ∃ text, text <+: cs ∧ text.length = (readDecimal (c :: cs)).2 - 1
      ∧ readDecimal (c :: text) = readDecimal (c :: cs) := by
  obtain ⟨text, hpre, hlen, hread⟩ := readDecimal_of_prefix (c :: cs)
  cases text with
  | nil =>
    have hpos : 0 < (readDecimal (c :: cs)).2 := by
      simp only [readDecimal, List.takeWhile_cons_of_pos hc, List.length_cons]
      omega
    rw [← hlen] at hpos
    exact absurd hpos (Nat.lt_irrefl 0)
  | cons d text =>
    obtain ⟨rfl, hbehind⟩ := List.cons_prefix_cons.mp hpre
    exact ⟨text, hbehind, by rw [← hlen]; rfl, hread⟩

/-- The text of a number behind its first digit. -/
theorem readNumber_of_prefix (hc : c.isDigit) (cs : List Char) :
    ∃ text, text <+: cs ∧ text.length = (readNumber c cs).2
      ∧ readNumber c text = readNumber c cs := by
  -- only behind a zero does the next character tell in which base the number is written
  by_cases hzero : c = '0'
  · subst hzero
    cases cs with
    | nil => exact ⟨[], List.nil_prefix, rfl, rfl⟩
    | cons x ds =>
      by_cases hx : (x == 'x' || x == 'X') = true
      · refine ⟨x :: ds.takeWhile isHexDigit, ?_, ?_, ?_⟩
        · exact List.cons_prefix_cons.mpr ⟨rfl, List.takeWhile_prefix _⟩
        · simp [readNumber, hx]
        · simp [readNumber, hx, List.takeWhile_idem]
      · by_cases hoct : isOctDigit x
        · refine ⟨(x :: ds).takeWhile isOctDigit, List.takeWhile_prefix _, ?_, ?_⟩
          · simp [readNumber, hx, hoct]
          · simp [readNumber, hx, hoct, List.takeWhile_idem]
        · obtain ⟨text, hpre, hlen, hread⟩ := readDecimal_cons_of_prefix hc (x :: ds)
          refine ⟨text, hpre, by simpa [readNumber, hx, hoct] using hlen, ?_⟩
          cases text with
          | nil => simp [readNumber, hx, hoct, hread]
          | cons y text =>
            obtain ⟨rfl, -⟩ := List.cons_prefix_cons.mp hpre
            simp [readNumber, hx, hoct, hread]
  · obtain ⟨text, hpre, hlen, hread⟩ := readDecimal_cons_of_prefix hc cs
    refine ⟨text, hpre, ?_, ?_⟩
    · rw [readNumber_of_ne hzero, hlen]
    · rw [readNumber_of_ne hzero, readNumber_of_ne hzero, hread]

/-! ## Tokens -/

/-- The text is one that the token can stand for. A bad token is one character, or a string that has
no end. -/
def TokenKind.SpelledBy : TokenKind → List Char → Prop
  | .number n, text => ∃ c ds, text = c :: ds ∧ c.isDigit ∧ readNumber c ds = (n, ds.length)
  | .str s, text => text = '\x60' :: (s.toList ++ ['\x60']) ∧ '\x60' ∉ s.toList
  | .word w, text => text = w.toList ∧ IsWord w
  | .symbol s, text => text = s.spelling.toList
  | .bad c, text => text = [c] ∨ c = '\x60' ∧ ∃ body, text = c :: body ∧ c ∉ body
  | .eof, _ => False

theorem TokenKind.SpelledBy.ne_nil {k : TokenKind} {text : List Char} (h : k.SpelledBy text) :
    text ≠ [] := by
  rintro rfl
  cases k with
  | number n =>
    obtain ⟨c, ds, hnil, -⟩ := h
    cases hnil
  | str s => cases h.1
  | word w =>
    obtain ⟨hnil, c, cs, rfl, -⟩ := h
    rw [String.toList_ofList] at hnil
    cases hnil
  | symbol s => cases s <;> cases h
  | bad c =>
    rcases h with hnil | ⟨-, body, hnil, -⟩
    · cases hnil
    · cases hnil
  | eof => exact h

theorem spelling_of_symbolsOf_fst {p : Char × Symbol} (h : p ∈ (symbolsOf c).1) :
    p.2.spelling.toList = [c, p.1] := by
  unfold symbolsOf at h
  split at h <;> simp at h
  all_goals rcases h with rfl | rfl <;> rfl

theorem spelling_of_symbolsOf_snd {s : Symbol} (h : (symbolsOf c).2 = some s) :
    s.spelling.toList = [c] := by
  unfold symbolsOf at h
  split at h <;> simp at h
  all_goals subst h; rfl

theorem readSymbol_of_prefix (c : Char) (cs : List Char) :
    ∃ text, text <+: cs ∧ text.length = (readSymbol c cs).2
      ∧ (readSymbol c cs).1.SpelledBy (c :: text) := by
  by_cases hunderscore : c = '_'
  · refine ⟨[], List.nil_prefix, ?_⟩
    by_cases hletter : cs.head?.any Text.isLetter
    · simp [readSymbol, hunderscore, hletter, TokenKind.SpelledBy, Symbol.spelling]
    · simp [readSymbol, hunderscore, hletter, TokenKind.SpelledBy]
  · rw [readSymbol, if_neg (by simpa using hunderscore)]
    split
    · rename_i s hlonger
      obtain ⟨d, hd, hs⟩ := Option.bind_eq_some_iff.mp hlonger
      obtain ⟨ds, rfl⟩ : ∃ ds, cs = d :: ds := List.head?_eq_some_iff.mp hd
      refine ⟨[d], by simp, rfl, ?_⟩
      obtain ⟨before, behind, hmem, -⟩ := List.lookup_eq_some_iff.mp hs
      exact (spelling_of_symbolsOf_fst (p := (d, s)) (by simp [hmem])).symm
    · rename_i hshort
      exact ⟨[], List.nil_prefix, rfl, (spelling_of_symbolsOf_snd hshort).symm⟩
    · exact ⟨[], List.nil_prefix, rfl, .inl rfl⟩

theorem readString_of_prefix (cs : List Char) :
    ∃ text, text <+: cs ∧ text.length = (readString cs).2
      ∧ (readString cs).1.SpelledBy ('\x60' :: text) := by
  have hbody : '\x60' ∉ cs.takeWhile (· != '\x60') := by
    intro hmem
    simpa using List.mem_takeWhile_imp hmem
  rw [readString]
  split
  · exact ⟨cs.takeWhile (· != '\x60'), List.takeWhile_prefix _, rfl, .inr ⟨rfl, _, rfl, hbody⟩⟩
  · rename_i d ds hrest
    -- the text behind the body begins with the backtick that ends it
    have hd : d = '\x60' := by
      have hhead := List.head?_dropWhile_not (· != '\x60') cs
      simpa [hrest] using hhead
    subst hd
    refine ⟨cs.takeWhile (· != '\x60') ++ ['\x60'], ?_, by simp, ?_⟩
    · have hcs := List.takeWhile_append_dropWhile (p := (· != '\x60')) (l := cs)
      rw [hrest] at hcs
      exact ⟨ds, by rw [List.append_assoc, List.singleton_append, hcs]⟩
    · rw [TokenKind.SpelledBy, String.toList_ofList]
      exact ⟨rfl, hbody⟩

/-- The text of a token behind its first character. -/
theorem readToken_of_prefix (c : Char) (cs : List Char) :
    ∃ text, text <+: cs ∧ text.length = (readToken c cs).2
      ∧ (readToken c cs).1.SpelledBy (c :: text) := by
  rw [readToken]
  split
  · rename_i hdigit
    obtain ⟨text, hpre, hlen, hread⟩ := readNumber_of_prefix hdigit cs
    refine ⟨text, hpre, hlen, c, text, rfl, hdigit, ?_⟩
    rw [hread, hlen]
  · split
    · rename_i hletter
      refine ⟨cs.takeWhile Text.isWordChar, List.takeWhile_prefix _, rfl, ?_, ?_⟩
      · rw [String.toList_ofList]
      · exact ⟨c, _, rfl, hletter, fun _ ↦ List.mem_takeWhile_imp⟩
    · split
      · rename_i hquote
        obtain rfl : c = '\x60' := by simpa using hquote
        exact readString_of_prefix cs
      · exact readSymbol_of_prefix c cs

end Scriptlet
