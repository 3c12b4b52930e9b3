import Scriptlet.Proofs.Token.Lexemes

/-!
# Scanning past the end of a text

What is scanned in a text is scanned in the same way when more text stands behind it, if the first
character of what is added continues no token. Two things at the end of a text reach into what is
added: a string that has no end, which is a bad token, and a comment, unless what is added begins
with the newline that ends it.
-/

namespace Scriptlet

/-- A character that continues no token and no slash before it. -/
structure Parts (s : Char) : Prop where
  word : Text.isWordChar s = false
  dot : s ≠ '.'
  quote : s ≠ '\x60'
  plus : s ≠ '+'
  minus : s ≠ '-'
  slash : s ≠ '/'
  symbol : ∀ c, (symbolsOf c).1.lookup s = none

theorem parts_of_notMem {s : Char} (hword : Text.isWordChar s = false)
    (hs : s ∉ ['.', '\x60', '+', '-', '/', ':', '?', '&', '|', '=', '>', '<']) : Parts s := by
  simp only [List.mem_cons, List.not_mem_nil, not_or] at hs
  obtain ⟨hdot, hquote, hplus, hminus, hslash, hcolon, hquestion, hamp, hpipe, heq, hgt, hlt, -⟩ :=
    hs
  refine ⟨hword, hdot, hquote, hplus, hminus, hslash, fun c ↦ ?_⟩
  unfold symbolsOf
  split <;> simp [List.lookup_cons, beq_eq_false_iff_ne.mpr, *]

theorem parts_semicolon : Parts ';' := parts_of_notMem rfl (by decide)

theorem parts_newline : Parts '\n' := parts_of_notMem rfl (by decide)

/-! ## Tokens -/

theorem isWordChar_of_isHexDigit {c : Char} (h : isHexDigit c) : Text.isWordChar c := by
  have hle : c.toNat ≤ 'f'.toNat := by
    simp only [isHexDigit, Bool.or_eq_true, Bool.and_eq_true, decide_eq_true_eq] at h
    rcases h with (hdigit | ⟨-, hlower⟩) | ⟨-, hupper⟩
    · exact Nat.le_trans (Char.isDigit_iff_toNat.mp hdigit).2 (by decide)
    · exact hlower
    · exact Nat.le_trans (show c.toNat ≤ 'F'.toNat from hupper) (by decide)
  have hall : ∀ n ≤ 'f'.toNat, isHexDigit (Char.ofNat n) → Text.isWordChar (Char.ofNat n) := by
    decide
  have hc := hall c.toNat hle
  rw [Char.ofNat_toNat] at hc
  exact hc h

section Reading

variable {s : Char} (hs : Parts s) (cs more : List Char)

theorem takeWhile_past {p : Char → Bool} (hp : p s = false) :
    (cs ++ s :: more).takeWhile p = cs.takeWhile p := by
  induction cs with
  | nil => rw [List.nil_append, List.takeWhile_cons_of_neg (by simp [hp]), List.takeWhile_nil]
  | cons c cs ih => rw [List.cons_append, List.takeWhile_cons, List.takeWhile_cons, ih]

theorem dropWhile_past {p : Char → Bool} (hp : p s = false) :
    (cs ++ s :: more).dropWhile p = cs.dropWhile p ++ s :: more := by
  induction cs with
  | nil => rw [List.nil_append, List.dropWhile_cons_of_neg (by simp [hp])]; rfl
  | cons c cs ih =>
    rw [List.cons_append, List.dropWhile_cons, List.dropWhile_cons]
    split
    · exact ih
    · rfl

include hs

/-- What only word characters have, the character does not have. -/
theorem Parts.eq_false {p : Char → Bool} (hp : ∀ c, p c → Text.isWordChar c) : p s = false := by
  rw [Bool.eq_false_iff]
  intro hps
  exact absurd (hp s hps) (by simp [hs.word])

theorem Parts.isDigit : s.isDigit = false := hs.eq_false fun _ ↦ Text.isWordChar_of_isDigit

theorem Parts.isLetter : Text.isLetter s = false := hs.eq_false fun _ ↦ Text.isWordChar_of_isLetter

theorem Parts.isOctDigit : isOctDigit s = false :=
  hs.eq_false fun _ h ↦ Text.isWordChar_of_isDigit (isDigit_of_isOctDigit h)

theorem Parts.ne {c : Char} (hc : Text.isWordChar c) : s ≠ c := by
  rintro rfl
  exact absurd hc (by simp [hs.word])

theorem Parts.isHexDigit : isHexDigit s = false :=
  hs.eq_false fun _ ↦ isWordChar_of_isHexDigit

theorem fractionPart_past : fractionPart (cs ++ s :: more) = fractionPart cs := by
  match cs with
  | [] => simp [fractionPart, hs.dot]
  | [c] =>
    by_cases hc : c = '.'
    · simp [fractionPart, hc, hs.isDigit]
    · simp [fractionPart, hc]
  | c :: d :: cs =>
    by_cases hc : c = '.'
    · simp [fractionPart, hc, takeWhile_past cs more hs.isDigit]
    · simp [fractionPart, hc]

theorem exponentPart_past : exponentPart (cs ++ s :: more) = exponentPart cs := by
  have hmark : (s == 'e' || s == 'E') = false := by
    simp [hs.ne (c := 'e') (by decide), hs.ne (c := 'E') (by decide)]
  match cs with
  | [] => rw [List.nil_append, exponentPart.eq_def]; simp [hmark, exponentPart]
  | [c] => simp [exponentPart, hs.plus, hs.minus, hs.isDigit]
  | c :: d :: cs =>
    by_cases hplus : d = '+'
    · simp [exponentPart, hplus, takeWhile_past cs more hs.isDigit]
    · by_cases hminus : d = '-'
      · simp [exponentPart, hminus, takeWhile_past cs more hs.isDigit]
      · have hrun := takeWhile_past (d :: cs) more hs.isDigit
        rw [List.cons_append] at hrun
        simp [exponentPart, hplus, hminus, hrun]

theorem readDecimal_past : readDecimal (cs ++ s :: more) = readDecimal cs := by
  have hdrop : (fractionPart (cs.dropWhile Char.isDigit)).length
      ≤ (cs.dropWhile Char.isDigit).length := (fractionPart_prefix_self _).length_le
  simp only [readDecimal, takeWhile_past cs more hs.isDigit, dropWhile_past cs more hs.isDigit,
    fractionPart_past hs, List.drop_append_of_le_length hdrop, exponentPart_past hs]

theorem readNumber_past (c : Char) : readNumber c (cs ++ s :: more) = readNumber c cs := by
  have hdecimal : readDecimal (c :: (cs ++ s :: more)) = readDecimal (c :: cs) :=
    readDecimal_past hs (c :: cs) more
  by_cases hzero : c = '0'
  · subst hzero
    cases cs with
    | nil =>
      have hx : (s == 'x' || s == 'X') = false := by
        simp [hs.ne (c := 'x') (by decide), hs.ne (c := 'X') (by decide)]
      rw [List.nil_append] at hdecimal ⊢
      simp [readNumber, hx, hs.isOctDigit, hdecimal]
    | cons x ds =>
      have hoct := takeWhile_past (x :: ds) more hs.isOctDigit
      rw [List.cons_append] at hdecimal hoct ⊢
      simp only [readNumber, hdecimal, hoct, takeWhile_past ds more hs.isHexDigit]
  · rw [readNumber_of_ne hzero, readNumber_of_ne hzero, hdecimal]

theorem readSymbol_past (c : Char) : readSymbol c (cs ++ s :: more) = readSymbol c cs := by
  cases cs with
  | nil => simp [readSymbol, hs.isLetter, hs.symbol c]
  | cons d ds => rfl

omit hs in
/-- A string that has an end. -/
theorem readString_past (h : (readString cs).1 ≠ .bad '\x60') :
    readString (cs ++ s :: more) = readString cs := by
  unfold readString at h ⊢
  rcases hrest : cs.dropWhile (· != '\x60') with _ | ⟨d, ds⟩
  · rw [hrest] at h
    exact absurd rfl h
  · have hshort : (cs.takeWhile (· != '\x60')).length ≠ cs.length := by
      have hlen := congrArg List.length
        (List.takeWhile_append_dropWhile (p := (· != '\x60')) (l := cs))
      rw [hrest, List.length_append, List.length_cons] at hlen
      omega
    rw [List.takeWhile_append, if_neg hshort, List.dropWhile_append, hrest]
    rfl

/-- A token is read in the same way when more text stands behind it, unless it is a string that has
no end. -/
theorem readToken_past (c : Char) (h : (readToken c cs).1 ≠ .bad '\x60') :
    readToken c (cs ++ s :: more) = readToken c cs := by
  unfold readToken at h ⊢
  split
  · rw [readNumber_past hs]
  · split
    · rw [takeWhile_past cs more hs.word]
    · rename_i hdigit hletter
      rw [if_neg hdigit, if_neg hletter] at h
      split
      · rename_i hquote
        rw [if_pos hquote] at h
        exact readString_past cs more h
      · exact readSymbol_past hs cs more c

end Reading

/-! ## Gaps -/

/-- Whether a gap ends inside a comment, if it begins inside one or not. -/
def commentAfter : Bool → List Char → Bool
  | inside, [] => inside
  | true, c :: cs => commentAfter (c != '\n') cs
  | false, '/' :: '/' :: cs => commentAfter true cs
  | false, _ :: cs => commentAfter false cs

theorem gapLength_cons {c : Char} {cs : List Char} (h : ∀ ds, c = '/' → cs = '/' :: ds → False) :
    gapLength false (c :: cs) = if isGapChar c then gapLength false cs + 1 else 0 := by
  rw [gapLength]
  exact h

section Gaps

variable {s : Char} (hs : Parts s) (more : List Char)

include hs

/-- What is added does not make a comment of a slash. -/
theorem Parts.not_comment {c : Char} {cs : List Char} (h : ∀ ds, c = '/' → cs = '/' :: ds → False) :
    ∀ ds, c = '/' → cs ++ s :: more = '/' :: ds → False := by
  intro ds hc heq
  cases cs with
  | nil => exact hs.slash (List.cons.inj heq).1
  | cons d cs => exact h cs hc (by rw [(List.cons.inj heq).1])

/-- A gap that ends before the end of a text ends there also if the text goes on. -/
theorem gapLength_past {inside : Bool} {cs : List Char} (h : cs.drop (gapLength inside cs) ≠ []) :
    gapLength inside (cs ++ s :: more) = gapLength inside cs := by
  fun_induction gapLength inside cs with
  | case1 => exact absurd List.drop_nil h
  | case2 c cs ih => rw [List.cons_append, gapLength, ih h]
  | case3 cs ih => rw [List.cons_append, List.cons_append, gapLength, ih h]
  | case4 c cs hslash hc ih =>
    rw [List.cons_append, gapLength_cons (hs.not_comment more hslash), if_pos hc, ih h]
  | case5 c cs hslash hc =>
    rw [List.cons_append, gapLength_cons (hs.not_comment more hslash), if_neg hc]

/-- A gap that goes on to the end of a text goes on behind it. -/
theorem gapLength_end {inside : Bool} {cs : List Char} (h : cs.drop (gapLength inside cs) = []) :
    gapLength inside (cs ++ s :: more)
      = cs.length + gapLength (commentAfter inside cs) (s :: more) := by
  fun_induction gapLength inside cs with
  | case1 inside => rw [List.nil_append, List.length_nil, Nat.zero_add, commentAfter]
  | case2 c cs ih =>
    rw [List.cons_append, gapLength, ih h, commentAfter, List.length_cons, Nat.add_right_comm]
  | case3 cs ih =>
    rw [List.cons_append, List.cons_append, gapLength, ih h, commentAfter, List.length_cons,
      List.length_cons]
    omega
  | case4 c cs hslash hc ih =>
    rw [List.cons_append, gapLength_cons (hs.not_comment more hslash), if_pos hc, ih h,
      List.length_cons, Nat.add_right_comm, commentAfter]
    exact hslash
  | case5 c cs hslash hc => cases h

end Gaps

/-- A newline ends a comment, and is a blank where there is none. -/
theorem gapLength_newline (inside : Bool) (cs : List Char) :
    gapLength inside ('\n' :: cs) = gapLength false cs + 1 := by
  cases inside <;> rfl

/-- The text from the cursor on ends inside a comment. -/
def Cursor.endsInComment (c : Cursor) : Bool :=
  match h : c.next? with
  | none => commentAfter false c.rest
  | some (_, c') =>
    have := length_of_next? h
    c'.endsInComment
termination_by c.rest.length

/-! ## Texts -/

namespace Cursor

variable {c c' : Cursor} {t : Token}

theorem tokens_of_none (h : c.next? = none) : c.tokens = ([], c.skipGap.location) := by
  rw [tokens]
  split
  · rfl
  · rename_i hsome
    rw [h] at hsome
    cases hsome

theorem tokens_of_some (h : c.next? = some (t, c')) :
    c.tokens = (t :: c'.tokens.1, c'.tokens.2) := by
  rw [tokens]
  split
  · rename_i hnone
    rw [h] at hnone
    cases hnone
  · rename_i hsome
    rw [h] at hsome
    obtain ⟨rfl, rfl⟩ := Prod.mk.inj (Option.some.inj hsome)
    rfl

theorem endsInComment_of_none (h : c.next? = none) :
    c.endsInComment = commentAfter false c.rest := by
  rw [endsInComment]
  split
  · rfl
  · rename_i hsome
    rw [h] at hsome
    cases hsome

theorem endsInComment_of_some (h : c.next? = some (t, c')) :
    c.endsInComment = c'.endsInComment := by
  rw [endsInComment]
  split
  · rename_i hnone
    rw [h] at hnone
    cases hnone
  · rename_i hsome
    rw [h] at hsome
    obtain ⟨rfl, rfl⟩ := Prod.mk.inj (Option.some.inj hsome)
    rfl

theorem skipGap_rest_of_none (h : c.next? = none) : c.skipGap.rest = [] := by
  simp only [next?] at h
  split at h
  · assumption
  · cases h

/-- What is found at a cursor depends on where the gap before it ends. -/
theorem tokens_congr {d : Cursor} (h : c.skipGap = d.skipGap) : c.tokens = d.tokens := by
  have hnext : c.next? = d.next? := by rw [next?, next?, h]
  rcases hc : c.next? with _ | ⟨t, c'⟩
  · rw [tokens_of_none hc, tokens_of_none (c := d) (hnext ▸ hc), h]
  · rw [tokens_of_some hc, tokens_of_some (c := d) (hnext ▸ hc)]

/-- A blank belongs to the gap before the next token. -/
theorem tokens_blank {s : Char} (hs : isGapChar s) (cs : List Char) (l : Location) :
    tokens ⟨s :: cs, l⟩ = tokens ⟨cs, l.after s⟩ := by
  have hslash : ∀ ds, s = '/' → cs = '/' :: ds → False := by
    rintro ds rfl -
    cases hs
  refine tokens_congr ?_
  rw [skipGap, skipGap, gapLength_cons hslash, if_pos hs, advance, advance, List.drop_succ_cons,
    List.take_succ_cons, List.foldl_cons]

/-- The cursor with more text behind what is left. -/
def extend (c : Cursor) (more : List Char) : Cursor := ⟨c.rest ++ more, c.location⟩

theorem advance_extend {k : Nat} (h : k ≤ c.rest.length) (more : List Char) :
    (c.extend more).advance k = (c.advance k).extend more := by
  rw [advance, advance, extend, extend, List.drop_append_of_le_length h,
    List.take_append_of_le_length h]

variable {s : Char} (hs : Parts s) (more : List Char)

include hs

theorem next?_extend (h : c.next? = some (t, c')) (hstring : t.kind ≠ .bad '\x60') :
    (c.extend (s :: more)).next? = some (t, c'.extend (s :: more)) := by
  rcases hrest : c.skipGap.rest with _ | ⟨ch, cs⟩
  · simp only [next?, hrest] at h
    cases h
  · have hgap : gapLength false c.rest ≤ c.rest.length := by
      by_contra hlt
      rw [skipGap, advance, List.drop_eq_nil_of_le (Nat.le_of_not_le hlt)] at hrest
      cases hrest
    have hskip : (c.extend (s :: more)).skipGap = c.skipGap.extend (s :: more) := by
      have hne : c.rest.drop (gapLength false c.rest) ≠ [] := fun hnil ↦ by
        rw [skipGap, advance, hnil] at hrest
        cases hrest
      rw [skipGap, extend, gapLength_past hs more hne]
      exact advance_extend hgap _
    simp only [next?, hrest, Option.some.injEq, Prod.mk.injEq] at h
    obtain ⟨rfl, rfl⟩ := h
    obtain ⟨text, hpre, hlen, -⟩ := readToken_of_prefix ch cs
    have hread := readToken_past hs cs more ch hstring
    have htoken : (readToken ch cs).2 + 1 ≤ c.skipGap.rest.length := by
      rw [hrest, ← hlen, List.length_cons]
      exact Nat.succ_le_succ hpre.length_le
    have hbehind : (c.skipGap.extend (s :: more)).rest = ch :: (cs ++ s :: more) := by
      rw [extend, hrest, List.cons_append]
    simp only [next?, hskip, hbehind, hread, advance_extend htoken]
    rfl

theorem skipGap_extend (h : c.skipGap.rest = [])
    (hinside : s = '\n' ∨ commentAfter false c.rest = false) :
    (c.extend (s :: more)).skipGap = skipGap ⟨s :: more, c.skipGap.location⟩ := by
  have hlen : gapLength false (c.rest ++ s :: more)
      = c.rest.length + gapLength false (s :: more) := by
    rw [gapLength_end hs more h]
    rcases hinside with rfl | hinside
    · rw [gapLength_newline, gapLength_newline]
    · rw [hinside]
  have htake : c.rest.take (gapLength false c.rest) = c.rest := by
    refine List.take_of_length_le ?_
    exact List.drop_eq_nil_iff.mp h
  rw [skipGap, extend, skipGap, skipGap, hlen, advance, advance, advance, htake,
    List.drop_length_add_append, List.take_length_add_append, List.foldl_append]

/-- The tokens of a text with more behind it are the tokens of the text and then those of what is
added. -/
theorem tokens_extend (c : Cursor) (hstring : .bad '\x60' ∉ c.tokens.1.map Token.kind)
    (hcomment : s = '\n' ∨ c.endsInComment = false) :
    (c.extend (s :: more)).tokens
      = (c.tokens.1 ++ (tokens ⟨s :: more, c.tokens.2⟩).1, (tokens ⟨s :: more, c.tokens.2⟩).2) := by
  fun_induction tokens c with
  | case1 c hnext =>
    rw [endsInComment_of_none hnext] at hcomment
    rw [tokens_congr (skipGap_extend hs more (skipGap_rest_of_none hnext) hcomment),
      List.nil_append]
  | case2 c t c' hnext _ next ih =>
    rw [List.map_cons, List.mem_cons, not_or] at hstring
    rw [endsInComment_of_some hnext] at hcomment
    rw [tokens_of_some (next?_extend hs more hnext (Ne.symm hstring.1)), ih hstring.2 hcomment,
      List.cons_append]

end Cursor

/-- Two texts with a semicolon and a newline between them. -/
theorem kinds_seam {a b : List Char} (hstring : .bad '\x60' ∉ kinds a)
    (hcomment : (Cursor.mk a .start).endsInComment = false) :
    kinds (a ++ (';' :: '\n' :: b)) = kinds a ++ .symbol .semicolon :: kinds b := by
  have htokens := Cursor.tokens_extend parts_semicolon ('\n' :: b) ⟨a, .start⟩ hstring
    (.inr hcomment)
  have hsemicolon : kinds (';' :: '\n' :: b) = .symbol .semicolon :: kinds ('\n' :: b) :=
    kinds_short (by constructor <;> decide) rfl (by simp)
  have hnewline : kinds ('\n' :: b) = kinds b := by
    rw [kinds, Cursor.tokens_blank rfl, kinds]
    exact Cursor.map_kind_tokens b _ _
  calc kinds (a ++ (';' :: '\n' :: b))
    _ = kinds a ++ kinds (';' :: '\n' :: b) := by
      rw [Cursor.extend] at htokens
      rw [kinds, htokens, List.map_append]
      exact congrArg _ (Cursor.map_kind_tokens _ _ _)
    _ = kinds a ++ .symbol .semicolon :: kinds b := by rw [hsemicolon, hnewline]

end Scriptlet
