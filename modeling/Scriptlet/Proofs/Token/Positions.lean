import Mathlib.Data.List.DropRight
import Scriptlet.Proofs.Token.Lexemes

/-!
# Where a scanner stands

A cursor keeps what is left of a text and a place, and nothing of the text before it. That the two
fit together is a fact about every way of using it: whatever tokens are asked for, and to whichever
earlier cursor a scanner is put back, the place is the one that the newlines before the cursor give.
Each call takes a gap and the text of a token, so the gaps and the tokens' texts put together are
the text that was scanned.
-/

namespace Scriptlet

/-! ## Places of a text -/

/-- The place of the character at an index of a text: its line is counted by the newlines before it,
its column by the characters behind the last of them. -/
def placeAt (cs : List Char) (n : Nat) : Location :=
  ⟨(cs.take n).count '\n' + 1, ((cs.take n).rtakeWhile (· != '\n')).length + 1⟩

theorem Location.foldl_after_start (cs : List Char) :
    cs.foldl after start = ⟨cs.count '\n' + 1, (cs.rtakeWhile (· != '\n')).length + 1⟩ := by
  induction cs using List.reverseRecOn with
  | nil => rfl
  | append_singleton cs c ih =>
    rw [List.foldl_append, List.foldl_cons, List.foldl_nil, ih, after, List.count_append]
    by_cases hc : c = '\n'
    · subst hc
      rw [if_pos rfl, List.rtakeWhile_concat_neg _ _ _ (by simp)]
      rfl
    · rw [if_neg hc, List.rtakeWhile_concat_pos _ _ _ (by simpa using hc)]
      simp [hc]

/-- A cursor before the character at an index of a text, or at its end. -/
structure Cursor.StandsAt (cs : List Char) (n : Nat) (c : Cursor) : Prop where
  bound : n ≤ cs.length
  rest : c.rest = cs.drop n
  location : c.location = placeAt cs n

namespace Cursor

variable {cs : List Char} {n : Nat} {c : Cursor}

theorem standsAt_ofText (source : String) : (ofText source).StandsAt source.toList 0 :=
  ⟨Nat.zero_le _, rfl, rfl⟩

theorem StandsAt.current (h : c.StandsAt cs n) : c.current = cs[n]? := by
  rw [Cursor.current, h.rest, List.head?_drop]

/-- Over a piece of text a cursor moves by the length of the piece. -/
theorem StandsAt.move {read behind : List Char} (h : c.StandsAt cs n)
    (hrest : c.rest = read ++ behind) :
    StandsAt cs (n + read.length) ⟨behind, read.foldl Location.after c.location⟩ := by
  obtain ⟨before, rfl, rfl⟩ : ∃ before, cs = before ++ (read ++ behind) ∧ before.length = n := by
    refine ⟨cs.take n, ?_, List.length_take_of_le h.bound⟩
    rw [← hrest, h.rest, List.take_append_drop]
  have htake (k : Nat) :
      (before ++ (read ++ behind)).take (before.length + k) = before ++ (read ++ behind).take k :=
    List.take_length_add_append k
  refine ⟨by simp, ?_, ?_⟩
  · rw [List.drop_length_add_append, List.drop_left]
  · rw [h.location, placeAt, placeAt, ← Location.foldl_after_start, ← Location.foldl_after_start,
      List.take_left, htake, List.take_left, List.foldl_append]

/-! ## A call -/

/-- What one call takes from the text: a gap, and then the text of the token that it returns. -/
structure Takes (c : Cursor) (gap text : List Char) : Prop where
  rest : c.rest = gap ++ (text ++ c.next.2.rest)
  isGap : IsGap gap (text ++ c.next.2.rest)
  token : c.next.1.location = gap.foldl Location.after c.location
  behind : c.next.2.location = (gap ++ text).foldl Location.after c.location
  spelled : c.next.1.kind ≠ .eof → c.next.1.kind.SpelledBy text
  ended : c.next.1.kind = .eof → text = [] ∧ c.next.2.rest = []

theorem exists_takes (c : Cursor) : ∃ gap text, c.Takes gap text := by
  set gap := c.rest.take (gapLength false c.rest) with hgap
  have hrest : c.rest = gap ++ c.skipGap.rest := (List.take_append_drop _ _).symm
  have hskip : IsGap gap c.skipGap.rest := isGap_take c.rest
  have hplace : c.skipGap.location = gap.foldl Location.after c.location := rfl
  cases hbehind : c.skipGap.rest with
  | nil =>
    have hnext : c.next = (⟨.eof, c.skipGap.location⟩, c.skipGap) := by
      simp only [next, next?, hbehind, Option.getD_none]
    rw [hbehind] at hrest hskip
    refine ⟨gap, [], ?_, ?_, ?_, ?_, ?_, ?_⟩ <;> rw [hnext]
    · rwa [hbehind]
    · rwa [hbehind]
    · exact hplace
    · rwa [List.append_nil]
    · exact fun h ↦ absurd rfl h
    · exact fun _ ↦ ⟨rfl, hbehind⟩
  | cons ch cs =>
    obtain ⟨text, ⟨behind, rfl⟩, hlen, hspelled⟩ := readToken_of_prefix ch cs
    have hnext : c.next = (⟨(readToken ch (text ++ behind)).1, c.skipGap.location⟩,
        ⟨behind, (gap ++ ch :: text).foldl Location.after c.location⟩) := by
      simp only [next, next?, hbehind, Option.getD_some, advance, List.drop_succ_cons,
        List.take_succ_cons, ← hlen, List.drop_left, List.take_left, hplace,
        List.foldl_append]
    rw [hbehind] at hrest hskip
    refine ⟨gap, ch :: text, ?_, ?_, ?_, ?_, ?_, ?_⟩ <;> rw [hnext]
    · exact hrest
    · exact hskip
    · exact hplace
    · exact fun _ ↦ hspelled
    · intro heof
      rw [show (readToken ch (text ++ behind)).1 = .eof from heof] at hspelled
      exact hspelled.elim

/-- A call moves the cursor over the gap and the token. -/
theorem StandsAt.next {gap text : List Char} (h : c.StandsAt cs n) (htakes : c.Takes gap text) :
    c.next.2.StandsAt cs (n + gap.length + text.length) := by
  have hrest : c.rest = (gap ++ text) ++ c.next.2.rest := by
    rw [List.append_assoc]
    exact htakes.rest
  have hmove := h.move hrest
  rw [← htakes.behind, List.length_append, ← Nat.add_assoc] at hmove
  exact hmove

/-- The token stands behind the gap. -/
theorem StandsAt.token {gap text : List Char} (h : c.StandsAt cs n) (htakes : c.Takes gap text) :
    c.next.1.location = placeAt cs (n + gap.length) := by
  rw [htakes.token]
  exact (h.move htakes.rest).location

theorem next_of_nil (h : c.rest = []) : c.next = (⟨.eof, c.location⟩, c) := by
  obtain ⟨rest, location⟩ := c
  obtain rfl : rest = [] := h
  simp only [next, next?, skipGap, advance, List.drop_nil, List.take_nil, List.foldl_nil,
    Option.getD_none]

/-- The tokens that calls one after another return. -/
def calls : Nat → Cursor → List Token
  | 0, _ => []
  | k + 1, c => c.next.1 :: calls k c.next.2

theorem calls_of_nil (h : c.rest = []) (k : Nat) :
    c.calls k = List.replicate k ⟨.eof, c.location⟩ := by
  induction k with
  | zero => rfl
  | succ k ih => rw [calls, next_of_nil h, ih, List.replicate_succ]

/-- A call that finds no token leaves nothing to find. -/
theorem Takes.calls_of_eof {gap text : List Char} (h : c.Takes gap text)
    (heof : c.next.1.kind = .eof) (k : Nat) : c.next.2.calls k = List.replicate k c.next.1 := by
  obtain ⟨rfl, hrest⟩ := h.ended heof
  have hplace : c.next.1.location = c.next.2.location := by
    rw [h.token, h.behind, List.append_nil]
  have htoken : c.next.1 = ⟨.eof, c.next.2.location⟩ := by rw [← heof, ← hplace]
  rw [calls_of_nil hrest, ← htoken]

end Cursor

/-! ## A whole text -/

/-- A token with the gap before it and its text. -/
structure Piece where
  gap : List Char
  text : List Char
  token : Token

/-- The text is cut into the pieces, and a last gap behind them. -/
inductive CutInto : List Char → List Piece → List Char → Prop
  | ended {gap : List Char} (h : IsGap gap []) : CutInto gap [] gap
  | token {p : Piece} {ps : List Piece} {rest last : List Char}
      (hgap : IsGap p.gap (p.text ++ rest))
      (htext : p.token.kind.SpelledBy p.text) (h : CutInto rest ps last) :
      CutInto (p.gap ++ (p.text ++ rest)) (p :: ps) last

theorem CutInto.append {cs last : List Char} {ps : List Piece} (h : CutInto cs ps last) :
    ps.flatMap (fun p ↦ p.gap ++ p.text) ++ last = cs := by
  induction h with
  | ended => rfl
  | token _ _ _ ih => rw [List.flatMap_cons, List.append_assoc, ih, List.append_assoc]

/-- The calls from a cursor on cut what is left of the text; behind its last token there are only
calls that find the end. -/
theorem Cursor.cutInto_calls (c : Cursor) :
    ∃ ps last, CutInto c.rest ps last ∧ ∀ k, c.calls (ps.length + k)
      = ps.map Piece.token ++ List.replicate k ⟨.eof, c.rest.foldl Location.after c.location⟩ := by
  induction hn : c.rest.length using Nat.strongRecOn generalizing c with
  | ind n ih =>
    obtain ⟨gap, text, h⟩ := c.exists_takes
    by_cases heof : c.next.1.kind = .eof
    · obtain ⟨rfl, hrest⟩ := h.ended heof
      have hgap : c.rest = gap := by rw [h.rest, hrest, List.append_nil, List.append_nil]
      refine ⟨[], gap, ?_, fun k ↦ ?_⟩
      · have hisGap := h.isGap
        rw [hrest, List.append_nil] at hisGap
        rw [hgap]
        exact .ended hisGap
      · rw [List.length_nil, Nat.zero_add, List.map_nil, List.nil_append]
        cases k with
        | zero => rfl
        | succ k =>
          have htoken : c.next.1 = ⟨.eof, c.rest.foldl Location.after c.location⟩ := by
            rw [← heof, hgap, ← h.token]
          rw [calls, h.calls_of_eof heof, ← htoken, List.replicate_succ]
    · have hspelled := h.spelled heof
      have hlen : c.next.2.rest.length < n := by
        have hpos := List.length_pos_iff.mpr hspelled.ne_nil
        rw [← hn, h.rest, List.length_append, List.length_append]
        omega
      obtain ⟨ps, last, hcut, hcalls⟩ := ih _ hlen c.next.2 rfl
      refine ⟨⟨gap, text, c.next.1⟩ :: ps, last, ?_, fun k ↦ ?_⟩
      · rw [h.rest]
        exact .token (p := ⟨gap, text, c.next.1⟩) h.isGap hspelled hcut
      · have hplace : c.next.2.rest.foldl Location.after c.next.2.location
            = c.rest.foldl Location.after c.location := by
          rw [h.behind, h.rest, ← List.foldl_append, List.append_assoc]
        rw [List.length_cons, Nat.add_right_comm, calls, hcalls, hplace, List.map_cons,
          List.cons_append]

/-! ## A scanner in use -/

/-- A cursor, and the earlier ones that it can be put back to. -/
structure Scanner where
  cursor : Cursor
  saved : List Cursor

namespace Scanner

/-- What can be done with a scanner: ask for a token, save the cursor, and put it back to one that
was saved. -/
inductive Step where
  | next
  | save
  | restore (slot : Nat)

/-- The scanner at the start of a text. -/
def ofText (source : String) : Scanner := ⟨.ofText source, []⟩

/-- The scanner behind a step. -/
def step (s : Scanner) : Step → Scanner
  | .next => { s with cursor := s.cursor.next.2 }
  | .save => { s with saved := s.saved ++ [s.cursor] }
  | .restore slot => { s with cursor := s.saved[slot]?.getD s.cursor }

/-- The scanner behind steps one after another. -/
def run (s : Scanner) (steps : List Step) : Scanner := steps.foldl step s

/-- The cursor, and every cursor it can be put back to, stand at indices of the text. -/
def InText (cs : List Char) (s : Scanner) : Prop :=
  ∀ c ∈ s.cursor :: s.saved, ∃ n, c.StandsAt cs n

variable {cs : List Char} {s : Scanner}

theorem inText_ofText (source : String) : (ofText source).InText source.toList := by
  intro c hc
  obtain rfl := List.mem_singleton.mp hc
  exact ⟨0, Cursor.standsAt_ofText source⟩

theorem InText.step (h : s.InText cs) (a : Step) : (s.step a).InText cs := by
  obtain ⟨hcursor, hsaved⟩ := List.forall_mem_cons.mp h
  cases a with
  | next =>
    obtain ⟨n, hn⟩ := hcursor
    obtain ⟨gap, text, htakes⟩ := s.cursor.exists_takes
    exact List.forall_mem_cons.mpr ⟨⟨_, hn.next htakes⟩, hsaved⟩
  | save =>
    refine List.forall_mem_cons.mpr ⟨hcursor, fun c hc ↦ ?_⟩
    rcases List.mem_append.mp hc with hold | hnew
    · exact hsaved c hold
    · rwa [List.mem_singleton.mp hnew]
  | restore slot =>
    refine List.forall_mem_cons.mpr ⟨?_, hsaved⟩
    cases hslot : s.saved[slot]? with
    | none => simpa [Scanner.step, hslot] using hcursor
    | some c => simpa [Scanner.step, hslot] using hsaved c (List.mem_of_getElem? hslot)

theorem InText.run (h : s.InText cs) (steps : List Step) : (s.run steps).InText cs := by
  induction steps generalizing s with
  | nil => exact h
  | cons a steps ih => exact ih (h.step a)

/-- However a scanner is used, its cursor is inside the text, at the character that stands there and
at the place that the newlines before it give. A call skips a gap, returns a token at the place of
its first character, and moves over the token's text; only the end of the text moves it no further,
and is found there again by every other call. The gaps and the tokens' texts together are the
text. -/
theorem positions_exact (source : String) (steps : List Step) :
    let c := ((ofText source).run steps).cursor
    (∃ n gap text, c.StandsAt source.toList n ∧ c.current = source.toList[n]?
        ∧ source.toList.drop n = gap ++ (text ++ c.next.2.rest)
        ∧ IsGap gap (text ++ c.next.2.rest)
        ∧ c.next.1.location = placeAt source.toList (n + gap.length)
        ∧ c.next.2.StandsAt source.toList (n + gap.length + text.length)
        ∧ (c.next.1.kind ≠ .eof → text ≠ [] ∧ c.next.1.kind.SpelledBy text)
        ∧ (c.next.1.kind = .eof → text = [] ∧ ∀ k, c.next.2.calls k = List.replicate k c.next.1))
      ∧ ∃ ps last, source.toList = ps.flatMap (fun p ↦ p.gap ++ p.text) ++ last
        ∧ CutInto source.toList ps last
        ∧ (Cursor.ofText source).calls (ps.length + 1)
          = ps.map Piece.token ++ [⟨.eof, placeAt source.toList source.toList.length⟩] := by
  intro c
  obtain ⟨n, hn⟩ := ((inText_ofText source).run steps) c List.mem_cons_self
  obtain ⟨gap, text, htakes⟩ := c.exists_takes
  refine ⟨⟨n, gap, text, hn, hn.current, hn.rest ▸ htakes.rest, htakes.isGap, hn.token htakes,
    hn.next htakes, fun h ↦ ?_, fun h ↦ ?_⟩, ?_⟩
  · exact ⟨(htakes.spelled h).ne_nil, htakes.spelled h⟩
  · exact ⟨(htakes.ended h).1, htakes.calls_of_eof h⟩
  · obtain ⟨ps, last, hcut, hcalls⟩ := (Cursor.ofText source).cutInto_calls
    refine ⟨ps, last, hcut.append.symm, hcut, ?_⟩
    rw [hcalls 1, List.replicate_one, placeAt, List.take_length, ← Location.foldl_after_start]
    rfl

example : ((ofText "`é\nz` // x\n y").run [.next, .save, .next, .restore 0]).cursor.next.1.location
    = ⟨3, 2⟩ := by decide +kernel

end Scanner

end Scriptlet
