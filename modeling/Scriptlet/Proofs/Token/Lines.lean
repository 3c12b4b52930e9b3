import Scriptlet.Proofs.Token.Positions
import Scriptlet.Proofs.Token.Seam

/-!
# Scanning line by line

A scanner carries nothing across the end of a line but its cursor. A text can so be scanned in two
parts that meet at a newline, the second part as if it stood alone, and its tokens are then moved
down by the lines of the first. Only a string is not ended by a newline; one that has no end takes
the whole rest of the text.
-/

namespace Scriptlet

/-! ## Moving down -/

/-- The place that is a number of lines further down. -/
def Location.below (l : Location) (n : Nat) : Location := ⟨l.line + n, l.column⟩

/-- The token that is a number of lines further down. -/
def Token.below (t : Token) (n : Nat) : Token := ⟨t.kind, t.location.below n⟩

theorem Location.below_after (l : Location) (n : Nat) (c : Char) :
    (l.below n).after c = (l.after c).below n := by
  rw [after, after]
  split
  · rw [below, below, Nat.add_right_comm]
  · rfl

theorem Location.foldl_below (cs : List Char) (l : Location) (n : Nat) :
    cs.foldl after (l.below n) = (cs.foldl after l).below n := by
  induction cs generalizing l with
  | nil => rfl
  | cons c cs ih => rw [List.foldl_cons, List.foldl_cons, below_after, ih]

namespace Cursor

/-- The cursor at the same text a number of lines further down. -/
def below (c : Cursor) (n : Nat) : Cursor := ⟨c.rest, c.location.below n⟩

variable {c c' : Cursor} {t : Token} (n : Nat)

theorem advance_below (c : Cursor) (k : Nat) : (c.below n).advance k = (c.advance k).below n := by
  rw [advance, advance, below, below, Location.foldl_below]

theorem skipGap_below (c : Cursor) : (c.below n).skipGap = c.skipGap.below n :=
  advance_below n c _

theorem next?_below_of_none (h : c.next? = none) : (c.below n).next? = none := by
  have hrest : (c.skipGap.below n).rest = [] := skipGap_rest_of_none h
  simp only [next?, skipGap_below, hrest]

theorem next?_below_of_some (h : c.next? = some (t, c')) :
    (c.below n).next? = some (t.below n, c'.below n) := by
  rcases hrest : c.skipGap.rest with _ | ⟨ch, cs⟩
  · simp only [next?, hrest] at h
    cases h
  · have hrest' : (c.skipGap.below n).rest = ch :: cs := hrest
    simp only [next?, hrest, Option.some.injEq, Prod.mk.injEq] at h
    obtain ⟨rfl, rfl⟩ := h
    simp only [next?, skipGap_below, hrest', advance_below]
    rfl

/-- What is scanned does not depend on the line, and every place moves with it. -/
theorem tokens_below (c : Cursor) :
    (c.below n).tokens = (c.tokens.1.map (·.below n), c.tokens.2.below n) := by
  fun_induction tokens c with
  | case1 c hnext =>
    rw [tokens_of_none (next?_below_of_none n hnext), skipGap_below]
    rfl
  | case2 c t c' hnext _ next ih =>
    rw [tokens_of_some (next?_below_of_some n hnext), ih]
    rfl

/-! ## The end of the text -/

/-- The place behind the last character. -/
def finish (c : Cursor) : Location := c.rest.foldl Location.after c.location

theorem finish_advance (c : Cursor) (k : Nat) : (c.advance k).finish = c.finish := by
  rw [finish, finish, advance, ← List.foldl_append, List.take_append_drop]

theorem finish_of_next? (h : c.next? = some (t, c')) : c'.finish = c.finish := by
  rcases hrest : c.skipGap.rest with _ | ⟨ch, cs⟩
  · simp only [next?, hrest] at h
    cases h
  · simp only [next?, hrest, Option.some.injEq, Prod.mk.injEq] at h
    rw [← h.2, finish_advance, skipGap, finish_advance]

theorem tokens_snd (c : Cursor) : c.tokens.2 = c.finish := by
  fun_induction tokens c with
  | case1 c hnext =>
    have hfinish : c.skipGap.finish = c.finish := finish_advance c _
    rw [← hfinish, finish, skipGap_rest_of_none hnext, List.foldl_nil]
  | case2 c t c' hnext _ next ih => rw [← finish_of_next? hnext, ← ih]

end Cursor

/-- The line that a newline behind a text begins. -/
theorem Cursor.after_finish_ofText (source : String) :
    (Cursor.ofText source).finish.after '\n'
      = Location.start.below (source.toList.count '\n' + 1) := by
  have hfinish : (Cursor.ofText source).finish = _ := Location.foldl_after_start source.toList
  rw [hfinish, Location.after, if_pos rfl, Location.below, Location.start]
  exact congrArg (Location.mk · 1) (Nat.add_comm _ 1)

/-! ## Two texts -/

/-- The tokens of two texts with a newline between them are those of the first text and then those
of the second, moved down by the lines of the first; the mark of the end is that of the second text.
The first text may end with anything, a comment included, but for a string that has no end. -/
theorem scan_lines (a b : String) (h : ∀ t ∈ scan a, t.kind ≠ .bad '\x60') :
    scan (a ++ "\n" ++ b)
      = (scan a).dropLast ++ (scan b).map (·.below (a.toList.count '\n' + 1)) := by
  have hstring : .bad '\x60' ∉ (Cursor.ofText a).tokens.1.map Token.kind := by
    intro hmem
    obtain ⟨t, ht, hkind⟩ := List.mem_map.mp hmem
    exact h t (List.mem_append_left _ ht) hkind
  have hcursor : Cursor.ofText (a ++ "\n" ++ b) = (Cursor.ofText a).extend ('\n' :: b.toList) := by
    rw [Cursor.ofText, String.toList_append, String.toList_append, List.append_assoc]
    rfl
  -- the newline is a blank before the second text, and what stands behind it begins a line
  have hsecond : Cursor.tokens ⟨'\n' :: b.toList, (Cursor.ofText a).tokens.2⟩
      = ((Cursor.ofText b).below (a.toList.count '\n' + 1)).tokens := by
    rw [Cursor.tokens_blank rfl, Cursor.tokens_snd, Cursor.after_finish_ofText]
    rfl
  rw [scan, hcursor, Cursor.tokens_extend parts_newline _ _ hstring (.inl rfl), hsecond,
    Cursor.tokens_below, scan, List.dropLast_concat, List.append_assoc, scan, List.map_append]
  rfl

/-- A comment that ends a text does not go on behind the newline. -/
theorem scan_lines_comment :
    (∀ t ∈ scan "1. // c", t.kind ≠ .bad '\x60')
      ∧ scan "1. // c\n5_x" = (scan "1. // c").dropLast ++ (scan "5_x").map (·.below 1) := by
  have hstring : ∀ t ∈ scan "1. // c", t.kind ≠ .bad '\x60' := by decide +kernel
  exact ⟨hstring, scan_lines "1. // c" "5_x" hstring⟩

end Scriptlet
