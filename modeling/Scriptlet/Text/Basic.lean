/-!
# Sets of characters

A character property of Unicode is carried as closed ranges of code points, ascending and apart, so
that the data can be read and checked. A list of ranges is searched from its start; a table, for the
properties that are asked about every character on the screen, is searched by halves. The smallest
of these sets, the blanks, stands here; the others have modules of their own.
-/

namespace Scriptlet.Text

/-- The code point lies in one of the ranges. -/
def inRanges (ranges : List (Nat × Nat)) (n : Nat) : Bool :=
  ranges.any fun r ↦ decide (r.1 ≤ n) && decide (n ≤ r.2)

/-- Ranges of code points, ascending and apart. -/
abbrev RangeTable := Array (Nat × Nat)

namespace RangeTable

/-- The code point lies in one of the ranges from the index `lo` up to `hi`. The range in the middle
says in which half to go on. -/
def coversBetween (t : RangeTable) (n lo hi : Nat) : Bool :=
  if lo < hi then
    let mid := (lo + hi) / 2
    match t[mid]? with
    | none => false
    | some r =>
      if n < r.1 then coversBetween t n lo mid
      else if r.2 < n then coversBetween t n (mid + 1) hi
      else true
  else false
termination_by hi - lo

/-- The code point lies in one of the ranges. -/
def covers (t : RangeTable) (n : Nat) : Bool := t.coversBetween n 0 t.size

end RangeTable

/-! ## Blank characters

The 25 characters with the Unicode property White_Space, and the text without those at its ends.
A number that is read from a text may have blanks around it. -/

/-- The ranges of White_Space, ascending and apart. -/
def blankRanges : List (Nat × Nat) :=
  [(0x9, 0xD), (0x20, 0x20), (0x85, 0x85), (0xA0, 0xA0), (0x1680, 0x1680), (0x2000, 0x200A),
   (0x2028, 0x2029), (0x202F, 0x202F), (0x205F, 0x205F), (0x3000, 0x3000)]

/-- A blank character. -/
def isBlank (c : Char) : Bool := inRanges blankRanges c.toNat

/-- The characters without the blanks at either end. -/
def trim (cs : List Char) : List Char :=
  ((cs.dropWhile isBlank).reverse.dropWhile isBlank).reverse

end Scriptlet.Text
