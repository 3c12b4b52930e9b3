import Scriptlet.Binary.Basic

/-!
# The shortest text of a floating number

A number is written with the fewest decimal digits that read back to it. The reals that round to a
number form an interval, so the search asks for each count of digits whether one of the number's two
neighbours on that decimal grid lies inside; all comparisons are between naturals. The digits are
always laid out positionally: a script never sees an exponent.
-/

namespace Scriptlet

/-- The decimal number `digits * 10 ^ exp`. -/
structure Decimal where
  digits : Nat
  exp : Int
deriving DecidableEq

namespace Decimal

/-! ## Which digits -/

/-- The order of `a * 10 ^ i` and `n * 2 ^ j`. -/
def compareScaled (a : Nat) (i : Int) (n : Nat) (j : Int) : Ordering :=
  compare (a * Nat.pow 10 i.toNat * Nat.pow 2 (-j).toNat)
    (n * Nat.pow 2 j.toNat * Nat.pow 10 (-i).toNat)

/-- The decimal lies among the reals that round to `m * 2 ^ e`. Below a power of two the neighbours
stand closer, so the interval is shorter on that side; its ends belong to it when `m` is even. -/
def roundsTo (d : Decimal) (F : Format) (m : Nat) (e : Int) : Bool :=
  let narrow := m == Nat.pow 2 (F.precision - 1) && decide (F.minExp < e)
  let lo := if narrow then 4 * m - 1 else 4 * m - 2
  let hi := 4 * m + 2
  let closed := m % 2 == 0
  let below := compareScaled d.digits d.exp lo (e - 2)
  let above := compareScaled d.digits d.exp hi (e - 2)
  (below == .gt || (closed && below == .eq)) && (above == .lt || (closed && above == .eq))

/-- The least `k` with `m * 2 ^ e < 10 ^ k`, found near an estimate of the decimal logarithm that
takes `1233 / 4096` for the logarithm of two. -/
def scale (m : Nat) (e : Int) : Int :=
  let k := Int.fdiv ((e + (m.log2 : Int)) * 1233) 4096
  ([k - 1, k, k + 1, k + 2].find? fun k ↦ compareScaled 1 k m e == .gt).getD (k + 3)

/-- The neighbour of `m * 2 ^ e` on the grid `10 ^ x` that rounds to it: the nearer one if both do,
the upper one if both are equally near. -/
def onGrid (F : Format) (m : Nat) (e x : Int) : Option Decimal :=
  let num := m * Nat.pow 2 e.toNat * Nat.pow 10 (-x).toNat
  let den := Nat.pow 2 (-e).toNat * Nat.pow 10 x.toNat
  let low : Decimal := ⟨num / den, x⟩
  let high : Decimal := ⟨num / den + 1, x⟩
  match low.roundsTo F m e, high.roundsTo F m e with
  | true, true => some (if 2 * (num % den) < den then low else high)
  | true, false => some low
  | false, true => some high
  | false, false => none

/-- All decimal digits of `m * 2 ^ e`. -/
def exact (m : Nat) (e : Int) : Decimal :=
  if 0 ≤ e then ⟨m * Nat.pow 2 e.toNat, 0⟩ else ⟨m * Nat.pow 5 (-e).toNat, e⟩

/-- The same number without zeros at the end of its digits. -/
def strip (d : Decimal) : Decimal :=
  if h : d.digits ≠ 0 ∧ d.digits % 10 = 0 then strip ⟨d.digits / 10, d.exp + 1⟩ else d
termination_by d.digits
decreasing_by exact Nat.div_lt_self (Nat.pos_of_ne_zero h.1) (by decide)

/-- The shortest decimal that rounds to `m * 2 ^ e`; seventeen digits suffice for both formats, and
the exact value would be taken otherwise. -/
def shortest (F : Format) (m : Nat) (e : Int) : Decimal :=
  let k := scale m e
  let found := (List.range 17).findSome? fun (n : Nat) ↦ onGrid F m e (k - 1 - n)
  (found.getD (exact m e)).strip

/-! ## How they are laid out -/

/-- The digits of a natural number. -/
def digitChars (n : Nat) : List Char := Nat.toDigits 10 n

/-- Positional text: zeros fill the places between the digits and the point, and there is no point
when no digit follows it. -/
def layout (d : Decimal) : String :=
  let ds := digitChars d.digits
  if 0 ≤ d.exp then String.ofList (ds ++ List.replicate d.exp.toNat '0')
  else
    let places := (-d.exp).toNat
    let ds := List.replicate (places + 1 - ds.length) '0' ++ ds
    let whole := ds.length - places
    String.ofList (ds.take whole ++ '.' :: ds.drop whole)

end Decimal

/-- The text of a number: its shortest digits, with a sign on every negative number and on the
negative zero, but on no not-a-number. -/
def Binary.text {F : Format} : Binary F → String
  | .nan _ => "NaN"
  | .inf neg => if neg then "-inf" else "inf"
  | .finite neg m e =>
    let digits := if m = 0 then "0" else (Decimal.shortest F m e).layout
    if neg then "-" ++ digits else digits

end Scriptlet
