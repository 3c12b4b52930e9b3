import Scriptlet.Binary.Reader

/-!
# Whole numbers

Whole numbers of scripts are 64-bit integers, and no operation on them wraps silently: a result is
computed exactly and then either fits or is refused. This module holds the bounds, the passage from
exact integers and the two ways of reading a whole number from digits.
-/

namespace Scriptlet.Whole

/-- The least whole number. -/
def least : Int := -9223372036854775808

/-- The greatest whole number. -/
def greatest : Int := 9223372036854775807

/-- The whole number with an exact value, if the value fits. -/
def ofInt? (i : Int) : Option Int64 :=
  if least ≤ i ∧ i ≤ greatest then some (Int64.ofInt i) else none

/-- The text of a whole number: a minus sign if it is negative, and its decimal digits. -/
def text (n : Int64) : String :=
  let digits := String.ofList (Nat.toDigits 10 n.toInt.natAbs)
  if n.toInt < 0 then "-" ++ digits else digits

/-- The number that a nonempty run of digits writes in a base, if it fits. -/
def ofDigits? (base : Nat) (ds : List Char) : Option Int64 :=
  if ds.isEmpty then none else ofInt? (valueOfDigits base ds)

/-- The number that a text writes: an optional sign and at least one decimal digit. -/
def ofText? (cs : List Char) : Option Int64 :=
  let (neg, ds) := match cs with
    | '-' :: ds => (true, ds)
    | '+' :: ds => (false, ds)
    | ds => (false, ds)
  if !ds.isEmpty && ds.all Char.isDigit then
    let n : Int := valueOfDigits 10 ds
    ofInt? (if neg then -n else n)
  else none

end Scriptlet.Whole
