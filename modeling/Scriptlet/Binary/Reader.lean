import Scriptlet.Binary.Basic

/-!
# Reading floating numbers

A number is an optional sign and then one of the words for the special values, in any case, or
digits with an optional fraction and an optional exponent. At least one digit stands before the
exponent and, if there is an exponent mark, at least one behind it. The value is the number nearest
to the decimal that is written.
-/

namespace Scriptlet

/-- The value of a character as a digit in a base up to sixteen; letters count from ten. -/
def digitValue (c : Char) : Nat :=
  if c.isDigit then c.toNat - 48
  else if 'a' ≤ c ∧ c ≤ 'f' then c.toNat - 87
  else c.toNat - 55

/-- The natural number that a run of digits writes in the base. -/
def valueOfDigits (base : Nat) (ds : List Char) : Nat :=
  ds.foldl (fun n c ↦ base * n + digitValue c) 0

namespace Binary

variable {F : Format}

/-- The number nearest to `± digits * 10 ^ exp`. A decimal far outside the format's range is decided
by its magnitude alone, so no power larger than the format needs is computed. -/
def ofDecimal (neg : Bool) (digits : Nat) (exp : Int) : Binary F :=
  if digits = 0 then zero neg
  else
    let magnitude : Int := exp + (digits.log2 : Int)
    if F.maxExp + F.precision < exp then .inf neg
    else if magnitude < F.minExp - 2 then zero neg
    else round neg (digits * Nat.pow 10 exp.toNat) (Nat.pow 10 (-exp).toNat) 0

/-- An exponent: an optional sign and at least one digit, up to the end. -/
def exponent? (cs : List Char) : Option Int :=
  let (neg, ds) := match cs with
    | '-' :: ds => (true, ds)
    | '+' :: ds => (false, ds)
    | ds => (false, ds)
  if !ds.isEmpty && ds.all Char.isDigit then
    let n : Int := valueOfDigits 10 ds
    some (if neg then -n else n)
  else none

/-- An unsigned decimal: digits, perhaps a point and more digits, perhaps an exponent. -/
def decimal? (neg : Bool) (cs : List Char) : Option (Binary F) :=
  let whole := cs.takeWhile Char.isDigit
  let rest := cs.dropWhile Char.isDigit
  let (frac, rest) := match rest with
    | '.' :: rest => (rest.takeWhile Char.isDigit, rest.dropWhile Char.isDigit)
    | rest => ([], rest)
  let digits := valueOfDigits 10 (whole ++ frac)
  if whole.isEmpty && frac.isEmpty then none
  else
    match rest with
    | [] => some (ofDecimal neg digits (-(frac.length : Int)))
    | c :: rest =>
      if c == 'e' || c == 'E' then
        (exponent? rest).map fun x ↦ ofDecimal neg digits (x - (frac.length : Int))
      else none

/-- The number that a text writes. -/
def ofText? (cs : List Char) : Option (Binary F) :=
  let (neg, body) := match cs with
    | '-' :: body => (true, body)
    | '+' :: body => (false, body)
    | body => (false, body)
  let word := String.ofList (body.map Char.toLower)
  if word == "nan" then some (.nan neg)
  else if word == "inf" || word == "infinity" then some (.inf neg)
  else decimal? neg body

end Binary

end Scriptlet
