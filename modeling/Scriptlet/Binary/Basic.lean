/-!
# Binary floating numbers

Scripts compute with floating numbers of two widths. Both are instances of one exact model: a
finite number is a signed significand times a power of two, and every operation is the exact result
rounded once, to nearest with ties to even. Nothing here is approximate, so a comparison or a
conversion is a statement about naturals and integers.

A not-a-number keeps a sign. It is not written and no comparison by value sees it, but two values
are the same only if their signs agree.
-/

namespace Scriptlet

/-- A binary format: significands of `precision` bits, and the least and greatest exponent that the
last bit of a significand may have. -/
structure Format where
  precision : Nat
  minExp : Int
  maxExp : Int
deriving DecidableEq

/-- The 32-bit format. -/
def Format.single : Format := ⟨24, -149, 104⟩

/-- The 64-bit format. -/
def Format.double : Format := ⟨53, -1074, 971⟩

/-- A number of the format: not a number, an infinity, or `m * 2 ^ e` with a sign. Operations yield
canonical significands: `m` has `precision` bits, or fewer while `e` is the least exponent. -/
inductive Binary (F : Format) where
  | nan (neg : Bool)
  | inf (neg : Bool)
  | finite (neg : Bool) (m : Nat) (e : Int)
deriving DecidableEq

/-- A number of the 32-bit format. -/
abbrev Single := Binary Format.single

/-- A number of the 64-bit format. -/
abbrev Double := Binary Format.double

namespace Binary

variable {F : Format}

instance : Inhabited (Binary F) := ⟨.nan false⟩

/-! ## Rounding -/

/-- The quotient rounded to the nearest natural, an exact half to the even neighbour. -/
def roundDiv (num den : Nat) : Nat :=
  let q := num / den
  match compare (2 * (num % den)) den with
  | .lt => q
  | .gt => q + 1
  | .eq => if q % 2 == 0 then q else q + 1

/-- The zero with the given sign. -/
def zero (neg : Bool) : Binary F := .finite neg 0 F.minExp

/-- The exponent of the grid on which `num / den * 2 ^ e` is rounded: the quotient by it has exactly
`precision` bits, unless the least exponent is reached first. -/
def gridExp (F : Format) (num den : Nat) (e : Int) : Int :=
  let k := e + (num.log2 : Int) - (den.log2 : Int) - ((F.precision : Int) - 1)
  let q := num * Nat.pow 2 (e - k).toNat / (den * Nat.pow 2 (k - e).toNat)
  max F.minExp (if q < Nat.pow 2 (F.precision - 1) then k - 1 else k)

/-- The number nearest to `± num / den * 2 ^ e`. -/
def round (neg : Bool) (num den : Nat) (e : Int) : Binary F :=
  if num = 0 then zero neg
  else
    let k := gridExp F num den e
    let q := roundDiv (num * Nat.pow 2 (e - k).toNat) (den * Nat.pow 2 (k - e).toNat)
    let (m, k) := if q = Nat.pow 2 F.precision then (Nat.pow 2 (F.precision - 1), k + 1) else (q, k)
    if F.maxExp < k then .inf neg else .finite neg m k

/-- The number nearest to an integer. -/
def ofInt (i : Int) : Binary F := round (decide (i < 0)) i.natAbs 1 0

/-- The number nearest to one of another format. -/
def convert (G : Format) : Binary F → Binary G
  | .nan neg => .nan neg
  | .inf neg => .inf neg
  | .finite neg m e => round neg m 1 e

/-! ## Views -/

/-- Not a number. -/
def isNaN : Binary F → Bool
  | .nan _ => true
  | _ => false

/-- The signed significand at the scale `2 ^ d`, for `d` at most the number's exponent. -/
def scaled (neg : Bool) (m : Nat) (e d : Int) : Int :=
  let n : Int := (m * Nat.pow 2 (e - d).toNat : Nat)
  if neg then -n else n

/-- Equal to zero, of either sign. -/
def isZero : Binary F → Bool
  | .finite _ m _ => m == 0
  | _ => false

/-- The order of two numbers by value; not a number has no order. The two zeros are equal. -/
def cmp? : Binary F → Binary F → Option Ordering
  | .nan _, _ => none
  | _, .nan _ => none
  | .inf a, .inf b => some (if a = b then .eq else if a then .lt else .gt)
  | .inf a, .finite .. => some (if a then .lt else .gt)
  | .finite .., .inf b => some (if b then .gt else .lt)
  | .finite na ma ea, .finite nb mb eb =>
    some (compare (scaled na ma ea (min ea eb)) (scaled nb mb eb (min ea eb)))

/-- Equality by value. -/
def valueEq (x y : Binary F) : Bool := cmp? x y == some .eq

/-- The integer part, toward zero. -/
def truncate (neg : Bool) (m : Nat) (e : Int) : Int :=
  let n : Int := (m * Nat.pow 2 e.toNat / Nat.pow 2 (-e).toNat : Nat)
  if neg then -n else n

/-- The integer part kept inside `lo … hi`; not a number gives zero. -/
def clamp (lo hi : Int) : Binary F → Int
  | .nan _ => 0
  | .inf neg => if neg then lo else hi
  | .finite neg m e =>
    let i := truncate neg m e
    if i < lo then lo else if hi < i then hi else i

end Binary

end Scriptlet
