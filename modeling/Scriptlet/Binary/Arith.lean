import Scriptlet.Binary.Basic

/-!
# Arithmetic on binary floating numbers

Each operation computes the exact result of finite operands in the integers and rounds it once.
The special cases in front are those of the standard: operations without a value give not a number,
and the sign of a zero or an infinity follows the operands. Of two operands that are not numbers the
first is the result; one that is made here has no sign.
-/

namespace Scriptlet.Binary

variable {F : Format}

/-- The number with its sign changed. -/
def neg : Binary F → Binary F
  | .nan s => .nan (!s)
  | .inf s => .inf (!s)
  | .finite s m e => .finite (!s) m e

/-- The sum. A sum that cancels is the positive zero, unless both operands are negative zeros. -/
def add : Binary F → Binary F → Binary F
  | .nan s, _ => .nan s
  | _, .nan s => .nan s
  | .inf a, .inf b => if a = b then .inf a else .nan false
  | .inf a, .finite .. => .inf a
  | .finite .., .inf b => .inf b
  | .finite sa ma ea, .finite sb mb eb =>
    let d := min ea eb
    let total := scaled sa ma ea d + scaled sb mb eb d
    if total = 0 then zero (sa && sb && ma == 0) else round (decide (total < 0)) total.natAbs 1 d

/-- The difference. -/
def sub (x y : Binary F) : Binary F := add x (neg y)

/-- The product. -/
def mul : Binary F → Binary F → Binary F
  | .nan s, _ => .nan s
  | _, .nan s => .nan s
  | .inf a, .inf b => .inf (a != b)
  | .inf a, .finite b m _ => if m = 0 then .nan false else .inf (a != b)
  | .finite a m _, .inf b => if m = 0 then .nan false else .inf (a != b)
  | .finite sa ma ea, .finite sb mb eb => round (sa != sb) (ma * mb) 1 (ea + eb)

/-- The quotient. -/
def div : Binary F → Binary F → Binary F
  | .nan s, _ => .nan s
  | _, .nan s => .nan s
  | .inf _, .inf _ => .nan false
  | .inf a, .finite b _ _ => .inf (a != b)
  | .finite a _ _, .inf b => zero (a != b)
  | .finite sa ma ea, .finite sb mb eb =>
    if mb = 0 then (if ma = 0 then .nan false else .inf (sa != sb))
    else round (sa != sb) ma mb (ea - eb)

/-- The remainder of the division toward zero: it has the sign of the dividend. -/
def rem : Binary F → Binary F → Binary F
  | .nan s, _ => .nan s
  | _, .nan s => .nan s
  | .inf _, _ => .nan false
  | x, .inf _ => x
  | .finite sa ma ea, .finite _ mb eb =>
    if mb = 0 then .nan false
    else
      let d := min ea eb
      round sa (ma * Nat.pow 2 (ea - d).toNat % (mb * Nat.pow 2 (eb - d).toNat)) 1 d

end Scriptlet.Binary
