import Scriptlet.Text.Basic
import Scriptlet.Value.Basic

/-!
# Conversions between kinds

A declaration or an array with a written type converts its values. Floating numbers lose their
fraction on the way to whole numbers and stop at the bounds; texts are read as numbers without the
blanks around them.
-/

namespace Scriptlet.Value

/-- The character with a code point, if it is one. -/
def charOfCode? (n : Int) : Option Char :=
  if h : 0 ≤ n ∧ n.toNat.isValidChar then some (Char.ofNatAux n.toNat h.2) else none

/-- The whole number that a floating number is converted to. -/
def wholeOf {F : Format} (x : Binary F) : Int64 :=
  Int64.ofInt (x.clamp Whole.least Whole.greatest)

/-- The value as a whole number. -/
def convertToInt : Value → Option Value
  | .float x => some (.int (wholeOf x))
  | .double x => some (.int (wholeOf x))
  | .str s => (Whole.ofText? (Text.trim s.toList)).map .int
  | v => v.toInt?.map .int

/-- The value as a single. Whole numbers pass through the wider format. -/
def convertToFloat : Value → Option Value
  | .str s => (Binary.ofText? (Text.trim s.toList)).map .float
  | v => v.toDouble?.map fun x ↦ .float (x.convert .single)

/-- The value as a double. -/
def convertToDouble : Value → Option Value
  | .str s => (Binary.ofText? (Text.trim s.toList)).map .double
  | v => v.toDouble?.map .double

/-- The value as a character: a code point, or a text of one character. -/
def convertToChar : Value → Option Value
  | .int n => (charOfCode? n.toInt).map .char
  | .str s =>
    match s.toList with
    | [c] => some (.char c)
    | _ => none
  | _ => none

/-- The value as a text; null has none. -/
def convertToString : Value → Option Value
  | .null => none
  | v => some (.str v.text)

/-- The value in another kind, if it can be represented there. -/
def convertTo (v : Value) (kind : Kind) : Option Value :=
  if v.kind = kind then some v
  else
    match kind with
    | .null | .array => none
    | .bool => some (.bool v.isTruthy)
    | .int => convertToInt v
    | .float => convertToFloat v
    | .double => convertToDouble v
    | .char => convertToChar v
    | .string => convertToString v

end Scriptlet.Value
