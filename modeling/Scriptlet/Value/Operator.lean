import Scriptlet.Binary.Arith
import Scriptlet.Eval.Error

/-!
# Operators on values

Operators decide by the kinds of their operands. Numbers are brought to the wider of the two kinds,
a character counting as a whole number; a plus with a text on either side joins texts. Whole-number
arithmetic is exact or refused, floating arithmetic rounds once.
-/

namespace Scriptlet.Value

/-- Two numbers in a common kind. -/
inductive Promoted where
  | ints (a b : Int64)
  | floats (a b : Single)
  | doubles (a b : Double)

/-- A whole number or a character. -/
def isIntegral : Value → Bool
  | .int _ | .char _ => true
  | _ => false

/-- A number or a character. -/
def isNumberLike : Value → Bool
  | .int _ | .char _ | .float _ | .double _ => true
  | _ => false

/-- Both operands in the wider of their kinds, if both are numbers or characters. -/
def promote (a b : Value) : Option Promoted :=
  if !a.isNumberLike || !b.isNumberLike then none
  else if a.kind = .double ∨ b.kind = .double then do
    return .doubles (← a.toDouble?) (← b.toDouble?)
  else if a.kind = .float ∨ b.kind = .float then do
    return .floats ((← a.toDouble?).convert .single) ((← b.toDouble?).convert .single)
  else do
    return .ints (← a.toInt?) (← b.toInt?)

/-! ## Arithmetic -/

/-- The exact result of an operation on whole numbers; division goes toward zero. -/
def exactWhole (op : BinaryOp) (a b : Int64) : Int :=
  match op with
  | .add => a.toInt + b.toInt
  | .sub => a.toInt - b.toInt
  | .mul => a.toInt * b.toInt
  | .div => a.toInt.tdiv b.toInt
  | _ => a.toInt.tmod b.toInt

/-- The remainder of the least number by minus one is refused like the quotient, although it would
fit. -/
def refusesRemainder (op : BinaryOp) (a b : Int64) : Bool :=
  op == .mod && a.toInt == Whole.least && b.toInt == -1

/-- Arithmetic on whole numbers. -/
def wholeArith (op : BinaryOp) (a b : Int64) (l : Location) : Except EvalError Value :=
  if (op = .div ∨ op = .mod) ∧ b = 0 then .error (.divisionByZero l)
  else if refusesRemainder op a b then .error (.integerOverflow (.binary op a b) l)
  else
    match Whole.ofInt? (exactWhole op a b) with
    | some n => .ok (.int n)
    | none => .error (.integerOverflow (.binary op a b) l)

/-- Arithmetic on floating numbers. -/
def binaryArith {F : Format} (op : BinaryOp) (a b : Binary F) : Binary F :=
  match op with
  | .add => a.add b
  | .sub => a.sub b
  | .mul => a.mul b
  | .div => a.div b
  | _ => a.rem b

/-- The text that a value adds to a joined text; null adds none. -/
def joinText : Value → String
  | .null => ""
  | v => v.text

/-- The arithmetic operators, joining of texts included. -/
def arith (op : BinaryOp) (a b : Value) (l : Location) : Except EvalError Value :=
  if op = .add ∧ (a.kind = .string ∨ b.kind = .string) then .ok (.str (a.joinText ++ b.joinText))
  else
    match promote a b with
    | some (.ints x y) => wholeArith op x y l
    | some (.floats x y) => .ok (.float (binaryArith op x y))
    | some (.doubles x y) => .ok (.double (binaryArith op x y))
    | none => .error (.ofOperands op.symbol [a, b] l)

/-! ## Order -/

/-- The order of two texts, by their first different characters. -/
def compareText : List Char → List Char → Ordering
  | [], [] => .eq
  | [], _ :: _ => .lt
  | _ :: _, [] => .gt
  | c :: cs, d :: ds =>
    if c.toNat < d.toNat then .lt
    else if d.toNat < c.toNat then .gt
    else compareText cs ds

/-- How the order of two operands answers an order operator. -/
def holds (op : BinaryOp) (o : Ordering) : Bool :=
  match op with
  | .lt => o == .lt
  | .le => o != .gt
  | .gt => o == .gt
  | _ => o != .lt

/-- The order of two operands, where they have one: not a number has none. -/
def order? (a b : Value) : Option (Option Ordering) :=
  match a, b with
  | .str s, .str t => some (some (compareText s.toList t.toList))
  | a, b =>
    match promote a b with
    | some (.ints x y) => some (some (compare x.toInt y.toInt))
    | some (.floats x y) => some (x.cmp? y)
    | some (.doubles x y) => some (x.cmp? y)
    | none => none

/-- The order operators. Against not a number each of them is false. -/
def ordered (op : BinaryOp) (a b : Value) (l : Location) : Except EvalError Value :=
  match order? a b with
  | some (some o) => .ok (.bool (holds op o))
  | some none => .ok (.bool false)
  | none => .error (.ofOperands op.symbol [a, b] l)

/-! ## Bits -/

/-- The bitwise operators on truth values. -/
def boolBits (op : BinaryOp) (a b : Bool) : Bool :=
  match op with
  | .bitAnd => a && b
  | .bitOr => a || b
  | _ => a != b

/-- The bitwise operators on whole numbers. -/
def wholeBits (op : BinaryOp) (a b : Int64) : Int64 :=
  match op with
  | .bitAnd => a &&& b
  | .bitOr => a ||| b
  | _ => a ^^^ b

/-- Two whole numbers or characters, as whole numbers. -/
def integrals? (a b : Value) : Option (Int64 × Int64) :=
  if a.isIntegral && b.isIntegral then do return (← a.toInt?, ← b.toInt?) else none

/-- The bitwise operators. -/
def bitwise (op : BinaryOp) (a b : Value) (l : Location) : Except EvalError Value :=
  match a, b with
  | .bool x, .bool y => .ok (.bool (boolBits op x y))
  | a, b =>
    match integrals? a b with
    | some (x, y) => .ok (.int (wholeBits op x y))
    | none => .error (.ofOperands op.symbol [a, b] l)

/-- The shifts, by 0 to 63 places. A left shift drops the bits that leave the word, a right shift
keeps the sign. -/
def shift (op : BinaryOp) (a b : Value) (l : Location) : Except EvalError Value :=
  match integrals? a b with
  | some (x, y) =>
    if 0 ≤ y.toInt ∧ y.toInt < 64 then .ok (.int (if op = .shl then x <<< y else x >>> y))
    else .error (.integerOverflow (.binary op x y) l)
  | none => .error (.ofOperands op.symbol [a, b] l)

/-- A binary operator on two values. -/
def binary (op : BinaryOp) (a b : Value) (l : Location) : Except EvalError Value :=
  match op with
  | .add | .sub | .mul | .div | .mod => arith op a b l
  | .eq => .ok (.bool (a.looseEq b))
  | .ne => .ok (.bool (!a.looseEq b))
  | .lt | .le | .gt | .ge => ordered op a b l
  | .and => .ok (.bool (a.isTruthy && b.isTruthy))
  | .or => .ok (.bool (a.isTruthy || b.isTruthy))
  | .bitAnd | .bitOr | .bitXor => bitwise op a b l
  | .shl | .shr => shift op a b l

/-! ## Unary operators -/

/-- The value one above or below: of a number by arithmetic, of a character the adjacent one, which
has to be a character again. -/
def step (up : Bool) (v : Value) (l : Location) : Except EvalError Value :=
  let refused : EvalError := .ofOperands (if up then "++" else "--") [v] l
  match v with
  | .int _ | .float _ | .double _ => binary (if up then .add else .sub) v (.int 1) l
  | .char c =>
    let code : Nat := if up then c.toNat + 1 else c.toNat - 1
    if h : code.isValidChar ∧ (up ∨ c.toNat ≠ 0) then .ok (.char (Char.ofNatAux code h.1))
    else .error refused
  | _ => .error refused

/-- How a unary operator is written in messages. -/
def unarySymbol : UnaryOp → String
  | .group => "()"
  | .neg => "-"
  | .plus => "+"
  | .not => "!"
  | .preInc | .postInc => "++"
  | .preDec | .postDec => "--"

/-- A unary operator on a value; an increment gives the value that is to be written back. -/
def unary (op : UnaryOp) (v : Value) (l : Location) : Except EvalError Value :=
  match op, v with
  | .group, v => .ok v
  | .neg, .int n =>
    match Whole.ofInt? (-n.toInt) with
    | some m => .ok (.int m)
    | none => .error (.integerOverflow (.negate n) l)
  | .neg, .char c => .ok (.int (-codeOf c))
  | .neg, .float x => .ok (.float x.neg)
  | .neg, .double x => .ok (.double x.neg)
  | .plus, .char c => .ok (.int (codeOf c))
  | .plus, .int n => .ok (.int n)
  | .plus, .float x => .ok (.float x)
  | .plus, .double x => .ok (.double x)
  | .not, v => .ok (.bool (!v.isTruthy))
  | .preInc, v | .postInc, v => step true v l
  | .preDec, v | .postDec, v => step false v l
  | op, v => .error (.ofOperands (unarySymbol op) [v] l)

end Scriptlet.Value
