import Scriptlet.Environment.Basic
import Scriptlet.Value.Operator

/-!
# Built-in functions

The functions that an environment starts with. All of them may be called from everywhere.
-/

namespace Scriptlet.Builtin

/-- Prints the texts of its arguments on one line, parted by blanks. -/
def print (args : List Value) (_ : Location) : HostAction :=
  .print (" ".intercalate (args.map Value.text)) (.done (.ok .null))

/-- A function of one argument. -/
def onOne (name : String) (f : Value → Location → Except EvalError Value) (args : List Value)
    (l : Location) : HostAction :=
  match args with
  | [v] => .done (f v l)
  | _ => .done (.error (.missingPart name args.length l))

/-- The number of characters of a text or of elements of an array. -/
def len (v : Value) (l : Location) : Except EvalError Value :=
  match v with
  | .str s => .ok (.int (Int64.ofNat s.toList.length))
  | .array items => .ok (.int (Int64.ofNat items.length))
  | v => .error (.ofOperands "len" [v] l)

/-- The text of any value. -/
def str (v : Value) (_ : Location) : Except EvalError Value := .ok (.str v.text)

/-- A floating number without its sign. -/
def magnitude {F : Format} : Binary F → Binary F
  | .nan _ => .nan false
  | .inf _ => .inf false
  | .finite _ m e => .finite false m e

/-- The absolute value of a number. -/
def abs (v : Value) (l : Location) : Except EvalError Value :=
  match v with
  | .int n =>
    match Whole.ofInt? n.toInt.natAbs with
    | some m => .ok (.int m)
    | none => .error (.integerOverflow (.abs n) l)
  | .float x => .ok (.float (magnitude x))
  | .double x => .ok (.double (magnitude x))
  | v => .error (.ofOperands "abs" [v] l)

/-- The least or the greatest of some numbers, compared as the operator compares them; of equals the
first is kept. -/
def extremum (name : String) (least : Bool) (best : Value) (l : Location) :
    List Value → Except EvalError Value
  | [] => .ok best
  | v :: vs =>
    if v.kind.isNumeric then do
      let better ← if least then v.binary .lt best l else best.binary .lt v l
      extremum name least (if better.isTruthy then v else best) l vs
    else .error (.ofOperands name [v] l)

/-- The least or the greatest of at least one number. -/
def extremumOf (name : String) (least : Bool) (args : List Value) (l : Location) : HostAction :=
  .done <| match args with
    | [] => .error (.missingPart name 0 l)
    | v :: vs =>
      if v.kind.isNumeric then extremum name least v l vs else .error (.ofOperands name [v] l)

/-- Every built-in function with its part. -/
def all : List (String × Part) :=
  [("print", .ofHost .variadic print),
   ("len", .ofHost (.fixed 1) (onOne "len" len)),
   ("str", .ofHost (.fixed 1) (onOne "str" str)),
   ("min", .ofHost .variadic (extremumOf "min" true)),
   ("max", .ofHost .variadic (extremumOf "max" false)),
   ("abs", .ofHost (.fixed 1) (onOne "abs" abs))]

/-- The name is that of a built-in function. -/
def isBuiltin (name : String) : Bool := all.any fun p ↦ p.1 == name

end Scriptlet.Builtin

namespace Scriptlet.Environment

/-- An environment whose global frame holds the built-in functions. -/
def withBuiltins : Environment :=
  Builtin.all.foldl (fun env p ↦ env.defineFunction p.1 p.2) .empty

end Scriptlet.Environment
