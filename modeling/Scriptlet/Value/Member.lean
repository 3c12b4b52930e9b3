import Scriptlet.Eval.Error
import Scriptlet.Registry.Basic
import Scriptlet.Text.Case

/-!
# Members, elements and methods of values

Texts and arrays have a length and elements; texts have a few methods. All positions count
characters from zero.
-/

namespace Scriptlet.Value

/-- The names of the length. -/
def lengthName : MemberName := ⟨"Length", ["len"]⟩

/-- The names of the method that gives capitals. -/
def upperName : MemberName := ⟨"ToUpper", ["upper"]⟩

/-- The names of the method that gives small letters. -/
def lowerName : MemberName := ⟨"ToLower", ["lower"]⟩

/-- The length of a text or an array. -/
def length? : Value → Option Nat
  | .str s => some s.toList.length
  | .array items => some items.length
  | _ => none

/-- A member of a value. -/
def member (v : Value) (name : String) (l : Location) : Except EvalError Value :=
  match v.length? with
  | some n =>
    if lengthName.answersTo name then .ok (.int (Int64.ofNat n))
    else .error (.unboundIdentifier (v.kind.name ++ "." ++ name) l)
  | none => .error (.unboundIdentifier (v.kind.name ++ "." ++ name) l)

/-! ## Elements -/

/-- The position of an element among `length` many. -/
def slot (length : Nat) (index : Int64) (l : Location) : Except EvalError Nat :=
  if 0 ≤ index.toInt ∧ index.toInt < length then .ok index.toInt.toNat
  else .error (.indexOutOfRange index length l)

/-- The element of an array, or the character of a text. -/
def element (v : Value) (index : Int64) (l : Location) : Except EvalError Value :=
  match v with
  | .array items => do
    let i ← slot items.length index l
    match items[i]? with
    | some item => .ok item
    | none => .error (.indexOutOfRange index items.length l)
  | .str s => do
    let i ← slot s.toList.length index l
    match s.toList[i]? with
    | some c => .ok (.char c)
    | none => .error (.indexOutOfRange index s.toList.length l)
  | v => .error (.ofOperands "[]" [v] l)

/-- The container with one element replaced. A text takes only a character. -/
def setElement (container : Value) (index : Int64) (v : Value) (l : Location) :
    Except EvalError Value :=
  match container with
  | .array items => do
    let i ← slot items.length index l
    return .array (items.set i v)
  | .str s =>
    match v with
    | .char c => do
      let i ← slot s.toList.length index l
      return .str (String.ofList (s.toList.set i c))
    | v => .error (.ofOperands "[]=" [v] l)
  | v => .error (.ofOperands "[]=" [v] l)

/-! ## Methods -/

/-- A whole number given to a method or an index. -/
def intArg (name : String) (v : Value) (l : Location) : Except EvalError Int64 :=
  match v with
  | .int n => .ok n
  | .char c => .ok (codeOf c)
  | v => .error (.ofOperands name [v] l)

/-- `count` characters from `start`. The start may be the end of the text. -/
def substring (s : String) (start count : Int64) (l : Location) : Except EvalError Value := do
  let chars := s.toList
  let first ← slot (chars.length + 1) start l
  if 0 ≤ count.toInt ∧ (first : Int) + count.toInt ≤ chars.length then
    return .str (String.ofList ((chars.drop first).take count.toInt.toNat))
  else .error (.indexOutOfRange (start + count) chars.length l)

/-- One text stands somewhere inside the other. -/
def isInfixOf (needle : List Char) : List Char → Bool
  | [] => needle.isEmpty
  | c :: cs => needle.isPrefixOf (c :: cs) || isInfixOf needle cs

/-- The name belongs to a method of texts. -/
def isTextMethod (name : String) : Bool :=
  upperName.answersTo name || lowerName.answersTo name || name == "Substring" || name == "Contains"

/-- A method of a value; only texts have any. -/
def method (v : Value) (name : String) (args : List Value) (l : Location) :
    Except EvalError Value :=
  match v with
  | .str s =>
    let missing : Except EvalError Value :=
      if isTextMethod name then .error (.missingPart name args.length l)
      else .error (.undefinedFunction ("string." ++ name) l)
    match args with
    | [] =>
      if upperName.answersTo name then .ok (.str (Text.toUpper s))
      else if lowerName.answersTo name then .ok (.str (Text.toLower s))
      else missing
    | [.str needle] =>
      if name == "Contains" then .ok (.bool (isInfixOf needle.toList s.toList)) else missing
    | [start, count] =>
      if name == "Substring" then do
        let start ← intArg name start l
        let count ← intArg name count l
        substring s start count l
      else missing
    | _ => missing
  | v => .error (.undefinedFunction (v.kind.name ++ "." ++ name) l)

end Scriptlet.Value
