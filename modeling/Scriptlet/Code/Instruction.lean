import Scriptlet.Resolution
import Scriptlet.Value.Basic

/-!
# Instructions

The code of a stack machine. A call takes its arguments from the stack; instance members take their
owner from below them.
-/

namespace Scriptlet

/-- When a branch is taken. -/
inductive BranchCondition where
  | always | ifTrue | ifFalse | ifNotNull
deriving DecidableEq

/-- How a branch is written. -/
def BranchCondition.text : BranchCondition → String
  | .always => "br"
  | .ifTrue => "brtrue"
  | .ifFalse => "brfalse"
  | .ifNotNull => "brnotnull"

/-- What a call runs. -/
inductive Invocation where
  | method (m : MethodRef)
  | constructor (m : MethodRef)
  | defaultConstructor (ty : Ty)
  | script (index : Nat)
  | delegate (arity : Nat)
  | propertyGet (p : PropertyRef)
  | propertySet (p : PropertyRef)
deriving DecidableEq

/-- How a call is written. -/
def Invocation.text : Invocation → String
  | .method m => s!"call {m.owner.text}#{m.index}"
  | .constructor m => s!"newobj {m.owner.text}#ctor{m.index}"
  | .defaultConstructor ty => s!"newobj {ty.text}"
  | .script index => s!"call script#{index}"
  | .delegate arity => s!"invoke/{arity}"
  | .propertyGet p => s!"call {p.owner.text}#get{p.index}"
  | .propertySet p => s!"call {p.owner.text}#set{p.index}"

/-- An instruction. A label is a place in the code that branches go to, and `function` begins the
body of a function of the program. -/
inductive Instruction where
  | loadConstant (value : Value)
  | loadNull
  | loadLocal (slot : Nat)
  | storeLocal (slot : Nat)
  | loadArgument (index : Nat)
  | storeArgument (index : Nat)
  | loadThis
  | loadField (field : FieldRef) (isStatic : Bool)
  | storeField (field : FieldRef) (isStatic : Bool)
  | newArray (element : Ty) (length : Nat)
  | loadElement
  | storeElement
  | call (invocation : Invocation)
  | convert (source target : Ty)
  | sameReference (negate : Bool)
  | box (ty : Ty)
  | label (number : Nat)
  | branch (condition : BranchCondition) (target : Nat)
  | dup
  | dupUnder (depth : Nat)
  | pop
  | ret
  | throw
  | function (index : Nat)
deriving DecidableEq

/-- How an instruction is written. -/
def Instruction.text : Instruction → String
  | .loadConstant (.str s) => "ldstr \"" ++ s ++ "\""
  | .loadConstant v => "ldc " ++ v.text
  | .loadNull => "ldnull"
  | .loadLocal slot => s!"ldloc {slot}"
  | .storeLocal slot => s!"stloc {slot}"
  | .loadArgument index => s!"ldarg {index}"
  | .storeArgument index => s!"starg {index}"
  | .loadThis => "ldarg this"
  | .loadField f isStatic =>
    (if isStatic then "ldsfld " else "ldfld ") ++ s!"{f.owner.text}#{f.index}"
  | .storeField f isStatic =>
    (if isStatic then "stsfld " else "stfld ") ++ s!"{f.owner.text}#{f.index}"
  | .newArray element length => s!"newarr {element.text} {length}"
  | .loadElement => "ldelem"
  | .storeElement => "stelem"
  | .call invocation => invocation.text
  | .convert source target => s!"conv {source.text} -> {target.text}"
  | .sameReference false => "ceq.ref"
  | .sameReference true => "cne.ref"
  | .box ty => "box " ++ ty.text
  | .label number => s!"L{number}:"
  | .branch condition target => s!"{condition.text} L{target}"
  | .dup => "dup"
  | .dupUnder depth => s!"dup_x{depth}"
  | .pop => "pop"
  | .ret => "ret"
  | .throw => "throw"
  | .function index => s!".function script#{index}"

end Scriptlet
