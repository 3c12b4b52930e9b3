import Scriptlet.Code.Emission
import Scriptlet.Registry.Basic

/-!
# Code of bound trees

The code of an expression leaves its value on the stack, unless the expression is a declaration or
its type is `void`; the code of a statement leaves nothing. Every choice is read off the bound
tree.
-/

namespace Scriptlet

/-! ## Storage and conversions -/

namespace Binding

/-- Loads the value; the owner of an instance member is on the stack. -/
def load (b : Binding) (l : Location) : Emit :=
  match b with
  | .variable slot => .put (.loadLocal slot.index)
  | .parameter index _ => .put (.loadArgument index)
  | .field f _ isStatic => .put (.loadField f isStatic)
  | .property p _ _ _ => .call (.propertyGet p)
  | .typeName ty => .fail (.noValue ty l)

/-- Stores the value on top of the stack; the owner of an instance member is below it. -/
def store (b : Binding) (l : Location) : Emit :=
  match b with
  | .variable slot => .put (.storeLocal slot.index)
  | .parameter index _ => .put (.storeArgument index)
  | .field f _ isStatic => .put (.storeField f isStatic)
  | .property p _ _ writable => if writable then .call (.propertySet p) else .fail (.readOnly l)
  | .typeName ty => .fail (.noValue ty l)

end Binding

namespace Emit

/-- Converts the value on top of the stack. -/
def conversion (c : Conversion) : Emit :=
  if c.intrinsic then put (.convert c.source c.target) else call (.method c.method)

/-- Converts the value on top of the stack, if it needs a conversion. -/
def conversion? : Option Conversion → Emit
  | some c => conversion c
  | none => nothing

/-- Converts the argument with a number. -/
def argConversion (cs : Conversions) (index : Nat) : Emit := conversion? (cs[index]?).join

/-- Converts one branch of a conditional, if it is the one to convert. -/
def branchConversion (c : Option BranchConversion) (branch : Branch) : Emit :=
  match c with
  | some c => if c.branch = branch then conversion? c.conversion else nothing
  | none => nothing

end Emit

/-- The code of the expression leaves a value. -/
def Expr.producesValue : Expr → Bool
  | .declare .. => false
  | e => e.node.ty.any (· ≠ .void)

/-! ## The walk -/

namespace Code

mutual

/-- The code of an expression. -/
def expr (r : Registry) : Expr → Emit
  | .literal _ v => .put (.loadConstant v.value)
  | .null _ => .put .loadNull
  | .this _ => .put .loadThis
  | .empty n => .fail (.unsupported .omittedExpression n.location)
  | .lambda n _ _ => .fail (.unsupported .lambda n.location)
  | .name n _ | .variableRef n _ | .constantRef n _ =>
    .require n.binding n.location fun b ↦
      (if b.needsInstance then .put .loadThis else .nothing) ++ b.load n.location
  | .member n target _ =>
    .require n.binding n.location fun b ↦
      (if b.needsInstance then expr r target else .nothing) ++ b.load n.location
  | .unary _ .group e _ => expr r e
  | .unary n op e place =>
    .require place n.location fun t ↦
      match t.kind with
      | .method m =>
        let apply := Emit.argConversion t.conversions 0 ++ .call (.method m)
        if op.isMutating then
          .require e.node.binding n.location fun b ↦
            if b.needsInstance then .fail (.unsupported .incrementOfInstance n.location)
            else
              b.load n.location
                ++ (if op = .postInc ∨ op = .postDec then .put .dup ++ apply
                  else apply ++ .put .dup)
                ++ b.store n.location
        else expr r e ++ apply
      | _ => .fail (.unsupported .unaryOperator n.location)
  | .binary n op a b place =>
    .require place n.location fun t ↦
      let left := expr r a
      let right := expr r b
      match t.kind with
      | .method m =>
        left ++ .argConversion t.conversions 0 ++ right ++ .argConversion t.conversions 1
          ++ .call (.method m)
      | .referenceEquality => left ++ right ++ .put (.sameReference (op = .ne))
      | .logical => .fresh fun stop ↦
          left ++ .argConversion t.conversions 0 ++ .put .dup
            ++ .put (.branch (if op = .and then .ifFalse else .ifTrue) stop) ++ .put .pop
            ++ right ++ .argConversion t.conversions 1 ++ .put (.label stop)
      | .transparent => .fail (.unsupported .groupedPair n.location)
  | .coalesce _ a b => .fresh fun stop ↦
      expr r a ++ .put .dup ++ .put (.branch .ifNotNull stop) ++ .put .pop ++ expr r b
        ++ .put (.label stop)
  | .ternary _ x a b place => .fresh fun other ↦ .fresh fun stop ↦
      expr r x ++ .put (.branch .ifFalse other)
        ++ expr r a ++ .branchConversion place .thenBranch ++ .put (.branch .always stop)
        ++ .put (.label other)
        ++ expr r b ++ .branchConversion place .elseBranch ++ .put (.label stop)
  | .assign _ target v place =>
    assign r target.location (expr r v ++ .conversion? place.join) target
  | .call n target args place =>
    .require place n.location fun t ↦
      let passed := arguments r t.conversions 0 args
      match t.callee with
      | .method m =>
        .require (r.method? m) n.location fun d ↦
          (if d.isStatic then .nothing else owner r target) ++ passed ++ .call (.method m)
      | .script index => passed ++ .call (.script index)
      | .delegate => expr r target ++ passed ++ .call (.delegate args.length)
      | .arrayElement | .defaultConstructor _ => .fail (.unsupported .callTarget n.location)
  | .new n _ args place =>
    .require place n.location fun t ↦
      arguments r t.conversions 0 args ++
        match t.callee with
        | .method m => .call (.constructor m)
        | .defaultConstructor ty => .call (.defaultConstructor ty)
        | _ => .fail (.unsupported .constructorTarget n.location)
  | .index n target args place =>
    .require place n.location fun t ↦
      expr r target ++ arguments r t.conversions 0 args ++
        match t.callee with
        | .arrayElement => .put .loadElement
        | .method m => .call (.method m)
        | _ => .fail (.unsupported .indexerTarget n.location)
  | .declare n _ _ init place =>
    .require n.binding n.location fun b ↦
      match init with
      | none => .nothing
      | some e => expr r e ++ .conversion? place.join ++ b.store n.location
  | .array n _ items place =>
    .require n.ty n.location fun ty ↦
      .require ty.element? n.location fun element ↦
        .require place n.location fun cs ↦
          .put (.newArray element items.length) ++ elements r cs 0 items
  | .block _ body => blockValue r body

/-- The code of an assignment to a target, given the code of the value; errors about the target are
reported at `l`. The value stays on the stack below what the store takes. -/
def assign (r : Registry) (l : Location) (value : Emit) : Expr → Emit
  | .unary _ .group e _ => assign r l value e
  | .index _ target args place =>
    .require place l fun t ↦
      expr r target ++ arguments r t.conversions 0 args ++ value
        ++ .put (.dupUnder (1 + args.length)) ++ .put .storeElement
  | .member n target _ =>
    .require n.binding l fun b ↦
      if b.needsInstance then expr r target ++ value ++ .put (.dupUnder 1) ++ b.store l
      else value ++ .put .dup ++ b.store l
  | e =>
    .require e.node.binding l fun b ↦
      if b.needsInstance then .put .loadThis ++ value ++ .put (.dupUnder 1) ++ b.store l
      else value ++ .put .dup ++ b.store l

/-- Loads what a method is called on: what stands in front of its name, or else the value that the
program belongs to. -/
def owner (r : Registry) : Expr → Emit
  | .unary _ .group e _ => owner r e
  | .member _ target _ => expr r target
  | _ => .put .loadThis

/-- The code of arguments, the first of which has the given number, each with its conversion. -/
def arguments (r : Registry) (cs : Conversions) (index : Nat) : List Expr → Emit
  | [] => .nothing
  | e :: es => expr r e ++ .argConversion cs index ++ arguments r cs (index + 1) es

/-- Stores the items of an array, the first of which has the given number, into the array on top of
the stack. -/
def elements (r : Registry) (cs : Conversions) (index : Nat) : List Expr → Emit
  | [] => .nothing
  | e :: es =>
    .put .dup ++ .put (.loadConstant (.int (Int64.ofNat index))) ++ expr r e
      ++ .argConversion cs index ++ .put .storeElement ++ elements r cs (index + 1) es

/-- The code of a block that is an expression: the value of an expression at its end stays on the
stack. -/
def blockValue (r : Registry) : List Statement → Emit
  | [] => .nothing
  | [.expr e] => expr r e
  | st :: sts => statement r st ++ blockValue r sts

/-- The code of a statement. The body of a function has its own place in the code. -/
def statement (r : Registry) : Statement → Emit
  | .expr e => expr r e ++ (if e.producesValue then .put .pop else .nothing)
  | .block _ body => statements r body
  | .cond _ x a b => .fresh fun other ↦ .fresh fun stop ↦
      expr r x ++ .put (.branch .ifFalse other) ++ statement r a ++ .put (.branch .always stop)
        ++ .put (.label other)
        ++ (match b with
          | some b => statement r b
          | none => .nothing)
        ++ .put (.label stop)
  | .ret _ value place =>
    (match value with
      | some e => expr r e ++ .conversion? place.join
      | none => .nothing) ++ .put .ret
  | .throw _ value =>
    (match value with
      | some e => expr r e
      | none => .put .loadNull) ++ .put .throw
  | .vars _ declarations => exprs r declarations
  | .function .. => .nothing

/-- The code of declarations. -/
def exprs (r : Registry) : List Expr → Emit
  | [] => .nothing
  | e :: es => expr r e ++ exprs r es

/-- The code of statements. -/
def statements (r : Registry) : List Statement → Emit
  | [] => .nothing
  | st :: sts => statement r st ++ statements r sts

end

end Code

end Scriptlet
