import Scriptlet.Eval.Basic
import Scriptlet.Value.Convert
import Scriptlet.Value.Member
import Scriptlet.Value.Operator

/-!
# Evaluating trees

Expressions and statements are evaluated by recursion on the tree; nothing here calls itself
otherwise. How a call of a named function is carried out is a parameter, `invoke`, so that the one
place where a run could go on forever stands by itself.
-/

namespace Scriptlet

/-- The value that a declared variable of a kind starts with. -/
def Kind.zero : Kind → Value
  | .bool => .bool false
  | .int => .int 0
  | .float => .float (.zero false)
  | .double => .double (.zero false)
  | .char => .char '\x00'
  | .null | .string | .array => .null

/-- The kind that a written type without brackets names. -/
def TypeExpr.kind? (t : Option TypeExpr) : Option Kind :=
  match t with
  | some t => if t.rank = 0 then Kind.ofTypeName? t.name else none
  | none => none

namespace Eval

/-- A value brought to a written kind; null fits every kind. -/
def fit (kind : Option Kind) (v : Value) (op : String) (l : Location) : Eval Value :=
  match kind with
  | none => Eval.pure v
  | some k =>
    if v.isNull then Eval.pure v
    else
      match v.convertTo k with
      | some w => Eval.pure w
      | none => fail (.ofOperands op [v] l)

/-- The value of a bare name: a variable, else a constant. -/
def lookupName (name : String) (l : Location) : Eval Value := fun env ↦
  match (env.valueOf? name).orElse fun _ ↦ env.constant? name with
  | some v => (.ok v, env)
  | none => (.error (.unboundIdentifier name l), env)

/-- Writes a bare name: one that is known only as a constant is written as a constant. -/
def assignName (name : String) (v : Value) (l : Location) : Eval Unit := fun env ↦
  if (env.valueOf? name).isNone && (env.constant? name).isSome then
    tryChange (fun env ↦ env.setConstant name v l) env
  else change (fun env ↦ env.assign name v) env

/-- The part that a definition adds: one at the top level may be called from everywhere, one inside
a function only from inside a function. -/
def scopeOfDefinition (env : Environment) : Scope :=
  if env.callScope = .global then .any else .local

variable (invoke : String → List Value → Location → Eval Value)

mutual

/-- The value of an expression. -/
def expr : Expr → Eval Value
  | .literal _ v => return v.value
  | .null _ => return .null
  | .empty _ => return .null
  | .name n x => lookupName x n.location
  | .variableRef _ x => ask fun env ↦ (env.valueOf? x).getD .null
  | .constantRef _ x => ask fun env ↦ (env.constant? x).getD .null
  | .unary n op e _ => do
    let v ← expr e
    let w ← lift (v.unary op n.location)
    if op.isMutating then
      assign e w n.location
      return if op = .postInc ∨ op = .postDec then v else w
    else return w
  | .binary n op l r _ => do
    let a ← expr l
    if op = .and ∧ !a.isTruthy then return .bool false
    else if op = .or ∧ a.isTruthy then return .bool true
    else
      let b ← expr r
      lift (a.binary op b n.location)
  | .coalesce n l r => do
    let v ← expr l
    if v.isNull then
      let w ← expr r
      if l.assignableName?.isSome then assign l w n.location
      return w
    else return v
  | .ternary _ c t e _ => do
    let v ← expr c
    if v.isTruthy then expr t else expr e
  | .assign n t e _ => do
    let v ← expr e
    assign t v n.location
    return v
  | .call n t args _ => callee t (exprs args) n.location
  | .new n _ _ _ => fail (.notImplemented .construction n.location)
  | .member n t x => do
    let v ← expr t
    lift (v.member x n.location)
  | .index n t args _ => do
    let v ← expr t
    let i ← indexArg args n.location
    lift (v.element i n.location)
  | .declare n x ty init _ => do
    let v ← initial (TypeExpr.kind? ty) n.location init
    change fun env ↦ env.define x v
    return v
  | .array _ ty es _ => do
    let vs ← items (TypeExpr.kind? ty) es
    return .array vs
  | .lambda n _ _ => fail (.notImplemented .lambda n.location)
  | .this n => fail (.notImplemented .thisReference n.location)
  | .block _ body => inFrame .block do
    let flow ← statements .null body
    return flow.value

/-- The values of expressions, from left to right. -/
def exprs : List Expr → Eval (List Value)
  | [] => return []
  | e :: es => do
    let v ← expr e
    let vs ← exprs es
    return v :: vs

/-- The elements of an array, each brought to the written kind. -/
def items (kind : Option Kind) : List Expr → Eval (List Value)
  | [] => return []
  | e :: es => do
    let v ← expr e
    let w ← fit kind v "[]" e.location
    let ws ← items kind es
    return w :: ws

/-- The value that a declaration starts with, brought to the written kind. -/
def initial (kind : Option Kind) (l : Location) : Option Expr → Eval Value
  | none => return (kind.map Kind.zero).getD .null
  | some e => do
    let v ← expr e
    fit kind v "=" l

/-- The one whole number between the brackets of an index. -/
def indexArg : List Expr → Location → Eval Int64
  | [e], l => do
    let v ← expr e
    lift (v.intArg "[]" l)
  | es, l => fail (.missingPart "[]" es.length l)

/-- A call, by the form of what is called: a name is a function, a member is a method of its
owner's value. The arguments are evaluated when the form is known to be one of these. -/
def callee : Expr → Eval (List Value) → Location → Eval Value
  | .unary _ .group e _, args, l => callee e args l
  | .name _ f, args, l => do
    let vs ← args
    invoke f vs l
  | .member _ t m, args, l => do
    let v ← expr t
    let vs ← args
    lift (v.method m vs l)
  | _, _, l => fail (.notImplemented .computedCall l)

/-- Writes a value to an expression. An element is written by reading its container, replacing the
element and writing the container in its turn. -/
def assign : Expr → Value → Location → Eval Unit
  | .unary _ .group e _, v, l => assign e v l
  | .name _ x, v, l => assignName x v l
  | .variableRef _ x, v, _ => change fun env ↦ env.assign x v
  | .constantRef _ x, v, l => tryChange fun env ↦ env.setConstant x v l
  | .index _ t args _, v, l => do
    let container ← expr t
    let i ← indexArg args l
    let updated ← lift (container.setElement i v l)
    assign t updated l
  | _, _, l => fail (.invalidTarget l)

/-- Runs a statement. -/
def statement : Statement → Eval Flow
  | .expr e => do
    let v ← expr e
    return .normal v
  | .block _ body => inFrame .block (statements .null body)
  | .cond _ c t e => do
    let v ← expr c
    if v.isTruthy then statement t else optionalStatement e
  | .ret _ v _ => do
    let v ← optionalExpr v
    return .returning v
  | .throw l v => do
    let v ← optionalExpr v
    fail (.thrown v l)
  | .vars _ ds => do
    let v ← lastOf .null ds
    return .normal v
  | .function _ s body => do
    change fun env ↦
      env.defineFunction s.name (.ofScript (s.params.map Param.name) body (scopeOfDefinition env))
    return .normal .null

/-- Runs statements one after another, up to a return. The value is that of the last one. -/
def statements (last : Value) : List Statement → Eval Flow
  | [] => return .normal last
  | s :: ss => do
    let flow ← statement s
    match flow with
    | .normal v => statements v ss
    | .returning v => return .returning v

/-- Runs an optional statement; nothing has the value null. -/
def optionalStatement : Option Statement → Eval Flow
  | none => return .normal .null
  | some s => statement s

/-- The value of an optional expression; nothing has the value null. -/
def optionalExpr : Option Expr → Eval Value
  | none => return .null
  | some e => expr e

/-- Evaluates expressions from left to right and keeps the last value. -/
def lastOf (last : Value) : List Expr → Eval Value
  | [] => return last
  | e :: es => do
    let v ← expr e
    lastOf v es

end

end Eval

end Scriptlet
