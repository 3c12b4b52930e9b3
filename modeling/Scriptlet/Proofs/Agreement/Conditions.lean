import Scriptlet.Bind.Pass
import Scriptlet.Eval.Builtin
import Scriptlet.Proofs.Tree.Everywhere
import Scriptlet.Registry.Primitive

/-!
# Where binding and running can disagree

Binding gives types to places in the text; running gives kinds to values, and it has tables of names
of its own. There are few ways for the two to part.

* Binding converts in many places, running only where a variable is declared or an array is written
  with a type. A tree is *unconverted* if binding converts nowhere else, but for the operands of
  operators and of methods, which running brings to a common kind itself. The right of `??` is never
  converted, and a return inside a block that is an expression gives the block a value which has
  nothing to do with the type of the block; an unconverted tree has no such right and no such
  return.
* A name means one variable to binding, by the scope it stands in; to running it means the innermost
  variable of the body that was defined so far, or a global one. Where a body has one type for each
  name, and the same as the top level, this makes no difference.
* A call means one function to binding, the first that fits; to running it means the newest one with
  that number of parameters, which may be one of the host. Where those agree in their types, this
  makes no difference either.
-/

namespace Scriptlet

/-! ## Trees -/

mutual

/-- The statement can end with a return: it is one, outside of expressions and of functions. -/
def Statement.returns : Statement → Bool
  | .ret .. => true
  | .block _ body => anyReturns body
  | .cond _ _ a b => a.returns || alternativeReturns b
  | .expr _ | .throw .. | .vars .. | .function .. => false

/-- Some statement of the list can end with a return. -/
def anyReturns : List Statement → Bool
  | [] => false
  | st :: sts => st.returns || anyReturns sts

/-- A statement that may be missing can end with a return. -/
def alternativeReturns : Option Statement → Bool
  | none => false
  | some st => st.returns

end

/-- The callee is a function of the program. -/
def Callee.isScript : Callee → Bool
  | .script _ => true
  | _ => false

/-- The value of the expression, and what it hands on, stay what they are. No function value is
called, since running has none. -/
def Expr.unconverted : Expr → Bool
  | .coalesce _ a b => b.node.ty == a.node.ty || b.node.ty == some .null
  | .ternary _ _ _ _ v => v.all fun b ↦ b.conversion.isNone
  | .assign _ _ _ k => k.all Option.isNone
  | .call _ _ _ t => t.all fun t ↦
    t.callee != .delegate && (!t.callee.isScript || t.conversions.all Option.isNone)
  | .array _ ty _ cs => ty.isSome || cs.all fun cs ↦ cs.all Option.isNone
  | .block _ body => !anyReturns body
  | _ => true

/-- What is returned stays what it is. -/
def Statement.unconverted : Statement → Bool
  | .ret _ _ k => k.all Option.isNone
  | _ => true

/-! ## Names -/

/-- The variables of a body with their types, and what the body returns. -/
structure BodyTypes where
  params : List (String × Ty)
  locals : List (String × Ty)
  ret : Ty

/-- The parameters and the local variables. -/
def BodyTypes.variables (b : BodyTypes) : List (String × Ty) := b.params ++ b.locals

/-- The name and the type of a local variable. -/
def Local.entry (slot : Local) : String × Ty := (slot.name, slot.ty)

/-- The types of a body that has been bound. -/
def Body.types (b : Body) : BodyTypes := ⟨b.params, b.locals.map Local.entry, b.ret.ty⟩

/-- The types of the body of a function, given the names of its parameters. -/
def ScriptFunction.types (f : ScriptFunction) (params : List Param) : BodyTypes :=
  ⟨(params.map Param.name).zip f.params, f.locals.map Local.entry, f.ret⟩

/-- The types of the bodies of a program, the top level first, and its functions. -/
structure ProgramTypes where
  top : BodyTypes
  inner : List BodyTypes
  functions : List ScriptFunction

/-- All bodies. -/
def ProgramTypes.bodies (W : ProgramTypes) : List BodyTypes := W.top :: W.inner

/-- The types that binding a program has found. -/
def Bound.types (out : Bound Program Ty) : ProgramTypes where
  top := out.state.body.types
  inner := out.state.functions.zipWith (fun f d ↦ f.types d.head.params)
    (statementsDefinitions out.tree)
  functions := out.state.functions

/-- No name and no call can be taken for another one of a different type. In a body each name has
one type, and none is the name of a type; a local variable that has the name of one of the top level
has its type; functions with one name and one number of parameters have the same types; and none has
the name of a built-in function. -/
structure ProgramTypes.Unambiguous (W : ProgramTypes) : Prop where
  names : ∀ b ∈ W.bodies, ∀ p ∈ b.variables, ∀ q ∈ b.variables, q.1 = p.1 → q.2 = p.2
  types : ∀ b ∈ W.bodies, ∀ p ∈ b.variables, Registry.primitive.resolve? p.1 = none
  shared : ∀ b ∈ W.bodies, ∀ p ∈ b.locals, ∀ q ∈ W.top.variables, q.1 = p.1 → q.2 = p.2
  overloads : ∀ f ∈ W.functions, ∀ g ∈ W.functions, g.name = f.name →
    g.params.length = f.params.length → g.params = f.params ∧ g.ret = f.ret
  builtins : ∀ f ∈ W.functions, Builtin.isBuiltin f.name = false

instance (W : ProgramTypes) : Decidable W.Unambiguous :=
  decidable_of_iff
    ((∀ b ∈ W.bodies, ∀ p ∈ b.variables, ∀ q ∈ b.variables, q.1 = p.1 → q.2 = p.2) ∧
      (∀ b ∈ W.bodies, ∀ p ∈ b.variables, Registry.primitive.resolve? p.1 = none) ∧
      (∀ b ∈ W.bodies, ∀ p ∈ b.locals, ∀ q ∈ W.top.variables, q.1 = p.1 → q.2 = p.2) ∧
      (∀ f ∈ W.functions, ∀ g ∈ W.functions, g.name = f.name →
        g.params.length = f.params.length → g.params = f.params ∧ g.ret = f.ret) ∧
      ∀ f ∈ W.functions, Builtin.isBuiltin f.name = false)
    ⟨fun ⟨h₁, h₂, h₃, h₄, h₅⟩ ↦ ⟨h₁, h₂, h₃, h₄, h₅⟩,
      fun ⟨h₁, h₂, h₃, h₄, h₅⟩ ↦ ⟨h₁, h₂, h₃, h₄, h₅⟩⟩

/-! ## Programs -/

/-- Binding and running a program cannot part: nothing is converted that running leaves as it is,
the program does not end with a return, and no name or call can be taken for another one. -/
structure Bound.Plain (out : Bound Program Ty) : Prop where
  unconverted : statementsEverywhere (fun e ↦ e.unconverted = true) (fun st ↦ st.unconverted = true)
    out.tree
  returns : anyReturns out.tree = false
  unambiguous : out.types.Unambiguous

instance (out : Bound Program Ty) : Decidable out.Plain :=
  decidable_of_iff
    (statementsEverywhere (fun e ↦ e.unconverted = true) (fun st ↦ st.unconverted = true) out.tree ∧
      anyReturns out.tree = false ∧ out.types.Unambiguous)
    ⟨fun ⟨h₁, h₂, h₃⟩ ↦ ⟨h₁, h₂, h₃⟩, fun ⟨h₁, h₂, h₃⟩ ↦ ⟨h₁, h₂, h₃⟩⟩

end Scriptlet
