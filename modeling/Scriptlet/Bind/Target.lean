import Scriptlet.Bind.Overload
import Scriptlet.Bind.State
import Scriptlet.Tree.Basic

/-!
# The meaning of names, operators and calls

What a node means depends on the types of its parts, on the registry and on the names known at the
node. The functions here make each such choice; the walk over the tree only records it.
-/

namespace Scriptlet

/-- What stays the same while a program is bound: the known types, and the type that the program
belongs to, if there is one. -/
structure BindContext where
  registry : Registry
  this : Option Ty

/-! ## Types as they are written -/

namespace BindContext

/-- The type that a type expression denotes. -/
def tyOf (c : BindContext) (t : TypeExpr) : Except BindError Ty :=
  match c.registry.resolve? t.name with
  | some ty => .ok (ty.arrayOf t.rank)
  | none => .error (.unknownType t.name t.location)

/-- The type that a type expression denotes, where one may be left out. -/
def tyOf? (c : BindContext) : Option TypeExpr → Except BindError (Option Ty)
  | none => .ok none
  | some t => (c.tyOf t).map some

/-- The parameters with their types; each of them needs a type. -/
def typedParams (c : BindContext) (l : Location) :
    List Param → Except BindError (List (String × Ty))
  | [] => .ok []
  | p :: ps => do
    let ty ← match p.typeExpr with
      | none => .error (.invalidDeclaration p.name l)
      | some t => c.tyOf t
    return (p.name, ty) :: (← c.typedParams l ps)

/-! ## Names -/

/-- The static field of the own type that a constant's name denotes. -/
def constant? (c : BindContext) (name : String) : Option Binding := do
  let this ← c.this
  (c.registry.members this name .field).findSome? fun
    | .field f => do
      let d ← c.registry.field? f
      if d.isStatic then some (.field f d.ty true) else none
    | _ => none

end BindContext

/-- The field or property of a type that a name denotes; on the name of a type only static ones
count. -/
def Registry.member? (r : Registry) (ty : Ty) (name : String) (staticOnly : Bool) :
    Option Binding :=
  (r.members ty name .value).findSome? fun
    | .field f => do
      let d ← r.field? f
      if staticOnly && !d.isStatic then none else some (.field f d.ty d.isStatic)
    | .property p => do
      let d ← r.property? p
      if staticOnly && !d.isStatic then none else some (.property p d.ty d.isStatic d.canWrite)
    | .method _ => none

namespace BindContext

/-- What a plain name denotes: a local variable, a parameter, a member of the own type, or a type,
in this order. -/
def name? (c : BindContext) (b : Body) (name : String) : Option Binding :=
  (b.storage? name).orElse fun _ ↦
    (c.this.bind fun this ↦ c.registry.member? this name false).orElse fun _ ↦
      (c.registry.resolve? name).map .typeName

end BindContext

/-- What a name denotes, or the error that it denotes nothing. -/
def known (name : String) (l : Location) (b : Option Binding) : Except BindError Binding :=
  match b with
  | some b => .ok b
  | none => .error (.unboundIdentifier name l)

/-- The expression is the name of a type. -/
def Expr.isTypeName (e : Expr) : Bool :=
  match e.node.binding with
  | some (.typeName _) => true
  | _ => false

/-- The name that a chain of member accesses spells out. -/
def Expr.qualifiedName? : Expr → Option String
  | .name _ x => some x
  | .member _ target x => target.qualifiedName?.map fun q ↦ q ++ "." ++ x
  | _ => none

/-! ## Operators -/

namespace Registry

/-- How a value fits a place of a given type, or the error that it does not. -/
def convert (r : Registry) (found expected : Ty) (l : Location) :
    Except BindError (Option Conversion) :=
  match r.fit found expected with
  | some c => .ok c
  | none => .error (.typeMismatch expected found l)

/-- The meaning of an operator on one operand that is no pair of parentheses, with the type of the
result. An operator that writes back needs an operand that can be written. -/
def unary (r : Registry) (op : UnaryOp) (method : String) (binding : Option Binding) (ty : Ty)
    (l : Location) : Except BindError (OperatorTarget × Ty) :=
  if op.isMutating && !binding.any Binding.isSettable then .error (.notAssignable l)
  else
    let methods := r.methods ty method
    if methods.isEmpty then .error (.operatorNotFound method ty l)
    else
      match Candidate.select r method (Candidate.ofMethods r methods) [ty] l with
      | .ok ((m, ret), conversions) => .ok (⟨.method m, conversions⟩, ret)
      | .error _ => .error (.invalidOperation method [ty] l)

/-- The methods that an operator may mean. Between two numbers they are those of the wider type;
otherwise those of the left type, and then those of the right type if it is another one. -/
def operatorMethods (r : Registry) (method : String) (left right : Ty) : List MethodRef :=
  match left.rank?, right.rank? with
  | some m, some n => r.methods (if n ≤ m then left else right) method
  | _, _ => r.methods left method ++ (if right = left then [] else r.methods right method)

/-- The meaning of an operator between two operands, with the type of the result. References that
have no suitable method for it can still be compared for identity. -/
def binary (r : Registry) (op : BinaryOp) (left right : Ty) (l : Location) :
    Except BindError (OperatorTarget × Ty) :=
  match op.methodName? with
  | none => do
    let a ← r.convert left .bool l
    let b ← r.convert right .bool l
    return (⟨.logical, [a, b]⟩, .bool)
  | some method =>
    let identity := (op == .eq || op == .ne) && left.isReference && right.isReference
    let methods := r.operatorMethods method left right
    if methods.isEmpty then
      if identity then .ok (⟨.referenceEquality, [none, none]⟩, .bool)
      else .error (.operatorNotFound op.symbol left l)
    else
      match Candidate.select r method (Candidate.ofMethods r methods) [left, right] l with
      | .ok ((m, ret), conversions) => .ok (⟨.method m, conversions⟩, ret)
      | .error _ =>
        if identity then .ok (⟨.referenceEquality, [none, none]⟩, .bool)
        else .error (.invalidOperation op.symbol [left, right] l)

/-- The common type of two branches, with the branch that is converted to it; none is if the types
are equal. -/
def join (r : Registry) (onTrue onFalse : Ty) (l : Location) :
    Except BindError (Ty × Option BranchConversion) :=
  if onTrue = onFalse then .ok (onTrue, none)
  else
    match r.fit onTrue onFalse with
    | some c => .ok (onFalse, some ⟨.thenBranch, c⟩)
    | none =>
      match r.fit onFalse onTrue with
      | some c => .ok (onTrue, some ⟨.elseBranch, c⟩)
      | none => .error (.branchTypeMismatch onTrue onFalse l)

end Registry

/-- A condition has to be a truth value. -/
def expectBool (ty : Ty) (l : Location) : Except BindError Unit :=
  if ty = .bool then .ok () else .error (.typeMismatch .bool ty l)

/-! ## Declarations, arrays and assignments -/

/-- The type of a value that a variable without a written type can take over. -/
def Ty.isStorable : Ty → Bool
  | .void | .null => false
  | _ => true

/-- The type of a declared variable, with the conversion of its first value. -/
def Registry.declared (r : Registry) (name : String) (written initial : Option Ty)
    (l : Location) : Except BindError (Ty × Option Conversion) :=
  match written, initial with
  | some ty, some init => do return (ty, ← r.convert init ty l)
  | some ty, none => .ok (ty, none)
  | none, some init =>
    if init.isStorable then .ok (init, none) else .error (.invalidDeclaration name l)
  | none, none => .error (.invalidDeclaration name l)

/-- The element type of an array: the one that is written, or else that of the first item. -/
def elementTy (written : Option Ty) (items : List Ty) (l : Location) : Except BindError Ty :=
  match written, items with
  | some ty, _ => .ok ty
  | none, [] => .error (.unsupported .untypedEmptyArray l)
  | none, first :: _ =>
    if first = .null then .error (.unsupported .untypedEmptyArray l) else .ok first

/-- How the items of an array fit its element type, each with its place for the error. -/
def Registry.convertItems (r : Registry) (element : Ty) :
    List (Ty × Location) → Except BindError Conversions
  | [] => .ok []
  | (ty, l) :: items => do
    let c ← r.convert ty element l
    return c :: (← r.convertItems element items)

/-- An assignment to a plain name that denotes nothing yet declares a local variable of the value's
type. Anything else leaves the binder as it is. -/
def BindContext.declareByAssignment (c : BindContext) (target : Expr) (value : Ty) (s : Binder) :
    Except BindError Binder :=
  let declared (name : String) : Except BindError Binder :=
    if value.isStorable then .ok (s.change fun b ↦ b.declare name value)
    else .error (.invalidDeclaration name target.location)
  match target.ungrouped with
  | .name _ x => if (c.name? s.body x).isSome then .ok s else declared x
  | .variableRef _ x => if (s.body.storage? x).isSome then .ok s else declared x
  | _ => .ok s

/-- A bound expression can be assigned to: it is an element of an array, or its storage can be
written. -/
def Expr.isAssignable (e : Expr) : Bool :=
  match e.ungrouped with
  | .index _ _ _ resolved => resolved.any fun t ↦ t.callee == .arrayElement
  | inner => inner.node.binding.any Binding.isSettable

/-- An assignment needs a target that can be assigned to. -/
def expectAssignable (target : Expr) : Except BindError Unit :=
  if target.isAssignable then .ok () else .error (.notAssignable target.location)

/-! ## Calls -/

/-- How a call is written: by the name of a function, by the name of a method after its owner, or
with any other value in front. -/
inductive CallForm where
  | function (name : String)
  | method (name : String)
  | value
deriving DecidableEq

/-- The form of a call with a given target. A name that denotes a variable calls its value. -/
def CallForm.of (b : Body) (target : Expr) : CallForm :=
  match target.ungrouped with
  | .name _ x => if (b.storage? x).isSome then .value else .function x
  | .member _ _ x => .method x
  | _ => .value

namespace BindContext

/-- The candidates of a call by a function's name: the methods of the own type, then the functions
of the program. -/
def functionCandidates (c : BindContext) (s : Binder) (name : String) :
    List (Candidate (Callee × Ty)) :=
  let methods := match c.this with
    | none => []
    | some this => Candidate.ofMethods c.registry (c.registry.methods this name)
  methods.map (fun m ↦ ⟨(.method m.key.1, m.key.2), m.params⟩)
    ++ (s.functionsNamed name).map fun f ↦ ⟨(.script f.2, f.1.ret), f.1.params⟩

/-- What a call by a function's name reaches. -/
def functionTarget (c : BindContext) (s : Binder) (name : String) (args : List Ty)
    (target l : Location) : Except BindError CallTarget :=
  let candidates := c.functionCandidates s name
  if candidates.isEmpty then .error (.unboundIdentifier name target)
  else do
    let ((callee, ret), conversions) ← Candidate.select c.registry name candidates args l
    return ⟨callee, ret, conversions⟩

end BindContext

namespace Registry

/-- What a call reaches among some methods of a type. -/
def among (r : Registry) (owner : Ty) (name : String) (methods : List MethodRef)
    (args : List Ty) (l : Location) : Except BindError CallTarget :=
  if methods.isEmpty then .error (.missingMember owner name l)
  else do
    let ((m, ret), conversions) ← Candidate.select r name (Candidate.ofMethods r methods) args l
    return ⟨.method m, ret, conversions⟩

/-- The methods of a name that are static or not, as asked. -/
def methodsWith (r : Registry) (owner : Ty) (name : String) (isStatic : Bool) : List MethodRef :=
  (r.methods owner name).filter fun m ↦ (r.method? m).any fun d ↦ d.isStatic == isStatic

/-- What the call of a method reaches: a static method on the name of a type, any other on a
value. -/
def methodTarget (r : Registry) (owner : Ty) (ownerIsType : Bool) (name : String)
    (args : List Ty) (l : Location) : Except BindError CallTarget :=
  r.among owner name (r.methodsWith owner name ownerIsType) args l

/-- What the call of a value reaches. -/
def valueTarget (r : Registry) (ty : Ty) (args : List Ty) (l : Location) :
    Except BindError CallTarget :=
  match ty with
  | .delegate params ret => do
    let (_, conversions) ← Candidate.select r "delegate" [⟨(), params⟩] args l
    return ⟨.delegate, ret, conversions⟩
  | ty => .error (.unsupported (.callOf ty) l)

/-- What the construction of a value reaches. A type without constructors can be made from
nothing. -/
def constructorTarget (r : Registry) (ty : Ty) (args : List Ty) (l : Location) :
    Except BindError CallTarget :=
  let constructors := r.constructors ty
  if constructors.isEmpty then
    if args.isEmpty then .ok ⟨.defaultConstructor ty, ty, []⟩
    else .error (.overloadNotFound ty.text args.length l)
  else do
    let candidates := Candidate.ofMethods r constructors
    let ((m, _), conversions) ← Candidate.select r ty.text candidates args l
    return ⟨.method m, ty, conversions⟩

/-- What an index reaches: an element of an array, or the indexer of another type. -/
def indexTarget (r : Registry) (ty : Ty) (args : List Ty) (l : Location) :
    Except BindError CallTarget :=
  match ty.element? with
  | some element => do
    let (_, conversions) ← Candidate.select r "[]" [⟨(), [.int]⟩] args l
    return ⟨.arrayElement, element, conversions⟩
  | none => r.among ty indexerName (r.methodsWith ty indexerName false) args l

end Registry

/-! ## Returns -/

/-- How a returned value fits the body around it, and what the body returns from now on. Without a
value the type is `void`, which fits only itself. -/
def Registry.returned (r : Registry) (ret : ReturnType) (value : Ty) (l : Location) :
    Except BindError (ReturnType × Option Conversion) :=
  let against (expected : Ty) : Except BindError (ReturnType × Option Conversion) :=
    if expected = .void ∨ value = .void then
      if expected = value then .ok (ret, none) else .error (.typeMismatch expected value l)
    else do return (ret, ← r.convert value expected l)
  match ret with
  | .declared expected | .inferred (some expected) => against expected
  | .inferred none => .ok (.inferred (some value), none)

end Scriptlet
