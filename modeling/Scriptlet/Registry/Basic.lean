import Scriptlet.Resolution
import Scriptlet.Table

/-!
# The known types and their members

A registry has one definition per known type. A definition lists the members of its type; members
are only ever added at the end of a list, so a handle, which is a number in such a list, keeps
denoting the same member.
-/

namespace Scriptlet

/-! ## Names of members

A member has one declared name and any number of other names that it answers to. The declared name
has to be written exactly; the others may be written in any mixture of ASCII capitals and small
letters. -/

/-- The text with its ASCII capitals made small. -/
def asciiLower (s : String) : String := String.ofList (s.toList.map Char.toLower)

/-- The names of a member. -/
structure MemberName where
  name : String
  aliases : List String
deriving DecidableEq

namespace MemberName

/-- A member without other names. -/
def ofName (name : String) : MemberName := ⟨name, []⟩

/-- The member answers to this name. -/
def answersTo (m : MemberName) (candidate : String) : Bool :=
  m.name == candidate || m.aliases.any fun a ↦ asciiLower a == asciiLower candidate

end MemberName

/-! ## Members -/

/-- A field. -/
structure FieldDef where
  name : MemberName
  ty : Ty
  isStatic : Bool
deriving DecidableEq

/-- A property. -/
structure PropertyDef where
  name : MemberName
  ty : Ty
  isStatic : Bool
  canWrite : Bool
deriving DecidableEq

/-- A method or a constructor. An intrinsic one is an instruction of the machine. -/
structure MethodDef where
  name : MemberName
  params : List Ty
  ret : Ty
  isStatic : Bool
  intrinsic : Bool
deriving DecidableEq

namespace MethodDef

/-- A method that is called on a value. -/
def ofInstance (name : MemberName) (params : List Ty) (ret : Ty) : MethodDef :=
  ⟨name, params, ret, false, false⟩

/-- A method that is called on its type. -/
def ofStatic (name : MemberName) (params : List Ty) (ret : Ty) : MethodDef :=
  ⟨name, params, ret, true, false⟩

/-- A method of a type that the machine has an instruction for. -/
def ofIntrinsic (name : String) (params : List Ty) (ret : Ty) : MethodDef :=
  ⟨.ofName name, params, ret, true, true⟩

end MethodDef

/-- The name of the methods that convert implicitly. -/
def implicitName : String := "op_Implicit"

/-- The name of the methods that read an element. -/
def indexerName : String := "get_Item"

/-! ## Definitions -/

/-- The definition of a type. -/
structure TypeDef where
  ty : Ty
  fields : List FieldDef
  properties : List PropertyDef
  methods : List MethodDef
  constructors : List MethodDef
deriving DecidableEq

namespace TypeDef

/-- A type without members. -/
def ofTy (ty : Ty) : TypeDef := ⟨ty, [], [], [], []⟩

/-- One more field. -/
def addField (d : TypeDef) (f : FieldDef) : TypeDef := { d with fields := d.fields ++ [f] }

/-- One more property. -/
def addProperty (d : TypeDef) (p : PropertyDef) : TypeDef :=
  { d with properties := d.properties ++ [p] }

/-- One more method. -/
def addMethod (d : TypeDef) (m : MethodDef) : TypeDef := { d with methods := d.methods ++ [m] }

/-- Some more methods. -/
def addMethods (d : TypeDef) (ms : List MethodDef) : TypeDef :=
  { d with methods := d.methods ++ ms }

/-- One more constructor. -/
def addConstructor (d : TypeDef) (params : List Ty) : TypeDef :=
  { d with constructors := d.constructors ++ [.ofStatic (.ofName ".ctor") params d.ty] }

/-- One more meaning of an operator. -/
def addOperator (d : TypeDef) (name : String) (params : List Ty) (ret : Ty) : TypeDef :=
  d.addMethod (.ofStatic (.ofName name) params ret)

/-- One more implicit conversion. -/
def addImplicit (d : TypeDef) (source target : Ty) : TypeDef :=
  d.addOperator implicitName [source] target

end TypeDef

/-! ## Registries -/

/-- All known types: their definitions, what the names in scripts denote, and the number that the
next declared type gets. -/
structure Registry where
  defs : List TypeDef
  names : Table Ty
  nextId : Nat
deriving DecidableEq

namespace Registry

/-- The definition of a type. -/
def def? (r : Registry) (ty : Ty) : Option TypeDef := r.defs.find? fun d ↦ d.ty = ty

/-- The type that a name denotes. -/
def resolve? (r : Registry) (name : String) : Option Ty := r.names.get? name

/-- A definition replaced by a function of it; without a definition nothing changes. -/
def change (r : Registry) (ty : Ty) (f : TypeDef → TypeDef) : Registry :=
  { r with defs := r.defs.map fun d ↦ if d.ty = ty then f d else d }

/-- The type that the next declaration of a name makes. -/
def fresh (r : Registry) (name : String) : Ty := .named r.nextId name

/-- A new type, which the name denotes from now on. -/
def declare (r : Registry) (name : String) : Registry :=
  { defs := r.defs ++ [.ofTy (r.fresh name)]
    names := r.names.put name (r.fresh name)
    nextId := r.nextId + 1 }

/-- The field of a handle. -/
def field? (r : Registry) (f : FieldRef) : Option FieldDef := do
  (← r.def? f.owner).fields[f.index]?

/-- The property of a handle. -/
def property? (r : Registry) (p : PropertyRef) : Option PropertyDef := do
  (← r.def? p.owner).properties[p.index]?

/-- The method or constructor of a handle. -/
def method? (r : Registry) (m : MethodRef) : Option MethodDef := do
  let d ← r.def? m.owner
  if m.constructor then d.constructors[m.index]? else d.methods[m.index]?

end Registry

end Scriptlet
