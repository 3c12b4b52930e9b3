import Scriptlet.Registry.Lookup

/-!
# Registries that keep their indices

Building an index walks over all members of a definition, so a definition keeps the index that its
first query has built. Whatever adds a field, a property or a method takes the index away again, and
the next query builds a new one. Constructors have no names and are not in the index; adding one
leaves it where it is.
-/

namespace Scriptlet

/-- The members under each key, in the order in which they were entered. -/
abbrev MemberIndex := Table (List MemberSlot)

/-- One more member under a key, behind those that are there. -/
def MemberIndex.enter (t : MemberIndex) (e : String × MemberSlot) : MemberIndex :=
  t.put e.1 ((t.get? e.1).getD [] ++ [e.2])

/-- Something to add to a definition. -/
inductive Addition where
  | field (f : FieldDef)
  | property (p : PropertyDef)
  | method (m : MethodDef)
  | operator (name : String) (params : List Ty) (ret : Ty)
  | implicit (source target : Ty)
  | constructor (params : List Ty)
deriving DecidableEq

namespace TypeDef

/-- The definition with an addition. -/
def add (d : TypeDef) : Addition → TypeDef
  | .field f => d.addField f
  | .property p => d.addProperty p
  | .method m => d.addMethod m
  | .operator name params ret => d.addOperator name params ret
  | .implicit source target => d.addImplicit source target
  | .constructor params => d.addConstructor params

/-- The index of a definition, entered member by member. -/
def memberIndex (d : TypeDef) : MemberIndex := d.index.foldl MemberIndex.enter []

end TypeDef

/-! ## Definitions with an index -/

/-- A definition and, since its last query, its index. -/
structure IndexedDef where
  plain : TypeDef
  index? : Option MemberIndex
deriving DecidableEq

namespace IndexedDef

/-- A definition that has not been queried. -/
def ofDef (d : TypeDef) : IndexedDef := ⟨d, none⟩

/-- The index that is there, or else a new one. -/
def index (d : IndexedDef) : MemberIndex := d.index?.getD d.plain.memberIndex

/-- The definition after a query. -/
def queried (d : IndexedDef) : IndexedDef := { d with index? := some d.index }

/-- The definition with an addition. -/
def add (d : IndexedDef) : Addition → IndexedDef
  | .constructor params => { d with plain := d.plain.addConstructor params }
  | a => ⟨d.plain.add a, none⟩

/-- What a query finds through the index. -/
def members (d : IndexedDef) (ty : Ty) (name : String) (kinds : MemberKinds) : List MemberRef :=
  let entered := (d.index.get? (asciiLower name)).getD []
  let found := entered.filter fun s ↦
    kinds.admits s && (d.plain.nameOf? s).any fun m ↦ m.answersTo name
  dropRepeats (found.map (·.of ty))

end IndexedDef

/-! ## Registries with indices -/

/-- A registry whose definitions keep their indices. -/
structure IndexedRegistry where
  defs : List IndexedDef
  names : Table Ty
  nextId : Nat
deriving DecidableEq

namespace IndexedRegistry

/-- A registry in which nothing has been queried. -/
def ofRegistry (r : Registry) : IndexedRegistry := ⟨r.defs.map .ofDef, r.names, r.nextId⟩

/-- The registry without the indices. -/
def plain (r : IndexedRegistry) : Registry := ⟨r.defs.map IndexedDef.plain, r.names, r.nextId⟩

/-- The definition of a type. -/
def def? (r : IndexedRegistry) (ty : Ty) : Option IndexedDef := r.defs.find? fun d ↦ d.plain.ty = ty

/-- A definition replaced by a function of it; without a definition nothing changes. -/
def change (r : IndexedRegistry) (ty : Ty) (f : IndexedDef → IndexedDef) : IndexedRegistry :=
  { r with defs := r.defs.map fun d ↦ if d.plain.ty = ty then f d else d }

/-- A new type, which the name denotes from now on. -/
def declare (r : IndexedRegistry) (name : String) : IndexedRegistry :=
  { defs := r.defs ++ [.ofDef (.ofTy (.named r.nextId name))]
    names := r.names.put name (.named r.nextId name)
    nextId := r.nextId + 1 }

/-- The members of a type that answer to a name and are of a kind that is asked for, with the
registry after the query. -/
def members (r : IndexedRegistry) (ty : Ty) (name : String) (kinds : MemberKinds) :
    List MemberRef × IndexedRegistry :=
  match r.def? ty with
  | none => ([], r)
  | some d => (d.members ty name kinds, r.change ty IndexedDef.queried)

end IndexedRegistry

/-! ## Working with a registry -/

/-- One thing done to a registry. -/
inductive RegistryStep where
  | declare (name : String)
  | add (ty : Ty) (a : Addition)
  | query (ty : Ty) (name : String) (kinds : MemberKinds)
deriving DecidableEq

/-- A registry without indices after one step. A query leaves it as it is. -/
def Registry.step (r : Registry) : RegistryStep → Registry
  | .declare name => r.declare name
  | .add ty a => r.change ty (·.add a)
  | .query _ _ _ => r

/-- A registry without indices after some steps. -/
def Registry.run (r : Registry) (steps : List RegistryStep) : Registry :=
  steps.foldl Registry.step r

namespace IndexedRegistry

/-- A registry after one step. -/
def step (r : IndexedRegistry) : RegistryStep → IndexedRegistry
  | .declare name => r.declare name
  | .add ty a => r.change ty (·.add a)
  | .query ty name kinds => (r.members ty name kinds).2

/-- A registry after some steps. -/
def run (r : IndexedRegistry) (steps : List RegistryStep) : IndexedRegistry := steps.foldl step r

end IndexedRegistry

end Scriptlet
