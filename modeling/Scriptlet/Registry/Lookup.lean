import Scriptlet.Registry.Basic

/-!
# Looking up members

Members are found through an index: each member is entered under all of its names, made small. What
the index gives is then checked against the exact rule for names, and a member that is entered
several times under one key is taken once.
-/

namespace Scriptlet

/-! ## The index of a definition -/

/-- A member by its kind and its number. -/
inductive MemberSlot where
  | field (index : Nat)
  | property (index : Nat)
  | method (index : Nat)
deriving DecidableEq

/-- The keys that a member is entered under. -/
def MemberName.keys (m : MemberName) : List String := (m.name :: m.aliases).map asciiLower

/-- One entry per key of the names, for members numbered from `start`. -/
def indexEntries (slot : Nat → MemberSlot) (start : Nat) :
    List MemberName → List (String × MemberSlot)
  | [] => []
  | m :: ms => m.keys.map (·, slot start) ++ indexEntries slot (start + 1) ms

namespace TypeDef

/-- The members under their keys: fields before properties before methods. -/
def index (d : TypeDef) : List (String × MemberSlot) :=
  indexEntries .field 0 (d.fields.map FieldDef.name)
    ++ indexEntries .property 0 (d.properties.map PropertyDef.name)
    ++ indexEntries .method 0 (d.methods.map MethodDef.name)

/-- The names of a member. -/
def nameOf? (d : TypeDef) : MemberSlot → Option MemberName
  | .field i => (d.fields[i]?).map FieldDef.name
  | .property i => (d.properties[i]?).map PropertyDef.name
  | .method i => (d.methods[i]?).map MethodDef.name

end TypeDef

/-! ## Queries -/

/-- The kinds of members that a query asks for. -/
structure MemberKinds where
  fields : Bool
  properties : Bool
  methods : Bool
deriving DecidableEq

namespace MemberKinds

/-- Fields and properties, which have values. -/
def value : MemberKinds := ⟨true, true, false⟩

/-- Fields only. -/
def field : MemberKinds := ⟨true, false, false⟩

/-- Properties only. -/
def property : MemberKinds := ⟨false, true, false⟩

/-- Methods only. -/
def method : MemberKinds := ⟨false, false, true⟩

/-- All kinds. -/
def all : MemberKinds := ⟨true, true, true⟩

/-- The kinds of both. -/
def union (a b : MemberKinds) : MemberKinds :=
  ⟨a.fields || b.fields, a.properties || b.properties, a.methods || b.methods⟩

/-- The member is of a kind that is asked for. -/
def admits (k : MemberKinds) : MemberSlot → Bool
  | .field _ => k.fields
  | .property _ => k.properties
  | .method _ => k.methods

end MemberKinds

/-- A handle to a member of any kind. -/
inductive MemberRef where
  | field (f : FieldRef)
  | property (p : PropertyRef)
  | method (m : MethodRef)
deriving DecidableEq

/-- The handle to a member of a type. -/
def MemberSlot.of (owner : Ty) : MemberSlot → MemberRef
  | .field i => .field ⟨owner, i⟩
  | .property i => .property ⟨owner, i⟩
  | .method i => .method ⟨owner, i, false⟩

/-- How a handle is shown. -/
def MemberRef.text : MemberRef → String
  | .field f => s!"field {f.owner.text}#{f.index}"
  | .property p => s!"property {p.owner.text}#{p.index}"
  | .method m => "method " ++ m.text

/-- The list in which each run of equal elements has become one element. -/
def dropRepeats {α : Type} [DecidableEq α] : List α → List α
  | [] => []
  | [a] => [a]
  | a :: b :: as => if a = b then dropRepeats (b :: as) else a :: dropRepeats (b :: as)

namespace Registry

/-- The members of a type that answer to a name and are of a kind that is asked for, in the order in
which they were added: fields, then properties, then methods. -/
def members (r : Registry) (ty : Ty) (name : String) (kinds : MemberKinds) : List MemberRef :=
  match r.def? ty with
  | none => []
  | some d =>
    let entered := (d.index.filter fun e ↦ e.1 == asciiLower name).map Prod.snd
    let found := entered.filter fun s ↦
      kinds.admits s && (d.nameOf? s).any fun m ↦ m.answersTo name
    (dropRepeats found).map (·.of ty)

/-- The methods of a type that answer to a name. -/
def methods (r : Registry) (ty : Ty) (name : String) : List MethodRef :=
  (r.members ty name .method).filterMap fun
    | .method m => some m
    | _ => none

/-- The constructors of a type. -/
def constructors (r : Registry) (ty : Ty) : List MethodRef :=
  match r.def? ty with
  | none => []
  | some d => (List.range d.constructors.length).map fun i ↦ ⟨ty, i, true⟩

/-- The method of an owner that converts from one type to another. -/
def conversionOf? (r : Registry) (owner source target : Ty) : Option MethodRef :=
  (r.methods owner implicitName).find? fun m ↦
    (r.method? m).any fun d ↦ d.params = [source] && d.ret = target

/-- The implicit conversion from one type to another in one step; one that the source defines comes
before one that the target defines. -/
def implicit? (r : Registry) (source target : Ty) : Option MethodRef :=
  (r.conversionOf? source source target).orElse fun _ ↦ r.conversionOf? target source target

end Registry

end Scriptlet
