import Scriptlet.Resolution
import Scriptlet.Location
import Scriptlet.Table

/-!
# What the binder keeps

Per function body: the parameters, the local variables so far, and the scopes in which their names
are known. Over all bodies: the functions that the program has defined so far. A body sees its own
locals and parameters and nothing of the bodies around it.
-/

namespace Scriptlet

/-- What a body returns: what its head says, or what its first return had. -/
inductive ReturnType where
  | declared (ty : Ty)
  | inferred (ty : Option Ty)
deriving DecidableEq

/-- The type of the calls. A body without a return has no value. -/
def ReturnType.ty : ReturnType → Ty
  | .declared ty => ty
  | .inferred ty => ty.getD .void

/-- The binding of one function body, or of the program outside of functions. The scopes stand
innermost first. -/
structure Body where
  params : List (String × Ty)
  scopes : List (Table Local)
  locals : List Local
  ret : ReturnType
deriving DecidableEq

namespace Body

/-- A body of which nothing is bound yet. -/
def start (params : List (String × Ty)) (ret : ReturnType) : Body := ⟨params, [[]], [], ret⟩

/-- The local variable that a name denotes. -/
def local? (b : Body) (name : String) : Option Local :=
  b.scopes.findSome? fun scope ↦ scope.get? name

/-- The local variable that the next declaration makes. -/
def nextLocal (b : Body) (name : String) (ty : Ty) : Local := ⟨b.locals.length, name, ty⟩

/-- One more local variable, known in the innermost scope. -/
def declare (b : Body) (name : String) (ty : Ty) : Body :=
  { b with
    locals := b.locals ++ [b.nextLocal name ty]
    scopes := match b.scopes with
      | [] => []
      | scope :: outer => scope.put name (b.nextLocal name ty) :: outer }

/-- The parameter of a name, with its number. -/
def param? (b : Body) (name : String) : Option Binding :=
  (b.params.zipIdx.find? fun p ↦ p.1.1 == name).map fun p ↦ .parameter p.2 p.1.2

/-- The local variable or else the parameter that a name denotes. -/
def storage? (b : Body) (name : String) : Option Binding :=
  match b.local? name with
  | some slot => some (.variable slot)
  | none => b.param? name

/-- A new innermost scope. -/
def pushScope (b : Body) : Body := { b with scopes := [] :: b.scopes }

/-- The innermost scope closed; its variables keep their numbers. -/
def popScope (b : Body) : Body := { b with scopes := b.scopes.tail }

end Body

/-- A function that the program defines. -/
structure ScriptFunction where
  name : String
  params : List Ty
  ret : Ty
  locals : List Local
  location : Location
deriving DecidableEq

/-- The numbers that stand beside a name in a list of names. -/
def numbersOf (name : String) (names : List String) : List Nat :=
  (names.zipIdx.filter fun p ↦ p.1 == name).map Prod.snd

/-- The last name of a list has the greatest number. -/
theorem numbersOf_append (name new : String) (names : List String) :
    numbersOf name (names ++ [new]) =
      numbersOf name names ++ if name = new then [names.length] else [] := by
  have hlast : [(new, names.length)].filter (fun p ↦ p.1 == name) =
      if name = new then [(new, names.length)] else [] := by
    by_cases h : name = new
    · simp [h]
    · simp [h, Ne.symm h]
  rw [numbersOf, List.zipIdx_append, List.filter_append, List.map_append, numbersOf,
    List.zipIdx_singleton, Nat.zero_add, hlast]
  split <;> rfl

/-- The functions so far, in the order in which they were registered, and by name the numbers of
those that have it. -/
structure FunctionTable where
  entries : List ScriptFunction
  numbers : Table (List Nat)
  numbers_eq : ∀ name,
    (numbers.get? name).getD [] = numbersOf name (entries.map ScriptFunction.name)
deriving DecidableEq

namespace FunctionTable

/-- No functions. -/
def empty : FunctionTable := ⟨[], [], fun _ ↦ rfl⟩

/-- One more function at the end. -/
def push (t : FunctionTable) (f : ScriptFunction) : FunctionTable where
  entries := t.entries ++ [f]
  numbers := t.numbers.put f.name ((t.numbers.get? f.name).getD [] ++ [t.entries.length])
  numbers_eq name := by
    rw [List.map_append, List.map_singleton, numbersOf_append, Table.get?_put, ← t.numbers_eq]
    by_cases h : name = f.name
    · simp [h]
    · simp [h]

/-- The locals of the function with a number recorded. -/
def recordLocals (t : FunctionTable) (index : Nat) (locals : List Local) : FunctionTable where
  entries := t.entries.modify index fun f ↦ { f with locals := locals }
  numbers := t.numbers
  numbers_eq name := by
    have hnames : (t.entries.modify index fun f ↦ { f with locals := locals }).map
        ScriptFunction.name = t.entries.map ScriptFunction.name := by
      refine List.ext_getElem? fun i ↦ ?_
      rw [List.getElem?_map, List.getElem?_map, List.getElem?_modify]
      cases t.entries[i]? with
      | none => rfl
      | some f => by_cases hi : index = i <;> simp [hi]
    rw [hnames, t.numbers_eq]

/-- The functions of a name with their numbers. -/
def named (t : FunctionTable) (name : String) : List (ScriptFunction × Nat) :=
  ((t.numbers.get? name).getD []).filterMap fun i ↦ t.entries[i]?.map (·, i)

/-- Looking a name up gives what going through all functions would give. -/
theorem named_eq (t : FunctionTable) (name : String) :
    t.named name = t.entries.zipIdx.filter fun f ↦ f.1.name == name := by
  have hread : ∀ fs : List (ScriptFunction × Nat), (∀ f ∈ fs, t.entries[f.2]? = some f.1) →
      (fs.map Prod.snd).filterMap (fun i ↦ t.entries[i]?.map (·, i)) = fs := by
    intro fs hfs
    induction fs with
    | nil => rfl
    | cons f fs ih =>
      obtain ⟨hf, hfs⟩ := List.forall_mem_cons.mp hfs
      rw [List.map_cons, List.filterMap_cons_some (by rw [hf, Option.map_some]), ih hfs]
  have hnumbers : numbersOf name (t.entries.map ScriptFunction.name) =
      (t.entries.zipIdx.filter fun f ↦ f.1.name == name).map Prod.snd := by
    rw [numbersOf, List.zipIdx_map, List.filter_map, List.map_map]
    rfl
  rw [named, t.numbers_eq, hnumbers]
  refine hread _ fun f hf ↦ ?_
  exact List.mk_mem_zipIdx_iff_getElem?.mp (List.mem_filter.mp hf).1

end FunctionTable

/-- The state of binding: the body at hand, those around it with the innermost first, and the
functions so far. -/
structure Binder where
  body : Body
  outer : List Body
  table : FunctionTable
deriving DecidableEq

namespace Binder

/-- The functions so far. -/
abbrev functions (s : Binder) : List ScriptFunction := s.table.entries

/-- The binder before any program. -/
def start : Binder := ⟨.start [] (.inferred none), [], .empty⟩

/-- Goes into a body. -/
def enter (s : Binder) (b : Body) : Binder := { s with body := b, outer := s.body :: s.outer }

/-- Goes back to the body around this one. -/
def leave (s : Binder) : Binder :=
  match s.outer with
  | [] => s
  | b :: bs => { s with body := b, outer := bs }

theorem leave_eq {s : Binder} {b : Body} {bs : List Body} (h : s.outer = b :: bs) :
    s.leave = ⟨b, bs, s.table⟩ := by
  rw [leave, h]

/-- The body at hand changed. -/
def change (s : Binder) (f : Body → Body) : Binder := { s with body := f s.body }

/-- One more function. -/
def register (s : Binder) (f : ScriptFunction) : Binder := { s with table := s.table.push f }

/-- The locals of the function with a number recorded. -/
def recordLocals (s : Binder) (index : Nat) (locals : List Local) : Binder :=
  { s with table := s.table.recordLocals index locals }

@[simp] theorem functions_register (s : Binder) (f : ScriptFunction) :
    (s.register f).functions = s.functions ++ [f] := rfl

@[simp] theorem functions_recordLocals (s : Binder) (index : Nat) (locals : List Local) :
    (s.recordLocals index locals).functions =
      s.functions.modify index fun f ↦ { f with locals := locals } := rfl

/-- The functions of a name with their numbers. -/
def functionsNamed (s : Binder) (name : String) : List (ScriptFunction × Nat) := s.table.named name

end Binder

end Scriptlet
