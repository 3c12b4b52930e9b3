import Scriptlet.Eval.Error
import Scriptlet.Tree.Basic

/-!
# Functions and their parts

A function is a name with any number of parts; a part says how many arguments it takes and from
where it may be called. A part is written in the script, or it is the host's. What a host part does
is given as a tree of actions, so it can print lines and call functions and do nothing else.
-/

namespace Scriptlet

/-! ## Scopes -/

/-- The places from which a part may be called, as a set. -/
structure Scope where
  inGlobal : Bool
  inClass : Bool
  inLocal : Bool
deriving DecidableEq

namespace Scope

/-- The top level of a script. -/
def global : Scope := ⟨true, false, false⟩

/-- The body of a class. -/
def ofClass : Scope := ⟨false, true, false⟩

/-- The body of a function. -/
def «local» : Scope := ⟨false, false, true⟩

/-- Everywhere. -/
def any : Scope := ⟨true, true, true⟩

/-- Nowhere. -/
def none : Scope := ⟨false, false, false⟩

/-- The places of both. -/
def union (a b : Scope) : Scope :=
  ⟨a.inGlobal || b.inGlobal, a.inClass || b.inClass, a.inLocal || b.inLocal⟩

/-- All places of the other belong to this one. -/
def contains (a b : Scope) : Bool :=
  (a.inGlobal || !b.inGlobal) && (a.inClass || !b.inClass) && (a.inLocal || !b.inLocal)

/-- The names of the single places. -/
def names : List (String × Scope) := [("global", global), ("class", ofClass), ("local", «local»)]

/-- The names of the places, or the word for all of them. -/
def text (s : Scope) : String :=
  if s = any then "any"
  else "|".intercalate ((names.filter fun p ↦ s.contains p.2).map Prod.fst)

end Scope

/-! ## Parts -/

/-- How many arguments a part takes. -/
inductive Arity where
  | fixed (n : Nat)
  | variadic
deriving DecidableEq

/-- The number, or three dots. -/
def Arity.text : Arity → String
  | .fixed n => s!"{n}"
  | .variadic => "..."

/-- What a part of the host does: it ends with a result, prints a line and goes on, or calls a
function and goes on with the result of the call. -/
inductive HostAction where
  | done (result : Except EvalError Value)
  | print (line : String) (next : HostAction)
  | call (name : String) (args : List Value) (location : Location)
      (next : Except EvalError Value → HostAction)

/-- The body of a part. -/
inductive PartBody where
  | native (act : List Value → Location → HostAction)
  | script (params : List String) (body : List Statement)

/-- The part is the host's. -/
def PartBody.isNative : PartBody → Bool
  | .native _ => true
  | .script .. => false

/-- One part of a function. -/
structure Part where
  arity : Arity
  scope : Scope
  body : PartBody

namespace Part

/-- A part of the host that may be called from everywhere. -/
def ofHost (arity : Arity) (act : List Value → Location → HostAction) : Part :=
  ⟨arity, .any, .native act⟩

/-- A part that a script defines. -/
def ofScript (params : List String) (body : List Statement) (scope : Scope) : Part :=
  ⟨.fixed params.length, scope, .script params body⟩

/-- The arity and the scope. -/
def text (p : Part) : String := p.arity.text ++ " " ++ p.scope.text

/-- The newest of the parts, given in the order of definition, with an arity and a scope. -/
def newest? (parts : List Part) (arity : Arity) (scope : Scope) : Option Part :=
  parts.reverse.find? fun p ↦ p.arity == arity && p.scope == scope

/-- The part that a call reaches: one with the number of arguments before a variadic one, and for
each of these one for exactly the caller's scope before one for all scopes. -/
def select? (parts : List Part) (arity : Nat) (scope : Scope) : Option Part :=
  (newest? parts (.fixed arity) scope).orElse fun _ ↦
    (newest? parts (.fixed arity) .any).orElse fun _ ↦
      (newest? parts .variadic scope).orElse fun _ ↦ newest? parts .variadic .any

end Part

end Scriptlet
