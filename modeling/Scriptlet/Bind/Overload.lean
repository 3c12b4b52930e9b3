import Scriptlet.Bind.Error
import Scriptlet.Registry.Lookup

/-!
# Choosing among overloads

An argument fits a parameter as it is, or through one implicit conversion. Of the candidates that
take as many arguments as there are, and that every argument fits, the choice falls on the one whose
arguments fit as they are at the leftmost place where two candidates differ; of equals the first one
stays.
-/

namespace Scriptlet

namespace Registry

/-- How an argument fits a parameter: not at all, as it is (the inner `none`), or through a
conversion. Null fits every reference type as it is. -/
def fit (r : Registry) (arg param : Ty) : Option (Option Conversion) :=
  if arg = param then some none
  else if arg = .null && param.isReference then some none
  else (r.implicit? arg param).map fun m ↦
    some ⟨m, arg, param, (r.method? m).any MethodDef.intrinsic⟩

/-- How arguments fit parameters, one by one; some argument not at all is `none`. -/
def fitAll (r : Registry) : (args params : List Ty) → Option Conversions
  | a :: as, p :: ps => do
    let c ← r.fit a p
    let cs ← fitAll r as ps
    return c :: cs
  | _, _ => some []

end Registry

/-- Something that could be called: a key to know it by, and the types of its parameters. -/
structure Candidate (κ : Type) where
  key : κ
  params : List Ty

namespace Candidate

variable {κ : Type}

/-- The first arguments fit better than the second: at the first place where only one of them needs
no conversion, it is the first. -/
def better : (mine theirs : Conversions) → Bool
  | none :: _, some _ :: _ => true
  | some _ :: _, none :: _ => false
  | _ :: mine, _ :: theirs => better mine theirs
  | _, _ => false

/-- The best of the candidates that fit, given the best one so far. -/
def best (r : Registry) (args : List Ty) (sofar : Option (κ × Conversions)) :
    List (Candidate κ) → Option (κ × Conversions)
  | [] => sofar
  | c :: cs =>
    match r.fitAll args c.params with
    | none => best r args sofar cs
    | some fits =>
      match sofar with
      | some (key, old) =>
        best r args (if better fits old then some (c.key, fits) else some (key, old)) cs
      | none => best r args (some (c.key, fits)) cs

/-- Chooses a candidate for some arguments. A wrong number of arguments is told apart from arguments
that do not fit. -/
def select (r : Registry) (name : String) (candidates : List (Candidate κ)) (args : List Ty)
    (l : Location) : Except BindError (κ × Conversions) :=
  let sameArity := candidates.filter fun c ↦ c.params.length == args.length
  if sameArity.isEmpty then .error (.overloadNotFound name args.length l)
  else
    match best r args none sameArity with
    | some chosen => .ok chosen
    | none => .error (.argumentTypeMismatch name args l)

/-- Methods as candidates, each with its return type. -/
def ofMethods (r : Registry) (ms : List MethodRef) : List (Candidate (MethodRef × Ty)) :=
  ms.filterMap fun m ↦ (r.method? m).map fun d ↦ ⟨(m, d.ret), d.params⟩

end Candidate

end Scriptlet
