import Mathlib.Logic.Relation
import Scriptlet.Code.Instruction
import Scriptlet.Proofs.Bind.Typing

/-!
# Stack effects and paths

What an instruction does to the depth of the stack: how many cells it takes and how many it leaves.
For a call this is read off the definition that the call reaches. A function value has no
definition, so the effect of invoking one depends on its return type, which the instruction does not
tell; the return types of the invoked values are given beside the code, in the order of the code.

A path goes through a piece of code from instruction to instruction and follows branches to their
labels. It carries a depth along, an integer: nothing here keeps a path from taking more than there
is. That it does not do so is what `StackBalanced` says, among other things.
-/

namespace Scriptlet

/-! ## Effects -/

/-- How many cells an instruction takes from the stack, and how many it then leaves on it. -/
structure Effect where
  pops : Nat
  pushes : Nat
deriving DecidableEq

/-- The number of cells that a result of the type takes. -/
def Ty.cells : Ty → Nat
  | .void => 0
  | _ => 1

theorem Ty.cells_of_ne_void {ty : Ty} (h : ty ≠ .void) : ty.cells = 1 := by
  cases ty <;> first | exact absurd rfl h | rfl

namespace Tables

/-- The effect of a call; there is none for the call of a function value. -/
def callEffect (Γ : Tables) : Invocation → Option Effect
  | .method m => (Γ.registry.method? m).map fun d ↦
      ⟨(if d.isStatic then 0 else 1) + d.params.length, d.ret.cells⟩
  | .constructor m => (Γ.registry.method? m).map fun d ↦ ⟨d.params.length, 1⟩
  | .defaultConstructor _ => some ⟨0, 1⟩
  | .script index => (Γ.functions[index]?).map fun f ↦ ⟨f.params.length, f.ret.cells⟩
  | .delegate _ => none
  | .propertyGet p => (Γ.registry.property? p).map fun d ↦ ⟨if d.isStatic then 0 else 1, 1⟩
  | .propertySet p => (Γ.registry.property? p).map fun d ↦ ⟨if d.isStatic then 1 else 2, 0⟩

/-- The effect of an instruction. What `ret` takes is up to the function that it leaves. -/
def effect (Γ : Tables) : Instruction → Option Effect
  | .loadConstant _ | .loadNull | .loadLocal _ | .loadArgument _ | .loadThis | .newArray .. =>
    some ⟨0, 1⟩
  | .storeLocal _ | .storeArgument _ | .pop | .throw => some ⟨1, 0⟩
  | .loadField _ isStatic => some ⟨if isStatic then 0 else 1, 1⟩
  | .storeField _ isStatic => some ⟨if isStatic then 1 else 2, 0⟩
  | .loadElement => some ⟨2, 1⟩
  | .storeElement => some ⟨3, 0⟩
  | .call invocation => Γ.callEffect invocation
  | .convert .. | .box _ => some ⟨1, 1⟩
  | .sameReference _ => some ⟨2, 1⟩
  | .branch .always _ => some ⟨0, 0⟩
  | .branch _ _ => some ⟨1, 0⟩
  | .dup => some ⟨1, 2⟩
  | .dupUnder depth => some ⟨depth + 1, depth + 2⟩
  | .label _ | .ret | .function _ => some ⟨0, 0⟩

/-- The effects of the instructions of a piece of code, given the return types of the function
values that it invokes. -/
inductive Effects (Γ : Tables) : List Instruction → List Ty → List Effect → Prop where
  | nil : Effects Γ [] [] []
  | plain {i code rets e es} (hi : Γ.effect i = some e) (rest : Effects Γ code rets es) :
      Effects Γ (i :: code) rets (e :: es)
  | invoke {arity code ty rets es} (rest : Effects Γ code rets es) :
      Effects Γ (.call (.delegate arity) :: code) (ty :: rets) (⟨arity + 1, ty.cells⟩ :: es)

theorem Effects.append {Γ : Tables} {a b : List Instruction} {ra rb : List Ty} {ea eb : List Effect}
    (ha : Γ.Effects a ra ea) (hb : Γ.Effects b rb eb) :
    Γ.Effects (a ++ b) (ra ++ rb) (ea ++ eb) := by
  induction ha with
  | nil => exact hb
  | plain hi _ ih => exact .plain hi ih
  | invoke _ ih => exact .invoke ih

/-- The effects are those of the code, instruction by instruction, and there is only one list of
them. -/
theorem Effects.unique {Γ : Tables} {code : List Instruction} {rets : List Ty}
    {es es' : List Effect}
    (h : Γ.Effects code rets es) (h' : Γ.Effects code rets es') : es = es' := by
  induction h generalizing es' with
  | nil => cases h'; rfl
  | plain hi _ ih =>
    cases h' with
    | plain hi' rest =>
      obtain rfl := Option.some.inj (hi.symm.trans hi')
      rw [ih rest]
    | invoke _ => cases hi
  | invoke _ ih =>
    cases h' with
    | plain hi' _ => cases hi'
    | invoke rest => rw [ih rest]

end Tables

/-! ## Paths -/

namespace Instruction

/-- The label that a branch may go to. -/
def target? : Instruction → Option Nat
  | .branch _ t => some t
  | _ => none

/-- The instruction may be followed by the next one. -/
def fallsThrough : Instruction → Bool
  | .branch .always _ | .ret | .throw => false
  | _ => true

/-- The label that the instruction marks. -/
def label? : Instruction → Option Nat
  | .label l => some l
  | _ => none

end Instruction

/-- One step of a path, from a place in the code and a depth to another: to the next instruction, or
along a branch to its label. -/
inductive PathStep (code : List Instruction) (effects : List Effect) :
    Nat × Int → Nat × Int → Prop where
  | next {i depth instruction effect} (hi : code[i]? = some instruction)
      (he : effects[i]? = some effect) (hnext : instruction.fallsThrough) :
      PathStep code effects (i, depth) (i + 1, depth - effect.pops + effect.pushes)
  | jump {i j depth instruction effect t} (hi : code[i]? = some instruction)
      (he : effects[i]? = some effect) (ht : instruction.target? = some t)
      (hj : code[j]? = some (.label t)) :
      PathStep code effects (i, depth) (j, depth - effect.pops + effect.pushes)

/-- A path through the code. -/
def Path (code : List Instruction) (effects : List Effect) : Nat × Int → Nat × Int → Prop :=
  Relation.ReflTransGen (PathStep code effects)

/-- However a path goes through the code, from whatever depth it starts at: it never goes below this
depth, not even while an instruction takes its operands; it arrives at the end only with the given
number of cells more; it arrives at each place with one depth only, whichever way it takes; and it
goes on, always forward, until it is at the end or at an instruction that leaves the code. -/
structure StackBalanced (code : List Instruction) (effects : List Effect) (out : Nat) : Prop where
  above : ∀ {d i depth}, Path code effects (0, d) (i, depth) → d ≤ depth
  enough : ∀ {d i depth instruction effect}, Path code effects (0, d) (i, depth) →
    code[i]? = some instruction → effects[i]? = some effect → instruction ≠ .ret →
    d ≤ depth - effect.pops
  arrives : ∀ {d depth}, Path code effects (0, d) (code.length, depth) → depth = d + out
  meets : ∀ {d i depth depth'}, Path code effects (0, d) (i, depth) →
    Path code effects (0, d) (i, depth') → depth = depth'
  proceeds : ∀ {d i depth}, Path code effects (0, d) (i, depth) →
    i = code.length ∨ code[i]? = some .ret ∨ code[i]? = some .throw ∨
      ∃ place, PathStep code effects (i, depth) place
  forward : ∀ {place place'}, PathStep code effects place place' →
    place.1 < place'.1 ∧ place'.1 ≤ code.length

end Scriptlet
