import Scriptlet.Code.Tree
import Scriptlet.Proofs.Bind.Values
import Scriptlet.Proofs.Code.Pieces

/-!
# Loads, stores, calls and conversions

What the code of an expression puts between the code of its parts: loads and stores of a storage,
the call of a method, and conversions. Each is balanced, given that `void` is mentioned only as what
is returned; a conversion is balanced even where there is nothing to convert, since a type of values
fits only such a type.
-/

namespace Scriptlet

/-! ## Storage -/

namespace Binding

/-- The number of cells that the owner of the storage takes. -/
def ownerCells (d : Binding) : Nat := if d.needsInstance then 1 else 0

/-- What the binding says about its owner is what the registry says. -/
def Live (r : Registry) : Binding → Prop
  | .property p _ isStatic _ => ∃ d, r.property? p = some d ∧ d.isStatic = isStatic
  | _ => True

end Binding

theorem Registry.HasMember.live {r : Registry} {owner : Ty} {x : String} {d : Binding}
    (h : r.HasMember owner x d) : d.Live r := by
  cases d with
  | property p ty isStatic writable =>
    obtain ⟨-, d, hd, -, -, hstatic, -⟩ := h
    exact ⟨d, hd, hstatic⟩
  | _ => trivial

theorem Body.Stores.live {r : Registry} {b : Body} {x : String} {d : Binding}
    (h : b.Stores x d) : d.Live r := by
  cases d with
  | property => exact h.elim
  | _ => trivial

theorem Tables.Denotes.live {Γ : Tables} {b : Body} {x : String} {d : Binding}
    (h : Γ.Denotes b x d) : d.Live Γ.registry := by
  rcases h with h | ⟨this, -, h⟩ | ⟨ty, rfl, -⟩
  · exact h.live
  · exact h.live
  · trivial

namespace Tables

variable {Γ : Tables} {b : Body} {h : Nat}

/-- Wherever the place for the storage of a well typed expression is filled, it is live. -/
theorem Typed.live_of_binding {e : Expr} {ty : Ty} (h : Γ.Typed b e ty) {d : Binding}
    (hd : e.node.binding = some d) : d.Live Γ.registry := by
  rcases (h.of_binding hd).2 with ⟨x, hd⟩ | ⟨owner, x, hd⟩
  · exact hd.live
  · exact hd.live

/-- A load takes the owner, if there is one, and leaves the value. -/
theorem load_balances {d : Binding} {l : Location} (hlive : d.Live Γ.registry)
    (hvalue : d.isStorage → d.ty.isValue) :
    Γ.Balances [] (d.load l) (h + d.ownerCells) (h + d.ty.cells) := by
  cases d with
  | typeName ty => exact .fail
  | «variable» slot =>
    rw [Ty.cells_of_ne_void (Ty.ne_void_of_isValue (hvalue rfl))]
    exact .put (e := ⟨0, 1⟩) rfl rfl rfl
  | parameter index ty =>
    rw [Ty.cells_of_ne_void (Ty.ne_void_of_isValue (hvalue rfl))]
    exact .put (e := ⟨0, 1⟩) rfl rfl rfl
  | field f ty isStatic =>
    rw [Ty.cells_of_ne_void (Ty.ne_void_of_isValue (hvalue rfl))]
    cases isStatic
    · exact .put (e := ⟨1, 1⟩) rfl rfl rfl
    · exact .put (e := ⟨0, 1⟩) rfl rfl rfl
  | property p ty isStatic writable =>
    rw [Ty.cells_of_ne_void (Ty.ne_void_of_isValue (hvalue rfl))]
    obtain ⟨def', hdef, rfl⟩ := hlive
    have heffect :
        Γ.effect (.call (.propertyGet p)) = some ⟨if def'.isStatic then 0 else 1, 1⟩ := by
      simp [effect, callEffect, hdef]
    have hput := Balances.put (h := h) heffect rfl rfl
    cases hstatic : def'.isStatic <;> rw [hstatic] at hput <;> exact hput

/-- A store takes the value and the owner, if there is one. -/
theorem store_balances {d : Binding} {l : Location} (hlive : d.Live Γ.registry) :
    Γ.Balances [] (d.store l) (h + (d.ownerCells + 1)) h := by
  cases d with
  | typeName ty => exact .fail
  | «variable» slot => exact .put (e := ⟨1, 0⟩) rfl rfl rfl
  | parameter index ty => exact .put (e := ⟨1, 0⟩) rfl rfl rfl
  | field f ty isStatic =>
    cases isStatic
    · exact .put (e := ⟨2, 0⟩) rfl rfl rfl
    · exact .put (e := ⟨1, 0⟩) rfl rfl rfl
  | property p ty isStatic writable =>
    obtain ⟨def', hdef, rfl⟩ := hlive
    have heffect :
        Γ.effect (.call (.propertySet p)) = some ⟨if def'.isStatic then 1 else 2, 0⟩ := by
      simp [effect, callEffect, hdef]
    have hput := Balances.put (h := h) heffect rfl rfl
    rw [Binding.store]
    split
    · cases hstatic : def'.isStatic <;> rw [hstatic] at hput <;> exact hput
    · exact .fail

/-! ## Calls and conversions -/

theorem method_balances {m : MethodRef} {d : MethodDef} (hd : Γ.registry.method? m = some d) :
    Γ.Balances [] (.call (.method m)) (h + ((if d.isStatic then 0 else 1) + d.params.length))
      (h + d.ret.cells) :=
  .put (e := ⟨(if d.isStatic then 0 else 1) + d.params.length, d.ret.cells⟩)
    (by simp [effect, callEffect, hd]) rfl rfl

theorem static_balances {m : MethodRef} {d : MethodDef} (hd : Γ.registry.method? m = some d)
    (hstatic : d.isStatic) :
    Γ.Balances [] (.call (.method m)) (h + d.params.length) (h + d.ret.cells) := by
  simpa [hstatic] using method_balances (h := h) hd

variable (hr : Γ.registry.VoidOnlyReturned)
include hr

/-- A conversion leaves what is wanted of what is there. -/
theorem conversion_balances {arg param : Ty} {c : Option Conversion}
    (hfit : Γ.registry.Fits arg param c) :
    Γ.Balances [] (.conversion? c) (h + arg.cells) (h + param.cells) := by
  cases c with
  | none =>
    rcases hfit with rfl | ⟨rfl, hreference⟩
    · exact .nothing
    · have hcells : param.cells = 1 := by cases param <;> first | rfl | cases hreference
      rw [hcells]
      exact .nothing
  | some c =>
    obtain ⟨-, rfl, rfl, hc⟩ := hfit
    obtain ⟨hsource, htarget, d, hd, hstatic, hparams, hret⟩ := hr.of_converts hc
    rw [Ty.cells_of_ne_void (Ty.ne_void_of_isValue hsource),
      Ty.cells_of_ne_void (Ty.ne_void_of_isValue htarget)]
    rw [Emit.conversion?, Emit.conversion]
    split
    · exact .put (e := ⟨1, 1⟩) rfl rfl rfl
    · have hcall := static_balances (h := h) hd hstatic
      rwa [hparams, hret, Ty.cells_of_ne_void (Ty.ne_void_of_isValue htarget)] at hcall

theorem branchConversion_balances {onTrue onFalse ty : Ty} {v : Option BranchConversion}
    (hv : Γ.registry.Joins onTrue onFalse ty v) :
    Γ.Balances [] (.branchConversion v .thenBranch) (h + onTrue.cells) (h + ty.cells) ∧
      Γ.Balances [] (.branchConversion v .elseBranch) (h + onFalse.cells) (h + ty.cells) := by
  cases hv with
  | same heq => exact ⟨.nothing, heq ▸ .nothing⟩
  | first _ hfit => exact ⟨conversion_balances hr hfit, .nothing⟩
  | second _ hfit => exact ⟨.nothing, conversion_balances hr hfit⟩

/-- The call of an operator's method, with its operands converted. -/
theorem operator_balances {owner : Ty} {name : String} {m : MethodRef} {d : MethodDef}
    (hm : Γ.registry.HasMethod owner name m d) (hname : name ∈ operatorNames) :
    Γ.Balances [] (.call (.method m)) (h + d.params.length) (h + d.ret.cells) :=
  static_balances hm.live (hr.of_operator hm hname).1

end Tables

end Scriptlet
