import Scriptlet.Proofs.Bind.Evidence

/-!
# Types of values

Nothing of type `void` can be stored, and neither can anything whose type holds `void` in a place
that stands for something stored. A registry can keep to this: it then mentions `void` only as what
methods and function values return.
-/

namespace Scriptlet

/-! ## Types of values and results -/

namespace Ty

mutual

/-- Values of the type can be stored: `void` stands in it only as what a function value returns. -/
def isValue : Ty → Bool
  | .void => false
  | .array element => element.isValue
  | .delegate params ret => areValues params && (ret = .void || ret.isValue)
  | _ => true

/-- All types of a list are types of values. -/
def areValues : List Ty → Bool
  | [] => true
  | ty :: tys => ty.isValue && areValues tys

end

/-- A call may have the type: it is `void`, or a type of values. -/
def isResult (ty : Ty) : Bool := ty = .void || ty.isValue

theorem areValues_iff {tys : List Ty} : areValues tys ↔ ∀ ty ∈ tys, ty.isValue := by
  induction tys with
  | nil => simp [areValues]
  | cons ty tys ih => simp [areValues, ih]

@[simp] theorem isResult_iff {ty : Ty} : ty.isResult ↔ ty = .void ∨ ty.isValue := by
  simp [isResult]

@[simp] theorem isValue_array {element : Ty} : (Ty.array element).isValue = element.isValue := by
  rw [isValue]

theorem isValue_delegate {params : List Ty} {ret : Ty} :
    (Ty.delegate params ret).isValue ↔ (∀ ty ∈ params, ty.isValue) ∧ ret.isResult := by
  rw [isValue, Bool.and_eq_true, areValues_iff, isResult]

theorem ne_void_of_isValue {ty : Ty} (h : ty.isValue) : ty ≠ .void := by
  rintro rfl
  cases h

theorem isResult_of_isValue {ty : Ty} (h : ty.isValue) : ty.isResult := isResult_iff.mpr (.inr h)

theorem isValue_of_isResult {ty : Ty} (h : ty.isResult) (hne : ty ≠ .void) : ty.isValue :=
  (isResult_iff.mp h).resolve_left hne

theorem isValue_of_isStorable {ty : Ty} (h : ty.isResult) (hs : ty.isStorable) : ty.isValue := by
  refine isValue_of_isResult h ?_
  rintro rfl
  cases hs

theorem isValue_arrayOf {ty : Ty} (h : ty.isValue) (rank : Nat) : (ty.arrayOf rank).isValue := by
  induction rank with
  | zero => exact h
  | succ n ih => rwa [arrayOf, isValue_array]

end Ty

/-- The binding is the storage of a value. -/
def Binding.isStorage : Binding → Bool
  | .typeName _ => false
  | _ => true

/-! ## Registries that keep to it -/

/-- The names that operators and implicit conversions are looked up under. -/
def operatorNames : List String :=
  implicitName :: (BinaryOp.all.filterMap BinaryOp.methodName?
    ++ UnaryOp.all.filterMap UnaryOp.methodName?)

theorem BinaryOp.mem_operatorNames {op : BinaryOp} {name : String}
    (h : op.methodName? = some name) : name ∈ operatorNames := by
  refine List.mem_cons_of_mem _ (List.mem_append_left _ (List.mem_filterMap.mpr ⟨op, ?_, h⟩))
  cases op <;> decide

theorem UnaryOp.mem_operatorNames {op : UnaryOp} {name : String}
    (h : op.methodName? = some name) : name ∈ operatorNames := by
  refine List.mem_cons_of_mem _ (List.mem_append_right _ (List.mem_filterMap.mpr ⟨op, ?_, h⟩))
  cases op <;> decide

/-- In the registry `void` has no members, and it is mentioned only as what methods and function
values return. What an operator is looked up under is static and returns a value. -/
structure Registry.VoidOnlyReturned (r : Registry) : Prop where
  names : ∀ entry ∈ r.names, entry.2.isResult
  memberless : ∀ d ∈ r.defs, d.ty = .void → d.fields = [] ∧ d.properties = [] ∧ d.methods = []
  fields : ∀ d ∈ r.defs, ∀ f ∈ d.fields, f.ty.isValue
  properties : ∀ d ∈ r.defs, ∀ p ∈ d.properties, p.ty.isValue
  methods : ∀ d ∈ r.defs, ∀ m ∈ d.methods, (∀ ty ∈ m.params, ty.isValue) ∧ m.ret.isResult
  constructors : ∀ d ∈ r.defs, ∀ m ∈ d.constructors, ∀ ty ∈ m.params, ty.isValue
  operators : ∀ d ∈ r.defs, ∀ m ∈ d.methods, ∀ name ∈ operatorNames, m.name.answersTo name →
    m.isStatic ∧ m.ret.isValue

instance : DecidablePred Registry.VoidOnlyReturned := fun r ↦
  decidable_of_iff ((∀ entry ∈ r.names, entry.2.isResult) ∧ ∀ d ∈ r.defs,
      (d.ty = .void → d.fields = [] ∧ d.properties = [] ∧ d.methods = []) ∧
      (∀ f ∈ d.fields, f.ty.isValue) ∧ (∀ p ∈ d.properties, p.ty.isValue) ∧
      (∀ m ∈ d.methods, ((∀ ty ∈ m.params, ty.isValue) ∧ m.ret.isResult) ∧
        ∀ name ∈ operatorNames, m.name.answersTo name → m.isStatic ∧ m.ret.isValue) ∧
      ∀ m ∈ d.constructors, ∀ ty ∈ m.params, ty.isValue)
    ⟨fun h ↦ ⟨h.1, fun d hd ↦ (h.2 d hd).1, fun d hd ↦ (h.2 d hd).2.1,
        fun d hd ↦ (h.2 d hd).2.2.1, fun d hd m hm ↦ ((h.2 d hd).2.2.2.1 m hm).1,
        fun d hd ↦ (h.2 d hd).2.2.2.2, fun d hd m hm ↦ ((h.2 d hd).2.2.2.1 m hm).2⟩,
      fun h ↦ ⟨h.names, fun d hd ↦ ⟨h.memberless d hd, h.fields d hd, h.properties d hd,
        fun m hm ↦ ⟨h.methods d hd m hm, h.operators d hd m hm⟩, h.constructors d hd⟩⟩⟩

namespace Registry

variable {r : Registry}

theorem of_def? {ty : Ty} {d : TypeDef} (h : r.def? ty = some d) : d ∈ r.defs ∧ d.ty = ty :=
  ⟨List.mem_of_find?_eq_some h, by simpa using List.find?_some h⟩

theorem HasMethod.exists_def {owner : Ty} {name : String} {m : MethodRef} {d : MethodDef}
    (h : r.HasMethod owner name m d) : ∃ def' ∈ r.defs, def'.ty = owner ∧ d ∈ def'.methods := by
  obtain ⟨rfl, hmethod, hlive, -⟩ := h
  simp only [method?, Option.bind_eq_bind, Option.bind_eq_some_iff, hmethod, Bool.false_eq_true,
    if_false] at hlive
  obtain ⟨def', hdef, hd⟩ := hlive
  exact ⟨def', (of_def? hdef).1, (of_def? hdef).2, List.mem_of_getElem? hd⟩

theorem HasConstructor.exists_def {owner : Ty} {m : MethodRef} {d : MethodDef}
    (h : r.HasConstructor owner m d) : ∃ def' ∈ r.defs, d ∈ def'.constructors := by
  obtain ⟨rfl, hconstructor, hlive⟩ := h
  simp only [method?, Option.bind_eq_bind, Option.bind_eq_some_iff, hconstructor, if_true] at hlive
  obtain ⟨def', hdef, hd⟩ := hlive
  exact ⟨def', (of_def? hdef).1, List.mem_of_getElem? hd⟩

namespace VoidOnlyReturned

variable (hr : r.VoidOnlyReturned)
include hr

theorem isResult_of_resolve? {x : String} {ty : Ty} (h : r.resolve? x = some ty) :
    ty.isResult := by
  obtain ⟨before, after, heq, -⟩ := List.lookup_eq_some_iff.mp h
  exact hr.names (x, ty) (heq ▸ List.mem_append_right _ List.mem_cons_self)

/-- A method has parameters of types of values, returns a value or nothing, and is not one of
`void`. -/
theorem of_hasMethod {owner : Ty} {name : String} {m : MethodRef} {d : MethodDef}
    (h : r.HasMethod owner name m d) :
    owner ≠ .void ∧ (∀ ty ∈ d.params, ty.isValue) ∧ d.ret.isResult := by
  obtain ⟨def', hdef, rfl, hd⟩ := h.exists_def
  refine ⟨fun hvoid ↦ ?_, hr.methods def' hdef d hd⟩
  rw [(hr.memberless def' hdef hvoid).2.2] at hd
  cases hd

theorem of_operator {owner : Ty} {name : String} {m : MethodRef} {d : MethodDef}
    (h : r.HasMethod owner name m d) (hname : name ∈ operatorNames) :
    d.isStatic ∧ d.ret.isValue := by
  obtain ⟨def', hdef, -, hd⟩ := h.exists_def
  exact hr.operators def' hdef d hd name hname h.answers

theorem of_hasConstructor {owner : Ty} {m : MethodRef} {d : MethodDef}
    (h : r.HasConstructor owner m d) : ∀ ty ∈ d.params, ty.isValue := by
  obtain ⟨def', hdef, hd⟩ := h.exists_def
  exact hr.constructors def' hdef d hd

/-- A field or a property has the type of a value and is not one of `void`. -/
theorem of_hasMember {owner : Ty} {x : String} {b : Binding} (h : r.HasMember owner x b) :
    owner ≠ .void ∧ b.ty.isValue := by
  cases b with
  | field f ty isStatic =>
    obtain ⟨rfl, d, hd, -, rfl, -⟩ := h
    obtain ⟨def', hdef, hfield⟩ := Option.bind_eq_some_iff.mp hd
    obtain ⟨hmem, hty⟩ := of_def? hdef
    refine ⟨fun hvoid ↦ ?_, hr.fields def' hmem d (List.mem_of_getElem? hfield)⟩
    rw [(hr.memberless def' hmem (hty.trans hvoid)).1] at hfield
    cases hfield
  | property p ty isStatic writable =>
    obtain ⟨rfl, d, hd, -, rfl, -⟩ := h
    obtain ⟨def', hdef, hproperty⟩ := Option.bind_eq_some_iff.mp hd
    obtain ⟨hmem, hty⟩ := of_def? hdef
    refine ⟨fun hvoid ↦ ?_, hr.properties def' hmem d (List.mem_of_getElem? hproperty)⟩
    rw [(hr.memberless def' hmem (hty.trans hvoid)).2.1] at hproperty
    cases hproperty
  | _ => exact h.elim

/-- A conversion is made by a static method, from a value to a value. -/
theorem of_converts {c : Conversion} (h : r.Converts c) :
    c.source.isValue ∧ c.target.isValue ∧
      ∃ d, r.method? c.method = some d ∧ d.isStatic ∧ d.params = [c.source] ∧ d.ret = c.target := by
  obtain ⟨d, hd, hparams, hret, -⟩ := h
  obtain ⟨owner, hd⟩ : ∃ owner, r.HasMethod owner implicitName c.method d :=
    hd.elim (⟨_, ·⟩) (⟨_, ·⟩)
  obtain ⟨-, hvalues, -⟩ := hr.of_hasMethod hd
  obtain ⟨hstatic, hvalue⟩ := hr.of_operator hd List.mem_cons_self
  exact ⟨hvalues _ (hparams ▸ List.mem_singleton_self _), hret ▸ hvalue,
    d, hd.live, hstatic, hparams, hret⟩

end VoidOnlyReturned

end Registry

end Scriptlet
