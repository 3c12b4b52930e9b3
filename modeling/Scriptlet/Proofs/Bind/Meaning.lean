import Scriptlet.Proofs.Bind.Growth
import Scriptlet.Proofs.Bind.Typing
import Scriptlet.Proofs.Table

/-!
# Every choice has a meaning

The functions that choose what a node means are compared here with the relations that say what a
node may mean: whatever is chosen is one of the allowed meanings. Where the choice depends on the
binder, the meaning is one for every binder that has grown from it.
-/

namespace Scriptlet

namespace Registry

variable {r : Registry} {l : Location}

/-! ## Operators -/

theorem unaryMeaning_of_unary {op : UnaryOp} {method : String} {binding : Option Binding}
    {operand ty : Ty} {t : OperatorTarget} (hop : op.methodName? = some method)
    (h : r.unary op method binding operand l = .ok (t, ty)) :
    r.UnaryMeaning op binding operand t ty := by
  simp only [unary] at h
  split at h
  · cases h
  rename_i hset
  split at h
  · cases h
  split at h
  · rename_i m ret cs hselect
    obtain ⟨rfl, rfl⟩ := Prod.mk.inj (Except.ok.inj h)
    obtain ⟨d, hm, hlive, rfl, hfit⟩ := of_select_ofMethods hselect
    obtain ⟨c, rfl⟩ := List.length_eq_one_iff.mp hfit.length_eq.1
    refine .method hop (hasMethod_of_live hm hlive) hfit fun hmut ↦ ?_
    simpa [hmut, Option.any_eq_true] using hset
  · cases h

/-- A method of an operator is one of its left or of its right operand, also where both ask for
it. -/
theorem hasMethod_of_mem_operatorMethods {method : String} {left right : Ty} {m : MethodRef}
    {d : MethodDef} (h : m ∈ r.operatorMethods method left right) (hlive : r.method? m = some d) :
    r.HasMethod left method m d ∨ r.HasMethod right method m d := by
  suffices h : m ∈ r.methods left method ∨ m ∈ r.methods right method from
    h.imp (hasMethod_of_live · hlive) (hasMethod_of_live · hlive)
  have happended (h : m ∈ r.methods left method
      ++ (if right = left then [] else r.methods right method)) :
      m ∈ r.methods left method ∨ m ∈ r.methods right method := by
    rcases List.mem_append.mp h with h | h
    · exact .inl h
    · split at h
      · cases h
      · exact .inr h
  rw [operatorMethods] at h
  split at h
  · split at h
    · exact .inl h
    · exact .inr h
  · exact happended h

theorem binaryMeaning_of_binary {op : BinaryOp} {left right ty : Ty} {t : OperatorTarget}
    (h : r.binary op left right l = .ok (t, ty)) : r.BinaryMeaning op left right t ty := by
  have hidentity : ∀ e : BindError,
      (if (op == .eq || op == .ne) && left.isReference && right.isReference
        then .ok (⟨.referenceEquality, [none, none]⟩, .bool) else .error e) = Except.ok (t, ty) →
      r.BinaryMeaning op left right t ty := by
    intro e he
    split at he
    · rename_i hid
      obtain ⟨rfl, rfl⟩ := Prod.mk.inj (Except.ok.inj he)
      simp only [Bool.and_eq_true, Bool.or_eq_true, beq_iff_eq] at hid
      exact .identity hid.1.1 hid.1.2 hid.2
    · cases he
  rw [binary] at h
  split at h
  · rename_i hop
    obtain ⟨a, ha, h⟩ := of_bind_ok h
    obtain ⟨b, hb, h⟩ := of_bind_ok h
    obtain ⟨rfl, rfl⟩ := Prod.mk.inj (Except.ok.inj h)
    exact .logical hop (.cons (fits_of_convert ha) (.cons (fits_of_convert hb) .nil))
  · rename_i method hop
    simp only at h
    split at h
    · exact hidentity _ h
    · split at h
      · rename_i m ret cs hselect
        obtain ⟨rfl, rfl⟩ := Prod.mk.inj (Except.ok.inj h)
        obtain ⟨d, hm, hlive, rfl, hfit⟩ := of_select_ofMethods hselect
        exact .method hop (hasMethod_of_mem_operatorMethods hm hlive) hfit
      · exact hidentity _ h

theorem joins_of_join {onTrue onFalse ty : Ty} {v : Option BranchConversion}
    (h : r.join onTrue onFalse l = .ok (ty, v)) : r.Joins onTrue onFalse ty v := by
  rw [join] at h
  split at h
  · rename_i heq
    obtain ⟨rfl, rfl⟩ := Prod.mk.inj (Except.ok.inj h)
    exact .same heq
  · rename_i hne
    split at h
    · rename_i c hc
      obtain ⟨rfl, rfl⟩ := Prod.mk.inj (Except.ok.inj h)
      exact .first hne (fits_of_fit hc)
    · split at h
      · rename_i c hc
        obtain ⟨rfl, rfl⟩ := Prod.mk.inj (Except.ok.inj h)
        exact .second hne (fits_of_fit hc)
      · cases h

/-! ## Declarations, arrays and returns -/

theorem declares_of_declared {x : String} {written initial : Option Ty} {ty : Ty}
    {c : Option Conversion} (h : r.declared x written initial l = .ok (ty, c)) :
    r.Declares written initial ty c := by
  rw [declared.eq_def] at h
  split at h
  · rename_i ty' init
    obtain ⟨c', hc, h⟩ := of_bind_ok h
    obtain ⟨rfl, rfl⟩ := Prod.mk.inj (Except.ok.inj h)
    exact .converted (fits_of_convert hc)
  · obtain ⟨rfl, rfl⟩ := Prod.mk.inj (Except.ok.inj h)
    exact .written
  · split at h
    · rename_i hstorable
      obtain ⟨rfl, rfl⟩ := Prod.mk.inj (Except.ok.inj h)
      exact .inferred hstorable
    · cases h
  · cases h

theorem fitAll_of_convertItems {element : Ty} {types : List Ty} {places : List Location}
    {cs : Conversions} (hlen : places.length = types.length)
    (h : r.convertItems element (types.zip places) = .ok cs) :
    r.FitAll types (List.replicate types.length element) cs := by
  induction types generalizing places cs with
  | nil =>
    obtain rfl : [] = cs := by simpa [convertItems] using h
    exact .nil
  | cons ty types ih =>
    rcases places with _ | ⟨place, places⟩
    · cases hlen
    rw [List.zip_cons_cons, convertItems] at h
    obtain ⟨c, hc, h⟩ := of_bind_ok h
    obtain ⟨cs', hcs, h⟩ := of_bind_ok h
    obtain rfl := Except.ok.inj h
    exact .cons (fits_of_convert hc) (ih (by simpa using hlen) hcs)

/-- A return is right for what its body returns in the end. -/
theorem returns_of_returned {ret ret' final : ReturnType} {value : Ty} {c : Option Conversion}
    (h : r.returned ret value l = .ok (ret', c)) (hfinal : ret'.Settles final) :
    r.Returns final.ty value c := by
  rcases BindContext.of_returned h with ⟨-, rfl, rfl⟩ | ⟨hret, rfl, hfits⟩
  · rw [hfinal.ty_eq nofun]
    exact ⟨.inl rfl, Iff.rfl⟩
  · rw [hfinal.ty_eq hret]
    rcases hfits with ⟨heq, rfl⟩ | ⟨hexpected, hvalue, hc⟩
    · exact ⟨.inl heq.symm, by rw [heq]⟩
    · exact ⟨fits_of_convert hc, fun h ↦ absurd h hvalue, fun h ↦ absurd h hexpected⟩

/-! ## Calls -/

variable {owner : Ty} {name : String} {args : List Ty} {t : CallTarget}

theorem of_among {methods : List MethodRef} (h : r.among owner name methods args l = .ok t) :
    ∃ m d cs, m ∈ methods ∧ r.method? m = some d ∧ r.FitAll args d.params cs ∧
      t = ⟨.method m, d.ret, cs⟩ := by
  rw [among] at h
  split at h
  · cases h
  obtain ⟨⟨⟨m, ret⟩, cs⟩, hs, h⟩ := of_bind_ok h
  obtain rfl := Except.ok.inj h
  obtain ⟨d, hm, hlive, rfl, hfit⟩ := of_select_ofMethods hs
  exact ⟨m, d, cs, hm, hlive, hfit, rfl⟩

theorem of_mem_methodsWith {isStatic : Bool} {m : MethodRef} {d : MethodDef}
    (h : m ∈ r.methodsWith owner name isStatic) (hlive : r.method? m = some d) :
    r.HasMethod owner name m d ∧ d.isStatic = isStatic := by
  obtain ⟨hm, hstatic⟩ := List.mem_filter.mp h
  exact ⟨hasMethod_of_live hm hlive, by simpa [hlive] using hstatic⟩

theorem methodMeaning_of_methodTarget {isType : Bool}
    (h : r.methodTarget owner isType name args l = .ok t) :
    r.MethodMeaning owner isType name args t := by
  obtain ⟨m, d, cs, hm, hlive, hfit, rfl⟩ := of_among h
  obtain ⟨hd, hstatic⟩ := of_mem_methodsWith hm hlive
  exact .method hd hstatic hfit

theorem of_valueTarget (h : r.valueTarget owner args l = .ok t) :
    ∃ params ret cs, owner = .delegate params ret ∧ r.FitAll args params cs ∧
      t = ⟨.delegate, ret, cs⟩ := by
  unfold valueTarget at h
  split at h
  · rename_i params ret
    obtain ⟨⟨u, cs⟩, hs, h⟩ := of_bind_ok h
    obtain rfl := Except.ok.inj h
    obtain ⟨cand, hmem, -, hfit⟩ := of_select hs
    obtain rfl := List.mem_singleton.mp hmem
    exact ⟨params, ret, cs, rfl, hfit, rfl⟩
  · cases h

theorem constructorMeaning_of_constructorTarget
    (h : r.constructorTarget owner args l = .ok t) : r.ConstructorMeaning owner args t := by
  simp only [constructorTarget] at h
  split at h
  · rename_i hnone
    split at h
    · rename_i hargs
      obtain rfl := Except.ok.inj h
      exact .default (List.isEmpty_iff.mp hnone) (List.isEmpty_iff.mp hargs)
    · cases h
  · obtain ⟨⟨⟨m, ret⟩, cs⟩, hs, h⟩ := of_bind_ok h
    obtain rfl := Except.ok.inj h
    obtain ⟨d, hm, hlive, -, hfit⟩ := of_select_ofMethods hs
    obtain ⟨d', hd'⟩ := hasConstructor_of_mem_constructors hm
    obtain rfl : d' = d := Option.some.inj (hd'.live.symm.trans hlive)
    exact .constructor hd' hfit

theorem indexMeaning_of_indexTarget (h : r.indexTarget owner args l = .ok t) :
    r.IndexMeaning owner args t := by
  rw [indexTarget] at h
  split at h
  · rename_i element helement
    obtain ⟨⟨u, cs⟩, hs, h⟩ := of_bind_ok h
    obtain rfl := Except.ok.inj h
    obtain ⟨cand, hmem, -, hfit⟩ := of_select hs
    obtain rfl := List.mem_singleton.mp hmem
    refine .element ?_ hfit
    cases owner with
    | array ty => exact congrArg Ty.array (Option.some.inj helement)
    | _ => cases helement
  · obtain ⟨m, d, cs, hm, hlive, hfit, rfl⟩ := of_among h
    obtain ⟨hd, hstatic⟩ := of_mem_methodsWith hm hlive
    exact .indexer hd hstatic hfit

end Registry

theorem elementOf_of_elementTy {written : Option Ty} {items : List Ty} {ty : Ty} {l : Location}
    (h : elementTy written items l = .ok ty) : ElementOf written items ty := by
  unfold elementTy at h
  split at h
  · obtain rfl := Except.ok.inj h
    exact .written
  · cases h
  · split at h
    · cases h
    · rename_i hne
      obtain rfl := Except.ok.inj h
      exact .first hne

/-! ## What is known later -/

namespace Binder.Grows

variable {s s' : Binder}

/-- A function keeps its number and its head. -/
theorem function (h : s.Grows s') {i : Nat} {f : ScriptFunction}
    (hf : s.functions[i]? = some f) : ∃ f', s'.functions[i]? = some f' ∧ f'.head = f.head := by
  have hi : (s.functions.map ScriptFunction.head)[i]? = some f.head := by
    rw [List.getElem?_map, hf, Option.map_some]
  have hi' := getElem?_of_prefix h.functions hi
  rw [List.getElem?_map] at hi'
  exact Option.map_eq_some_iff.mp hi'

/-- A local or a parameter stays what it is. -/
theorem stores (h : s.Grows s') {x : String} {d : Binding} (hd : s.body.Stores x d) :
    s'.body.Stores x d := by
  cases d with
  | «variable» slot => exact ⟨hd.1, getElem?_of_prefix h.locals hd.2⟩
  | parameter index ty => exact (congrArg (·[index]?) h.params).trans hd
  | _ => exact hd

/-- Behind a body of its own, what was learnt there about functions is still known. -/
theorem inner {final : Binder} (h : s.leave.Grows final) :
    s.Grows ⟨s.body, s.outer, final.table⟩ := by
  have hleave : s.leave.functions = s.functions := by
    rw [leave]
    split <;> rfl
  exact ⟨rfl, List.prefix_refl _, .refl _, rfl, hleave ▸ h.functions, id⟩

end Binder.Grows

/-- A variable that is declared is stored. -/
theorem Binder.stores_declare (s : Binder) (x : String) (ty : Ty) :
    (s.change fun b ↦ b.declare x ty).body.Stores x (.variable (s.body.nextLocal x ty)) :=
  ⟨rfl, by simp [change, Body.declare, Body.nextLocal]⟩

/-! ## Names -/

theorem Body.stores_of_storage? {b : Body} (hb : b.Scoped) {x : String} {d : Binding}
    (h : b.storage? x = some d) : b.Stores x d := by
  rw [storage?] at h
  split at h
  · rename_i slot hslot
    obtain rfl := Option.some.inj h
    rw [local?] at hslot
    obtain ⟨scope, hscope, hx⟩ := List.exists_of_findSome?_eq_some hslot
    exact hb scope hscope x slot hx
  · obtain ⟨⟨⟨y, ty⟩, index⟩, hp, rfl⟩ := Option.map_eq_some_iff.mp h
    obtain rfl : y = x := by simpa using List.find?_some hp
    exact List.mem_zipIdx_iff_getElem?.mp (List.mem_of_find?_eq_some hp)

namespace BindContext

variable {c : BindContext} {s final : Binder} {x : String} {d : Binding}

theorem stores_of_storage? (hs : s.body.Scoped) (h : s.body.storage? x = some d)
    (hfinal : s.Grows final) : final.body.Stores x d :=
  hfinal.stores (Body.stores_of_storage? hs h)

theorem denotes_of_name? (hs : s.body.Scoped) (h : c.name? s.body x = some d)
    (hfinal : s.Grows final) : Tables.Denotes ⟨c, final.functions⟩ final.body x d := by
  rw [name?] at h
  rcases hstorage : s.body.storage? x with _ | d'
  · rw [hstorage, Option.orElse_none] at h
    rcases hmember : c.this.bind fun this ↦ c.registry.member? this x false with _ | d'
    · rw [hmember, Option.orElse_none] at h
      obtain ⟨ty, hty, rfl⟩ := Option.map_eq_some_iff.mp h
      exact .inr (.inr ⟨ty, rfl, hty⟩)
    · rw [hmember, Option.orElse_some] at h
      obtain rfl := Option.some.inj h
      obtain ⟨this, hthis, hmember⟩ := Option.bind_eq_some_iff.mp hmember
      exact .inr (.inl ⟨this, hthis, (Registry.hasMember_of_member? hmember).1⟩)
  · rw [hstorage, Option.orElse_some] at h
    obtain rfl := Option.some.inj h
    exact .inl (stores_of_storage? hs hstorage hfinal)

theorem of_constant? (h : c.constant? x = some d) :
    ∃ this f ty, c.this = some this ∧ d = .field f ty true ∧
      c.registry.HasMember this x (.field f ty true) := by
  rw [constant?] at h
  obtain ⟨this, hthis, h⟩ := Option.bind_eq_some_iff.mp h
  obtain ⟨ref, href, hd⟩ := List.exists_of_findSome?_eq_some h
  obtain ⟨def', slot, names, hdef, rfl, hadmits, hnames, hanswers⟩ := Registry.of_mem_members href
  cases slot with
  | field i =>
    obtain ⟨f, hf, rfl⟩ := Option.map_eq_some_iff.mp hnames
    have hlive : c.registry.field? ⟨this, i⟩ = some f := by simp [Registry.field?, hdef, hf]
    simp only [MemberSlot.of, hlive, Option.bind_eq_bind, Option.bind_some] at hd
    split at hd
    · rename_i hstatic
      obtain rfl := Option.some.inj hd
      exact ⟨this, _, _, hthis, rfl, rfl, f, hlive, hanswers, rfl, hstatic⟩
    · cases hd
  | property i => cases hadmits
  | method i => cases hadmits

/-! ## Calls by a function's name -/

theorem functionMeaning_of_functionTarget {args : List Ty} {l l' : Location} {t : CallTarget}
    (h : c.functionTarget s x args l l' = .ok t) (hfinal : s.Grows final) :
    Tables.FunctionMeaning ⟨c, final.functions⟩ x args t := by
  simp only [functionTarget] at h
  split at h
  · cases h
  obtain ⟨⟨⟨callee, ret⟩, cs⟩, hs, h⟩ := of_bind_ok h
  obtain rfl := Except.ok.inj h
  obtain ⟨cand, hmem, hkey, hfit⟩ := Registry.of_select hs
  rw [functionCandidates] at hmem
  rcases List.mem_append.mp hmem with hmem | hmem
  · obtain ⟨m, hm, rfl⟩ := List.mem_map.mp hmem
    obtain ⟨rfl, rfl⟩ := Prod.mk.inj hkey
    rcases hthis : c.this with _ | this
    · simp [hthis] at hm
    simp only [hthis] at hm
    obtain ⟨m', hm', hcand⟩ := List.mem_filterMap.mp hm
    obtain ⟨d, hd, rfl⟩ := Option.map_eq_some_iff.mp hcand
    exact .method hthis (Registry.hasMethod_of_live hm' hd) hfit
  · obtain ⟨⟨f, i⟩, hf, rfl⟩ := List.mem_map.mp hmem
    obtain ⟨rfl, rfl⟩ := Prod.mk.inj hkey
    rw [Binder.functionsNamed, FunctionTable.named_eq] at hf
    obtain ⟨hf, hname⟩ := List.mem_filter.mp hf
    obtain ⟨f', hf', hhead⟩ := hfinal.function (List.mem_zipIdx_iff_getElem?.mp hf)
    rw [ScriptFunction.head, ScriptFunction.head, ScriptFunction.mk.injEq] at hhead
    obtain ⟨hname', hparams, hret, -⟩ := hhead
    have hfit' : c.registry.FitAll args f'.params cs := hparams ▸ hfit
    exact hret ▸ .script hf' (hname'.trans (by simpa using hname)) hfit'

end BindContext

end Scriptlet
