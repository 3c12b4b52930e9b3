import Scriptlet.Proofs.Bind.Typing
import Scriptlet.Proofs.Value.Types
import Scriptlet.Registry.Primitive

/-!
# Operators and members of primitive types

Binding finds an operator, a method or a member in the tables of types; running finds it by the
kinds of the values. In the registry in which nothing is declared the two agree: whatever is chosen
for operands of some types, if running the operator on values of these types has a result, then the
result is of the type that was chosen.
-/

namespace Scriptlet

namespace Primitive

/-- Every method with the type that it belongs to. -/
def methods : List (Ty × MethodDef) := defs.flatMap fun t ↦ t.methods.map (t.ty, ·)

/-- The widenings: what is converted, and to what. -/
def widens : List (Ty × Ty) :=
  [(.int, .float), (.int, .double), (.float, .double), (.char, .int), (.char, .float),
    (.char, .double)]

variable {owner : Ty} {name : String} {m : MethodRef} {d : MethodDef}

theorem def_mem {ty : Ty} {t : TypeDef} (h : Registry.primitive.def? ty = some t) :
    t ∈ defs ∧ t.ty = ty := by
  have hfound := List.find?_some h
  exact ⟨List.mem_of_find?_eq_some h, of_decide_eq_true hfound⟩

theorem mem_of_hasMethod (h : Registry.primitive.HasMethod owner name m d) :
    (owner, d) ∈ methods := by
  have hlive := h.live
  rw [Registry.method?, h.owner_eq, h.isMethod] at hlive
  obtain ⟨t, ht, hd⟩ := Option.bind_eq_some_iff.mp hlive
  obtain ⟨hmem, rfl⟩ := def_mem ht
  exact List.mem_flatMap.mpr ⟨t, hmem, List.mem_map.mpr ⟨d, List.mem_of_getElem? hd, rfl⟩⟩

/-- What holds of all methods that answer to a name. -/
theorem of_hasMethod {P : Ty → MethodDef → Prop}
    (hall : ∀ q ∈ methods, q.2.name.answersTo name → P q.1 q.2)
    (h : Registry.primitive.HasMethod owner name m d) : P owner d :=
  hall _ (mem_of_hasMethod h) h.answers

/-! ## Conversions -/

theorem widens_of_fits {source target : Ty} {c : Conversion}
    (h : Registry.primitive.Fits source target (some c)) : (source, target) ∈ widens := by
  obtain ⟨-, rfl, rfl, d, hm, hparams, hret, -⟩ := h
  have hall : ∀ q ∈ methods, q.2.name.answersTo implicitName →
      ∀ s ∈ q.2.params, (s, q.2.ret) ∈ widens := by decide
  have hmem : ∀ s ∈ d.params, (s, d.ret) ∈ widens := by
    rcases hm with hm | hm
    · exact of_hasMethod (P := fun _ d ↦ ∀ s ∈ d.params, (s, d.ret) ∈ widens) hall hm
    · exact of_hasMethod (P := fun _ d ↦ ∀ s ∈ d.params, (s, d.ret) ∈ widens) hall hm
  rw [hparams, hret] at hmem
  exact hmem _ List.mem_cons_self

/-- What stands where a primitive type that is no reference is wanted is of that type, or is widened
to it. -/
theorem source_of_fits {source target : Ty} {c : Option Conversion}
    (h : Registry.primitive.Fits source target c) (ht : target.isReference = false) :
    source = target ∨ (source, target) ∈ widens := by
  cases c with
  | none =>
    rcases h with h | ⟨-, href⟩
    · exact .inl h
    · rw [ht] at href
      cases href
  | some c => exact .inr (widens_of_fits h)

/-- Only number types are the targets of widenings. -/
theorem asIs_of_fits {source target : Ty} {c : Option Conversion}
    (h : Registry.primitive.Fits source target c) (ht : target.rank? = none) :
    source.FitsAsIs target := by
  cases c with
  | none => exact h
  | some c =>
    have hall : ∀ q ∈ widens, q.2.rank? ≠ none := by decide
    exact absurd ht (hall _ (widens_of_fits h))

/-! ## Operators between two operands -/

/-- The arithmetic operators on numbers take and give one type; texts can be added. -/
theorem of_arithmetic (hname : name ∈ arithmetic)
    (h : Registry.primitive.HasMethod owner name m d) :
    d.params = [owner, owner] ∧ d.ret = owner ∧
      (owner ∈ [.int, .float, .double] ∨ owner = .string) := by
  have hall : ∀ x ∈ arithmetic, ∀ q ∈ methods, q.2.name.answersTo x →
      q.2.params = [q.1, q.1] ∧ q.2.ret = q.1 ∧
        (q.1 ∈ [.int, .float, .double] ∨ q.1 = .string) := by
    decide
  exact of_hasMethod (P := fun t d ↦ d.params = [t, t] ∧ d.ret = t ∧
    (t ∈ [.int, .float, .double] ∨ t = .string)) (hall name hname) h

theorem of_comparison (hname : name ∈ comparison)
    (h : Registry.primitive.HasMethod owner name m d) : d.ret = .bool := by
  have hall : ∀ x ∈ comparison, ∀ q ∈ methods, q.2.name.answersTo x → q.2.ret = .bool := by
    decide
  exact of_hasMethod (P := fun _ d ↦ d.ret = .bool) (hall name hname) h

theorem of_bitwise (hname : name ∈ bitwise) (h : Registry.primitive.HasMethod owner name m d) :
    d.params = [owner, owner] ∧ d.ret = owner ∧ (owner = .int ∨ owner = .bool) := by
  have hall : ∀ x ∈ bitwise, ∀ q ∈ methods, q.2.name.answersTo x →
      q.2.params = [q.1, q.1] ∧ q.2.ret = q.1 ∧ (q.1 = .int ∨ q.1 = .bool) := by
    decide
  exact of_hasMethod (P := fun t d ↦ d.params = [t, t] ∧ d.ret = t ∧ (t = .int ∨ t = .bool))
    (hall name hname) h

theorem of_shift (hname : name ∈ ["op_LeftShift", "op_RightShift"])
    (h : Registry.primitive.HasMethod owner name m d) : d.ret = .int := by
  have hall : ∀ x ∈ ["op_LeftShift", "op_RightShift"], ∀ q ∈ methods, q.2.name.answersTo x →
      q.2.ret = .int := by
    decide
  exact of_hasMethod (P := fun _ d ↦ d.ret = .int) (hall name hname) h

/-! ## Operators on one operand -/

/-- The operators on one number give its type. -/
theorem of_onNumber (hname : name ∈ onNumber) (h : Registry.primitive.HasMethod owner name m d) :
    d.ret = owner ∧ owner ∈ [.int, .float, .double] := by
  have hall : ∀ x ∈ onNumber, ∀ q ∈ methods, q.2.name.answersTo x →
      q.2.ret = q.1 ∧ q.1 ∈ [.int, .float, .double] := by
    decide
  exact of_hasMethod (P := fun t d ↦ d.ret = t ∧ t ∈ [.int, .float, .double]) (hall name hname) h

theorem of_logicalNot (h : Registry.primitive.HasMethod owner "op_LogicalNot" m d) :
    d.ret = .bool := by
  have hall : ∀ q ∈ methods, q.2.name.answersTo "op_LogicalNot" → q.2.ret = .bool := by
    decide
  exact of_hasMethod (P := fun _ d ↦ d.ret = .bool) hall h

theorem mem_onNumber {op : UnaryOp} (hop : op.methodName? = some name) (hnot : op ≠ .not) :
    name ∈ onNumber := by
  cases op <;> cases hop <;> first | decide | exact absurd rfl hnot

/-! ## Members and methods -/

theorem of_hasMember {x : String} {b : Binding} (h : Registry.primitive.HasMember owner x b) :
    b.ty = .int := by
  have hfields : ∀ t ∈ defs, t.fields = [] := by decide
  have hproperties : ∀ t ∈ defs, ∀ q ∈ t.properties, q.ty = .int := by decide
  cases b with
  | field f ty isStatic =>
    obtain ⟨-, d, hd, -⟩ := h
    obtain ⟨t, ht, hd⟩ := Option.bind_eq_some_iff.mp hd
    rw [hfields t (def_mem ht).1] at hd
    cases hd
  | property p ty isStatic writable =>
    obtain ⟨-, d, hd, -, rfl, -⟩ := h
    obtain ⟨t, ht, hd⟩ := Option.bind_eq_some_iff.mp hd
    exact hproperties t (def_mem ht).1 d (List.mem_of_getElem? hd)
  | _ => cases h

theorem keys_of_answersTo {names : MemberName} {x : String} (h : names.answersTo x) :
    asciiLower x ∈ names.keys := by
  rw [MemberName.answersTo, Bool.or_eq_true, List.any_eq_true] at h
  rcases h with h | ⟨a, ha, h⟩
  · rw [← beq_iff_eq.mp h]
    exact List.mem_map.mpr ⟨names.name, List.mem_cons_self, rfl⟩
  · rw [← beq_iff_eq.mp h]
    exact List.mem_map.mpr ⟨a, List.mem_cons_of_mem _ ha, rfl⟩

/-- What the methods with the names of methods of texts give, whatever else these names may be. -/
theorem ret_of_keys : ∀ q ∈ methods, ∀ k ∈ q.2.name.keys,
    (k ∈ ["toupper", "upper", "tolower", "lower", "substring"] → q.2.ret = .string) ∧
      (k ∈ ["contains"] → q.2.ret = .bool) := by
  decide +kernel

/-- Only texts have an indexer. -/
theorem of_indexer (h : Registry.primitive.HasMethod owner indexerName m d) :
    owner = .string ∧ d.ret = .char := by
  have hall : ∀ q ∈ methods, q.2.name.answersTo indexerName → q.1 = .string ∧ q.2.ret = .char := by
    decide
  exact of_hasMethod (P := fun t d ↦ t = .string ∧ d.ret = .char) hall h

/-! ## Numbers -/

/-- Two operands that fit a number type, one of them as it is, have kinds of which the wider is that
of the type. -/
theorem wider_of_fits {left right owner : Ty} {c c' : Option Conversion}
    (hl : Registry.primitive.Fits left owner c) (hr : Registry.primitive.Fits right owner c')
    (howner : left = owner ∨ right = owner) (ht : owner ∈ [.int, .float, .double]) :
    ∃ k k', left.kind? = some k ∧ right.kind? = some k' ∧ k ≠ .string ∧ k' ≠ .string ∧
      owner.kind? = some (k.wider k') := by
  have href : owner.isReference = false := by
    simp only [List.mem_cons, List.not_mem_nil, or_false] at ht
    rcases ht with rfl | rfl | rfl <;> rfl
  -- the types that widen to a number type are finitely many, and none of them is a string
  have hsources : ∀ t ∈ [Ty.int, .float, .double],
      ∀ s ∈ t :: (widens.filter (·.2 = t)).map Prod.fst, s.kind?.isSome ∧
        ∀ k ∈ s.kind?, k ≠ .string ∧ ∀ k' ∈ t.kind?, k.wider k' = k' ∧ k'.wider k = k' := by
    decide
  have hmem : ∀ {s : Ty} {c : Option Conversion}, Registry.primitive.Fits s owner c →
      s ∈ owner :: (widens.filter (·.2 = owner)).map Prod.fst := by
    intro s c hs
    rcases source_of_fits hs href with rfl | hs
    · exact List.mem_cons_self
    · exact List.mem_cons_of_mem _ (List.mem_map.mpr
        ⟨_, List.mem_filter.mpr ⟨hs, decide_eq_true rfl⟩, rfl⟩)
  obtain ⟨hlk, hlw⟩ := hsources owner ht left (hmem hl)
  obtain ⟨hrk, hrw⟩ := hsources owner ht right (hmem hr)
  obtain ⟨k, hk⟩ := Option.isSome_iff_exists.mp hlk
  obtain ⟨k', hk'⟩ := Option.isSome_iff_exists.mp hrk
  refine ⟨k, k', hk, hk', (hlw k hk).1, (hrw k' hk').1, ?_⟩
  rcases howner with rfl | rfl
  · rw [hk, ((hrw k' hk').2 k hk).2]
  · rw [hk', ((hlw k hk).2 k' hk').1]

end Primitive

namespace Value

variable {a b v w : Value} {left right ty : Ty} {l : Location}

theorem is_of_fitsAsIs {arg param : Ty} (h : v.Is arg) (hfit : arg.FitsAsIs param) :
    v.Is param := by
  rcases hfit with rfl | ⟨rfl, -⟩
  · exact h
  · exact is_of_null h

theorem kind_eq_of_is {k k' : Kind} (h : v.Is ty) (hk : ty.kind? = some k) (hv : v.kind = k')
    (hne : k' ≠ .null) : k' = k := by
  refine hv.symm.trans (kind_of_is h ?_ hk)
  rintro rfl
  exact hne hv.symm

theorem ne_null_of_isNumberLike (h : v.isNumberLike) : v ≠ .null := by
  rintro rfl
  cases h

theorem not_isNumberLike_of_string (h : v.Is .string) : ¬v.isNumberLike := by
  cases v <;> first | exact Bool.false_ne_true | cases h

/-- Arithmetic gives a value of the type whose operator was chosen. -/
theorem arith_is {op : BinaryOp} {owner : Ty} {c c' : Option Conversion} (ha : a.Is left)
    (hb : b.Is right) (hl : Registry.primitive.Fits left owner c)
    (hr : Registry.primitive.Fits right owner c') (howner : left = owner ∨ right = owner)
    (ht : owner ∈ [.int, .float, .double] ∨ owner = .string) (h : arith op a b l = .ok w) :
    w.Is owner := by
  rcases ht with ht | rfl
  · obtain ⟨k, k', hk, hk', hstr, hstr', hkind⟩ := Primitive.wider_of_fits hl hr howner ht
    rcases of_arith h with ⟨-, hjoin, -⟩ | ⟨han, hbn, hw⟩
    · -- no operand is a text, since the types are those of numbers or characters
      rcases hjoin with hjoin | hjoin
      · exact absurd (kind_eq_of_is ha hk hjoin nofun).symm hstr
      · exact absurd (kind_eq_of_is hb hk' hjoin nofun).symm hstr'
    · refine is_of_kind ?_
      rw [hkind, hw, kind_of_is ha (ne_null_of_isNumberLike han) hk,
        kind_of_is hb (ne_null_of_isNumberLike hbn) hk']
  · have hnone : Ty.string.rank? = none := rfl
    rcases of_arith h with ⟨-, -, hw⟩ | ⟨han, -, -⟩
    · exact is_of_kind (congrArg some hw.symm)
    · exact absurd han (not_isNumberLike_of_string
        (is_of_fitsAsIs ha (Primitive.asIs_of_fits hl hnone)))

/-- Operators on bits give a value of the type whose operator was chosen. -/
theorem bitwise_is {op : BinaryOp} {owner : Ty} {c : Option Conversion} (ha : a.Is left)
    (hl : Registry.primitive.Fits left owner c) (ht : owner = .int ∨ owner = .bool)
    (h : bitwise op a b l = .ok w) : w.Is owner := by
  rcases of_bitwise h with ⟨hab, -, hw⟩ | ⟨hai, -, hw⟩
  · rcases ht with rfl | rfl
    · have hsource := Primitive.source_of_fits hl rfl
      simp only [Primitive.widens, List.mem_cons, Prod.mk.injEq, List.not_mem_nil, or_false,
        reduceCtorEq, and_false, and_true, false_or] at hsource
      rcases hsource with rfl | rfl
      · cases kind_eq_of_is ha rfl hab nofun
      · cases kind_eq_of_is ha rfl hab nofun
    · exact is_of_kind (congrArg some hw.symm)
  · rcases ht with rfl | rfl
    · exact is_of_kind (congrArg some hw.symm)
    · rcases Primitive.asIs_of_fits hl rfl with rfl | ⟨-, href⟩
      · cases a with
        | int n => cases ha
        | char x => cases ha
        | _ => cases hai
      · cases href

/-- What an operator between two values gives is of the type that binding gives it. -/
theorem binary_is {op : BinaryOp} {t : OperatorTarget} (ha : a.Is left) (hb : b.Is right)
    (ht : Registry.primitive.BinaryMeaning op left right t ty) (h : a.binary op b l = .ok w) :
    w.Is ty := by
  cases ht with
  | identity hop _ _ =>
    rcases hop with rfl | rfl <;>
    · obtain rfl := Except.ok.inj h
      trivial
  | logical hop _ =>
    cases op with
    | and =>
      obtain rfl := Except.ok.inj h
      trivial
    | or =>
      obtain rfl := Except.ok.inj h
      trivial
    | _ => cases hop
  | @method name m d cs hop hm hfit =>
    obtain ⟨p, q, c, c', hparams, -, hl, hr⟩ := hfit.of_pair
    obtain ⟨owner, howner, hm⟩ : ∃ owner, (left = owner ∨ right = owner) ∧
        Registry.primitive.HasMethod owner name m d :=
      hm.elim (fun hm ↦ ⟨left, .inl rfl, hm⟩) fun hm ↦ ⟨right, .inr rfl, hm⟩
    have harith : name ∈ Primitive.arithmetic → arith op a b l = .ok w → w.Is d.ret := by
      intro hname h
      obtain ⟨hown, hret, hty⟩ := Primitive.of_arithmetic hname hm
      obtain ⟨rfl, rfl⟩ := List.cons.inj (hparams.symm.trans hown) |>.imp_right fun h ↦
        (List.cons.inj h).1
      rw [hret]
      exact arith_is ha hb hl hr howner hty h
    have hcompare : name ∈ Primitive.comparison → w.kind = .bool → w.Is d.ret := by
      intro hname hw
      rw [Primitive.of_comparison hname hm]
      exact is_of_kind (congrArg some hw.symm)
    have hbits : name ∈ Primitive.bitwise → bitwise op a b l = .ok w → w.Is d.ret := by
      intro hname h
      obtain ⟨hown, hret, hty⟩ := Primitive.of_bitwise hname hm
      obtain rfl := (List.cons.inj (hparams.symm.trans hown)).1
      rw [hret]
      exact bitwise_is ha hl hty h
    have hshift : name ∈ ["op_LeftShift", "op_RightShift"] →
        shift op a b l = .ok w → w.Is d.ret := by
      intro hname h
      rw [Primitive.of_shift hname hm]
      exact is_of_kind (congrArg some (kind_of_shift h).symm)
    -- each operator is of one of these families, and equality is a comparison that never fails
    cases op <;> cases hop <;> first
      | exact harith (by decide) h
      | exact hcompare (by decide) (kind_of_ordered h)
      | exact hbits (by decide) h
      | exact hshift (by decide) h
      | exact hcompare (by decide) (congrArg kind (Except.ok.inj h).symm)

/-! ## Operators on one operand -/

theorem unary_null_ne_ok {op : UnaryOp} (hop : op.methodName?.isSome) (hnot : op ≠ .not) :
    Value.null.unary op l ≠ .ok w := by
  cases op with
  | group => cases hop
  | not => exact absurd rfl hnot
  | _ =>
    intro h
    cases h

/-- What an operator on one value gives is of the type that binding gives it. An operator that
writes back gives the type of its operand. -/
theorem unary_is {op : UnaryOp} {binding : Option Binding} {operand : Ty} {t : OperatorTarget}
    (hv : v.Is operand) (ht : Registry.primitive.UnaryMeaning op binding operand t ty)
    (h : v.unary op l = .ok w) : w.Is ty ∧ (op.isMutating → ty = operand) := by
  obtain ⟨hop, hm, -, -⟩ := ht
  by_cases hnot : op = .not
  · subst hnot
    cases hop
    obtain rfl := Except.ok.inj h
    rw [Primitive.of_logicalNot hm]
    exact ⟨trivial, nofun⟩
  · obtain ⟨hret, hty⟩ := Primitive.of_onNumber (Primitive.mem_onNumber hop hnot) hm
    obtain ⟨k, hk, hnum⟩ : ∃ k, operand.kind? = some k ∧ k.isNumeric := by
      simp only [List.mem_cons, List.not_mem_nil, or_false] at hty
      rcases hty with rfl | rfl | rfl <;> exact ⟨_, rfl, rfl⟩
    have hne : v ≠ .null := by
      rintro rfl
      exact unary_null_ne_ok (by rw [hop, Option.isSome_some]) hnot h
    have hkind := kind_of_is hv hne hk
    refine ⟨is_of_kind ?_, fun _ ↦ hret⟩
    rw [hret, hk, kind_of_unary h (hkind ▸ hnum) hnot, hkind]

/-! ## Members, methods and elements -/

/-- A member of a value is its length, and that is the one member that binding finds. -/
theorem member_is {owner : Ty} {x : String} {d : Binding}
    (hd : Registry.primitive.HasMember owner x d) (h : v.member x l = .ok w) : w.Is d.ty := by
  have hw : w.kind = .int := by
    rw [member] at h
    split at h
    · split at h
      · obtain rfl := Except.ok.inj h
        rfl
      · cases h
    · cases h
  rw [Primitive.of_hasMember hd]
  exact is_of_kind (congrArg some hw.symm)

/-- A method that running has for a value gives what binding says of the methods of that name. -/
theorem method_is {owner : Ty} {x : String} {args : List Value} {m : MethodRef} {d : MethodDef}
    (hm : Registry.primitive.HasMethod owner x m d) (h : v.method x args l = .ok w) :
    w.Is d.ret := by
  have hret := Primitive.ret_of_keys _ (Primitive.mem_of_hasMethod hm) _
    (Primitive.keys_of_answersTo hm.answers)
  rcases of_method h with ⟨hx, hw⟩ | ⟨hx, hw⟩
  · have hkey : asciiLower x ∈ ["toupper", "upper", "tolower", "lower", "substring"] := by
      have hkeys : ∀ names ∈ [upperName, lowerName, .ofName "Substring"], ∀ k ∈ names.keys,
          k ∈ ["toupper", "upper", "tolower", "lower", "substring"] := by decide
      rcases hx with hx | hx | hx <;>
        exact hkeys _ (by simp) _ (Primitive.keys_of_answersTo hx)
    rw [hret.1 hkey]
    exact is_of_kind (congrArg some hw.symm)
  · have hkey : asciiLower x ∈ ["contains"] := by
      have hkeys : (MemberName.ofName "Contains").keys = ["contains"] := by decide
      rw [← hkeys]
      exact Primitive.keys_of_answersTo hx
    rw [hret.2 hkey]
    exact is_of_kind (congrArg some hw.symm)

theorem is_of_mem {items : List Value} (h : (Value.array items).Is (.array ty)) (hv : v ∈ items) :
    v.Is ty := by
  rw [Is] at h
  exact h v hv

/-- An element of an array has the element type, and one of a text is a character. -/
theorem element_is {container : Ty} {types : List Ty} {t : CallTarget} {i : Int64}
    (hv : v.Is container) (ht : Registry.primitive.IndexMeaning container types t)
    (h : v.element i l = .ok w) : w.Is t.ret := by
  cases ht with
  | element harray _ =>
    subst harray
    rcases of_element h with ⟨items, rfl, hw⟩ | ⟨hstr, -⟩
    · exact is_of_mem hv hw
    · cases v <;> cases hstr
      cases hv
  | indexer hm _ _ =>
    obtain ⟨rfl, hret⟩ := Primitive.of_indexer hm
    rw [hret]
    rcases of_element h with ⟨items, rfl, hw⟩ | ⟨-, hchar⟩
    · cases hv
    · exact is_of_kind (congrArg some hchar.symm)

/-- A container with one element replaced by another one keeps its type. -/
theorem setElement_is {container : Ty} {types : List Ty} {t : CallTarget} {i : Int64} {x : Value}
    (hv : v.Is container) (ht : Registry.primitive.IndexMeaning container types t)
    (hx : x.Is t.ret) (h : v.setElement i x l = .ok w) : w.Is container := by
  cases ht with
  | element harray _ =>
    subst harray
    rcases of_setElement h with ⟨items, n, rfl, rfl⟩ | ⟨hstr, -⟩
    · rw [Is]
      intro y hy
      rcases List.mem_or_eq_of_mem_set hy with hy | rfl
      · exact is_of_mem hv hy
      · exact hx
    · cases v <;> cases hstr
      cases hv
  | indexer hm _ _ =>
    obtain ⟨rfl, -⟩ := Primitive.of_indexer hm
    rcases of_setElement h with ⟨items, n, rfl, rfl⟩ | ⟨-, hstr⟩
    · cases hv
    · exact is_of_kind (congrArg some hstr.symm)

end Value

end Scriptlet
