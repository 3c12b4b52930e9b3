import Scriptlet.Proofs.Binary.Rounding
import Scriptlet.Proofs.Value.Types

/-!
# Canonical values

The numbers of a floating format have one significand and one exponent each, the ones that fit the
format. What a text writes is such a number, and operators make such numbers of such numbers, since
whatever they compute is rounded in the end. An array is made of values again, so what is kept along
a run is that all numbers in a value are canonical, at any depth.
-/

namespace Scriptlet.Value

/-- A floating number is canonical; nothing is asked of other values. -/
def Canonical : Value → Prop
  | .float x => x.Canonical
  | .double x => x.Canonical
  | _ => True

instance : DecidablePred Canonical
  | .float x => inferInstanceAs (Decidable x.Canonical)
  | .double x => inferInstanceAs (Decidable x.Canonical)
  | .null | .bool _ | .int _ | .char _ | .str _ | .array _ => isTrue trivial

theorem canonical_of_kind {v : Value} (h : (v.kind == .float || v.kind == .double) = false) :
    v.Canonical := by
  cases v <;> trivial

/-- Whole numbers and characters stay whole, all other pairs become doubles, and singles by rounding
these once more. -/
theorem operands_of_promote {a b : Value} {p : Promoted} (h : promote a b = some p) :
    (∃ x y, p = .ints x y) ∨ ∃ x y, a.toDouble? = some x ∧ b.toDouble? = some y ∧
      (p = .doubles x y ∨ p = .floats (x.convert .single) (y.convert .single)) := by
  rw [promote] at h
  repeat' split at h
  all_goals simp only [Option.bind_eq_bind, Option.bind_eq_some_iff, Option.pure_def,
    Option.some.injEq, reduceCtorEq] at h
  · obtain ⟨x, hx, y, hy, rfl⟩ := h
    exact .inr ⟨x, y, hx, hy, .inl rfl⟩
  · obtain ⟨x, hx, y, hy, rfl⟩ := h
    exact .inr ⟨x, y, hx, hy, .inr rfl⟩
  · obtain ⟨x, -, y, -, rfl⟩ := h
    exact .inl ⟨x, y, rfl⟩

theorem canonical_binaryArith {F : Format} (hF : Binary.Proper F) (op : BinaryOp)
    {x : Binary F} (hx : x.Canonical) (y : Binary F) :
    (binaryArith op x y).Canonical := by
  cases op with
  | add => exact Binary.canonical_add hF x y
  | sub => exact Binary.canonical_add hF x y.neg
  | mul => exact Binary.canonical_mul hF x y
  | div => exact Binary.canonical_div hF x y
  | _ => exact Binary.canonical_rem hF hx y

theorem canonical_of_toDouble? {a : Value} {x : Double} (ha : a.Canonical)
    (h : a.toDouble? = some x) : x.Canonical := by
  cases a with
  | int n =>
    obtain rfl := Option.some.inj h
    exact Binary.canonical_ofInt Binary.double_proper _
  | char c =>
    obtain rfl := Option.some.inj h
    exact Binary.canonical_ofInt Binary.double_proper _
  | float y =>
    obtain rfl := Option.some.inj h
    exact Binary.canonical_convert Binary.double_proper y
  | double y =>
    obtain rfl := Option.some.inj h
    exact ha
  | _ => contradiction

/-- Arithmetic on canonical numbers makes canonical numbers. -/
theorem canonical_arith {op : BinaryOp} {a b v : Value} {l : Location} (ha : a.Canonical)
    (h : arith op a b l = .ok v) : v.Canonical := by
  rw [arith] at h
  split at h
  · obtain rfl := Except.ok.inj h
    trivial
  cases hp : promote a b with
  | none => simp [hp] at h
  | some p =>
    rw [hp] at h
    rcases operands_of_promote hp with ⟨x, y, rfl⟩ | ⟨x, y, hx, -, rfl | rfl⟩
    · exact canonical_of_kind (kind_of_wholeArith h ▸ rfl)
    · obtain rfl := Except.ok.inj h
      exact canonical_binaryArith Binary.double_proper op (canonical_of_toDouble? ha hx) y
    · obtain rfl := Except.ok.inj h
      exact canonical_binaryArith Binary.single_proper op
        (Binary.canonical_convert Binary.single_proper x) _

/-! ## Numbers in arrays -/

/-- All numbers in the value are canonical, also those in arrays, at any depth. -/
inductive AllCanonical : Value → Prop where
  | null : AllCanonical .null
  | bool (b : Bool) : AllCanonical (.bool b)
  | int (n : Int64) : AllCanonical (.int n)
  | float {x : Single} (h : x.Canonical) : AllCanonical (.float x)
  | double {x : Double} (h : x.Canonical) : AllCanonical (.double x)
  | char (c : Char) : AllCanonical (.char c)
  | str (s : String) : AllCanonical (.str s)
  | array {items : List Value} (h : ∀ v ∈ items, AllCanonical v) : AllCanonical (.array items)

theorem AllCanonical.canonical {v : Value} (h : v.AllCanonical) : v.Canonical := by
  cases h with
  | float h | double h => exact h
  | _ => trivial

theorem AllCanonical.of_mem {items : List Value} {v : Value} (h : (Value.array items).AllCanonical)
    (hv : v ∈ items) : v.AllCanonical := by
  cases h with
  | array h => exact h v hv

/-- Only an array has other values inside. -/
theorem Canonical.allCanonical {v : Value} (h : v.Canonical) (hkind : v.kind ≠ .array) :
    v.AllCanonical := by
  cases v with
  | null => exact .null
  | bool b => exact .bool b
  | int n => exact .int n
  | float x => exact .float h
  | double x => exact .double h
  | char c => exact .char c
  | str s => exact .str s
  | array items => exact absurd rfl hkind

/-- There is no number in a value of another kind. -/
theorem allCanonical_of_kind {v : Value} {k : Kind} (h : v.kind = k)
    (hk : k ∉ [Kind.float, .double, .array]) : v.AllCanonical := by
  have hcanonical : v.Canonical := by
    subst h
    cases v with
    | float _ | double _ => exact absurd (by simp [kind]) hk
    | _ => trivial
  refine hcanonical.allCanonical fun harray ↦ hk ?_
  rw [← h, harray]
  decide

/-! ## What a run makes of values -/

theorem allCanonical_binary {op : BinaryOp} {a b v : Value} {l : Location} (ha : a.AllCanonical)
    (h : binary op a b l = .ok v) : v.AllCanonical := by
  cases op with
  | add | sub | mul | div | mod =>
    refine (canonical_arith ha.canonical h).allCanonical ?_
    rcases of_arith h with ⟨-, -, hkind⟩ | ⟨-, -, hkind⟩
    · exact hkind ▸ by decide
    · exact hkind ▸ Kind.wider_ne_array _ _
  | eq | ne | and | or =>
    obtain rfl := Except.ok.inj h
    exact .bool _
  | lt | le | gt | ge => exact allCanonical_of_kind (kind_of_ordered h) (by decide)
  | bitAnd | bitOr | bitXor =>
    obtain ⟨-, -, hkind⟩ | ⟨-, -, hkind⟩ := of_bitwise h
    · exact allCanonical_of_kind hkind (by decide)
    · exact allCanonical_of_kind hkind (by decide)
  | shl | shr => exact allCanonical_of_kind (kind_of_shift h) (by decide)

theorem allCanonical_unary {op : UnaryOp} {v w : Value} {l : Location} (hv : v.AllCanonical)
    (h : unary op v l = .ok w) : w.AllCanonical := by
  have hstep : ∀ up, step up v l = .ok w → w.AllCanonical := by
    intro up h
    cases v with
    | int _ | float _ | double _ => exact allCanonical_binary hv h
    | char c =>
      rw [step] at h
      rcases dite_eq_iff.mp h with ⟨hvalid, hchar⟩ | ⟨hvalid, hrefused⟩
      · exact Except.ok.inj hchar ▸ .char _
      · cases hrefused
    | _ => contradiction
  cases op with
  | group =>
    obtain rfl := Except.ok.inj h
    exact hv
  | neg =>
    cases v with
    | int n =>
      simp only [unary] at h
      split at h
      · obtain rfl := Except.ok.inj h
        exact .int _
      · contradiction
    | float x =>
      obtain rfl := Except.ok.inj h
      exact .float (Binary.canonical_neg hv.canonical)
    | double x =>
      obtain rfl := Except.ok.inj h
      exact .double (Binary.canonical_neg hv.canonical)
    | char c =>
      obtain rfl := Except.ok.inj h
      exact .int _
    | _ => contradiction
  | plus =>
    cases v with
    | int _ | float _ | double _ =>
      obtain rfl := Except.ok.inj h
      exact hv
    | char _ =>
      obtain rfl := Except.ok.inj h
      exact .int _
    | _ => contradiction
  | not =>
    obtain rfl := Except.ok.inj h
    exact .bool _
  | preInc | postInc => exact hstep true h
  | preDec | postDec => exact hstep false h

/-- A conversion to a single or a double reads a text or rounds a number. -/
theorem allCanonical_convertTo {v w : Value} {k : Kind} (hv : v.AllCanonical)
    (h : v.convertTo k = some w) : w.AllCanonical := by
  have hkind := kind_of_convertTo h
  rw [convertTo.eq_def] at h
  split at h
  · obtain rfl := Option.some.inj h
    exact hv
  · cases k with
    | float =>
      simp only [convertToFloat] at h
      split at h
      · obtain ⟨x, hx, rfl⟩ := Option.map_eq_some_iff.mp h
        exact .float (Binary.canonical_ofText? Binary.single_proper hx)
      · obtain ⟨x, -, rfl⟩ := Option.map_eq_some_iff.mp h
        exact .float (Binary.canonical_convert Binary.single_proper x)
    | double =>
      simp only [convertToDouble] at h
      split at h
      · obtain ⟨x, hx, rfl⟩ := Option.map_eq_some_iff.mp h
        exact .double (Binary.canonical_ofText? Binary.double_proper hx)
      · obtain ⟨x, hx, rfl⟩ := Option.map_eq_some_iff.mp h
        exact .double (canonical_of_toDouble? hv.canonical hx)
    | null | array => cases h
    | bool | int | char | string => exact allCanonical_of_kind hkind (by decide)

theorem allCanonical_element {v w : Value} {i : Int64} {l : Location} (hv : v.AllCanonical)
    (h : v.element i l = .ok w) : w.AllCanonical := by
  rcases of_element h with ⟨items, rfl, hw⟩ | ⟨-, hkind⟩
  · exact hv.of_mem hw
  · exact allCanonical_of_kind hkind (by decide)

theorem allCanonical_setElement {v w x : Value} {i : Int64} {l : Location} (hv : v.AllCanonical)
    (hx : x.AllCanonical) (h : v.setElement i x l = .ok w) : w.AllCanonical := by
  rcases of_setElement h with ⟨items, n, rfl, rfl⟩ | ⟨-, hkind⟩
  · refine .array fun y hy ↦ ?_
    rcases List.mem_or_eq_of_mem_set hy with hy | rfl
    · exact hv.of_mem hy
    · exact hx
  · exact allCanonical_of_kind hkind (by decide)

theorem allCanonical_member {v w : Value} {x : String} {l : Location} (h : v.member x l = .ok w) :
    w.AllCanonical := by
  rw [member] at h
  split at h
  · split at h
    · obtain rfl := Except.ok.inj h
      exact .int _
    · cases h
  · cases h

theorem allCanonical_method {v w : Value} {x : String} {args : List Value} {l : Location}
    (h : v.method x args l = .ok w) : w.AllCanonical := by
  rcases of_method h with ⟨-, hkind⟩ | ⟨-, hkind⟩
  · exact allCanonical_of_kind hkind (by decide)
  · exact allCanonical_of_kind hkind (by decide)

end Scriptlet.Value
