import Scriptlet.Eval.Tree
import Scriptlet.Proofs.Except
import Scriptlet.Ty

/-!
# Values of a type

When a value at run time is one of a static type. Null is a value of every type, and an array has a
type if its items have the element type. Of `void`, of declared types and of functions nothing is
said, since no value stands for them.

The operators of values never look at static types; what they do to kinds is said here once. What
arithmetic gives is of the wider of the two kinds, comparisons give truth values, and a value that
is brought to a kind has that kind.
-/

namespace Scriptlet

/-- The kind of the values of a primitive type. -/
def Ty.kind? : Ty → Option Kind
  | .bool => some .bool
  | .char => some .char
  | .int => some .int
  | .float => some .float
  | .double => some .double
  | .string => some .string
  | _ => none

/-- The wider of two kinds of numbers, a character counting as a whole number. -/
def Kind.wider (a b : Kind) : Kind :=
  if a = .double ∨ b = .double then .double
  else if a = .float ∨ b = .float then .float
  else .int

theorem Kind.wider_ne_array (a b : Kind) : a.wider b ≠ .array := by
  cases a <;> cases b <;> decide

namespace Value

/-- The kind that two operands were brought to. -/
def Promoted.kind : Promoted → Kind
  | .ints .. => .int
  | .floats .. => .float
  | .doubles .. => .double

/-- The value is one of the type. -/
def Is : Value → Ty → Prop
  | .null, _ => True
  | _, .void | _, .named .. | _, .delegate .. => True
  | .array items, .array ty => ∀ v ∈ items, v.Is ty
  | .bool _, .bool | .char _, .char | .int _, .int | .float _, .float | .double _, .double
  | .str _, .string => True
  | _, _ => False

@[simp] theorem is_null (ty : Ty) : Value.null.Is ty := by
  rw [Is]
  trivial

@[simp] theorem is_void (v : Value) : v.Is .void := by
  cases v <;> trivial

theorem is_of_null {v : Value} {ty : Ty} (h : v.Is .null) : v.Is ty := by
  cases v <;> first | exact is_null ty | cases h

theorem is_of_kind {v : Value} {ty : Ty} (h : ty.kind? = some v.kind) : v.Is ty := by
  cases ty <;> cases v <;> first | trivial | cases h

theorem kind_of_is {v : Value} {ty : Ty} {k : Kind} (h : v.Is ty) (hnull : v ≠ .null)
    (hk : ty.kind? = some k) : v.kind = k := by
  cases ty <;> cases hk <;> cases v <;> first | rfl | exact absurd rfl hnull | cases h

/-! ## Conversions -/

theorem kind_of_convertTo {v w : Value} {k : Kind} (h : v.convertTo k = some w) : w.kind = k := by
  rw [convertTo.eq_def] at h
  split at h
  · rename_i hk
    obtain rfl := Option.some.inj h
    exact hk
  · cases k with
    | null => cases h
    | array => cases h
    | bool =>
      obtain rfl := Option.some.inj h
      rfl
    | int =>
      simp only [convertToInt] at h
      split at h <;> simp only [Option.map_eq_some_iff, Option.some.injEq] at h
      · rw [← h]
        rfl
      · rw [← h]
        rfl
      all_goals
        obtain ⟨n, -, rfl⟩ := h
        rfl
    | float =>
      simp only [convertToFloat] at h
      split at h <;>
      · obtain ⟨x, -, rfl⟩ := Option.map_eq_some_iff.mp h
        rfl
    | double =>
      simp only [convertToDouble] at h
      split at h <;>
      · obtain ⟨x, -, rfl⟩ := Option.map_eq_some_iff.mp h
        rfl
    | char =>
      simp only [convertToChar] at h
      split at h
      · obtain ⟨x, -, rfl⟩ := Option.map_eq_some_iff.mp h
        rfl
      · split at h
        · obtain rfl := Option.some.inj h
          rfl
        · cases h
      · cases h
    | string =>
      simp only [convertToString] at h
      split at h
      · cases h
      · obtain rfl := Option.some.inj h
        rfl

/-! ## Operators -/

theorem kind_of_wholeArith {op : BinaryOp} {x y : Int64} {l : Location} {w : Value}
    (h : wholeArith op x y l = .ok w) : w.kind = .int := by
  rw [wholeArith] at h
  split at h
  · cases h
  · split at h
    · cases h
    · split at h
      · obtain rfl := Except.ok.inj h
        rfl
      · cases h

/-- Both operands are numbers or characters, and the common kind is the wider one. -/
theorem of_promote {a b : Value} {p : Promoted} (h : promote a b = some p) :
    a.isNumberLike ∧ b.isNumberLike ∧ p.kind = a.kind.wider b.kind := by
  rw [promote] at h
  split at h
  · cases h
  · rename_i hlike
    have hlike : a.isNumberLike ∧ b.isNumberLike := by simpa using hlike
    refine ⟨hlike.1, hlike.2, ?_⟩
    rw [Kind.wider]
    split at h
    · rename_i hdouble
      rw [if_pos hdouble]
      simp only [Option.bind_eq_bind, Option.pure_def, Option.bind_eq_some_iff] at h
      obtain ⟨x, -, y, -, h⟩ := h
      obtain rfl := Option.some.inj h
      rfl
    · rename_i hdouble
      rw [if_neg hdouble]
      split at h
      · rename_i hfloat
        rw [if_pos hfloat]
        simp only [Option.bind_eq_bind, Option.pure_def, Option.bind_eq_some_iff] at h
        obtain ⟨x, -, y, -, h⟩ := h
        obtain rfl := Option.some.inj h
        rfl
      · rename_i hfloat
        rw [if_neg hfloat]
        simp only [Option.bind_eq_bind, Option.pure_def, Option.bind_eq_some_iff] at h
        obtain ⟨x, -, y, -, h⟩ := h
        obtain rfl := Option.some.inj h
        rfl

/-- Arithmetic joins texts, or it is on numbers and characters and gives the wider kind. -/
theorem of_arith {op : BinaryOp} {a b w : Value} {l : Location} (h : arith op a b l = .ok w) :
    (op = .add ∧ (a.kind = .string ∨ b.kind = .string) ∧ w.kind = .string) ∨
      (a.isNumberLike ∧ b.isNumberLike ∧ w.kind = a.kind.wider b.kind) := by
  rw [arith] at h
  split at h
  · rename_i hjoin
    obtain rfl := Except.ok.inj h
    exact .inl ⟨hjoin.1, hjoin.2, rfl⟩
  · split at h
    · rename_i x y hp
      obtain ⟨ha, hb, hkind⟩ := of_promote hp
      exact .inr ⟨ha, hb, (kind_of_wholeArith h).trans hkind⟩
    · rename_i x y hp
      obtain ⟨ha, hb, hkind⟩ := of_promote hp
      obtain rfl := Except.ok.inj h
      exact .inr ⟨ha, hb, hkind⟩
    · rename_i x y hp
      obtain ⟨ha, hb, hkind⟩ := of_promote hp
      obtain rfl := Except.ok.inj h
      exact .inr ⟨ha, hb, hkind⟩
    · cases h

theorem kind_of_ordered {op : BinaryOp} {a b w : Value} {l : Location}
    (h : ordered op a b l = .ok w) : w.kind = .bool := by
  rw [ordered] at h
  split at h
  · obtain rfl := Except.ok.inj h
    rfl
  · obtain rfl := Except.ok.inj h
    rfl
  · cases h

/-- Operators on bits are on two truth values or on whole numbers and characters. -/
theorem of_bitwise {op : BinaryOp} {a b w : Value} {l : Location} (h : bitwise op a b l = .ok w) :
    (a.kind = .bool ∧ b.kind = .bool ∧ w.kind = .bool) ∨
      (a.isIntegral ∧ b.isIntegral ∧ w.kind = .int) := by
  rw [bitwise.eq_def] at h
  split at h
  · obtain rfl := Except.ok.inj h
    exact .inl ⟨rfl, rfl, rfl⟩
  · split at h
    · rename_i x y hxy
      obtain rfl := Except.ok.inj h
      rw [integrals?] at hxy
      split at hxy
      · rename_i hab
        rw [Bool.and_eq_true] at hab
        exact .inr ⟨hab.1, hab.2, rfl⟩
      · cases hxy
    · cases h

theorem kind_of_shift {op : BinaryOp} {a b w : Value} {l : Location} (h : shift op a b l = .ok w) :
    w.kind = .int := by
  rw [shift] at h
  split at h
  · split at h
    · obtain rfl := Except.ok.inj h
      rfl
    · cases h
  · cases h

/-- An operator on one number keeps the kind. -/
theorem kind_of_unary {op : UnaryOp} {v w : Value} {l : Location} (h : v.unary op l = .ok w)
    (hv : v.kind.isNumeric) (hop : op ≠ .not) : w.kind = v.kind := by
  have harith : ∀ op', arith op' v (.int 1) l = .ok w → w.kind = v.kind := by
    intro op' h
    rcases of_arith h with ⟨-, hstr | hstr, -⟩ | ⟨-, -, hkind⟩
    · rw [hstr] at hv
      cases hv
    · cases hstr
    · rw [hkind]
      cases v <;> first | rfl | cases hv
  -- a step is the binary operator with one, which keeps the kind of a number
  have hstep : ∀ up, v.step up l = .ok w → w.kind = v.kind := by
    intro up h
    have hbinary : binary (if up then .add else .sub) v (.int 1) l = .ok w := by
      cases v with
      | int n => exact h
      | float x => exact h
      | double x => exact h
      | _ => cases hv
    cases up with
    | true => exact harith .add hbinary
    | false => exact harith .sub hbinary
  cases op with
  | group =>
    obtain rfl := Except.ok.inj h
    rfl
  | not => exact absurd rfl hop
  | preInc => exact hstep true h
  | postInc => exact hstep true h
  | preDec => exact hstep false h
  | postDec => exact hstep false h
  | neg =>
    cases v with
    | int n =>
      simp only [unary] at h
      split at h
      · obtain rfl := Except.ok.inj h
        rfl
      · cases h
    | float x =>
      obtain rfl := Except.ok.inj h
      rfl
    | double x =>
      obtain rfl := Except.ok.inj h
      rfl
    | _ => cases hv
  | plus =>
    cases v with
    | int n =>
      obtain rfl := Except.ok.inj h
      rfl
    | float x =>
      obtain rfl := Except.ok.inj h
      rfl
    | double x =>
      obtain rfl := Except.ok.inj h
      rfl
    | _ => cases hv

/-! ## Methods and elements -/

theorem kind_of_substring {s : String} {start count : Int64} {l : Location} {w : Value}
    (h : substring s start count l = .ok w) : w.kind = .string := by
  simp only [substring] at h
  obtain ⟨first, -, h⟩ := of_bind_ok h
  obtain ⟨-, rfl⟩ := of_ite_ok h
  rfl

/-- The methods of texts by their names, and what they give. -/
theorem of_method {v w : Value} {x : String} {args : List Value} {l : Location}
    (h : v.method x args l = .ok w) :
    ((upperName.answersTo x ∨ lowerName.answersTo x ∨ (MemberName.ofName "Substring").answersTo x) ∧
        w.kind = .string) ∨
      (MemberName.ofName "Contains").answersTo x ∧ w.kind = .bool := by
  have hnamed : ∀ {name : String}, (x == name) = true → (MemberName.ofName name).answersTo x := by
    intro name hx
    rw [beq_iff_eq.mp hx, MemberName.answersTo, MemberName.ofName, beq_self_eq_true, Bool.true_or]
  have hmissing : ∀ {e : EvalError} {e' : EvalError},
      (if isTextMethod x then Except.error e else .error e') ≠ .ok w := by
    intro e e'
    split <;> nofun
  cases v with
  | str s =>
    simp only [method] at h
    split at h
    · split at h
      · rename_i hx
        obtain rfl := Except.ok.inj h
        exact .inl ⟨.inl hx, rfl⟩
      · split at h
        · rename_i hx
          obtain rfl := Except.ok.inj h
          exact .inl ⟨.inr (.inl hx), rfl⟩
        · exact absurd h hmissing
    · split at h
      · rename_i hx
        obtain rfl := Except.ok.inj h
        exact .inr ⟨hnamed hx, rfl⟩
      · exact absurd h hmissing
    · rename_i start count
      split at h
      · rename_i hx
        obtain ⟨i, -, h⟩ := of_bind_ok h
        obtain ⟨j, -, h⟩ := of_bind_ok h
        exact .inl ⟨.inr (.inr (hnamed hx)), kind_of_substring h⟩
      · exact absurd h hmissing
    · exact absurd h hmissing
  | _ => cases h

/-- An element is an item of an array or a character of a text. -/
theorem of_element {v w : Value} {i : Int64} {l : Location} (h : v.element i l = .ok w) :
    (∃ items, v = .array items ∧ w ∈ items) ∨ v.kind = .string ∧ w.kind = .char := by
  cases v with
  | array items =>
    obtain ⟨n, -, h⟩ := of_bind_ok h
    split at h
    · rename_i item hitem
      obtain rfl := Except.ok.inj h
      exact .inl ⟨items, rfl, List.mem_of_getElem? hitem⟩
    · cases h
  | str s =>
    obtain ⟨n, -, h⟩ := of_bind_ok h
    split at h
    · obtain rfl := Except.ok.inj h
      exact .inr ⟨rfl, rfl⟩
    · cases h
  | _ => cases h

/-- An element is replaced among the items of an array or the characters of a text. -/
theorem of_setElement {v w x : Value} {i : Int64} {l : Location}
    (h : v.setElement i x l = .ok w) :
    (∃ items n, v = .array items ∧ w = .array (items.set n x)) ∨
      v.kind = .string ∧ w.kind = .string := by
  cases v with
  | array items =>
    obtain ⟨n, -, h⟩ := of_bind_ok h
    exact .inl ⟨items, n, rfl, (Except.ok.inj h).symm⟩
  | str s =>
    cases x with
    | char c =>
      obtain ⟨n, -, h⟩ := of_bind_ok h
      obtain rfl := Except.ok.inj h
      exact .inr ⟨rfl, rfl⟩
    | _ => cases h
  | _ => cases h

end Value

end Scriptlet
