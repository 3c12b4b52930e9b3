import Scriptlet.Eval.Builtin
import Scriptlet.Value.Member

/-!
# Failures of values and of built-in functions

That calls nest too deep is found out when a call is made, and nowhere else: no operation on values
and no built-in function fails for that reason.
-/

namespace Scriptlet

/-- Any error but that calls nest too deep. -/
def EvalError.Ordinary (e : EvalError) : Prop := ∀ limit l, e ≠ .recursionLimit limit l

/-- The result is not that calls nest too deep. -/
def Ordinary {α : Type} (r : Except EvalError α) : Prop := ∀ e, r = .error e → e.Ordinary

section

variable {α β : Type}

theorem ordinary_ok (a : α) : Ordinary (.ok a) := fun _ h ↦ nomatch h

theorem ordinary_error {e : EvalError} (he : e.Ordinary) : Ordinary (α := α) (.error e) := by
  rintro _ ⟨⟩
  exact he

theorem Ordinary.bind {r : Except EvalError α} {k : α → Except EvalError β} (hr : Ordinary r)
    (hk : ∀ a, Ordinary (k a)) : Ordinary (r >>= k) := by
  cases r with
  | ok a => exact hk a
  | error e => exact ordinary_error (hr e rfl)

theorem Ordinary.dite {p : Prop} [Decidable p] {r : p → Except EvalError α}
    {r' : ¬p → Except EvalError α} (hr : ∀ h, Ordinary (r h)) (hr' : ∀ h, Ordinary (r' h)) :
    Ordinary (if h : p then r h else r' h) := by
  by_cases hp : p
  · rw [dif_pos hp]
    exact hr hp
  · rw [dif_neg hp]
    exact hr' hp

theorem Ordinary.ite {p : Prop} [Decidable p] {r r' : Except EvalError α} (hr : Ordinary r)
    (hr' : Ordinary r') : Ordinary (if p then r else r') :=
  .dite (fun _ ↦ hr) fun _ ↦ hr'

end

namespace Value

theorem ordinary_ofOperands {α : Type} (op : String) (vs : List Value) (l : Location) :
    Ordinary (α := α) (.error (.ofOperands op vs l)) :=
  ordinary_error nofun

/-! ## Operators -/

theorem ordinary_wholeArith (op : BinaryOp) (a b : Int64) (l : Location) :
    Ordinary (wholeArith op a b l) := by
  refine .ite (ordinary_error nofun) (.ite (ordinary_error nofun) ?_)
  cases Whole.ofInt? (exactWhole op a b) with
  | some n => exact ordinary_ok _
  | none => exact ordinary_error nofun

theorem ordinary_arith (op : BinaryOp) (a b : Value) (l : Location) :
    Ordinary (arith op a b l) := by
  refine .ite (ordinary_ok _) ?_
  cases promote a b with
  | none => exact ordinary_ofOperands _ _ l
  | some pair =>
    cases pair with
    | ints x y => exact ordinary_wholeArith op x y l
    | floats x y => exact ordinary_ok _
    | doubles x y => exact ordinary_ok _

theorem ordinary_ordered (op : BinaryOp) (a b : Value) (l : Location) :
    Ordinary (ordered op a b l) := by
  rw [ordered]
  rcases order? a b with _ | (_ | o)
  · exact ordinary_ofOperands _ _ l
  · exact ordinary_ok _
  · exact ordinary_ok _

theorem ordinary_bitwise (op : BinaryOp) (a b : Value) (l : Location) :
    Ordinary (bitwise op a b l) := by
  rw [bitwise.eq_def]
  split
  · exact ordinary_ok _
  · split
    · exact ordinary_ok _
    · exact ordinary_ofOperands _ _ l

theorem ordinary_shift (op : BinaryOp) (a b : Value) (l : Location) :
    Ordinary (shift op a b l) := by
  rw [shift]
  cases integrals? a b with
  | none => exact ordinary_ofOperands _ _ l
  | some pair => exact .ite (ordinary_ok _) (ordinary_error nofun)

theorem ordinary_binary (op : BinaryOp) (a b : Value) (l : Location) :
    Ordinary (binary op a b l) := by
  cases op with
  | add | sub | mul | div | mod => exact ordinary_arith _ a b l
  | lt | le | gt | ge => exact ordinary_ordered _ a b l
  | bitAnd | bitOr | bitXor => exact ordinary_bitwise _ a b l
  | shl | shr => exact ordinary_shift _ a b l
  | eq | ne | and | or => exact ordinary_ok _

theorem ordinary_step (up : Bool) (v : Value) (l : Location) : Ordinary (step up v l) := by
  cases v with
  | int | float | double => exact ordinary_binary _ _ _ l
  | char c =>
    rw [step]
    exact .dite (fun _ ↦ ordinary_ok _) fun _ ↦ ordinary_ofOperands _ _ l
  | null | bool | str | array => exact ordinary_ofOperands _ _ l

theorem ordinary_unary (op : UnaryOp) (v : Value) (l : Location) : Ordinary (unary op v l) := by
  rw [unary.eq_def]
  split
  case h_2 =>
    split
    · exact ordinary_ok _
    · exact ordinary_error nofun
  case h_11 | h_12 | h_13 | h_14 => exact ordinary_step _ _ l
  case h_15 => exact ordinary_ofOperands _ _ l
  all_goals exact ordinary_ok _

/-! ## Members, elements and methods -/

theorem ordinary_member (v : Value) (name : String) (l : Location) :
    Ordinary (v.member name l) := by
  rw [member]
  cases v.length? with
  | none => exact ordinary_error nofun
  | some n => exact .ite (ordinary_ok _) (ordinary_error nofun)

theorem ordinary_slot (length : Nat) (i : Int64) (l : Location) : Ordinary (slot length i l) :=
  .ite (ordinary_ok _) (ordinary_error nofun)

theorem ordinary_element (v : Value) (i : Int64) (l : Location) : Ordinary (v.element i l) := by
  cases v with
  | array items =>
    refine (ordinary_slot _ i l).bind fun j ↦ ?_
    cases items[j]? with
    | some item => exact ordinary_ok _
    | none => exact ordinary_error nofun
  | str s =>
    refine (ordinary_slot _ i l).bind fun j ↦ ?_
    cases s.toList[j]? with
    | some c => exact ordinary_ok _
    | none => exact ordinary_error nofun
  | null | bool | int | float | double | char => exact ordinary_ofOperands _ _ l

theorem ordinary_setElement (container : Value) (i : Int64) (v : Value) (l : Location) :
    Ordinary (container.setElement i v l) := by
  cases container with
  | array items => exact (ordinary_slot _ i l).bind fun _ ↦ ordinary_ok _
  | str s =>
    cases v with
    | char c => exact (ordinary_slot _ i l).bind fun _ ↦ ordinary_ok _
    | _ => exact ordinary_ofOperands _ _ l
  | null | bool | int | float | double | char => exact ordinary_ofOperands _ _ l

theorem ordinary_intArg (name : String) (v : Value) (l : Location) :
    Ordinary (intArg name v l) := by
  cases v with
  | int | char => exact ordinary_ok _
  | _ => exact ordinary_ofOperands _ _ l

theorem ordinary_method (v : Value) (name : String) (args : List Value) (l : Location) :
    Ordinary (v.method name args l) := by
  cases v with
  | str s =>
    have hmissing : Ordinary (α := Value) (if isTextMethod name then
        .error (.missingPart name args.length l)
      else .error (.undefinedFunction ("string." ++ name) l)) :=
      .ite (ordinary_error nofun) (ordinary_error nofun)
    rw [method.eq_def]
    simp only
    split
    · exact .ite (ordinary_ok _) (.ite (ordinary_ok _) hmissing)
    · exact .ite (ordinary_ok _) hmissing
    · refine .ite ?_ hmissing
      refine (ordinary_intArg _ _ l).bind fun _ ↦ (ordinary_intArg _ _ l).bind fun _ ↦ ?_
      exact (ordinary_slot _ _ l).bind fun _ ↦ .ite (ordinary_ok _) (ordinary_error nofun)
    · exact hmissing
  | null | bool | int | float | double | char | array => exact ordinary_error nofun

end Value

/-! ## Built-in functions -/

namespace Builtin

theorem ordinary_len (v : Value) (l : Location) : Ordinary (len v l) := by
  cases v with
  | str | array => exact ordinary_ok _
  | _ => exact Value.ordinary_ofOperands _ _ l

theorem ordinary_abs (v : Value) (l : Location) : Ordinary (abs v l) := by
  cases v with
  | int n =>
    rw [abs]
    split
    · exact ordinary_ok _
    · exact ordinary_error nofun
  | float | double => exact ordinary_ok _
  | _ => exact Value.ordinary_ofOperands _ _ l

theorem ordinary_extremum (name : String) (least : Bool) (best : Value) (l : Location)
    (vs : List Value) : Ordinary (extremum name least best l vs) := by
  induction vs generalizing best with
  | nil => exact ordinary_ok _
  | cons v vs ih =>
    refine .ite (.ite ?_ ?_) (Value.ordinary_ofOperands _ _ l)
    · exact (Value.ordinary_binary _ v best l).bind fun _ ↦ ih _
    · exact (Value.ordinary_binary _ best v l).bind fun _ ↦ ih _

end Builtin

end Scriptlet
