import Scriptlet.Proofs.Value.Path
import Scriptlet.Proofs.Whole
import Scriptlet.Value.Operator

/-!
# Exact operators

Each operator on whole numbers has a result among the integers without bounds: the sum, the quotient
toward zero, the bits of two's complement, the floor of a quotient by a power of two. What the
operator answers is that result or a refusal, and which of the two it is depends on the operator:
three of them refuse what does not fit in 64 bits, division refuses zero and the one quotient that
does not fit, the shifts refuse amounts that are no number of a bit. Only the shift to the left
answers with anything else, namely the result reduced to 64 bits. Characters count as their code
points.

The two tables `BinaryOp.result?` and `BinaryOp.Overflows` say what is to be computed and what is to
be refused, without the words; the rest of the module shows that the three ways in which an operator
can end follow them.
-/

namespace Scriptlet

/-! ## What is computed and what is refused -/

/-- The result of an operator on two whole numbers among the integers without bounds. A quotient
goes toward zero, and the remainder with it; bits are those of two's complement; a shift to the
right is the floor of a quotient. There is none where nothing can be divided or shifted, nor for
operators that are not on whole numbers. -/
def BinaryOp.result? (op : BinaryOp) (x y : Int) : Option Int :=
  match op with
  | .add => some (x + y)
  | .sub => some (x - y)
  | .mul => some (x * y)
  | .div => if y = 0 then none else some (x.tdiv y)
  | .mod => if y = 0 then none else some (x.tmod y)
  | .bitAnd => some (x.land y)
  | .bitOr => some (x.lor y)
  | .bitXor => some (x.xor y)
  | .shl => if y < 0 then none else some (x * 2 ^ y.toNat)
  | .shr => if y < 0 then none else some (x.fdiv (2 ^ y.toNat))
  | _ => none

/-- The operands that an operator refuses as an overflow. The remainder is refused together with the
quotient. -/
def BinaryOp.Overflows (op : BinaryOp) (x y : Int) : Prop :=
  match op with
  | .add => ¬Whole.Fits (x + y)
  | .sub => ¬Whole.Fits (x - y)
  | .mul => ¬Whole.Fits (x * y)
  | .div | .mod => x = -2 ^ 63 ∧ y = -1
  | .shl | .shr => ¬(0 ≤ y ∧ y ≤ 63)
  | _ => False

namespace Value

/-- The value is a whole number or a character, and this is the number that it counts as. -/
inductive Counts : Value → Int64 → Prop
  | int (n : Int64) : Counts (.int n) n
  | char {c : Char} {n : Int64} (h : n.toInt = c.toNat) : Counts (.char c) n

variable {op : BinaryOp} {a b : Value} {m n : Int64} {l : Location}

/-- An operator on operands that count as `m` and `n` answers with the exact result or refuses. -/
structure ExactOrRefused (op : BinaryOp) (a b : Value) (m n : Int64) (l : Location) : Prop where
  divisionByZero : binary op a b l = .error (.divisionByZero l) ↔
    (op = .div ∨ op = .mod) ∧ n.toInt = 0
  overflow : binary op a b l = .error (.integerOverflow (.binary op m n) l) ↔
    op.Overflows m.toInt n.toInt
  exact : ∀ z, op.result? m.toInt n.toInt = some z → ¬op.Overflows m.toInt n.toInt →
    ∃ k, binary op a b l = .ok (.int k) ∧ k.toInt = if op = .shl then z.bmod (2 ^ 64) else z
  /-- Whatever whole number is answered, it is the exact result, unless bits were shifted out to the
  left. -/
  lossless : ∀ k, op ≠ .shl → binary op a b l = .ok (.int k) →
    op.result? m.toInt n.toInt = some k.toInt

/-! ### The answers one by one -/

theorem ExactOrRefused.of_ok {k : Int64} {z : Int} (h : binary op a b l = .ok (.int k))
    (hz : op.result? m.toInt n.toInt = some z) (hfits : ¬op.Overflows m.toInt n.toInt)
    (hk : k.toInt = if op = .shl then z.bmod (2 ^ 64) else z) : ExactOrRefused op a b m n l where
  divisionByZero := by
    refine iff_of_false (by simp [h]) ?_
    rintro ⟨rfl | rfl, hzero⟩ <;> simp [BinaryOp.result?, hzero] at hz
  overflow := iff_of_false (by simp [h]) hfits
  exact z' hz' _ := by
    obtain rfl := Option.some.inj (hz.symm.trans hz')
    exact ⟨k, h, hk⟩
  lossless k' hop hk' := by
    obtain rfl : k = k' := by simpa [h] using hk'
    rw [hz, hk, if_neg hop]

theorem ExactOrRefused.of_divisionByZero (h : binary op a b l = .error (.divisionByZero l))
    (hop : op = .div ∨ op = .mod) (hzero : n.toInt = 0) : ExactOrRefused op a b m n l where
  divisionByZero := iff_of_true h ⟨hop, hzero⟩
  overflow := by
    refine iff_of_false (by simp [h]) ?_
    rcases hop with rfl | rfl <;> simp [BinaryOp.Overflows, hzero]
  exact z hz := by rcases hop with rfl | rfl <;> simp [BinaryOp.result?, hzero] at hz
  lossless k _ hk := by simp [h] at hk

theorem ExactOrRefused.of_overflow
    (h : binary op a b l = .error (.integerOverflow (.binary op m n) l))
    (hoverflow : op.Overflows m.toInt n.toInt) : ExactOrRefused op a b m n l where
  divisionByZero := by
    refine iff_of_false (by simp [h]) ?_
    rintro ⟨rfl | rfl, hzero⟩ <;> simp [BinaryOp.Overflows, hzero] at hoverflow
  overflow := iff_of_true h hoverflow
  exact z _ hfits := absurd hoverflow hfits
  lossless k _ hk := by simp [h] at hk

/-- An operator that answers with a truth value is not on whole numbers. -/
theorem ExactOrRefused.of_bool {t : Bool} (h : binary op a b l = .ok (.bool t))
    (hdiv : ¬(op = .div ∨ op = .mod)) (hoverflow : ¬op.Overflows m.toInt n.toInt)
    (hexact : op.result? m.toInt n.toInt = none) : ExactOrRefused op a b m n l where
  divisionByZero := iff_of_false (by simp [h]) fun hop ↦ hdiv hop.1
  overflow := iff_of_false (by simp [h]) hoverflow
  exact z hz := by simp [hexact] at hz
  lossless k _ hk := by simp [h] at hk

/-! ### Operands -/

theorem Counts.toInt? (h : a.Counts m) : a.toInt? = some m := by
  cases h with
  | int => rfl
  | char h => exact congrArg some (Int64.toInt_inj.mp ((toInt_codeOf _).trans h.symm))

theorem Counts.kind (h : a.Counts m) : a.kind = .int ∨ a.kind = .char := by
  cases h with
  | int => exact .inl rfl
  | char => exact .inr rfl

theorem Counts.integrals? (ha : a.Counts m) (hb : b.Counts n) : integrals? a b = some (m, n) := by
  have hintegral : a.isIntegral && b.isIntegral := by
    cases ha <;> cases hb <;> rfl
  rw [Value.integrals?, if_pos hintegral, ha.toInt?, hb.toInt?]
  rfl

theorem Counts.promote (ha : a.Counts m) (hb : b.Counts n) : promote a b = some (.ints m n) := by
  have hlike : (!a.isNumberLike || !b.isNumberLike) = false := by
    cases ha <;> cases hb <;> rfl
  rw [Value.promote, hlike, ha.toInt?, hb.toInt?]
  rcases ha.kind with hka | hka <;> rcases hb.kind with hkb | hkb <;> simp [hka, hkb]

theorem Counts.arith (ha : a.Counts m) (hb : b.Counts n) :
    arith op a b l = wholeArith op m n l := by
  have hjoin : ¬(op = .add ∧ (a.kind = .string ∨ b.kind = .string)) := by
    rcases ha.kind with hka | hka <;> rcases hb.kind with hkb | hkb <;> simp [hka, hkb]
  rw [Value.arith, if_neg hjoin, ha.promote hb]

/-! ### Arithmetic -/

/-- Arithmetic that divides by no zero answers with the exact result where that fits. -/
theorem exactOrRefused_arith (h : binary op a b l = wholeArith op m n l)
    (hexact : op.result? m.toInt n.toInt = some (exactWhole op m n)) (hshl : op ≠ .shl)
    (hoverflow : op.Overflows m.toInt n.toInt ↔
      refusesRemainder op m n = true ∨ ¬Whole.Fits (exactWhole op m n)) :
    ExactOrRefused op a b m n l := by
  have hzero : ¬((op = .div ∨ op = .mod) ∧ n = 0) := by
    rintro ⟨rfl | rfl, rfl⟩ <;> simp [BinaryOp.result?] at hexact
  rw [wholeArith, if_neg hzero] at h
  by_cases hrefused : refusesRemainder op m n = true
  · rw [if_pos hrefused] at h
    exact .of_overflow h (hoverflow.mpr (.inl hrefused))
  rw [if_neg hrefused] at h
  by_cases hfits : Whole.Fits (exactWhole op m n)
  · obtain ⟨k, hk, hvalue⟩ := Whole.ofInt?_of_fits hfits
    rw [hk] at h
    exact .of_ok h hexact (hoverflow.not.mpr (not_or.mpr ⟨hrefused, not_not.mpr hfits⟩))
      (by rw [if_neg hshl, hvalue])
  · rw [Whole.ofInt?_of_not_fits hfits] at h
    exact .of_overflow h (hoverflow.mpr (.inr hfits))

theorem overflows_div_iff : BinaryOp.Overflows .div m.toInt n.toInt ↔
    refusesRemainder .div m n = true ∨ ¬Whole.Fits (m.toInt.tdiv n.toInt) := by
  rw [show refusesRemainder .div m n = false from rfl]
  refine Iff.trans ⟨?_, fun h ↦ ?_⟩ (or_iff_right Bool.false_ne_true).symm
  · rintro ⟨hm, hn⟩
    rw [hm, hn]
    decide
  · by_contra hne
    exact h (Whole.fits_tdiv ⟨m.le_toInt, m.toInt_lt⟩ hne)

theorem overflows_mod_iff (hn : n.toInt ≠ 0) : BinaryOp.Overflows .mod m.toInt n.toInt ↔
    refusesRemainder .mod m n = true ∨ ¬Whole.Fits (m.toInt.tmod n.toInt) := by
  have hfits : Whole.Fits (m.toInt.tmod n.toInt) :=
    Whole.fits_tmod ⟨n.le_toInt, n.toInt_lt⟩ hn
  simp [BinaryOp.Overflows, refusesRemainder, hfits, Whole.least]

theorem exactOrRefused_zero (h : binary op a b l = wholeArith op m n l)
    (hop : op = .div ∨ op = .mod) (hn : n.toInt = 0) : ExactOrRefused op a b m n l := by
  have hzero : n = 0 := Int64.toInt_inj.mp hn
  rw [wholeArith, if_pos ⟨hop, hzero⟩] at h
  exact .of_divisionByZero h hop hn

/-! ### Order, bits and shifts -/

theorem Counts.ordered (ha : a.Counts m) (hb : b.Counts n) :
    ordered op a b l = .ok (.bool (holds op (compare m.toInt n.toInt))) := by
  have horder : order? a b = some (some (compare m.toInt n.toInt)) := by
    have hpromote := ha.promote hb
    cases ha <;> cases hb <;> simp [order?, hpromote]
  rw [Value.ordered, horder]

theorem Counts.bitwise (ha : a.Counts m) (hb : b.Counts n) :
    bitwise op a b l = .ok (.int (wholeBits op m n)) := by
  have hintegrals := ha.integrals? hb
  cases ha <;> cases hb <;> simp [Value.bitwise, hintegrals]

theorem Counts.shift (ha : a.Counts m) (hb : b.Counts n) :
    shift op a b l = if 0 ≤ n.toInt ∧ n.toInt < 64
      then .ok (.int (if op = .shl then m <<< n else m >>> n))
      else .error (.integerOverflow (.binary op m n) l) := by
  rw [Value.shift, ha.integrals? hb]

/-! ### All operators -/

/-- Every operator on two whole numbers or characters answers with the exact result or refuses. -/
theorem exactOrRefused (ha : a.Counts m) (hb : b.Counts n) (op : BinaryOp) :
    ExactOrRefused op a b m n l := by
  have harith : ∀ op, Value.arith op a b l = wholeArith op m n l := fun _ ↦ ha.arith hb
  cases op with
  | add | sub | mul =>
    refine exactOrRefused_arith (harith _) rfl (by decide) ?_
    simp [BinaryOp.Overflows, refusesRemainder, exactWhole]
  | div =>
    by_cases hn : n.toInt = 0
    · exact exactOrRefused_zero (harith .div) (.inl rfl) hn
    · exact exactOrRefused_arith (harith .div) (if_neg hn) (by decide) overflows_div_iff
  | mod =>
    by_cases hn : n.toInt = 0
    · exact exactOrRefused_zero (harith .mod) (.inr rfl) hn
    · exact exactOrRefused_arith (harith .mod) (if_neg hn) (by decide) (overflows_mod_iff hn)
  | eq | ne | and | or => exact .of_bool rfl (by decide) not_false rfl
  | lt | le | gt | ge => exact .of_bool (ha.ordered hb) (by decide) not_false rfl
  | bitAnd => exact .of_ok (ha.bitwise hb) rfl not_false (Whole.toInt_and m n)
  | bitOr => exact .of_ok (ha.bitwise hb) rfl not_false (Whole.toInt_or m n)
  | bitXor => exact .of_ok (ha.bitwise hb) rfl not_false (Whole.toInt_xor m n)
  | shl =>
    by_cases hn : 0 ≤ n.toInt ∧ n.toInt < 64
    · refine .of_ok ((ha.shift hb).trans (if_pos hn)) (if_neg (by omega)) ?_
        (Whole.toInt_shiftLeft hn)
      simp only [BinaryOp.Overflows]
      omega
    · refine .of_overflow ((ha.shift hb).trans (if_neg hn)) ?_
      simp only [BinaryOp.Overflows]
      omega
  | shr =>
    by_cases hn : 0 ≤ n.toInt ∧ n.toInt < 64
    · refine .of_ok ((ha.shift hb).trans (if_pos hn)) (if_neg (by omega)) ?_
        (Whole.toInt_shiftRight hn)
      simp only [BinaryOp.Overflows]
      omega
    · refine .of_overflow ((ha.shift hb).trans (if_neg hn)) ?_
      simp only [BinaryOp.Overflows]
      omega

/-! ## Operators on one operand -/

/-- Unary minus refuses the one number whose opposite does not fit. -/
structure NegatesExactly (a : Value) (m : Int64) (l : Location) : Prop where
  overflow : unary .neg a l = .error (.integerOverflow (.negate m) l) ↔ m.toInt = -2 ^ 63
  exact : m.toInt ≠ -2 ^ 63 → ∃ k, unary .neg a l = .ok (.int k) ∧ k.toInt = -m.toInt

theorem negatesExactly (ha : a.Counts m) : NegatesExactly a m l := by
  have hle := m.le_toInt
  have hlt := m.toInt_lt
  cases ha with
  | int =>
    by_cases hm : m.toInt = -2 ^ 63
    · have hfits : ¬Whole.Fits (-m.toInt) := by
        rw [hm]
        decide
      have hrefused : unary .neg (.int m) l = .error (.integerOverflow (.negate m) l) := by
        rw [unary, Whole.ofInt?_of_not_fits hfits]
      exact ⟨iff_of_true hrefused hm, fun hne ↦ absurd hm hne⟩
    · obtain ⟨k, hk, hvalue⟩ := Whole.ofInt?_of_fits (i := -m.toInt) ⟨by omega, by omega⟩
      have hanswer : unary .neg (.int m) l = .ok (.int k) := by
        rw [unary, hk]
      exact ⟨iff_of_false (by simp [hanswer]) hm, fun _ ↦ ⟨k, hanswer, hvalue⟩⟩
  | @char c _ h =>
    have hcode := toInt_codeOf c
    have hvalue : (-codeOf c).toInt = -m.toInt := by
      rw [Int64.toInt_neg, hcode, h, Int.bmod_eq_of_le] <;> omega
    exact ⟨iff_of_false nofun (by omega), fun _ ↦ ⟨-codeOf c, rfl, hvalue⟩⟩

/-- The integer one above or below. -/
def adjacent (up : Bool) (i : Int) : Int := if up then i + 1 else i - 1

/-- A step of a whole number is the sum or the difference with one, a failure included. A step of a
character is to the adjacent code point, and fails where that is no character's: behind the last
one, before the first one and at the gap of the surrogates. -/
structure StepsExactly (op : UnaryOp) (up : Bool) (l : Location) : Prop where
  whole : ∀ n, unary op (.int n) l = binary (if up then .add else .sub) (.int n) (.int 1) l
  moved : ∀ c d : Char, (d.toNat : Int) = adjacent up c.toNat → unary op (.char c) l = .ok (.char d)
  refused : ∀ c : Char, (∀ d : Char, (d.toNat : Int) ≠ adjacent up c.toNat) →
    unary op (.char c) l = .error (.ofOperands (unarySymbol op) [.char c] l)

/-- The code point that a step comes to is that of the neighbour, and nothing is cut off at zero. -/
theorem code_of_adjacent {up : Bool} {c d : Char} (h : (d.toNat : Int) = adjacent up c.toNat) :
    (if up then c.toNat + 1 else c.toNat - 1) = d.toNat ∧ (up = true ∨ c.toNat ≠ 0) := by
  cases up with
  | true =>
    have h : (d.toNat : Int) = c.toNat + 1 := h
    exact ⟨show c.toNat + 1 = d.toNat by omega, .inl rfl⟩
  | false =>
    have h : (d.toNat : Int) = c.toNat - 1 := h
    exact ⟨show c.toNat - 1 = d.toNat by omega, .inr (by omega)⟩

theorem adjacent_of_code {up : Bool} {c d : Char}
    (h : (if up then c.toNat + 1 else c.toNat - 1) = d.toNat) (hzero : up = true ∨ c.toNat ≠ 0) :
    (d.toNat : Int) = adjacent up c.toNat := by
  cases up with
  | true =>
    have h : c.toNat + 1 = d.toNat := h
    exact show (d.toNat : Int) = c.toNat + 1 by omega
  | false =>
    have h : c.toNat - 1 = d.toNat := h
    have hzero : c.toNat ≠ 0 := hzero.resolve_left Bool.false_ne_true
    exact show (d.toNat : Int) = c.toNat - 1 by omega

theorem step_eq_of_adjacent {up : Bool} {c d : Char} (h : (d.toNat : Int) = adjacent up c.toNat) :
    step up (.char c) l = .ok (.char d) := by
  obtain ⟨hcode, hzero⟩ := code_of_adjacent h
  have hvalid : (if up then c.toNat + 1 else c.toNat - 1).isValidChar := hcode ▸ d.valid
  have hchar : Char.ofNatAux _ hvalid = d := Char.toNat_inj.mp hcode
  rw [step, dif_pos ⟨hvalid, hzero⟩, hchar]

theorem step_eq_of_no_adjacent {up : Bool} {c : Char}
    (h : ∀ d : Char, (d.toNat : Int) ≠ adjacent up c.toNat) :
    step up (.char c) l = .error (.ofOperands (if up then "++" else "--") [.char c] l) := by
  rw [step, dif_neg]
  rintro ⟨hvalid, hzero⟩
  -- a valid code would be that of a neighbour
  exact h (Char.ofNatAux _ hvalid) (adjacent_of_code rfl hzero)

theorem stepsExactly_up {op : UnaryOp} (hop : op = .preInc ∨ op = .postInc) :
    StepsExactly op true l := by
  rcases hop with rfl | rfl <;>
  · exact ⟨fun _ ↦ rfl, fun _ _ h ↦ step_eq_of_adjacent h, fun _ h ↦ step_eq_of_no_adjacent h⟩

theorem stepsExactly_down {op : UnaryOp} (hop : op = .preDec ∨ op = .postDec) :
    StepsExactly op false l := by
  rcases hop with rfl | rfl <;>
  · exact ⟨fun _ ↦ rfl, fun _ _ h ↦ step_eq_of_adjacent h, fun _ h ↦ step_eq_of_no_adjacent h⟩

/-! ## Exact or refused -/

/-- On whole numbers and characters an operator answers with the exact result or refuses: division
by zero, the quotient and the remainder of the least number by minus one, a sum, difference or
product that does not fit, a shift by an amount outside of 0 to 63. Only a shift to the left loses
bits. Quotient and remainder belong together, unary minus refuses one number only, a step of a whole
number is the sum or difference with one, and a step of a character ends at its neighbour or
fails. -/
theorem whole_operators_exact (ha : a.Counts m) (hb : b.Counts n) (l : Location) :
    (∀ op, ExactOrRefused op a b m n l) ∧
      (∀ q r, binary .div a b l = .ok (.int q) → binary .mod a b l = .ok (.int r) →
        q.toInt * n.toInt + r.toInt = m.toInt) ∧
      NegatesExactly a m l ∧
      (∀ op, op = .preInc ∨ op = .postInc → StepsExactly op true l) ∧
      ∀ op, op = .preDec ∨ op = .postDec → StepsExactly op false l := by
  refine ⟨exactOrRefused ha hb, fun q r hq hr ↦ ?_, negatesExactly ha, fun _ ↦ stepsExactly_up,
    fun _ ↦ stepsExactly_down⟩
  have hquotient := (exactOrRefused ha hb .div).lossless q (by decide) hq
  have hremainder := (exactOrRefused ha hb .mod).lossless r (by decide) hr
  simp only [BinaryOp.result?] at hquotient hremainder
  split at hquotient
  · cases hquotient
  · rename_i hn
    rw [if_neg hn] at hremainder
    rw [← Option.some.inj hquotient, ← Option.some.inj hremainder, Int.tdiv_mul_add_tmod]

/-- The least number and minus one: their quotient and their remainder are refused, their difference
is exact, the least number has no opposite, and the character before the surrogates no successor. -/
theorem whole_operators_exact_least : (Value.int Int64.minValue).Counts Int64.minValue ∧
    (Value.int (-1)).Counts (-1) ∧
    binary .div (.int Int64.minValue) (.int (-1)) .start
      = .error (.integerOverflow (.binary .div Int64.minValue (-1)) .start) ∧
    binary .mod (.int Int64.minValue) (.int (-1)) .start
      = .error (.integerOverflow (.binary .mod Int64.minValue (-1)) .start) ∧
    (∃ k, binary .sub (.int Int64.minValue) (.int (-1)) .start = .ok (.int k) ∧
      k.toInt = -9223372036854775807) ∧
    unary .neg (.int Int64.minValue) .start
      = .error (.integerOverflow (.negate Int64.minValue) .start) ∧
    unary .preInc (.char (Char.ofNat 0xD7FF)) .start
      = .error (.ofOperands "++" [.char (Char.ofNat 0xD7FF)] .start) := by
  obtain ⟨hbinary, -, hneg, hup, -⟩ :=
    whole_operators_exact (.int Int64.minValue) (.int (-1)) .start
  refine ⟨.int _, .int _, (hbinary .div).overflow.mpr ⟨rfl, rfl⟩,
    (hbinary .mod).overflow.mpr ⟨rfl, rfl⟩, (hbinary .sub).exact _ rfl fun h ↦ h (by decide),
    hneg.overflow.mpr rfl, (hup .preInc (.inl rfl)).refused _ fun d hd ↦ ?_⟩
  have hcode : (d.toNat : Int) = 0xD800 := hd
  rcases d.valid with hlow | ⟨hhigh, -⟩
  · exact absurd hlow (by change ¬d.toNat < 0xD800; omega)
  · exact absurd hhigh (by change ¬0xDFFF < d.toNat; omega)

end Value

end Scriptlet
