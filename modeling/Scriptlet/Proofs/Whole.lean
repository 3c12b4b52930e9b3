import Mathlib.Data.Int.Bitwise
import Scriptlet.Whole

/-!
# Whole numbers and integers

A whole number is a word of 64 bits, and it stands for an integer. The bits of the word are the
bits of that integer in two's complement, which go on without end and are all the sign from the last
one of the word on; so an operator that works bit by bit gives the same on words and on integers. A
shift to the right is the floor of a quotient by a power of two, a shift to the left a product
reduced to 64 bits, and of all quotients toward zero only the one of the least number by minus one
leaves the range of the words.
-/

namespace Scriptlet

namespace Whole

/-- The integer is one of the 64-bit integers. -/
def Fits (i : Int) : Prop := -2 ^ 63 ≤ i ∧ i < 2 ^ 63

instance : DecidablePred Fits := fun _ ↦ inferInstanceAs (Decidable (_ ∧ _))

theorem ofInt?_of_fits {i : Int} (h : Fits i) : ∃ n, ofInt? i = some n ∧ n.toInt = i := by
  obtain ⟨hle, hlt⟩ := h
  refine ⟨Int64.ofInt i, if_pos ?_, Int64.toInt_ofInt_of_le hle hlt⟩
  simp only [least, greatest]
  omega

theorem ofInt?_toInt (n : Int64) : ofInt? n.toInt = some n := by
  obtain ⟨m, hm, hvalue⟩ := ofInt?_of_fits ⟨n.le_toInt, n.toInt_lt⟩
  rwa [Int64.toInt_inj.mp hvalue] at hm

theorem ofInt?_of_not_fits {i : Int} (h : ¬Fits i) : ofInt? i = none := by
  refine if_neg fun hi ↦ h ?_
  simp only [least, greatest] at hi
  exact ⟨by omega, by omega⟩

/-! ## Bits -/

/-- The bits of a word are those of its value; behind them, all bits of the value are the sign. -/
theorem testBit_toInt {w : Nat} (x : BitVec w) (i : Nat) :
    x.toInt.testBit i = if i < w then x.getLsbD i else x.msb := by
  rw [BitVec.toInt_eq_msb_cond]
  cases hsign : x.msb with
  | false =>
    have hbit : Int.testBit x.toNat i = x.getLsbD i := x.testBit_toNat
    simp only [Bool.false_eq_true, if_false, hbit]
    split
    · rfl
    · exact BitVec.getLsbD_of_ge x i (by omega)
  | true =>
    -- a negative number has the bits that the number before its opposite has not
    have hvalue : (x.toNat : Int) - (2 ^ w : Nat) = Int.negSucc (2 ^ w - (x.toNat + 1)) := by
      have := x.isLt
      omega
    have hbit : Int.testBit (Int.negSucc (2 ^ w - (x.toNat + 1))) i
        = !(decide (i < w) && !x.getLsbD i) := by
      rw [← x.testBit_toNat, ← Nat.testBit_two_pow_sub_succ x.isLt]
      rfl
    rw [if_pos rfl, hvalue, hbit]
    split <;> simp_all

/-- An integer is known by its bits. -/
theorem eq_of_testBit {x y : Int} (h : ∀ i, x.testBit i = y.testBit i) : x = y := by
  -- far enough to the left all bits are the sign
  have hsign : ∀ m n : Nat, ∃ i, m.testBit i ≠ !n.testBit i := fun m n ↦ by
    refine ⟨m + n, ?_⟩
    rw [Nat.testBit_lt_two_pow (Nat.lt_of_le_of_lt (Nat.le_add_right m n) Nat.lt_two_pow_self),
      Nat.testBit_lt_two_pow (Nat.lt_of_le_of_lt (Nat.le_add_left n m) Nat.lt_two_pow_self)]
    decide
  cases x with
  | ofNat m =>
    cases y with
    | ofNat n => exact congrArg _ (Nat.eq_of_testBit_eq h)
    | negSucc n =>
      obtain ⟨i, hi⟩ := hsign m n
      exact absurd (h i) hi
  | negSucc m =>
    cases y with
    | ofNat n =>
      obtain ⟨i, hi⟩ := hsign n m
      exact absurd (h i).symm hi
    | negSucc n =>
      exact congrArg _ (Nat.eq_of_testBit_eq fun i ↦ Bool.not_inj (h i))

/-- An operator that works bit by bit does so on the words and on their values alike. -/
theorem toInt_bitwise {f : Bool → Bool → Bool} {m n k : Int64} {z : Int}
    (hz : ∀ i, z.testBit i = f (m.toInt.testBit i) (n.toInt.testBit i))
    (hbits : ∀ i, k.toBitVec.getLsbD i = f (m.toBitVec.getLsbD i) (n.toBitVec.getLsbD i))
    (hsign : k.toBitVec.msb = f m.toBitVec.msb n.toBitVec.msb) : k.toInt = z := by
  refine eq_of_testBit fun i ↦ ?_
  rw [hz, ← Int64.toInt_toBitVec, ← Int64.toInt_toBitVec, ← Int64.toInt_toBitVec, testBit_toInt,
    testBit_toInt, testBit_toInt]
  split
  · exact hbits i
  · exact hsign

theorem toInt_and (m n : Int64) : (m &&& n).toInt = m.toInt.land n.toInt :=
  toInt_bitwise (Int.testBit_land _ _) (fun _ ↦ BitVec.getLsbD_and) BitVec.msb_and

theorem toInt_or (m n : Int64) : (m ||| n).toInt = m.toInt.lor n.toInt :=
  toInt_bitwise (Int.testBit_lor _ _) (fun _ ↦ BitVec.getLsbD_or) BitVec.msb_or

theorem toInt_xor (m n : Int64) : (m ^^^ n).toInt = m.toInt.xor n.toInt :=
  toInt_bitwise (Int.testBit_lxor _ _) (fun _ ↦ BitVec.getLsbD_xor) BitVec.msb_xor

/-! ## Shifts -/

/-- An amount in the range of the shifts is not reduced further. -/
theorem toNat_smod {n : Int64} (h : 0 ≤ n.toInt ∧ n.toInt < 64) :
    (n.toBitVec.smod 64).toNat = n.toInt.toNat := by
  have hvalue : (n.toBitVec.smod 64).toInt = n.toInt := by
    rw [BitVec.toInt_smod, Int64.toInt_toBitVec]
    exact Int.fmod_eq_of_lt h.1 h.2
  have hnat := BitVec.toInt_eq_toNat_cond (n.toBitVec.smod 64)
  have hlt := (n.toBitVec.smod 64).isLt
  split at hnat <;> omega

theorem toInt_shiftLeft {m n : Int64} (h : 0 ≤ n.toInt ∧ n.toInt < 64) :
    (m <<< n).toInt = (m.toInt * 2 ^ n.toInt.toNat).bmod (2 ^ 64) := by
  have hm : (m.toBitVec.toNat : Int) = m.toInt % (2 ^ 64 : Nat) := by
    have hbmod := m.toBitVec.toInt_eq_toNat_bmod
    rw [Int64.toInt_toBitVec] at hbmod
    rw [hbmod, Int.bmod_emod]
    exact (Int.emod_eq_of_lt (by omega) (by have := m.toBitVec.isLt; omega)).symm
  rw [← Int64.toInt_toBitVec, Int64.toBitVec_shiftLeft, BitVec.shiftLeft_eq',
    BitVec.toInt_shiftLeft, toNat_smod h, Nat.shiftLeft_eq, Nat.cast_mul, hm, Int.emod_mul_bmod]
  norm_cast

theorem toInt_shiftRight {m n : Int64} (h : 0 ≤ n.toInt ∧ n.toInt < 64) :
    (m >>> n).toInt = m.toInt.fdiv (2 ^ n.toInt.toNat) := by
  have hpow : (0 : Int) ≤ 2 ^ n.toInt.toNat := Int.le_of_lt (Int.pow_pos (by decide))
  rw [← Int64.toInt_toBitVec, Int64.toBitVec_shiftRight, BitVec.sshiftRight_eq',
    BitVec.toInt_sshiftRight, toNat_smod h, Int64.toInt_toBitVec, Int.shiftRight_eq_div_pow,
    Int.fdiv_eq_ediv_of_nonneg _ hpow, Nat.cast_pow, Nat.cast_ofNat]

/-! ## Quotients and remainders -/

/-- Of the quotients toward zero only one does not fit. -/
theorem fits_tdiv {x y : Int} (hx : Fits x) (hne : ¬(x = -2 ^ 63 ∧ y = -1)) :
    Fits (x.tdiv y) := by
  obtain ⟨hle, hlt⟩ := hx
  have hquotient := Int.natAbs_tdiv x y
  rcases Nat.lt_or_ge y.natAbs 2 with hsmall | hlarge
  · obtain rfl | rfl | rfl : y = 0 ∨ y = 1 ∨ y = -1 := by omega
    · rw [Int.tdiv_zero]
      exact ⟨by omega, by omega⟩
    · rw [Int.tdiv_one]
      exact ⟨hle, hlt⟩
    · rw [Int.tdiv_neg, Int.tdiv_one]
      exact ⟨by omega, by omega⟩
  · have hhalf : x.natAbs / y.natAbs ≤ x.natAbs / 2 := Nat.div_le_div_left hlarge (by decide)
    change (x.tdiv y).natAbs = x.natAbs / y.natAbs at hquotient
    exact ⟨by omega, by omega⟩

theorem fits_tmod {x y : Int} (hy : Fits y) (hne : y ≠ 0) : Fits (x.tmod y) := by
  obtain ⟨hle, hlt⟩ := hy
  have hremainder := Int.natAbs_tmod x y
  have hless : x.natAbs % y.natAbs < y.natAbs := Nat.mod_lt _ (by omega)
  exact ⟨by omega, by omega⟩

end Whole

end Scriptlet
