import Mathlib.Algebra.Order.Field.Power
import Mathlib.Algebra.Order.Field.Rat
import Mathlib.Data.Nat.Log
import Mathlib.Tactic.Linarith
import Mathlib.Tactic.Positivity
import Mathlib.Tactic.Ring
import Scriptlet.Binary.Arith
import Scriptlet.Binary.Reader

/-!
# Rounding by value

Rounding finds the grid of a value by the lengths of naturals. Here the grid is found again from the
value as a rational number: it is the only one on which the value has exactly as many bits as the
format keeps, unless the exponent is the least. So a value that is a whole number on its grid is not
changed, which makes the way into a wider format and back again the identity, and a canonical number
is the only one of its value but for the sign of zero.
-/

namespace Scriptlet

/-! ## Powers of two -/

theorem two_zpow_eq (i : ℤ) : (2 : ℚ) ^ i = 2 ^ i.toNat / 2 ^ (-i).toNat := by
  rcases le_total 0 i with h | h
  · rw [Int.toNat_of_nonpos (Int.neg_nonpos_of_nonneg h), pow_zero, div_one, ← zpow_natCast,
      Int.toNat_of_nonneg h]
  · rw [Int.toNat_of_nonpos h, pow_zero, ← zpow_natCast,
      Int.toNat_of_nonneg (Int.neg_nonneg_of_nonpos h), zpow_neg, one_div, inv_inv]

/-- A quotient at a scale, as naturals and as rationals. -/
theorem scaled_ratio (num den : ℕ) (i : ℤ) :
    ((num * Nat.pow 2 i.toNat : ℕ) : ℚ) / (den * Nat.pow 2 (-i).toNat : ℕ) = num / den * 2 ^ i := by
  rw [two_zpow_eq, Nat.pow_eq, Nat.pow_eq]
  push_cast
  rw [mul_div_mul_comm]

/-- A significand at a smaller exponent. -/
theorem rescale (m : ℕ) {d e : ℤ} (h : d ≤ e) :
    ((m * Nat.pow 2 (e - d).toNat : ℕ) : ℚ) * 2 ^ d = m * 2 ^ e := by
  rw [Nat.pow_eq]
  push_cast
  rw [← zpow_natCast, Int.toNat_of_nonneg (Int.sub_nonneg_of_le h), mul_assoc,
    ← zpow_add₀ two_ne_zero, sub_add_cancel]

theorem div_lt_iff_ratio {n d t : ℕ} (hd : 0 < d) : n / d < t ↔ (n : ℚ) / d < t := by
  have hd' : (0 : ℚ) < d := Nat.cast_pos.mpr hd
  rw [Nat.div_lt_iff_lt_mul hd, div_lt_iff₀ hd']
  exact_mod_cast Iff.rfl

namespace Binary

variable {F G : Format}

/-- The grid with the exponent is the one on which the value is rounded: the value has at most
`precision` bits in front of the grid's point, and exactly so many unless the exponent is the
least. -/
structure OnGrid (F : Format) (v : ℚ) (k : ℤ) : Prop where
  least : F.minExp ≤ k
  below : v < 2 ^ (F.precision + k)
  full : k = F.minExp ∨ 2 ^ (F.precision - 1 + k) ≤ v

theorem OnGrid.unique {v : ℚ} {k l : ℤ} (hk : OnGrid F v k) (hl : OnGrid F v l) : k = l := by
  have hle : ∀ {k l : ℤ}, OnGrid F v k → OnGrid F v l → k ≤ l := by
    intro k l hk hl
    rcases hk.full with h | h
    · exact h ▸ hl.least
    · have hlt := (zpow_lt_zpow_iff_right₀ (by norm_num : (1 : ℚ) < 2)).mp (h.trans_lt hl.below)
      omega
  exact le_antisymm (hle hk hl) (hle hl hk)

/-- A value that fills the grid of one exponent is on the grid of this exponent, or of the least. -/
theorem onGrid_max {v : ℚ} {k : ℤ} (hbelow : v < 2 ^ (F.precision + k))
    (hfull : 2 ^ (F.precision - 1 + k) ≤ v) : OnGrid F v (max F.minExp k) := by
  rcases le_total F.minExp k with h | h
  · rw [max_eq_right h]
    exact ⟨h, hbelow, .inr hfull⟩
  · rw [max_eq_left h]
    refine ⟨le_rfl, hbelow.trans_le (zpow_le_zpow_right₀ one_le_two ?_), .inl rfl⟩
    omega

theorem log2_bounds {n : ℕ} (hn : n ≠ 0) :
    (2 : ℚ) ^ (n.log2 : ℤ) ≤ n ∧ (n : ℚ) < 2 ^ ((n.log2 : ℤ) + 1) := by
  constructor
  · rw [zpow_natCast]
    exact_mod_cast Nat.log2_self_le hn
  · have h : n < 2 ^ (n.log2 + 1) := Nat.lt_log2_self
    rw [← Nat.cast_succ, zpow_natCast]
    exact_mod_cast h

/-- A quotient lies between two neighbouring pairs of powers. -/
theorem quotient_bounds {num den : ℕ} (hnum : num ≠ 0) (hden : den ≠ 0) (e : ℤ) :
    (2 : ℚ) ^ (e + num.log2 - den.log2 - 1) ≤ num / den * 2 ^ e ∧
      (num : ℚ) / den * 2 ^ e < 2 ^ (e + num.log2 - den.log2 + 1) := by
  obtain ⟨hn, hn'⟩ := log2_bounds hnum
  obtain ⟨hd, hd'⟩ := log2_bounds hden
  have hpos : (0 : ℚ) < den := Nat.cast_pos.mpr (Nat.pos_of_ne_zero hden)
  have htwo : (2 : ℚ) ≠ 0 := two_ne_zero
  have hpow : (0 : ℚ) < 2 ^ e := zpow_pos two_pos e
  constructor
  · have hsplit : (2 : ℚ) ^ (e + num.log2 - den.log2 - 1) =
        2 ^ (num.log2 : ℤ) / 2 ^ ((den.log2 : ℤ) + 1) * 2 ^ e := by
      rw [← zpow_sub₀ htwo, ← zpow_add₀ htwo]
      congr 1
      ring
    rw [hsplit]
    gcongr
  · have hsplit : (2 : ℚ) ^ (e + num.log2 - den.log2 + 1) =
        2 ^ ((num.log2 : ℤ) + 1) / 2 ^ (den.log2 : ℤ) * 2 ^ e := by
      rw [← zpow_sub₀ htwo, ← zpow_add₀ htwo]
      congr 1
      ring
    rw [hsplit]
    gcongr

/-- The whole part of a quotient at a scale, by value. -/
theorem quotient_lt_iff {num den : ℕ} (hden : den ≠ 0) (e k : ℤ) (t : ℕ) :
    num * Nat.pow 2 (e - k).toNat / (den * Nat.pow 2 (k - e).toNat) < Nat.pow 2 t ↔
      (num : ℚ) / den * 2 ^ e < 2 ^ (t + k) := by
  have hpos : 0 < den * Nat.pow 2 (k - e).toNat :=
    Nat.mul_pos (Nat.pos_of_ne_zero hden) (Nat.pow_pos two_pos)
  have hneg : k - e = -(e - k) := by ring
  rw [div_lt_iff_ratio hpos, hneg, scaled_ratio, zpow_sub₀ two_ne_zero, mul_div_assoc',
    div_lt_iff₀ (zpow_pos two_pos k), zpow_add₀ two_ne_zero, zpow_natCast, Nat.pow_eq,
    Nat.cast_pow, Nat.cast_ofNat]

theorem onGrid_gridExp {num den : ℕ} (hF : 0 < F.precision) (hnum : num ≠ 0) (hden : den ≠ 0)
    (e : ℤ) : OnGrid F (num / den * 2 ^ e) (gridExp F num den e) := by
  obtain ⟨hlower, hupper⟩ := quotient_bounds hnum hden e
  have hprecision : ((F.precision - 1 : ℕ) : ℤ) = (F.precision : ℤ) - 1 := by omega
  rw [gridExp]
  refine onGrid_max ?_ ?_ <;> split <;> rename_i hq <;> rw [quotient_lt_iff hden, hprecision] at hq
  · convert hq using 2
    ring
  · convert hupper using 2
    ring
  · convert hlower using 2
    ring
  · exact not_lt.mp hq

/-! ## Canonical numbers -/

/-- A significand has at least one bit, and there is an exponent. -/
structure Proper (F : Format) : Prop where
  precision : 0 < F.precision
  range : F.minExp ≤ F.maxExp

theorem single_proper : Proper .single := by
  constructor <;> decide

theorem double_proper : Proper .double := by
  constructor <;> decide

/-- The significand has `precision` bits, or fewer while the exponent is the least, and the exponent
is one of the format. -/
def Canonical : Binary F → Prop
  | .nan _ | .inf _ => True
  | .finite _ m e =>
    m < 2 ^ F.precision ∧ F.minExp ≤ e ∧ e ≤ F.maxExp ∧ (e = F.minExp ∨ 2 ^ (F.precision - 1) ≤ m)

instance : DecidablePred (Canonical : Binary F → Prop)
  | .nan _ | .inf _ => isTrue trivial
  | .finite _ m e => inferInstanceAs (Decidable (m < 2 ^ F.precision ∧ F.minExp ≤ e ∧ e ≤ F.maxExp ∧
      (e = F.minExp ∨ 2 ^ (F.precision - 1) ≤ m)))

theorem roundDiv_eq (n d : ℕ) : roundDiv n d = n / d ∨ roundDiv n d = n / d + 1 := by
  rw [roundDiv]
  split
  · exact .inl rfl
  · exact .inr rfl
  · split
    · exact .inl rfl
    · exact .inr rfl

/-- What divides without a remainder is not changed by rounding. -/
theorem roundDiv_mul_self {d : ℕ} (hd : 0 < d) (m : ℕ) : roundDiv (m * d) d = m := by
  have hrem : compare (2 * (m * d % d)) d = .lt := by
    rw [Nat.mul_mod_left, mul_zero]
    exact Nat.compare_eq_lt.mpr hd
  rw [roundDiv, hrem]
  exact Nat.mul_div_cancel m hd

theorem canonical_zero (hF : Proper F) (neg : Bool) : (zero neg : Binary F).Canonical :=
  ⟨Nat.two_pow_pos _, le_rfl, hF.range, .inl rfl⟩

/-- What rounding makes is canonical. -/
theorem canonical_round (hF : Proper F) (neg : Bool) (num : ℕ) {den : ℕ} (hden : den ≠ 0) (e : ℤ) :
    (round neg num den e : Binary F).Canonical := by
  rw [round]
  by_cases hnum : num = 0
  · rw [if_pos hnum]
    exact canonical_zero hF neg
  rw [if_neg hnum]
  have hgrid := onGrid_gridExp hF.precision hnum hden e
  generalize gridExp F num den e = k at hgrid
  have hpositive := hF.precision
  have hprecision : ((F.precision - 1 : ℕ) : ℤ) = (F.precision : ℤ) - 1 := by omega
  have hbelow := (quotient_lt_iff hden e k F.precision).mpr hgrid.below
  have hfull : k = F.minExp ∨ Nat.pow 2 (F.precision - 1) ≤
      num * Nat.pow 2 (e - k).toNat / (den * Nat.pow 2 (k - e).toNat) := by
    refine hgrid.full.imp_right fun h ↦ ?_
    rw [← not_lt, quotient_lt_iff hden, hprecision, not_lt]
    exact h
  have hround := roundDiv_eq (num * Nat.pow 2 (e - k).toNat) (den * Nat.pow 2 (k - e).toNat)
  simp only [Nat.pow_eq] at hbelow hfull hround ⊢
  generalize roundDiv (num * 2 ^ (e - k).toNat) (den * 2 ^ (k - e).toNat) = m at hround
  generalize num * 2 ^ (e - k).toNat / (den * 2 ^ (k - e).toNat) = q at hbelow hfull hround
  by_cases hcarry : m = 2 ^ F.precision
  · -- a carry out of the highest bit leaves the least full significand, one exponent further
    simp only [if_pos hcarry]
    split
    · trivial
    · rename_i hmax
      have hleast := hgrid.least
      refine ⟨Nat.pow_lt_pow_right one_lt_two (by omega), by omega, by omega, .inr le_rfl⟩
  · simp only [if_neg hcarry]
    split
    · trivial
    · rename_i hmax
      exact ⟨by omega, hgrid.least, by omega, hfull.imp_right fun h ↦ by omega⟩

/-- The value of a significand with an exponent. -/
theorem Canonical.onGrid {neg : Bool} {m : ℕ} {e : ℤ} (hF : 0 < F.precision)
    (h : (finite neg m e : Binary F).Canonical) : OnGrid F (m * 2 ^ e) e := by
  obtain ⟨hbelow, hleast, -, hfull⟩ := h
  have hprecision : ((F.precision - 1 : ℕ) : ℤ) = (F.precision : ℤ) - 1 := by omega
  have hpow : (0 : ℚ) < 2 ^ e := zpow_pos two_pos e
  refine ⟨hleast, ?_, hfull.imp_right fun h ↦ ?_⟩
  · rw [zpow_add₀ two_ne_zero, zpow_natCast]
    gcongr
    exact_mod_cast hbelow
  · rw [zpow_add₀ two_ne_zero, ← hprecision, zpow_natCast]
    gcongr
    exact_mod_cast h

/-- A value that is a whole number on its grid is not changed by rounding. -/
theorem round_of_onGrid {neg : Bool} {num m : ℕ} {e k : ℤ} (hF : 0 < F.precision) (hm : m ≠ 0)
    (hgrid : OnGrid F (m * 2 ^ k) k) (hmax : k ≤ F.maxExp)
    (hvalue : (num : ℚ) * 2 ^ e = m * 2 ^ k) :
    (round neg num 1 e : Binary F) = .finite neg m k := by
  have hpow : (0 : ℚ) < 2 ^ k := zpow_pos two_pos k
  have hnum : num ≠ 0 := by
    rintro rfl
    rw [Nat.cast_zero, zero_mul] at hvalue
    exact mul_ne_zero (Nat.cast_ne_zero.mpr hm) hpow.ne' hvalue.symm
  -- the grid that is found is that of the value, and on it nothing is left over
  have hexp : gridExp F num 1 e = k := by
    have hfound := onGrid_gridExp hF hnum one_ne_zero e
    rw [Nat.cast_one, div_one, hvalue] at hfound
    exact hfound.unique hgrid
  have hdiv : roundDiv (num * Nat.pow 2 (e - k).toNat) (1 * Nat.pow 2 (k - e).toNat) = m := by
    have hpos : 0 < 1 * Nat.pow 2 (k - e).toNat := Nat.mul_pos one_pos (Nat.two_pow_pos _)
    have hneg : k - e = -(e - k) := by ring
    have hratio := scaled_ratio num 1 (e - k)
    rw [← hneg, Nat.cast_one, div_one, zpow_sub₀ two_ne_zero, ← mul_div_assoc, hvalue,
      mul_div_cancel_right₀ _ hpow.ne', div_eq_iff (Nat.cast_ne_zero.mpr hpos.ne')] at hratio
    have hexact : num * Nat.pow 2 (e - k).toNat = m * (1 * Nat.pow 2 (k - e).toNat) := by
      exact_mod_cast hratio
    rw [hexact, roundDiv_mul_self hpos]
  have hcarry : m ≠ Nat.pow 2 F.precision := by
    rintro rfl
    have hbelow := hgrid.below
    rw [zpow_add₀ two_ne_zero, zpow_natCast] at hbelow
    exact lt_irrefl _ (by exact_mod_cast hbelow)
  rw [round, if_neg hnum]
  simp only [hexp, hdiv, if_neg hcarry, if_neg (not_lt.mpr hmax)]

theorem canonical_neg {x : Binary F} (h : x.Canonical) : x.neg.Canonical := by
  cases x <;> exact h

/-! ## What operations make

Numbers come from texts, from whole numbers and from other numbers, and all of these round. -/

section Operations

variable (hF : Proper F) {x : Binary F}
include hF

theorem canonical_ofInt (i : ℤ) : (ofInt i : Binary F).Canonical :=
  canonical_round hF _ _ one_ne_zero _

theorem canonical_convert (x : Binary G) : (x.convert F).Canonical := by
  cases x with
  | finite neg m e => exact canonical_round hF neg m one_ne_zero e
  | _ => trivial

theorem canonical_ofDecimal (neg : Bool) (digits : ℕ) (exp : ℤ) :
    (ofDecimal neg digits exp : Binary F).Canonical := by
  have hden : Nat.pow 10 (-exp).toNat ≠ 0 := (Nat.pow_pos (by norm_num)).ne'
  simp only [ofDecimal]
  repeat' split
  · exact canonical_zero hF neg
  · trivial
  · exact canonical_zero hF neg
  · exact canonical_round hF neg _ hden 0

theorem canonical_decimal? {neg : Bool} {cs : List Char} (h : decimal? neg cs = some x) :
    x.Canonical := by
  simp only [decimal?] at h
  repeat' split at h
  all_goals first
    | contradiction
    | exact Option.some.inj h ▸ canonical_ofDecimal hF _ _ _
    | (rcases Option.map_eq_some_iff.mp h with ⟨_, -, rfl⟩; exact canonical_ofDecimal hF _ _ _)

/-- A text writes a canonical number. -/
theorem canonical_ofText? {cs : List Char} (h : ofText? cs = some x) : x.Canonical := by
  simp only [ofText?] at h
  repeat' split at h
  all_goals first
    | exact canonical_decimal? hF h
    | exact Option.some.inj h ▸ trivial

theorem canonical_add (x y : Binary F) : (x.add y).Canonical := by
  cases x <;> cases y <;> simp only [add]
  all_goals repeat' split
  all_goals first
    | trivial
    | exact canonical_zero hF _
    | exact canonical_round hF _ _ one_ne_zero _

theorem canonical_mul (x y : Binary F) : (x.mul y).Canonical := by
  cases x <;> cases y <;> simp only [mul]
  all_goals repeat' split
  all_goals first
    | trivial
    | exact canonical_round hF _ _ one_ne_zero _

theorem canonical_div (x y : Binary F) : (x.div y).Canonical := by
  cases x <;> cases y <;> simp only [div]
  all_goals repeat' split
  all_goals first
    | trivial
    | exact canonical_zero hF _
    | exact canonical_round hF _ _ ‹_› _

theorem canonical_rem (h : x.Canonical) (y : Binary F) : (x.rem y).Canonical := by
  cases x <;> cases y <;> simp only [rem]
  all_goals repeat' split
  all_goals first
    | trivial
    | exact h
    | exact canonical_round hF _ _ one_ne_zero _

end Operations

/-! ## Wider formats -/

/-- All numbers of the first format are numbers of the second. -/
structure Widens (F G : Format) : Prop where
  precision : F.precision ≤ G.precision
  least : G.minExp ≤ F.minExp
  greatest : F.maxExp ≤ G.maxExp

theorem single_widens_double : Widens .single .double := by
  constructor <;> decide

/-- Going to a wider format is exact. -/
theorem exists_convert_eq {neg : Bool} {m : ℕ} {e : ℤ} (hF : 0 < F.precision) (hFG : Widens F G)
    (h : (finite neg m e : Binary F).Canonical) (hm : m ≠ 0) :
    ∃ n k, (finite neg m e : Binary F).convert G = .finite neg n k ∧
      (n : ℚ) * 2 ^ k = m * 2 ^ e := by
  have hG : 0 < G.precision := hF.trans_le hFG.precision
  have hgrid : OnGrid G (m * 2 ^ e) (gridExp G m 1 e) := by
    have hfound := onGrid_gridExp hG hm one_ne_zero e
    rwa [Nat.cast_one, div_one] at hfound
  generalize gridExp G m 1 e = k at hgrid
  have hke : k ≤ e := by
    rcases hgrid.full with hk | hk
    · exact hk ▸ hFG.least.trans h.2.1
    · have hlt := (zpow_lt_zpow_iff_right₀ one_lt_two).mp (hk.trans_lt (h.onGrid hF).below)
      have hle := hFG.precision
      omega
  have hvalue := rescale m hke
  refine ⟨m * Nat.pow 2 (e - k).toNat, k, ?_, hvalue⟩
  exact round_of_onGrid hG (Nat.mul_ne_zero hm (Nat.two_pow_pos _).ne') (hvalue ▸ hgrid)
    (hke.trans (h.2.2.1.trans hFG.greatest)) hvalue.symm

theorem exp_of_canonical_zero {neg : Bool} {e : ℤ} (h : (finite neg 0 e : Binary F).Canonical) :
    e = F.minExp :=
  h.2.2.2.resolve_right fun hle ↦ absurd hle (Nat.two_pow_pos _).not_ge

/-- A number is the same again after a way through a wider format. -/
theorem convert_convert (hF : 0 < F.precision) (hFG : Widens F G) {x : Binary F}
    (h : x.Canonical) : (x.convert G).convert F = x := by
  cases x with
  | nan neg => rfl
  | inf neg => rfl
  | finite neg m e =>
    by_cases hm : m = 0
    · subst hm
      rw [exp_of_canonical_zero h]
      rfl
    · obtain ⟨n, k, hconvert, hvalue⟩ := exists_convert_eq hF hFG h hm
      rw [hconvert]
      exact round_of_onGrid hF hm (h.onGrid hF) h.2.2.1 hvalue

/-! ## Order -/

theorem cmp?_swap (x y : Binary F) : cmp? y x = (cmp? x y).map Ordering.swap := by
  cases x with
  | nan a => cases y <;> rfl
  | inf a =>
    cases y with
    | nan b => rfl
    | inf b => cases a <;> cases b <;> rfl
    | finite b m e => cases a <;> rfl
  | finite a m e =>
    cases y with
    | nan b => rfl
    | inf b => cases b <;> rfl
    | finite b n k =>
      rw [cmp?, cmp?, min_comm k e, Option.map_some, Std.OrientedOrd.eq_swap]

theorem cmp?_ne_none {x y : Binary F} (hx : x.isNaN = false) (hy : y.isNaN = false) :
    cmp? x y ≠ none := by
  cases x <;> cases y <;> first | exact Option.some_ne_none _ | contradiction

theorem cmp?_self {x : Binary F} (hx : x.isNaN = false) : cmp? x x = some .eq := by
  cases x with
  | nan neg => contradiction
  | inf neg => simp [cmp?]
  | finite neg m e => simp [cmp?]

theorem isNaN_round (neg : Bool) (num den : ℕ) (e : ℤ) :
    (round neg num den e : Binary F).isNaN = false := by
  simp only [round]
  repeat' split
  all_goals rfl

@[simp] theorem isNaN_convert (x : Binary F) : (x.convert G).isNaN = x.isNaN := by
  cases x with
  | finite neg m e => exact isNaN_round neg m 1 e
  | _ => rfl

theorem cast_scaled {d e : ℤ} (h : d ≤ e) (neg : Bool) (m : ℕ) :
    (scaled neg m e d : ℚ) * 2 ^ d = (if neg then -1 else 1) * (m * 2 ^ e) := by
  rw [← rescale m h, scaled]
  split <;> push_cast <;> ring

/-- A value has one canonical significand. -/
theorem canonical_unique (hF : 0 < F.precision) {a b : Bool} {m n : ℕ} {e k : ℤ}
    (hx : (finite a m e : Binary F).Canonical) (hy : (finite b n k : Binary F).Canonical)
    (h : (m : ℚ) * 2 ^ e = n * 2 ^ k) : m = n ∧ e = k := by
  obtain rfl : e = k := (hx.onGrid hF).unique (h ▸ hy.onGrid hF)
  have hmn : (m : ℚ) = n := mul_right_cancel₀ (zpow_pos two_pos e).ne' h
  exact ⟨by exact_mod_cast hmn, rfl⟩

/-- Canonical numbers are equal by value only if they are the same, but for the sign of zero. -/
theorem eq_of_cmp?_eq (hF : 0 < F.precision) {x y : Binary F} (hx : x.Canonical) (hy : y.Canonical)
    (h : cmp? x y = some .eq) : x = y ∨ ∃ a b, x = zero a ∧ y = zero b := by
  cases x with
  | nan a => cases h
  | inf a =>
    cases y with
    | nan b => cases h
    | inf b => cases a <;> cases b <;> first | exact .inl rfl | cases h
    | finite b n k => cases a <;> cases h
  | finite a m e =>
    cases y with
    | nan b => cases h
    | inf b => cases b <;> cases h
    | finite b n k =>
      have hscaled : scaled a m e (min e k) = scaled b n k (min e k) :=
        Std.LawfulEqOrd.eq_of_compare (Option.some.inj h)
      have hsigned : (if a then -1 else 1) * ((m : ℚ) * 2 ^ e) =
          (if b then -1 else 1) * ((n : ℚ) * 2 ^ k) := by
        rw [← cast_scaled (min_le_left e k), ← cast_scaled (min_le_right e k), hscaled]
      -- signs may differ only where both values are zero
      have hm : (0 : ℚ) ≤ m * 2 ^ e := by positivity
      have hn : (0 : ℚ) ≤ n * 2 ^ k := by positivity
      have hvalue : (m : ℚ) * 2 ^ e = n * 2 ^ k := by
        split at hsigned <;> split at hsigned <;> linarith
      obtain ⟨rfl, rfl⟩ := canonical_unique hF hx hy hvalue
      by_cases hzero : m = 0
      · subst hzero
        rw [exp_of_canonical_zero hx]
        exact .inr ⟨a, b, rfl, rfl⟩
      · have hpos : (0 : ℚ) < m * 2 ^ e :=
          mul_pos (Nat.cast_pos.mpr (Nat.pos_of_ne_zero hzero)) (zpow_pos two_pos e)
        have hab : a = b := by
          cases a <;> cases b <;> simp at hsigned ⊢ <;> linarith
        exact .inl (by rw [hab])

theorem cmp?_zero (a b : Bool) : cmp? (zero a : Binary F) (zero b) = some .eq := by
  simp [zero, cmp?, scaled]

/-- Numbers that are equal by value stay so in any other format. -/
theorem cmp?_convert (hF : 0 < F.precision) {x y : Binary F} (hx : x.Canonical) (hy : y.Canonical)
    (h : cmp? x y = some .eq) : cmp? (x.convert G) (y.convert G) = some .eq := by
  rcases eq_of_cmp?_eq hF hx hy h with rfl | ⟨a, b, rfl, rfl⟩
  · refine cmp?_self ?_
    cases x with
    | nan a => cases h
    | inf a => rfl
    | finite a m e => exact isNaN_round a m 1 e
  · exact cmp?_zero a b

end Binary

end Scriptlet
