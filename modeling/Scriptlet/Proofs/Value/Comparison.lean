import Scriptlet.Proofs.Value.Canonical
import Scriptlet.Proofs.Value.Path

/-!
# Order and equality of values

The order of two numbers is that of their common kind, where a character counts as a whole number
and a whole number against a single is rounded to a single. Equality has its own table: a character
is equal to characters only, and numbers of different kinds are compared as doubles. For all other
pairs of kinds the two agree, so that exactly one of less, equal and greater is true. For these
pairs equal operands are still level in the order, but level operands need not be equal.
-/

namespace Scriptlet

/-- A character and a number, or a whole number and a single: the kinds for which order and equality
go by different values. -/
def Kind.apart : Kind → Kind → Bool
  | .char, k => k.isNumeric
  | k, .char => k.isNumeric
  | .int, .float | .float, .int => true
  | _, _ => false

namespace Value

/-! ## Texts and characters -/

theorem compareText_swap (cs ds : List Char) : compareText ds cs = (compareText cs ds).swap := by
  induction cs generalizing ds with
  | nil => cases ds <;> rfl
  | cons c cs ih =>
    cases ds with
    | nil => rfl
    | cons d ds =>
      rw [compareText, compareText]
      rcases Nat.lt_trichotomy c.toNat d.toNat with h | h | h
      · rw [if_neg (Nat.lt_asymm h), if_pos h, if_pos h]
        rfl
      · rw [h, if_neg (Nat.lt_irrefl _), if_neg (Nat.lt_irrefl _), if_neg (Nat.lt_irrefl _),
          if_neg (Nat.lt_irrefl _), ih]
      · rw [if_pos h, if_neg (Nat.lt_asymm h), if_pos h]
        rfl

theorem compareText_eq_iff {cs ds : List Char} : compareText cs ds = .eq ↔ cs = ds := by
  induction cs generalizing ds with
  | nil => cases ds <;> simp [compareText]
  | cons c cs ih =>
    cases ds with
    | nil => simp [compareText]
    | cons d ds =>
      rw [compareText]
      rcases Nat.lt_trichotomy c.toNat d.toNat with h | h | h
      · rw [if_pos h]
        refine iff_of_false nofun fun heq ↦ ?_
        rw [(List.cons.inj heq).1] at h
        exact Nat.lt_irrefl _ h
      · rw [h, if_neg (Nat.lt_irrefl _), if_neg (Nat.lt_irrefl _), ih, List.cons.injEq,
          Char.toNat_inj.mp h]
        simp
      · rw [if_neg (Nat.lt_asymm h), if_pos h]
        refine iff_of_false nofun fun heq ↦ ?_
        rw [(List.cons.inj heq).1] at h
        exact Nat.lt_irrefl _ h

/-! ## Order -/

/-- The value is not a number. -/
def isNaN : Value → Bool
  | .float x => x.isNaN
  | .double x => x.isNaN
  | _ => false

/-- The order of two numbers in a common kind. -/
def Promoted.cmp? : Promoted → Option Ordering
  | .ints x y => some (compare x.toInt y.toInt)
  | .floats x y => x.cmp? y
  | .doubles x y => x.cmp? y

/-- The two numbers the other way round. -/
def Promoted.swap : Promoted → Promoted
  | .ints x y => .ints y x
  | .floats x y => .floats y x
  | .doubles x y => .doubles y x

theorem Promoted.cmp?_swap (p : Promoted) : p.swap.cmp? = p.cmp?.map Ordering.swap := by
  cases p with
  | ints x y => exact congrArg some Std.OrientedOrd.eq_swap
  | floats x y => exact Binary.cmp?_swap x y
  | doubles x y => exact Binary.cmp?_swap x y

theorem promote_swap (a b : Value) : promote b a = (promote a b).map Promoted.swap := by
  cases a <;> cases b <;>
    simp [promote, isNumberLike, kind, toDouble?, toInt?, Promoted.swap]

theorem order?_text (s t : String) :
    order? (.str s) (.str t) = some (some (compareText s.toList t.toList)) := rfl

theorem order?_number {a b : Value} (h : ¬(a.kind = .string ∧ b.kind = .string)) :
    order? a b = (promote a b).map Promoted.cmp? := by
  rw [order?]
  · rcases promote a b with _ | _ | _ | _ <;> rfl
  · rintro s t rfl rfl
    exact h ⟨rfl, rfl⟩

theorem exists_of_kind_string {a : Value} (h : a.kind = .string) : ∃ s, a = .str s := by
  cases a <;> first | exact ⟨_, rfl⟩ | cases h

/-- The operands the other way round. -/
theorem order?_swap (a b : Value) : order? b a = (order? a b).map (·.map Ordering.swap) := by
  by_cases h : a.kind = .string ∧ b.kind = .string
  · obtain ⟨s, rfl⟩ := exists_of_kind_string h.1
    obtain ⟨t, rfl⟩ := exists_of_kind_string h.2
    rw [order?_text, order?_text, compareText_swap s.toList]
    rfl
  · rw [order?_number h, order?_number fun h' ↦ h h'.symm, promote_swap a b, Option.map_map,
      Option.map_map]
    exact congrArg (Option.map · _) (funext Promoted.cmp?_swap)

theorem isNaN_of_toDouble? {a : Value} {x : Double} (h : a.toDouble? = some x) :
    x.isNaN = a.isNaN := by
  cases a with
  | int n =>
    obtain rfl := Option.some.inj h
    exact Binary.isNaN_round _ _ _ _
  | char c =>
    obtain rfl := Option.some.inj h
    exact Binary.isNaN_round _ _ _ _
  | float y =>
    obtain rfl := Option.some.inj h
    exact Binary.isNaN_convert y
  | double y =>
    obtain rfl := Option.some.inj h
    rfl
  | _ => cases h

/-- Operands that can be compared have an order, unless one is not a number. -/
theorem exists_order {a b : Value} {r : Option Ordering} (h : order? a b = some r)
    (ha : a.isNaN = false) (hb : b.isNaN = false) : ∃ o, r = some o := by
  refine Option.ne_none_iff_exists'.mp ?_
  by_cases hs : a.kind = .string ∧ b.kind = .string
  · obtain ⟨s, rfl⟩ := exists_of_kind_string hs.1
    obtain ⟨t, rfl⟩ := exists_of_kind_string hs.2
    rw [← Option.some.inj h]
    exact Option.some_ne_none _
  · rw [order?_number hs] at h
    obtain ⟨p, hp, rfl⟩ := Option.map_eq_some_iff.mp h
    rcases operands_of_promote hp with ⟨x, y, rfl⟩ | ⟨x, y, hx, hy, rfl | rfl⟩
    · exact Option.some_ne_none _
    · refine Binary.cmp?_ne_none ?_ ?_
      · rw [isNaN_of_toDouble? hx, ha]
      · rw [isNaN_of_toDouble? hy, hb]
    · refine Binary.cmp?_ne_none ?_ ?_
      · rw [Binary.isNaN_convert, isNaN_of_toDouble? hx, ha]
      · rw [Binary.isNaN_convert, isNaN_of_toDouble? hy, hb]

/-! ## Equality -/

/-- Outside of the kinds that order and equality tell apart, what is level in the order is equal. -/
theorem looseEq_iff {a b : Value} {r : Option Ordering} (hkinds : a.kind.apart b.kind = false)
    (ha : a.Canonical) (hb : b.Canonical) (h : order? a b = some r) :
    a.looseEq b = true ↔ r = some .eq := by
  cases a with
  | str s =>
    cases b with
    | str t =>
      obtain rfl := Option.some.inj h
      rw [Option.some.injEq, compareText_eq_iff, String.toList_inj]
      exact beq_iff_eq
    | _ => cases h
  | int n =>
    cases b with
    | int m =>
      obtain rfl := Option.some.inj h
      rw [Option.some.injEq, Std.LawfulEqOrd.compare_eq_iff_eq, Int64.toInt_inj]
      exact beq_iff_eq
    | double y =>
      obtain rfl := Option.some.inj h
      exact beq_iff_eq
    | _ => contradiction
  | char c =>
    cases b with
    | char d =>
      obtain rfl := Option.some.inj h
      rw [Option.some.injEq, Std.LawfulEqOrd.compare_eq_iff_eq, toInt_codeOf, toInt_codeOf,
        Int.natCast_inj, Char.toNat_inj]
      exact beq_iff_eq
    | _ => contradiction
  | float x =>
    cases b with
    | float y =>
      -- ordered as singles after a way through doubles, equal as doubles
      obtain rfl := Option.some.inj h
      have hx : (x.convert .double).Canonical := Binary.canonical_convert Binary.double_proper x
      have hy : (y.convert .double).Canonical := Binary.canonical_convert Binary.double_proper y
      refine Iff.trans beq_iff_eq ⟨Binary.cmp?_convert (by decide) hx hy, fun hxy ↦ ?_⟩
      rw [Binary.convert_convert (by decide) Binary.single_widens_double ha,
        Binary.convert_convert (by decide) Binary.single_widens_double hb] at hxy
      exact Binary.cmp?_convert (by decide) ha hb hxy
    | double y =>
      obtain rfl := Option.some.inj h
      exact beq_iff_eq
    | _ => contradiction
  | double x =>
    cases b with
    | int m =>
      obtain rfl := Option.some.inj h
      exact beq_iff_eq
    | float y =>
      obtain rfl := Option.some.inj h
      exact beq_iff_eq
    | double y =>
      obtain rfl := Option.some.inj h
      exact beq_iff_eq
    | _ => contradiction
  | _ => cases b <;> contradiction

/-- Doubles that are equal stay so as singles. -/
theorem level_of_equal_doubles {x y : Double} (hx : x.Canonical) (hy : y.Canonical)
    (h : x.valueEq y = true) :
    (x.convert .single).cmp? (y.convert .single) = some .eq :=
  Binary.cmp?_convert (by decide) hx hy (beq_iff_eq.mp h)

/-- What is equal is level in the order, whatever the kinds. -/
theorem level_of_looseEq {a b : Value} {r : Option Ordering} (ha : a.Canonical) (hb : b.Canonical)
    (h : order? a b = some r) (heq : a.looseEq b = true) : r = some .eq := by
  by_cases hkinds : a.kind.apart b.kind = false
  · exact (looseEq_iff hkinds ha hb h).mp heq
  -- of the other pairs a character and a number are never equal
  cases a with
  | int n =>
    cases b with
    | float y =>
      obtain rfl := Option.some.inj h
      exact level_of_equal_doubles (Binary.canonical_ofInt Binary.double_proper _)
        (Binary.canonical_convert Binary.double_proper y) heq
    | _ => contradiction
  | float x =>
    cases b with
    | int m =>
      obtain rfl := Option.some.inj h
      exact level_of_equal_doubles (Binary.canonical_convert Binary.double_proper x)
        (Binary.canonical_ofInt Binary.double_proper _) heq
    | _ => contradiction
  | _ => cases b <;> contradiction

/-! ## Coherence -/

/-- The operator answers true. -/
def Answers (op : BinaryOp) (a b : Value) (l : Location) : Prop :=
  binary op a b l = .ok (.bool true)

instance (op : BinaryOp) (a b : Value) (l : Location) : Decidable (Answers op a b l) :=
  inferInstanceAs (Decidable (_ = _))

/-- Exactly one of less, equal and greater is true, and the two operators that allow equality are
their disjunctions. -/
structure Coherent (a b : Value) (l : Location) : Prop where
  exactlyOne : (Answers .lt a b l ∧ ¬Answers .eq a b l ∧ ¬Answers .lt b a l) ∨
    (¬Answers .lt a b l ∧ Answers .eq a b l ∧ ¬Answers .lt b a l) ∨
    (¬Answers .lt a b l ∧ ¬Answers .eq a b l ∧ Answers .lt b a l)
  le : Answers .le a b l ↔ Answers .lt a b l ∨ Answers .eq a b l
  ge : Answers .ge a b l ↔ Answers .lt b a l ∨ Answers .eq a b l

theorem answers_eq (a b : Value) (l : Location) : Answers .eq a b l ↔ a.looseEq b = true := by
  simp [Answers, binary]

theorem answers_ordered {op : BinaryOp} {a b : Value} {o : Ordering} {l : Location}
    (hop : binary op a b l = ordered op a b l) (h : order? a b = some (some o)) :
    Answers op a b l ↔ holds op o = true := by
  simp [Answers, hop, ordered, h]

theorem answers_lt_swap {a b : Value} {o : Ordering} {l : Location}
    (h : order? a b = some (some o)) : Answers .lt b a l ↔ o = .gt := by
  have hswap : order? b a = some (some o.swap) := by rw [order?_swap, h]; rfl
  rw [answers_ordered rfl hswap]
  cases o <;> simp [holds]

/-- What the operators make of two operands in their order, when equal operands are level in it. -/
theorem coherent_iff {a b : Value} {o : Ordering} {l : Location} (h : order? a b = some (some o))
    (hlevel : a.looseEq b = true → o = .eq) :
    Coherent a b l ↔ (o = .eq → a.looseEq b = true) := by
  have hlt : Answers .lt a b l ↔ o = .lt := by
    rw [answers_ordered rfl h]
    cases o <;> simp [holds]
  have hle : Answers .le a b l ↔ o ≠ .gt := by
    rw [answers_ordered rfl h]
    cases o <;> simp [holds]
  have hge : Answers .ge a b l ↔ o ≠ .lt := by
    rw [answers_ordered rfl h]
    cases o <;> simp [holds]
  constructor
  · rintro ⟨hone, -, -⟩ rfl
    simpa [hlt, answers_lt_swap h, answers_eq] using hone
  · intro heq
    constructor
    · rw [hlt, answers_lt_swap h, answers_eq]
      cases o <;> simp_all
    · rw [hle, hlt, answers_eq]
      cases o <;> simp_all
    · rw [hge, answers_lt_swap h, answers_eq]
      cases o <;> simp_all

/-- The exception. The operands are of kinds that order and equality tell apart, they are level in
the common kind of the order and yet not equal: each is at most and at least the other, and none of
less, equal and greater is true. -/
structure LevelUnequal (a b : Value) (l : Location) : Prop where
  kinds : a.kind.apart b.kind = true
  level : order? a b = some (some .eq)
  notLt : ¬Answers .lt a b l
  notEq : ¬Answers .eq a b l
  notGt : ¬Answers .lt b a l
  le : Answers .le a b l
  ge : Answers .ge a b l

theorem levelUnequal_of_level {a b : Value} {l : Location} (h : order? a b = some (some .eq))
    (hkinds : a.kind.apart b.kind = true) (heq : ¬a.looseEq b = true) : LevelUnequal a b l where
  kinds := hkinds
  level := h
  notLt := (answers_ordered rfl h).not.mpr nofun
  notEq := (answers_eq a b l).not.mpr heq
  notGt := (answers_lt_swap h).not.mpr nofun
  le := (answers_ordered rfl h).mpr rfl
  ge := (answers_ordered rfl h).mpr rfl

/-- Two values that can be ordered, neither of which is not a number, are exactly one of less, equal
and greater, except for the pairs of kinds whose order and equality go by different values, and for
these except where the two disagree. Canonical is what every number of a format is; a significand
that does not fit could be lost on the way through another format. -/
theorem comparisons_coherent (a b : Value) (l : Location) (ha : a.Canonical) (hb : b.Canonical)
    (hnumberLeft : a.isNaN = false) (hnumberRight : b.isNaN = false)
    (hlt : ∃ v, binary .lt a b l = .ok v) : Coherent a b l ∨ LevelUnequal a b l := by
  obtain ⟨r, hr⟩ : ∃ r, order? a b = some r := by
    obtain ⟨v, hv⟩ := hlt
    refine Option.ne_none_iff_exists'.mp fun hnone ↦ ?_
    simp [binary, ordered, hnone] at hv
  obtain ⟨o, rfl⟩ := exists_order hr hnumberLeft hnumberRight
  have hlevel : a.looseEq b = true → o = .eq := fun heq ↦
    Option.some.inj (level_of_looseEq ha hb hr heq)
  by_cases hequal : o = .eq → a.looseEq b = true
  · exact .inl ((coherent_iff hr hlevel).mpr hequal)
  · obtain ⟨rfl, hne⟩ := Classical.not_imp.mp hequal
    refine .inr (levelUnequal_of_level hr ?_ hne)
    rw [← Bool.not_eq_false]
    exact fun hkinds ↦ hne ((looseEq_iff hkinds ha hb hr).mpr rfl)

/-- A single and a double: one is less than one and a half. -/
theorem comparisons_coherent_one : Coherent (.float (.finite false 8388608 (-23)))
      (.double (.finite false 6755399441055744 (-52))) .start ∨
    LevelUnequal (.float (.finite false 8388608 (-23)))
      (.double (.finite false 6755399441055744 (-52))) .start :=
  comparisons_coherent _ _ .start (by decide +kernel) (by decide +kernel) rfl rfl
    ⟨.bool true, by decide +kernel⟩

/-- The character `a` against its own code point, and the least whole number that is no single
against the single before it: the order can tell neither pair apart, and equality both. -/
theorem comparisons_not_coherent :
    (binary .lt (.char 'a') (.int 97) .start = .ok (.bool false) ∧
      ¬Coherent (.char 'a') (.int 97) .start) ∧
    (binary .lt (.int 16777217) (.float (.finite false 8388608 1)) .start = .ok (.bool false) ∧
      ¬Coherent (.int 16777217) (.float (.finite false 8388608 1)) .start) := by
  refine ⟨⟨by decide +kernel, fun h ↦ ?_⟩, by decide +kernel, fun h ↦ ?_⟩
  · exact absurd h.exactlyOne (by decide +kernel)
  · exact absurd h.exactlyOne (by decide +kernel)

end Value

end Scriptlet
