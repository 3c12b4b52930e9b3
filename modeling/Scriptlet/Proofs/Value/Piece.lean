import Scriptlet.Proofs.Value.Exact

/-!
# Pieces of texts

A piece of a text is told by the number of characters before it and by its own length. Scripts give
both as whole numbers with a sign, and the two bounds that are tested on the way are not the same:
the start may be the end of the text, an index may not, and the count is tested against what is left
behind the start. Taken together the tests let through exactly those numbers that tell a piece, as
if they were added without bounds, and what comes out is the piece they tell.
-/

namespace Scriptlet.Value

/-- The second text stands in the first one with `start` characters before it, and has `count`
characters. -/
def IsPiece (s : String) (start count : ℕ) (t : String) : Prop :=
  ∃ before behind, s.toList = before ++ t.toList ++ behind ∧ before.length = start ∧
    t.toList.length = count

variable {s t u : String} {i n : ℕ} {l : Location} {a b : Value} {j k : Int64}

theorem isPiece_iff :
    IsPiece s i n t ↔ i + n ≤ s.toList.length ∧ t = String.ofList ((s.toList.drop i).take n) := by
  constructor
  · rintro ⟨before, behind, hs, rfl, rfl⟩
    rw [hs, List.append_assoc, List.drop_left, List.take_left, String.ofList_toList]
    refine ⟨?_, rfl⟩
    simp only [List.length_append]
    omega
  · rintro ⟨hle, rfl⟩
    refine ⟨s.toList.take i, (s.toList.drop i).drop n, ?_, ?_, ?_⟩
    · rw [String.toList_ofList, List.append_assoc, List.take_append_drop, List.take_append_drop]
    · rw [List.length_take]
      omega
    · rw [String.toList_ofList, List.length_take, List.length_drop]
      omega

/-- Two pieces that stand side by side and take up the whole text make it up. -/
theorem IsPiece.append (ht : IsPiece s 0 i t) (hu : IsPiece s i n u) (h : i + n = s.toList.length) :
    t ++ u = s := by
  obtain ⟨-, rfl⟩ := isPiece_iff.mp ht
  obtain ⟨-, rfl⟩ := isPiece_iff.mp hu
  have hrest : (s.toList.drop i).take n = s.toList.drop i :=
    List.take_of_length_le (by rw [List.length_drop]; omega)
  rw [hrest, List.drop_zero, ← String.ofList_append, List.take_append_drop, String.ofList_toList]

theorem isPiece_one_iff {c : Char} : IsPiece s i 1 (String.ofList [c]) ↔ s.toList[i]? = some c := by
  rw [isPiece_iff, String.ofList_inj, List.getElem?_eq_some_iff]
  constructor
  · rintro ⟨hle, hc⟩
    refine ⟨by omega, ?_⟩
    rw [List.drop_eq_getElem_cons (by omega), List.take_succ_cons, List.take_zero] at hc
    exact (List.cons.inj hc).1.symm
  · rintro ⟨hlt, rfl⟩
    refine ⟨by omega, ?_⟩
    rw [List.drop_eq_getElem_cons hlt, List.take_succ_cons, List.take_zero]

/-! ## Taking a piece -/

/-- Two integers are the start and the count of a piece. -/
def TellsPiece (s : String) (start count : Int) : Prop :=
  0 ≤ start ∧ 0 ≤ count ∧ start + count ≤ s.toList.length

instance (s : String) (start count : Int) : Decidable (TellsPiece s start count) :=
  inferInstanceAs (Decidable (_ ∧ _ ∧ _))

theorem Counts.intArg (h : a.Counts j) (name : String) (l : Location) :
    a.intArg name l = .ok j := by
  cases h with
  | int => rfl
  | char h => exact congrArg Except.ok (Int64.toInt_inj.mp ((toInt_codeOf _).trans h.symm))

/-- The method that takes a piece sees nothing of its arguments but the numbers. -/
theorem method_substring (ha : a.Counts j) (hb : b.Counts k) :
    method (.str s) "Substring" [a, b] l = substring s j k l := by
  have hmethod : method (.str s) "Substring" [a, b] l = (do
      let start ← a.intArg "Substring" l
      let count ← b.intArg "Substring" l
      substring s start count l) := by
    rw [method, if_pos (beq_self_eq_true _)]
  rw [hmethod, ha.intArg, hb.intArg]
  rfl

theorem substring_of_tellsPiece (h : TellsPiece s j.toInt k.toInt) :
    ∃ t, substring s j k l = .ok (.str t) ∧ IsPiece s j.toInt.toNat k.toInt.toNat t := by
  obtain ⟨hj, hk, hle⟩ := h
  refine ⟨_, ?_, isPiece_iff.mpr ⟨by omega, rfl⟩⟩
  have hslot : slot (s.toList.length + 1) j l = .ok j.toInt.toNat := if_pos (by omega)
  simp only [substring, hslot, bind, Except.bind]
  exact if_pos (by omega)

/-- What is refused is the start, if it is not the place of a character or the end, and otherwise
the end of the piece. -/
theorem substring_of_not_tellsPiece (h : ¬TellsPiece s j.toInt k.toInt) :
    substring s j k l = .error
      (if 0 ≤ j.toInt ∧ j.toInt ≤ s.toList.length then .indexOutOfRange (j + k) s.toList.length l
        else .indexOutOfRange j (s.toList.length + 1) l) := by
  rw [TellsPiece] at h
  split
  · have hslot : slot (s.toList.length + 1) j l = .ok j.toInt.toNat := if_pos (by omega)
    simp only [substring, hslot, bind, Except.bind]
    exact if_neg (by omega)
  · have hslot : slot (s.toList.length + 1) j l = .error (.indexOutOfRange j _ l) :=
      if_neg (by omega)
    simp only [substring, hslot, bind, Except.bind]

/-- With two numbers the method succeeds exactly if they tell a piece, and then gives it. -/
structure CutsExactly (s : String) (a b : Value) (j k : Int64) (l : Location) : Prop where
  succeeds_iff : (∃ v, method (.str s) "Substring" [a, b] l = .ok v) ↔
    TellsPiece s j.toInt k.toInt
  piece : ∀ v, method (.str s) "Substring" [a, b] l = .ok v →
    ∃ t, v = .str t ∧ IsPiece s j.toInt.toNat k.toInt.toNat t
  refused : ¬TellsPiece s j.toInt k.toInt →
    ∃ index length, method (.str s) "Substring" [a, b] l = .error (.indexOutOfRange index length l)

theorem cutsExactly (ha : a.Counts j) (hb : b.Counts k) : CutsExactly s a b j k l := by
  by_cases h : TellsPiece s j.toInt k.toInt
  · obtain ⟨t, ht, hpiece⟩ := substring_of_tellsPiece (l := l) h
    rw [← method_substring ha hb] at ht
    refine ⟨iff_of_true ⟨_, ht⟩ h, fun v hv ↦ ⟨t, ?_, hpiece⟩, fun hnot ↦ absurd h hnot⟩
    exact Except.ok.inj (hv.symm.trans ht)
  · have herror := substring_of_not_tellsPiece (l := l) h
    rw [← method_substring ha hb] at herror
    refine ⟨iff_of_false ?_ h, fun v hv ↦ ?_, fun _ ↦ ?_⟩
    · rintro ⟨v, hv⟩
      cases hv.symm.trans herror
    · cases hv.symm.trans herror
    · rw [herror]
      split
      · exact ⟨_, _, rfl⟩
      · exact ⟨_, _, rfl⟩

/-! ## Indices -/

/-- An index of a text succeeds exactly at the places of its characters, and gives the character of
the piece of length one. -/
structure IndexesExactly (s : String) (a b : Value) (j : Int64) (l : Location) : Prop where
  succeeds_iff : (∃ v, (a.intArg "[]" l >>= fun i ↦ (Value.str s).element i l) = .ok v) ↔
    0 ≤ j.toInt ∧ j.toInt < s.toList.length
  only : ∀ v, (a.intArg "[]" l >>= fun i ↦ (Value.str s).element i l) = .ok v →
    ∃ c, v = .char c ∧ method (.str s) "Substring" [a, b] l = .ok (.str (String.ofList [c]))
  refused : ¬(0 ≤ j.toInt ∧ j.toInt < s.toList.length) →
    (a.intArg "[]" l >>= fun i ↦ (Value.str s).element i l)
      = .error (.indexOutOfRange j s.toList.length l)

theorem indexesExactly (ha : a.Counts j) (hb : b.Counts 1) : IndexesExactly s a b j l := by
  have hindex : (a.intArg "[]" l >>= fun i ↦ (Value.str s).element i l) =
      (Value.str s).element j l := by
    rw [ha.intArg]
    rfl
  have hone : (1 : Int64).toInt = 1 := rfl
  by_cases h : 0 ≤ j.toInt ∧ j.toInt < s.toList.length
  · obtain ⟨i, hi⟩ := Int.eq_ofNat_of_zero_le h.1
    have hlt : i < s.toList.length := by omega
    have hc := List.getElem?_eq_getElem hlt
    have helement : (Value.str s).element j l = .ok (.char s.toList[i]) :=
      element_eq_ok_iff.mpr ⟨i, hi, by rw [item?, hc]; rfl⟩
    have hcut := cutsExactly (s := s) (l := l) ha hb
    obtain ⟨v, hv⟩ := hcut.succeeds_iff.mpr ⟨h.1, by omega, by omega⟩
    obtain ⟨t, rfl, hpiece⟩ := hcut.piece v hv
    have ht : t = String.ofList [s.toList[i]] := by
      rw [hi, hone] at hpiece
      exact (isPiece_iff.mp hpiece).2.trans (isPiece_iff.mp (isPiece_one_iff.mpr hc)).2.symm
    rw [ht] at hv
    rw [← hindex] at helement
    refine ⟨iff_of_true ⟨_, helement⟩ h, fun v hvalue ↦ ⟨_, ?_, hv⟩, fun hnot ↦ absurd h hnot⟩
    exact Except.ok.inj (hvalue.symm.trans helement)
  · have herror : (Value.str s).element j l = .error (.indexOutOfRange j s.toList.length l) := by
      rw [element, slot, if_neg h]
      rfl
    rw [← hindex] at herror
    refine ⟨iff_of_false ?_ h, fun v hv ↦ ?_, fun _ ↦ herror⟩
    · rintro ⟨v, hv⟩
      cases hv.symm.trans herror
    · cases hv.symm.trans herror

/-! ## Pieces and indices together -/

/-- Whatever whole numbers or characters are given, taking a piece and indexing go by code points
and are exact: a piece is taken exactly if start and count are not negative and their sum, among the
integers without bounds, is not beyond the end, and an index is answered exactly at the places of
the characters. Two pieces that part a text at some place make it up again, and what an index gives
is the one character of the piece of length one. -/
theorem pieces_and_indices_exact (s : String) (l : Location) :
    (∀ a b j k, Counts a j → Counts b k → CutsExactly s a b j k l) ∧
      (∀ zero a rest j k, Counts zero 0 → Counts a j → Counts rest k → 0 ≤ j.toInt → 0 ≤ k.toInt →
        j.toInt + k.toInt = s.toList.length →
        ∃ t u, method (.str s) "Substring" [zero, a] l = .ok (.str t) ∧
          method (.str s) "Substring" [a, rest] l = .ok (.str u) ∧ t ++ u = s) ∧
      ∀ a one j, Counts a j → Counts one 1 → IndexesExactly s a one j l := by
  refine ⟨fun _ _ _ _ ↦ cutsExactly, fun zero a rest j k hzero ha hrest hj hk hlen ↦ ?_,
    fun _ _ _ ↦ indexesExactly⟩
  have hnone : (0 : Int64).toInt = 0 := rfl
  have hfirst := cutsExactly (s := s) (l := l) hzero ha
  have hsecond := cutsExactly (s := s) (l := l) ha hrest
  obtain ⟨v, hv⟩ := hfirst.succeeds_iff.mpr ⟨by omega, hj, by omega⟩
  obtain ⟨w, hw⟩ := hsecond.succeeds_iff.mpr ⟨hj, hk, by omega⟩
  obtain ⟨t, rfl, ht⟩ := hfirst.piece v hv
  obtain ⟨u, rfl, hu⟩ := hsecond.piece w hw
  exact ⟨t, u, hv, hw, ht.append hu (by omega)⟩

/-- A text of characters of one, two and four bytes: a piece at its end, the start and the count
given as a number and as a character, a count so great that only the exact sum is out of range, the
text parted before its last character, that character by its index, and an index before the text. -/
theorem pieces_and_indices_exact_of_wide :
    let s := "hé😀"
    ((int 1).Counts 1 ∧ (char '\x02').Counts 2 ∧
      TellsPiece s (1 : Int64).toInt (2 : Int64).toInt ∧
      ∃ t, method (.str s) "Substring" [int 1, char '\x02'] .start = .ok (.str t) ∧
        IsPiece s 1 2 t) ∧
    (∃ index length, method (.str s) "Substring" [int 1, int Int64.maxValue] .start
      = .error (.indexOutOfRange index length .start)) ∧
    (∃ t u, method (.str s) "Substring" [int 0, int 2] .start = .ok (.str t) ∧
      method (.str s) "Substring" [int 2, int 1] .start = .ok (.str u) ∧ t ++ u = s) ∧
    (∃ c, ((int 2).intArg "[]" .start >>= fun i ↦ (str s).element i .start) = .ok (.char c)) ∧
    ((int (-1)).intArg "[]" .start >>= fun i ↦ (str s).element i .start)
      = .error (.indexOutOfRange (-1) 3 .start) := by
  intro s
  have hlen : s.toList.length = 3 := by decide
  obtain ⟨hcut, hparted, hindex⟩ := pieces_and_indices_exact s .start
  have htwo : (char '\x02').Counts 2 := .char rfl
  have hwithin : TellsPiece s (1 : Int64).toInt (2 : Int64).toInt := by decide
  have hend := hcut (int 1) (char '\x02') 1 2 (.int 1) htwo
  obtain ⟨v, hv⟩ := hend.succeeds_iff.mpr hwithin
  obtain ⟨t, rfl, ht⟩ := hend.piece v hv
  refine ⟨⟨.int 1, htwo, hwithin, t, hv, ht⟩, ?_, ?_, ?_, ?_⟩
  · exact (hcut _ _ _ _ (.int 1) (.int Int64.maxValue)).refused (by decide)
  · exact hparted (int 0) (int 2) (int 1) 2 1 (.int 0) (.int 2) (.int 1) (by decide) (by decide)
      (by decide)
  · have hlast := hindex (int 2) (int 1) 2 (.int 2) (.int 1)
    obtain ⟨v, hv⟩ := hlast.succeeds_iff.mpr (by decide)
    obtain ⟨c, rfl, -⟩ := hlast.only v hv
    exact ⟨c, hv⟩
  · rw [(hindex (int (-1)) (int 1) (-1) (.int (-1)) (.int 1)).refused (by decide), hlen]

end Scriptlet.Value
