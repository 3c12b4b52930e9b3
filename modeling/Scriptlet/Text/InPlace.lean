/-!
# Texts changed in place

A text is kept as bytes, and a character takes up between one and four of them. Where characters are
counted, the byte at which one starts has to be found before it can be taken out or another one be
put in there, and neither can be done at a byte inside of a character or beyond the end.
-/

namespace Scriptlet.Text

/-- The bytes at which characters start that stand one after another, the first one at `first`. -/
def starts (first : Nat) : List Char → List Nat
  | [] => []
  | c :: cs => first :: starts (first + c.utf8Size) cs

/-- The byte at which a character starts; if there is no such character, the byte behind the
text. -/
def byteOffset (s : String) (index : Nat) : Nat :=
  (starts 0 s.toList)[index]?.getD s.utf8ByteSize

/-- A character put in at a byte, which has to be the first one of a character or the one behind the
text. -/
def insertAt? (s : String) (byte : Nat) (c : Char) : Option String :=
  if h : String.Pos.Raw.IsValid s ⟨byte⟩ then
    let p := s.pos ⟨byte⟩ h
    some ((s.sliceTo p).copy ++ String.singleton c ++ (s.sliceFrom p).copy)
  else none

/-- The character taken out that starts at a byte, which has to be the first one of a character. -/
def removeAt? (s : String) (byte : Nat) : Option String :=
  if h : String.Pos.Raw.IsValid s ⟨byte⟩ then
    let p := s.pos ⟨byte⟩ h
    if hend : p = s.endPos then none
    else some ((s.sliceTo p).copy ++ (s.sliceFrom (p.next hend)).copy)
  else none

theorem getElem?_starts (first : Nat) (cs : List Char) (i : Nat) :
    (starts first cs)[i]? =
      if i < cs.length then some (first + (String.ofList (cs.take i)).utf8ByteSize) else none := by
  induction cs generalizing first i with
  | nil => simp [starts]
  | cons c cs ih =>
    cases i with
    | zero => simp [starts]
    | succ i =>
      have hsize : (String.ofList (c :: cs.take i)).utf8ByteSize =
          c.utf8Size + (String.ofList (cs.take i)).utf8ByteSize := by
        rw [← List.singleton_append, String.ofList_append, String.utf8ByteSize_append,
          ← String.singleton_eq_ofList, String.utf8ByteSize_singleton]
      rw [starts, List.getElem?_cons_succ, ih, List.take_succ_cons, hsize, Nat.add_assoc]
      simp

/-- A character starts behind the bytes of the characters before it. -/
theorem byteOffset_eq (s : String) (i : Nat) :
    byteOffset s i = (String.ofList (s.toList.take i)).utf8ByteSize := by
  rw [byteOffset, getElem?_starts]
  split
  · rw [Option.getD_some, Nat.zero_add]
  · rw [Option.getD_none, List.take_of_length_le (by omega), String.ofList_toList]

theorem isValid_byteOffset (s : String) (i : Nat) :
    String.Pos.Raw.IsValid s ⟨byteOffset s i⟩ :=
  String.Pos.Raw.isValid_iff_exists_take_toList.mpr ⟨i, byteOffset_eq s i⟩

/-- The position of the first byte behind a front of the text parts the text there. -/
theorem splits_pos {s t u : String} {byte : Nat} (hs : s = t ++ u) (hbyte : byte = t.utf8ByteSize)
    (h : String.Pos.Raw.IsValid s ⟨byte⟩) : (s.pos ⟨byte⟩ h).Splits t u where
  eq_append := hs
  offset_eq_rawEndPos := by rw [String.offset_pos, hbyte]; rfl

theorem insertAt?_eq {s t u : String} {byte : Nat} (c : Char) (hs : s = t ++ u)
    (hbyte : byte = t.utf8ByteSize) :
    insertAt? s byte c = some (t ++ String.singleton c ++ u) := by
  have h : String.Pos.Raw.IsValid s ⟨byte⟩ :=
    String.Pos.Raw.isValid_iff_exists_append.mpr ⟨t, u, hs, by rw [hbyte]; rfl⟩
  obtain ⟨hleft, hright⟩ := (s.pos ⟨byte⟩ h).splits.eq (splits_pos hs hbyte h)
  rw [insertAt?, dif_pos h]
  simp only [hleft, hright]

theorem removeAt?_eq {s t u : String} {byte : Nat} {c : Char}
    (hs : s = t ++ (String.singleton c ++ u)) (hbyte : byte = t.utf8ByteSize) :
    removeAt? s byte = some (t ++ u) := by
  have h : String.Pos.Raw.IsValid s ⟨byte⟩ :=
    String.Pos.Raw.isValid_iff_exists_append.mpr ⟨t, _, hs, by rw [hbyte]; rfl⟩
  have hsplits := splits_pos hs hbyte h
  have hend := hsplits.ne_endPos_of_singleton
  obtain ⟨hleft, -⟩ := (s.pos ⟨byte⟩ h).splits.eq hsplits
  obtain ⟨-, hright⟩ := ((s.pos ⟨byte⟩ h).next hend).splits.eq hsplits.next
  rw [removeAt?, dif_pos h]
  simp only [dif_neg hend, hleft, hright]

end Scriptlet.Text
