import Mathlib.Data.List.Basic
import Scriptlet.Value.Member

/-!
# Elements at paths

An array may hold arrays, so an element of it is told by a path of positions, the outermost first. A
text has its characters for elements, and these hold nothing further. A value goes into a root at a
path by taking the place of the element there, all the way from the root. The same comes of putting
it into the innermost container only, and that container, changed, into the root at the rest of the
path.
-/

namespace Scriptlet.Value

/-- The value stands for a position: it is a whole number, or a character for its code point. -/
inductive IsIndex : Value → Nat → Prop where
  | int {j : Int64} {i : Nat} (h : j.toInt = i) : IsIndex (.int j) i
  | char (c : Char) : IsIndex (.char c) c.toNat

/-- The item of an array, or the character of a text. -/
def item? : Value → Nat → Option Value
  | .array items, i => items[i]?
  | .str s, i => (s.toList[i]?).map .char
  | _, _ => none

/-- The element at a path. -/
def at? : Value → List Nat → Option Value
  | root, [] => some root
  | root, i :: path => (root.item? i).bind (at? · path)

/-- The value can be put into a root at a path: the path leads through items of arrays to one more
item, or to a character of a text if the value is a character. -/
inductive GoesInto (v : Value) : Value → List Nat → Prop where
  | item {items : List Value} {i : Nat} (hi : i < items.length) : GoesInto v (.array items) [i]
  | character {s : String} {i : Nat} {c : Char} (hv : v = .char c) (hi : i < s.toList.length) :
      GoesInto v (.str s) [i]
  | inside {items : List Value} {i : Nat} {w : Value} {path : List Nat} (hi : items[i]? = some w)
      (h : GoesInto v w path) : GoesInto v (.array items) (i :: path)

/-- The root with the value in place of the element at a path. -/
def putInto (v : Value) : Value → List Nat → Value
  | _, [] => v
  | .array items, i :: path => .array (items.modify i (putInto v · path))
  | .str s, [i] =>
    match v with
    | .char c => .str (String.ofList (s.toList.set i c))
    | _ => .str s
  | root, _ :: _ => root

variable {v w root : Value} {path : List Nat} {i : Nat} {l : Location}

/-! ## Positions -/

theorem toInt_codeOf (c : Char) : (codeOf c).toInt = c.toNat := by
  have hc : c.toNat < 1114112 := by
    have hval : c.toNat = c.val.toNat := rfl
    rcases c.valid with h | ⟨-, h⟩ <;> omega
  rw [codeOf, Int64.toInt_ofInt_of_le] <;> omega

/-- A value stands for a position exactly if it is accepted between brackets as that number. -/
theorem isIndex_iff {name : String} :
    v.IsIndex i ↔ ∃ j, v.intArg name l = .ok j ∧ j.toInt = i := by
  refine ⟨fun h ↦ ?_, ?_⟩
  · cases h with
    | int h => exact ⟨_, rfl, h⟩
    | char c => exact ⟨codeOf c, rfl, toInt_codeOf c⟩
  · rintro ⟨j, hj, hi⟩
    cases v with
    | int n =>
      obtain rfl := Except.ok.inj hj
      exact .int hi
    | char c =>
      obtain rfl := Except.ok.inj hj
      rw [toInt_codeOf] at hi
      obtain rfl : c.toNat = i := Int.ofNat.inj hi
      exact .char c
    | _ => cases hj

/-- A position among elements is found, or there is no such position. -/
theorem slot_eq (n : Nat) (j : Int64) (l : Location) :
    (∃ i : Nat, j.toInt = i ∧ i < n ∧ slot n j l = .ok i) ∨
      (∀ i : Nat, j.toInt = i → ¬i < n) ∧ slot n j l = .error (.indexOutOfRange j n l) := by
  by_cases h : 0 ≤ j.toInt ∧ j.toInt < n
  · exact .inl ⟨j.toInt.toNat, by omega, by omega, by rw [slot, if_pos h]⟩
  · exact .inr ⟨fun i hi hlt ↦ h (by omega), by rw [slot, if_neg h]⟩

theorem exists_position {j : Int64} {P : Nat → Prop} (hj : j.toInt = i) :
    (∃ k : Nat, j.toInt = k ∧ P k) ↔ P i := by
  rw [hj]
  exact ⟨fun ⟨k, hk, h⟩ ↦ Int.ofNat.inj hk ▸ h, fun h ↦ ⟨i, rfl, h⟩⟩

/-- Reading an element succeeds exactly at the positions of elements. -/
theorem element_eq_ok_iff {j : Int64} :
    root.element j l = .ok w ↔ ∃ i : Nat, j.toInt = i ∧ root.item? i = some w := by
  cases root with
  | array items =>
    rcases slot_eq items.length j l with ⟨i, hj, hlt, hslot⟩ | ⟨hnone, hslot⟩
    · rw [exists_position hj]
      simp [element, item?, hslot, bind, Except.bind, List.getElem?_eq_getElem hlt]
    · refine iff_of_false (by simp [element, hslot, bind, Except.bind]) ?_
      rintro ⟨i, hj, hi⟩
      exact hnone i hj (List.getElem?_eq_some_iff.mp hi).1
  | str s =>
    rcases slot_eq s.toList.length j l with ⟨i, hj, hlt, hslot⟩ | ⟨hnone, hslot⟩
    · rw [exists_position hj]
      simp [element, item?, hslot, bind, Except.bind, List.getElem?_eq_getElem hlt]
    · refine iff_of_false (by simp [element, hslot, bind, Except.bind]) ?_
      rintro ⟨i, hj, hi⟩
      obtain ⟨c, hc, -⟩ := Option.map_eq_some_iff.mp hi
      exact hnone i hj (List.getElem?_eq_some_iff.mp hc).1
  | _ => exact iff_of_false nofun (by simp [item?])

theorem goesInto_array_iff {items : List Value} :
    v.GoesInto (.array items) [i] ↔ i < items.length := by
  refine ⟨fun h ↦ ?_, .item⟩
  cases h with
  | item hi => exact hi
  | inside hi h => cases h

theorem goesInto_str_iff {s : String} :
    v.GoesInto (.str s) [i] ↔ (∃ c, v = .char c) ∧ i < s.toList.length := by
  refine ⟨fun h ↦ ?_, fun ⟨⟨c, hv⟩, hi⟩ ↦ .character hv hi⟩
  cases h with
  | character hv hi => exact ⟨⟨_, hv⟩, hi⟩

theorem putInto_array {items : List Value} :
    v.putInto (.array items) [i] = .array (items.set i v) := by
  rw [putInto, List.set_eq_modify]
  rfl

/-- Writing an element succeeds exactly at the positions that the value can be put at. -/
theorem setElement_eq_ok_iff {j : Int64} :
    root.setElement j v l = .ok w ↔
      ∃ i : Nat, j.toInt = i ∧ v.GoesInto root [i] ∧ v.putInto root [i] = w := by
  cases root with
  | array items =>
    rcases slot_eq items.length j l with ⟨i, hj, hlt, hslot⟩ | ⟨hnone, hslot⟩
    · rw [exists_position hj, goesInto_array_iff, putInto_array]
      simp [setElement, hslot, bind, Except.bind, pure, Except.pure, hlt]
    · refine iff_of_false (by simp [setElement, hslot, bind, Except.bind]) ?_
      rintro ⟨i, hj, hi, -⟩
      exact hnone i hj (goesInto_array_iff.mp hi)
  | str s =>
    cases v with
    | char c =>
      rcases slot_eq s.toList.length j l with ⟨i, hj, hlt, hslot⟩ | ⟨hnone, hslot⟩
      · rw [exists_position hj, goesInto_str_iff]
        simp [setElement, hslot, bind, Except.bind, pure, Except.pure, hlt, putInto]
      · refine iff_of_false (by simp [setElement, hslot, bind, Except.bind]) ?_
        rintro ⟨i, hj, hi, -⟩
        exact hnone i hj (goesInto_str_iff.mp hi).2
    | _ => exact iff_of_false nofun (by simp [goesInto_str_iff])
  | _ =>
    refine iff_of_false nofun ?_
    rintro ⟨i, -, h, -⟩
    cases h

/-! ## Paths from their ends -/

theorem at?_append_singleton :
    root.at? (path ++ [i]) = (root.at? path).bind (·.item? i) := by
  induction path generalizing root with
  | nil => simp [at?]
  | cons k path ih =>
    rw [List.cons_append, at?, at?]
    cases root.item? k with
    | none => rfl
    | some w => exact ih

/-- A path that leads to a container begins in an array: a character, which is all that a text
holds, is no container. -/
theorem exists_items_of_at? {k : Nat} (hw : root.at? (k :: path) = some w) (hi : v.GoesInto w [i]) :
    ∃ items u, root = .array items ∧ items[k]? = some u ∧ u.at? path = some w := by
  obtain ⟨u, hu, hpath⟩ := Option.bind_eq_some_iff.mp hw
  cases root with
  | array items => exact ⟨items, u, rfl, hu, hpath⟩
  | str s =>
    obtain ⟨c, -, rfl⟩ := Option.map_eq_some_iff.mp hu
    cases path with
    | nil =>
      obtain rfl := Option.some.inj hpath
      cases hi
    | cons k path => cases hpath
  | _ => cases hu

/-- A value goes in at the end of a path if it goes into what the path but for its last position
leads to. -/
theorem goesInto_append_singleton :
    v.GoesInto root (path ++ [i]) ↔ ∃ w, root.at? path = some w ∧ v.GoesInto w [i] := by
  induction path generalizing root with
  | nil => simp [at?]
  | cons k path ih =>
    rw [List.cons_append]
    constructor
    · intro h
      generalize hp : path ++ [i] = p at h
      cases h with
      | item hi => simp at hp
      | character hv hi => simp at hp
      | inside hk h =>
        obtain ⟨w, hw, hi⟩ := ih.mp (hp ▸ h)
        exact ⟨w, by rw [at?, item?, hk, Option.bind_some, hw], hi⟩
    · rintro ⟨w, hw, hi⟩
      obtain ⟨items, u, rfl, hu, hw⟩ := exists_items_of_at? hw hi
      exact .inside hu (ih.mpr ⟨w, hw, hi⟩)

/-- Whatever stands in the place of a container inside the root can be replaced by any value. -/
theorem goesInto_of_at? {v' : Value} (hw : root.at? path = some w) (hi : v.GoesInto w [i])
    (hne : path ≠ []) : v'.GoesInto root path := by
  induction path generalizing root with
  | nil => exact absurd rfl hne
  | cons k path ih =>
    obtain ⟨items, u, rfl, hu, hw⟩ := exists_items_of_at? hw hi
    cases path with
    | nil => exact .item (List.getElem?_eq_some_iff.mp hu).1
    | cons k' path => exact .inside hu (ih hw (List.cons_ne_nil _ _))

theorem modify_congr {α : Type} {f g : α → α} {as : List α} {a : α} (ha : as[i]? = some a)
    (h : f a = g a) : as.modify i f = as.modify i g := by
  rw [List.modify_eq_set_getElem?, List.modify_eq_set_getElem?, ha]
  exact congrArg (as.set i) h

/-- To put a value at the end of a path is to put it into what the path but for its last position
leads to, and to put what comes of that there. -/
theorem putInto_append_singleton (hw : root.at? path = some w) (hi : v.GoesInto w [i]) :
    v.putInto root (path ++ [i]) = (v.putInto w [i]).putInto root path := by
  induction path generalizing root with
  | nil =>
    obtain rfl := Option.some.inj hw
    rw [putInto.eq_1]
    rfl
  | cons k path ih =>
    obtain ⟨items, u, rfl, hu, hw⟩ := exists_items_of_at? hw hi
    rw [List.cons_append, putInto, putInto]
    exact congrArg array (modify_congr hu (ih hw))

/-! ## What is where afterwards -/

/-- The value is where it has been put. -/
theorem at?_putInto (h : v.GoesInto root path) : (v.putInto root path).at? path = some v := by
  induction h with
  | item hi =>
    rw [putInto_array]
    simp [at?, item?, hi]
  | character hv hi =>
    subst hv
    simp [putInto, at?, item?, hi]
  | inside hi h ih =>
    rw [putInto, at?, item?, List.getElem?_modify_eq, hi]
    exact ih

/-- What stands where neither path leads on to the other stays as it is. -/
theorem at?_putInto_of_ne {path' : List Nat} (h : v.GoesInto root path) (hne : ¬path <+: path')
    (hne' : ¬path' <+: path) : (v.putInto root path).at? path' = root.at? path' := by
  induction h generalizing path' with
  | @item items i hi =>
    cases path' with
    | nil => exact absurd List.nil_prefix hne'
    | cons k path' =>
      have hk : i ≠ k := by
        rintro rfl
        exact hne (List.cons_prefix_cons.mpr ⟨rfl, List.nil_prefix⟩)
      rw [putInto_array, at?, at?, item?, item?, List.getElem?_set_ne hk]
  | @character s i c hv hi =>
    cases path' with
    | nil => exact absurd List.nil_prefix hne'
    | cons k path' =>
      have hk : i ≠ k := by
        rintro rfl
        exact hne (List.cons_prefix_cons.mpr ⟨rfl, List.nil_prefix⟩)
      subst hv
      rw [putInto, at?, at?, item?, item?, String.toList_ofList, List.getElem?_set_ne hk]
  | @inside items i w path hi h ih =>
    cases path' with
    | nil => exact absurd List.nil_prefix hne'
    | cons k path' =>
      rw [putInto, at?, at?, item?, item?]
      by_cases hk : i = k
      · subst hk
        rw [List.getElem?_modify_eq, hi]
        refine ih (fun hp ↦ hne ?_) (fun hp ↦ hne' ?_)
        · exact List.cons_prefix_cons.mpr ⟨rfl, hp⟩
        · exact List.cons_prefix_cons.mpr ⟨rfl, hp⟩
      · rw [List.getElem?_modify_ne _ _ hk]

end Scriptlet.Value
