import Scriptlet.Session.InPlace
import Scriptlet.Proofs.Session.Accumulation

/-!
# The line editor

A session counts the characters before its cursor and keeps its line as bytes, and keys that change
the line, or replace it by an earlier input, come in any order. Here the line is a list parted at
the cursor instead, where nothing can go wrong: there is no number that could be beyond an end, and
a character is put in or taken out at the head of a list. An editor is such a line together with the
inputs that were entered and the place of the one that is shown.

Key by key a session does what the editor does. That a cursor always stands within its line, and the
number of a recalled entry within the history, follows from this and is not proved apart. So does
that every key finds the byte that it needs, since no character starts at any byte but those behind
a front of the line.
-/

namespace Scriptlet

/-! ## Lines parted at the cursor -/

/-- A line parted at its cursor: the characters before it, the nearest one first, and those behind
it. -/
structure Zipper where
  before : List Char
  behind : List Char
deriving DecidableEq

namespace Zipper

/-- The empty line. -/
def empty : Zipper := ⟨[], []⟩

/-- A text with the cursor at its end. -/
def ofText (s : String) : Zipper := ⟨s.toList.reverse, []⟩

/-- The characters of the line. -/
def chars (z : Zipper) : List Char := z.before.reverse ++ z.behind

/-- One character to the left, if there is one. -/
def left : Zipper → Zipper
  | ⟨c :: before, behind⟩ => ⟨before, c :: behind⟩
  | ⟨[], behind⟩ => ⟨[], behind⟩

/-- One character to the right, if there is one. -/
def right : Zipper → Zipper
  | ⟨before, c :: behind⟩ => ⟨c :: before, behind⟩
  | ⟨before, []⟩ => ⟨before, []⟩

/-- The start of the line. -/
def home (z : Zipper) : Zipper := ⟨[], z.chars⟩

/-- The end of the line. -/
def toEnd (z : Zipper) : Zipper := ⟨z.chars.reverse, []⟩

/-- A character put in before the cursor. -/
def insert (z : Zipper) (c : Char) : Zipper := { z with before := c :: z.before }

/-- The character before the cursor taken out, if there is one. -/
def backspace (z : Zipper) : Zipper := { z with before := z.before.tail }

/-- The character behind the cursor taken out, if there is one. -/
def delete (z : Zipper) : Zipper := { z with behind := z.behind.tail }

/-- The line with its cursor counted from the start. -/
def toLine (z : Zipper) : InputLine := ⟨z.chars, z.before.length⟩

variable (z : Zipper) (c : Char) (s : String)

theorem toLine_ofText : (ofText s).toLine = .ofText s := by
  rw [toLine, chars, ofText, List.reverse_reverse, List.append_nil, List.length_reverse]
  rfl

theorem toLine_left : z.toLine.left = z.left.toLine := by
  rcases z with ⟨_ | ⟨c, before⟩, behind⟩
  · rfl
  · simp [toLine, chars, left, InputLine.left]

theorem toLine_right : z.toLine.right = z.right.toLine := by
  rcases z with ⟨before, _ | ⟨c, behind⟩⟩
  · simp [toLine, chars, right, InputLine.right]
  · simp [toLine, chars, right, InputLine.right]

theorem toLine_home : z.toLine.home = z.home.toLine := rfl

theorem toLine_toEnd : z.toLine.toEnd = z.toEnd.toLine := by
  simp [toLine, chars, toEnd, InputLine.toEnd, Nat.add_comm]

theorem toLine_insert : z.toLine.insert c = (z.insert c).toLine := by
  have hlen : z.before.length = z.before.reverse.length := List.length_reverse.symm
  rw [InputLine.insert, toLine, chars, hlen, List.take_left, List.drop_left, ← hlen]
  simp [toLine, chars, insert]

theorem toLine_backspace : z.toLine.backspace = z.backspace.toLine := by
  rcases z with ⟨_ | ⟨c, before⟩, behind⟩
  · rfl
  · simp [toLine, chars, backspace, InputLine.backspace, List.eraseIdx_append_of_length_le]

theorem toLine_delete : z.toLine.delete = z.delete.toLine := by
  simp [toLine, chars, delete, InputLine.delete, List.eraseIdx_append_of_length_le]

/-! ### Changes in place

The bytes before the cursor are those of the characters before it, so this is where the line
parts. -/

theorem text_toLine :
    z.toLine.text = String.ofList z.before.reverse ++ String.ofList z.behind :=
  String.ofList_append

/-- The bytes before a character are those of the characters before it. -/
theorem byteOffset_ofList_append (front rest : List Char) :
    Text.byteOffset (String.ofList front ++ String.ofList rest) front.length =
      (String.ofList front).utf8ByteSize := by
  rw [Text.byteOffset_eq, ← String.ofList_append, String.toList_ofList, List.take_left]

theorem insertInPlace?_toLine : z.toLine.insertInPlace? c = some (z.toLine.insert c) := by
  have hbyte := byteOffset_ofList_append z.before.reverse z.behind
  rw [List.length_reverse, ← text_toLine] at hbyte
  have hinsert := Text.insertAt?_eq c (text_toLine z) hbyte
  rw [InputLine.insertInPlace?, show z.toLine.cursor = z.before.length from rfl, hinsert,
    toLine_insert]
  simp [toLine, chars, insert]

/-- A character is taken out where the line is parted before it. -/
theorem removeInPlace?_of_eq {l : InputLine} {front rest : List Char}
    (h : l.chars = front ++ c :: rest) :
    l.removeInPlace? front.length = some ⟨front ++ rest, front.length⟩ := by
  have htext : l.text = String.ofList front ++ (String.singleton c ++ String.ofList rest) := by
    rw [InputLine.text, h, String.ofList_append, ← List.singleton_append, String.ofList_append,
      String.singleton_eq_ofList]
  have hbyte := byteOffset_ofList_append front (c :: rest)
  rw [← String.ofList_append, ← h, ← InputLine.text] at hbyte
  rw [InputLine.removeInPlace?, Text.removeAt?_eq htext hbyte, ← String.ofList_append,
    Option.map_some, String.toList_ofList]

theorem backspaceInPlace?_toLine : z.toLine.backspaceInPlace? = some z.toLine.backspace := by
  rcases z with ⟨_ | ⟨c, before⟩, behind⟩
  · rfl
  · have hchars : (toLine ⟨c :: before, behind⟩).chars = before.reverse ++ c :: behind := by
      simp [toLine, chars]
    have hremove := removeInPlace?_of_eq c hchars
    rw [List.length_reverse] at hremove
    rw [toLine_backspace]
    exact hremove

theorem deleteInPlace?_toLine : z.toLine.deleteInPlace? = some z.toLine.delete := by
  rcases z with ⟨before, _ | ⟨c, behind⟩⟩
  · rw [InputLine.deleteInPlace?, if_neg (by simp [toLine, chars]), toLine_delete]
    rfl
  · have hchars : (toLine ⟨before, c :: behind⟩).chars = before.reverse ++ c :: behind := rfl
    have hremove := removeInPlace?_of_eq c hchars
    rw [List.length_reverse] at hremove
    rw [InputLine.deleteInPlace?, if_pos (by simp [toLine, chars]), toLine_delete]
    exact hremove

end Zipper

/-! ## Editors -/

/-- What a line is to be submitted as, if it is not blank. -/
def Text.input? (chars : List Char) : Option String :=
  if (Text.trim chars).isEmpty then none else some (String.ofList (Text.trim chars))

/-- A line that is edited, the inputs that were entered, and the place of the one that is shown. The
place behind the last input is that of a line of one's own. -/
structure Editor where
  line : Zipper
  inputs : List String
  place : Nat
deriving DecidableEq

namespace Editor

/-- An empty line before which nothing was entered. -/
def start : Editor := ⟨.empty, [], 0⟩

/-- The line changed. -/
def edit (e : Editor) (f : Zipper → Zipper) : Editor := { e with line := f e.line }

/-- The line replaced by the input at a place, or by the empty line behind the last one. -/
def go (e : Editor) (place : Nat) : Editor :=
  { e with line := (e.inputs[place]?).elim .empty .ofText, place := place }

/-- The line taken as an input, unless it is blank, and an empty one behind it. -/
def enter (e : Editor) : Editor :=
  let inputs := e.inputs ++ (Text.input? e.line.chars).toList
  ⟨.empty, inputs, inputs.length⟩

/-- One place back; at the first one it is shown again. -/
def back (e : Editor) : Editor := if e.inputs = [] then e else e.go (e.place - 1)

/-- One place forward, if there is one. -/
def forward (e : Editor) : Editor := if e.place < e.inputs.length then e.go (e.place + 1) else e

/-- Presses a key. Keys that have nothing to do with the line do nothing. -/
def press (e : Editor) : Key → Editor
  | .char c => e.edit (·.insert c)
  | .control c => if c = 'c' then e else e.edit (·.insert c)
  | .backspace => e.edit Zipper.backspace
  | .delete => e.edit Zipper.delete
  | .left => e.edit Zipper.left
  | .right => e.edit Zipper.right
  | .home => e.edit Zipper.home
  | .end => e.edit Zipper.toEnd
  | .enter => e.enter
  | .up => e.back
  | .down => e.forward
  | .escape | .tab | .pageUp | .pageDown | .other => e

variable (e : Editor)

/-! ### Going back and forward -/

theorem back_go {p : Nat} (hp : p ≤ e.inputs.length) : (e.go p).back = e.go (p - 1) := by
  rw [back]
  split
  · have hnil : e.inputs = [] := ‹_›
    rw [hnil, List.length_nil, Nat.le_zero] at hp
    rw [hp]
  · rfl

theorem forward_go {p : Nat} (hp : p ≤ e.inputs.length) :
    (e.go p).forward = e.go (min (p + 1) e.inputs.length) := by
  rw [forward]
  split
  · have hlt : p < e.inputs.length := ‹_›
    rw [Nat.min_eq_left hlt]
    rfl
  · have hge : ¬p < e.inputs.length := ‹_›
    rw [Nat.min_eq_right (by omega), show p = e.inputs.length by omega]

theorem ups_go (n : Nat) {p : Nat} (hp : p ≤ e.inputs.length) :
    (List.replicate n Key.up).foldl press (e.go p) = e.go (p - n) := by
  induction n generalizing p with
  | zero => rfl
  | succ n ih =>
    rw [List.replicate_succ, List.foldl_cons, press, back_go e hp, ih (by omega), Nat.sub_sub,
      Nat.add_comm 1]

theorem downs_go (m : Nat) {p : Nat} (hp : p ≤ e.inputs.length) :
    (List.replicate m Key.down).foldl press (e.go p) = e.go (min (p + m) e.inputs.length) := by
  induction m generalizing p with
  | zero => rw [Nat.add_zero, Nat.min_eq_left hp]; rfl
  | succ m ih =>
    rw [List.replicate_succ, List.foldl_cons, press, forward_go e hp, ih (by omega)]
    congr 1
    omega

/-- Behind an input that was entered comes an empty line. -/
theorem enter_eq_go : e.enter = e.enter.go e.enter.inputs.length := by
  rw [go, List.getElem?_eq_none (Nat.le_refl _)]
  rfl

end Editor

/-! ## Sessions as editors -/

namespace Session

/-- The session has the line and the inputs of the editor, and shows the one at its place. -/
structure Follows (s : Session) (e : Editor) : Prop where
  line : s.line = e.line.toLine
  inputs : s.history.map HistoryEntry.input = e.inputs
  place : s.recalled.getD s.history.length = e.place
  recalled : ∀ i ∈ s.recalled, i < s.history.length

variable {s : Session} {e : Editor} {i : Nat}

theorem follows_start (env : Environment) (registry : Registry) :
    (start env registry).Follows .start where
  line := rfl
  inputs := rfl
  place := rfl
  recalled _ h := absurd h (by simp [start])

theorem Follows.length_eq (h : s.Follows e) : e.inputs.length = s.history.length := by
  rw [← h.inputs, List.length_map]

theorem Follows.cursor_le (h : s.Follows e) : s.line.cursor ≤ s.line.chars.length := by
  rw [h.line]
  simp [Zipper.toLine, Zipper.chars]

theorem Follows.recalled_eq (h : s.Follows e) :
    s.recalled = if e.place < e.inputs.length then some e.place else none := by
  rw [h.length_eq, ← h.place]
  cases hrecalled : s.recalled with
  | none => simp
  | some i =>
    have hi := h.recalled i hrecalled
    simp [hi]

/-! ### Submitting -/

/-- Evaluates or binds an input. -/
def answer (s : Session) : Mode → String → Session × HistoryEntry
  | .evaluate => s.evaluateInput
  | .bind => s.bindInput

theorem submit_of_input {input : String} (h : Text.input? s.line.chars = some input) :
    s.submit = (s.cleared.answer s.mode input).1.record (s.cleared.answer s.mode input).2 := by
  rw [Text.input?] at h
  rw [submit_eq]
  split at h
  · cases h
  · obtain rfl := Option.some.inj h
    rw [if_neg ‹_›]
    cases s.mode <;> rfl

theorem submit_of_blank (h : Text.input? s.line.chars = none) : s.submit = s.cleared := by
  rw [Text.input?] at h
  rw [submit_eq]
  split at h
  · exact if_pos ‹_›
  · cases h

theorem answer_line (s : Session) (mode : Mode) (input : String) :
    let r := s.answer mode input
    r.1.line = s.line ∧ r.1.recalled = s.recalled ∧ r.1.history = s.history ∧
      r.2.input = input := by
  cases mode with
  | evaluate =>
    rw [answer, evaluateInput]
    cases parseProgram input <;> exact ⟨rfl, rfl, rfl, rfl⟩
  | bind =>
    rw [answer, bindInput]
    cases s.boundWith input <;> exact ⟨rfl, rfl, rfl, rfl⟩

/-- Submitting leaves an empty line behind the history, to which nothing but the input is added. -/
theorem submit_line (s : Session) :
    s.submit.line = .empty ∧ s.submit.recalled = none ∧
      ∃ entries, s.submit.history = s.history ++ entries ∧
        entries.map HistoryEntry.input = (Text.input? s.line.chars).toList := by
  cases hinput : Text.input? s.line.chars with
  | none =>
    rw [submit_of_blank hinput]
    exact ⟨rfl, rfl, [], (List.append_nil _).symm, rfl⟩
  | some input =>
    obtain ⟨hline, hrecalled, hhistory, hentry⟩ := s.cleared.answer_line s.mode input
    rw [submit_of_input hinput]
    exact ⟨hline, hrecalled, [_], congrArg (· ++ _) hhistory, congrArg ([·]) hentry⟩

theorem Follows.submit (h : s.Follows e) : s.submit.Follows e.enter := by
  obtain ⟨hline, hrecalled, entries, hhistory, hinputs⟩ := s.submit_line
  have hall : s.submit.history.map HistoryEntry.input = e.enter.inputs := by
    rw [hhistory, List.map_append, h.inputs, hinputs, h.line]
    rfl
  refine ⟨hline, hall, ?_, ?_⟩
  · rw [hrecalled, Option.getD_none, ← List.length_map (f := HistoryEntry.input), hall]
    rfl
  · rw [hrecalled]
    exact fun _ hnone ↦ absurd hnone (by simp)

/-! ### Recalling -/

theorem showEntryAt?_of_lt (h : i < s.history.length) :
    s.showEntryAt? i = some (s.showEntry i) := by
  rw [showEntryAt?, showEntry, List.getElem?_eq_getElem h]
  rfl

theorem Follows.showEntry (h : s.Follows e) (hi : i < s.history.length) :
    (s.showEntry i).Follows (e.go i) := by
  rw [Session.showEntry, List.getElem?_eq_getElem hi]
  refine ⟨?_, h.inputs, rfl, fun j hj ↦ ?_⟩
  · rw [Editor.go, ← h.inputs, List.getElem?_map, List.getElem?_eq_getElem hi]
    exact (Zipper.toLine_ofText _).symm
  · cases hj
    exact hi

theorem Follows.showNone (h : s.Follows e) :
    Follows { s with recalled := none, line := .empty } (e.go e.inputs.length) := by
  refine ⟨?_, h.inputs, h.length_eq.symm, fun _ hnone ↦ absurd hnone (by simp)⟩
  rw [Editor.go, List.getElem?_eq_none (Nat.le_refl _)]
  rfl

theorem Follows.recallPrevious_eq (h : s.Follows e) :
    s.recallPrevious = if s.history = [] then s else s.showEntry (e.place - 1) := by
  have hshow : s.recallPrevious = s.showEntry (e.place - 1) := by
    rw [Session.recallPrevious, ← h.place]
    cases s.recalled <;> rfl
  rw [hshow]
  split
  · -- in an empty history there is nothing to be shown
    have hnil : s.history = [] := ‹_›
    rw [Session.showEntry, hnil]
    rfl
  · rfl

theorem Follows.previous_lt (h : s.Follows e) (hne : s.history ≠ []) :
    e.place - 1 < s.history.length := by
  have hpos : 0 < s.history.length := List.length_pos_iff.mpr hne
  rw [← h.place]
  cases hrecalled : s.recalled with
  | none => exact Nat.sub_lt hpos Nat.one_pos
  | some i => exact Nat.lt_of_le_of_lt (Nat.sub_le i 1) (h.recalled i hrecalled)

theorem Follows.recallPrevious (h : s.Follows e) : s.recallPrevious.Follows e.back := by
  have hnil : e.inputs = [] ↔ s.history = [] := by rw [← h.inputs, List.map_eq_nil_iff]
  rw [h.recallPrevious_eq, Editor.back]
  by_cases hempty : s.history = []
  · rw [if_pos hempty, if_pos (hnil.mpr hempty)]
    exact h
  · rw [if_neg hempty, if_neg (mt hnil.mp hempty)]
    exact h.showEntry (h.previous_lt hempty)

theorem Follows.recallNext (h : s.Follows e) : s.recallNext.Follows e.forward := by
  have hplace := h.place
  rw [Session.recallNext, Editor.forward, h.length_eq, ← hplace]
  cases hrecalled : s.recalled with
  | none =>
    rw [Option.getD_none, if_neg (Nat.lt_irrefl _)]
    exact h
  | some i =>
    have hi := h.recalled i hrecalled
    rw [Option.getD_some, if_pos hi]
    dsimp only
    split
    · exact h.showEntry ‹_›
    · have hlast : i + 1 = e.inputs.length := by
        rw [h.length_eq]
        omega
      rw [hlast]
      exact h.showNone

/-! ### Keys -/

theorem Follows.edit (h : s.Follows e) {f : InputLine → InputLine} {g : Zipper → Zipper}
    (hf : ∀ z, f z.toLine = (g z).toLine) : (s.edit f).Follows (e.edit g) where
  line := (congrArg f h.line).trans (hf _)
  inputs := h.inputs
  place := h.place
  recalled := h.recalled

theorem Follows.insert (h : s.Follows e) (c : Char) :
    (s.edit (·.insert c)).Follows (e.edit (·.insert c)) :=
  h.edit (f := (·.insert c)) (g := (·.insert c)) (Zipper.toLine_insert · c)

/-- Every key does in a session what it does in an editor. -/
theorem Follows.press (h : s.Follows e) (k : Key) : (s.press k).Follows (e.press k) := by
  cases k with
  | char c => exact h.insert c
  | control c =>
    rw [Session.press, Editor.press]
    split
    · exact ⟨h.line, h.inputs, h.place, h.recalled⟩
    · exact h.insert c
  | backspace => exact h.edit Zipper.toLine_backspace
  | delete => exact h.edit Zipper.toLine_delete
  | left => exact h.edit Zipper.toLine_left
  | right => exact h.edit Zipper.toLine_right
  | home => exact h.edit Zipper.toLine_home
  | «end» => exact h.edit Zipper.toLine_toEnd
  | enter => exact h.submit
  | up => exact h.recallPrevious
  | down => exact h.recallNext
  | escape | tab | pageUp | pageDown | other => exact ⟨h.line, h.inputs, h.place, h.recalled⟩

theorem Follows.keys (h : s.Follows e) (keys : List Key) :
    (keys.foldl Session.press s).Follows (keys.foldl Editor.press e) := by
  induction keys generalizing s e with
  | nil => exact h
  | cons k keys ih => exact ih (h.press k)

/-! ### Changes in place -/

theorem Follows.edit? (h : s.Follows e) {f : InputLine → Option InputLine}
    {g : InputLine → InputLine} (hf : ∀ z : Zipper, f z.toLine = some (g z.toLine)) :
    s.edit? f = some (s.edit g) := by
  rw [Session.edit?, Session.edit, h.line, hf]
  rfl

theorem Follows.insert? (h : s.Follows e) (c : Char) :
    s.edit? (·.insertInPlace? c) = some (s.edit (·.insert c)) :=
  h.edit? (f := (·.insertInPlace? c)) (g := (·.insert c)) (Zipper.insertInPlace?_toLine · c)

theorem Follows.recallPrevious? (h : s.Follows e) :
    s.recallPrevious? = some s.recallPrevious := by
  rw [Session.recallPrevious?, h.recallPrevious_eq]
  by_cases hempty : s.history = []
  · rw [if_pos hempty, if_pos (List.isEmpty_iff.mpr hempty)]
  · rw [if_neg hempty, if_neg (mt List.isEmpty_iff.mp hempty),
      ← showEntryAt?_of_lt (h.previous_lt hempty), ← h.place]
    cases s.recalled <;> rfl

theorem recallNext?_eq (s : Session) : s.recallNext? = some s.recallNext := by
  rw [Session.recallNext?, Session.recallNext]
  cases s.recalled with
  | none => rfl
  | some i =>
    dsimp only
    split
    · exact showEntryAt?_of_lt ‹_›
    · rfl

theorem press?_char (s : Session) (c : Char) :
    s.press? (.char c) = s.edit? (·.insertInPlace? c) :=
  rfl

theorem press?_control (s : Session) (c : Char) : s.press? (.control c) =
    if c = 'c' then some { s with quit := true } else s.edit? (·.insertInPlace? c) :=
  rfl

/-- No key comes to a byte or a number that is not there. -/
theorem Follows.press? (h : s.Follows e) (k : Key) : s.press? k = some (s.press k) := by
  cases k with
  | char c => rw [press?_char, h.insert? c, Session.press]
  | control c =>
    rw [press?_control, Session.press]
    split
    · rfl
    · exact h.insert? c
  | backspace => exact h.edit? Zipper.backspaceInPlace?_toLine
  | delete => exact h.edit? Zipper.deleteInPlace?_toLine
  | up => exact h.recallPrevious?
  | down => exact s.recallNext?_eq
  | _ => rfl

theorem Follows.keys? (h : s.Follows e) (keys : List Key) :
    keys.foldlM Session.press? s = some (keys.foldl Session.press s) := by
  induction keys generalizing s e with
  | nil => rfl
  | cons k keys ih =>
    rw [List.foldlM_cons, h.press? k]
    exact ih (h.press k)

/-! ### The history -/

theorem history_press_of_ne (s : Session) {k : Key} (hk : k ≠ .enter) :
    (s.press k).history = s.history :=
  (congrArg history (s.press_frame hk) :)

theorem history_replicate (s : Session) {k : Key} (hk : k ≠ .enter) (n : Nat) :
    ((List.replicate n k).foldl press s).history = s.history := by
  induction n generalizing s with
  | zero => rfl
  | succ n ih =>
    rw [List.replicate_succ, List.foldl_cons, ih]
    exact s.history_press_of_ne hk

theorem history_press (s : Session) (k : Key) : s.history <+: (s.press k).history := by
  by_cases hk : k = .enter
  · obtain ⟨-, -, entries, hhistory, -⟩ := s.submit_line
    rw [hk]
    exact ⟨entries, hhistory.symm⟩
  · exact ⟨[], by rw [s.history_press_of_ne hk, List.append_nil]⟩

theorem history_keys (s : Session) (keys : List Key) :
    s.history <+: (keys.foldl press s).history := by
  induction keys generalizing s with
  | nil => exact List.prefix_rfl
  | cons k keys ih => exact (history_press s k).trans (ih (s.press k))

/-- The session shows the entry at a place of a history that it has, or an empty line behind the
last one. -/
structure ShowsAt (s : Session) (entries : List HistoryEntry) (place : Nat) : Prop where
  history : s.history = entries
  recalled : s.recalled = if place < entries.length then some place else none
  line : s.line = (entries[place]?).elim .empty fun entry ↦ .ofText entry.input

theorem Follows.showsAt {place : Nat} (h : s.Follows (e.go place)) :
    s.ShowsAt s.history place where
  history := rfl
  recalled := by
    rw [h.recalled_eq, h.length_eq]
    rfl
  line := by
    have hentry : e.inputs[place]? = (s.history[place]?).map HistoryEntry.input := by
      rw [← List.getElem?_map, h.inputs]
      rfl
    rw [h.line, Editor.go]
    dsimp only
    rw [hentry]
    cases s.history[place]? with
    | none => rfl
    | some entry => exact Zipper.toLine_ofText _

/-- Right after an input was submitted, going back `n` inputs and then forward `m` shows the entry
that is `n` before the end and then `m` behind it, but nothing before the first entry or behind the
empty line at the end. -/
theorem Follows.showsAt_recalls (h : s.Follows e) (n m : Nat) :
    let entered := s.press .enter
    let len := entered.history.length
    ((List.replicate n Key.up ++ List.replicate m Key.down).foldl Session.press entered).ShowsAt
      entered.history (min (len - n + m) len) := by
  intro entered len
  have hentered : entered.Follows e.enter := h.submit
  have hlen : e.enter.inputs.length = len := hentered.length_eq
  have hplace : (List.replicate n Key.up ++ List.replicate m Key.down).foldl Editor.press e.enter =
      e.enter.go (min (len - n + m) len) := by
    rw [List.foldl_append, e.enter_eq_go, Editor.ups_go _ _ (Nat.le_refl _),
      Editor.downs_go _ _ (by omega), hlen]
    rfl
  have hshown := hentered.keys (List.replicate n Key.up ++ List.replicate m Key.down)
  rw [hplace] at hshown
  have hhistory := hshown.showsAt
  rw [List.foldl_append, history_replicate _ (by simp), history_replicate _ (by simp)] at hhistory
  rw [List.foldl_append]
  exact hhistory

end Session

/-! ## Bytes of the line -/

theorem Text.byteOffset_lt {s : String} {i : Nat} (h : i < s.toList.length) :
    Text.byteOffset s i < s.utf8ByteSize := by
  have hs : s = String.ofList (s.toList.take i) ++ String.ofList (s.toList.drop i) := by
    rw [← String.ofList_append, List.take_append_drop, String.ofList_toList]
  have hne : String.ofList (s.toList.drop i) ≠ "" := by
    intro hnil
    have hdrop := congrArg String.toList hnil
    rw [String.toList_ofList, String.toList_empty, List.drop_eq_nil_iff] at hdrop
    omega
  have hsize := congrArg String.utf8ByteSize hs
  rw [String.utf8ByteSize_append] at hsize
  have hpos : (String.ofList (s.toList.drop i)).utf8ByteSize ≠ 0 :=
    mt String.utf8ByteSize_eq_zero_iff.mp hne
  rw [Text.byteOffset_eq]
  omega

/-- The bytes at which a key would change the line are all such at which it can be changed: a
character is put in at the first byte of one, or at the byte behind the line, and it is taken out at
its own first byte. -/
structure InputLine.OnCharacters (l : InputLine) : Prop where
  inserts : String.Pos.Raw.IsValid l.text ⟨Text.byteOffset l.text l.cursor⟩
  backspaces : 0 < l.cursor →
    String.Pos.Raw.IsValid l.text ⟨Text.byteOffset l.text (l.cursor - 1)⟩ ∧
      Text.byteOffset l.text (l.cursor - 1) < l.text.utf8ByteSize
  deletes : l.cursor < l.chars.length →
    String.Pos.Raw.IsValid l.text ⟨Text.byteOffset l.text l.cursor⟩ ∧
      Text.byteOffset l.text l.cursor < l.text.utf8ByteSize

theorem InputLine.onCharacters {l : InputLine} (h : l.cursor ≤ l.chars.length) :
    l.OnCharacters := by
  have hlen : l.text.toList.length = l.chars.length := by rw [text, String.toList_ofList]
  refine ⟨Text.isValid_byteOffset _ _, fun hpos ↦ ⟨Text.isValid_byteOffset _ _, ?_⟩,
    fun hlt ↦ ⟨Text.isValid_byteOffset _ _, ?_⟩⟩
  · exact Text.byteOffset_lt (by omega)
  · exact Text.byteOffset_lt (by omega)

/-- Whatever keys are pressed in a new session, none of them comes to a byte or a number that is not
there, and the line is that of an editor in which the same keys are pressed, with its cursor. An
entry that is shown is one of the history, to which entries are only added at the end. Right after
an input was submitted the keys go back entry by entry as far as the first one, and forward again as
far as an empty line. -/
theorem Session.edits_as_editor (env : Environment) (registry : Registry) (keys : List Key) :
    let s := keys.foldl press (start env registry)
    let e := keys.foldl Editor.press .start
    keys.foldlM press? (start env registry) = some s ∧
      (s.line.cursor ≤ s.line.chars.length ∧ s.line.OnCharacters) ∧
      (s.line.chars = e.line.chars ∧ s.line.cursor = e.line.before.length) ∧
      s.history.map HistoryEntry.input = e.inputs ∧
      (∀ i ∈ s.recalled, i < s.history.length) ∧
      (∀ more : List Key, s.history <+: (more.foldl press s).history) ∧
      ∀ n m : Nat,
        let entered := s.press .enter
        let len := entered.history.length
        ((List.replicate n Key.up ++ List.replicate m Key.down).foldl press entered).ShowsAt
          entered.history (min (len - n + m) len) := by
  intro s e
  have hstart := follows_start env registry
  have h : s.Follows e := hstart.keys keys
  refine ⟨hstart.keys? keys, ⟨h.cursor_le, InputLine.onCharacters h.cursor_le⟩,
    ⟨?_, ?_⟩, h.inputs, h.recalled, s.history_keys, h.showsAt_recalls⟩
  · rw [h.line]
    rfl
  · rw [h.line]
    rfl

/-- Characters of two and four bytes around a cursor that moves among them, and the first of two
entries brought back and changed. After it is submitted again, going back twice and forward once
shows the second one. -/
theorem Session.edits_as_editor_of_wide :
    let keys : List Key := [.down, .up, .char 'é', .char '😀', .left, .control 'x', .backspace,
      .char 'a', .delete, .enter, .char 'b', .enter, .up, .up, .up, .home, .delete, .right,
      .char 'ß']
    let s := keys.foldl press (start .withBuiltins .primitive)
    let entered := s.press .enter
    keys.foldlM press? (start .withBuiltins .primitive) = some s ∧
      s.line.chars = ['a', 'ß'] ∧ s.line.cursor = 2 ∧ s.line.OnCharacters ∧
      s.history.map HistoryEntry.input = ["éa", "b"] ∧ s.recalled = some 0 ∧
      entered.history.length = 3 ∧ s.history <+: entered.history ∧
      ([Key.up, .up, .down].foldl press entered).ShowsAt entered.history 2 := by
  intro keys s entered
  obtain ⟨hkeys, ⟨-, hcharacters⟩, ⟨hchars, hcursor⟩, hinputs, -, hprefix, hrecalls⟩ :=
    edits_as_editor .withBuiltins .primitive keys
  have hlen : entered.history.length = 3 := by decide +kernel
  have hshown := hrecalls 2 1
  dsimp only at hshown
  rw [show ((keys.foldl press (start .withBuiltins .primitive)).press .enter).history.length = 3
    from hlen] at hshown
  refine ⟨hkeys, hchars.trans (by decide +kernel), hcursor.trans (by decide +kernel), hcharacters,
    hinputs.trans (by decide +kernel), by decide +kernel, hlen, hprefix [.enter], hshown⟩

end Scriptlet
