import Mathlib.Logic.Function.Iterate
import Scriptlet.Parse.Program
import Scriptlet.Proofs.Token.Positions
import Scriptlet.Pull.Basic

/-!
# Windows along a text

The windows of a text are those behind some number of calls of `advance` on its first one. There is
one for each token, and one more for the end of the text, where further calls change nothing: by
then the cursor has passed the last gap, and what it finds there is the end again. So a window and a
list of tokens belong together if the list is what the text has from the window on, and each of the
two is known by the other.
-/

namespace Scriptlet

/-- The tokens of a text, the mark of its end not among them. -/
abbrev tokensOf (source : String) : List Token := (Reader.ofText source).tokens

/-- The place of the end of a text. -/
abbrev endOf (source : String) : Location := (Reader.ofText source).fin

/-- No token of a text is the mark of its end. -/
theorem Cursor.kind_ne_eof {c c' : Cursor} {t : Token} (h : c.next? = some (t, c')) :
    t.kind ≠ .eof := by
  simp only [next?] at h
  split at h
  · cases h
  · rename_i ch cs hrest
    obtain ⟨rfl, -⟩ := Prod.mk.inj (Option.some.inj h)
    obtain ⟨text, ⟨behind, rfl⟩, -, hspelled⟩ := readToken_of_prefix ch cs
    intro heof
    rw [show (readToken ch (text ++ behind)).1 = .eof from heof] at hspelled
    exact hspelled

namespace Window

variable {source : String} {fin : Location} {t : Token} {ts : List Token} {w w' : Window}

/-- The window shows the first of the tokens, and the cursor behind it finds the others up to the
end of the text. -/
def Shows (fin : Location) : List Token → Window → Prop
  | [], w => w = ⟨⟨[], fin⟩, ⟨.eof, fin⟩⟩
  | t :: ts, w => w.token = t ∧ t.kind ≠ .eof ∧ w.cursor.tokens = (ts, fin)

/-- What a cursor finds is what the window before it shows. -/
theorem shows_before {c : Cursor} (h : c.tokens = (ts, fin)) : (before c).Shows fin ts := by
  unfold Cursor.tokens at h
  split at h
  · rename_i hnone
    obtain ⟨rfl, rfl⟩ := Prod.mk.inj h
    have hrest : c.skipGap.rest = [] := by
      simp only [Cursor.next?] at hnone
      split at hnone
      · assumption
      · cases hnone
    have hcursor : c.skipGap = ⟨[], c.skipGap.location⟩ := by rw [← hrest]
    rw [Shows, before, Cursor.next, hnone, Option.getD_none, ← hcursor]
  · rename_i t c' hsome
    obtain ⟨rfl, hfin⟩ := Prod.mk.inj h
    rw [Shows, before, Cursor.next, hsome, Option.getD_some]
    exact ⟨rfl, Cursor.kind_ne_eof hsome, Prod.ext rfl hfin⟩

theorem Shows.advance (h : w.Shows fin (t :: ts)) : w.advance.Shows fin ts :=
  shows_before h.2.2

theorem Shows.advance_nil (h : w.Shows fin []) : w.advance = w := by
  rw [h, Window.advance, before, Cursor.next_of_nil rfl]

theorem Shows.kind (h : w.Shows fin ts) : w.token.kind = Parse.kindOf ts := by
  cases ts with
  | nil => rw [h]; rfl
  | cons t ts => rw [h.1]; rfl

theorem Shows.location (h : w.Shows fin ts) : w.token.location = Parse.locationOf fin ts := by
  cases ts with
  | nil => rw [h]; rfl
  | cons t ts => rw [h.1]; rfl

/-- A window is a window of one list only. -/
theorem Shows.unique {us : List Token} (h : w.Shows fin ts) (hus : w.Shows fin us) : ts = us := by
  have heof : ∀ {t : Token} {vs : List Token}, w.Shows fin (t :: vs) → ¬w.Shows fin [] :=
    fun hcons hnil ↦ hcons.2.1 (by rw [← hcons.1, hnil])
  cases ts with
  | nil =>
    cases us with
    | nil => rfl
    | cons u us => exact absurd h (heof hus)
  | cons t ts =>
    cases us with
    | nil => exact absurd hus (heof h)
    | cons u us =>
      obtain ⟨ht, -, hts⟩ := h
      obtain ⟨hu, -, hus⟩ := hus
      rw [← ht, ← hu, (Prod.mk.inj (hts.symm.trans hus)).1]

/-! ## Calls of `advance` -/

/-- The window behind that many calls of `advance` on the first window of a text. -/
def reached (source : String) (k : Nat) : Window := advance^[k] (ofText source)

theorem reached_succ (source : String) (k : Nat) :
    reached source (k + 1) = (reached source k).advance :=
  Function.iterate_succ_apply' advance k _

theorem shows_reached {k : Nat} (hk : k ≤ (tokensOf source).length) :
    (reached source k).Shows (endOf source) ((tokensOf source).drop k) := by
  induction k with
  | zero => exact shows_before rfl
  | succ k ih =>
    have hshows := ih (by omega)
    rw [List.drop_eq_getElem_cons (by omega)] at hshows
    rw [reached_succ]
    exact hshows.advance

/-! ## Windows and what is left of the tokens -/

/-- The window is the one behind some calls of `advance`, and the tokens are those of the text from
there on. -/
def Stands (source : String) (ts : List Token) (w : Window) : Prop :=
  ∃ k ≤ (tokensOf source).length, w = reached source k ∧ ts = (tokensOf source).drop k

theorem stands_reached {k : Nat} (hk : k ≤ (tokensOf source).length) :
    (reached source k).Stands source ((tokensOf source).drop k) :=
  ⟨k, hk, rfl, rfl⟩

namespace Stands

theorem shows (h : w.Stands source ts) : w.Shows (endOf source) ts := by
  obtain ⟨k, hk, rfl, rfl⟩ := h
  exact shows_reached hk

theorem token (h : w.Stands source (t :: ts)) : w.token = t := h.shows.1

theorem kind_ne_eof (h : w.Stands source (t :: ts)) : t.kind ≠ .eof := h.shows.2.1

theorem kind (h : w.Stands source ts) : w.token.kind = Parse.kindOf ts := h.shows.kind

theorem kind_cons (h : w.Stands source (t :: ts)) : w.token.kind = t.kind := by rw [h.token]

theorem location (h : w.Stands source ts) :
    w.token.location = Parse.locationOf (endOf source) ts :=
  h.shows.location

theorem advance (h : w.Stands source (t :: ts)) : w.advance.Stands source ts := by
  obtain ⟨k, hk, rfl, hts⟩ := h
  have hlength := congrArg List.length hts
  rw [List.length_cons, List.length_drop] at hlength
  refine ⟨k + 1, by omega, (reached_succ source k).symm, ?_⟩
  rw [← List.drop_drop, ← hts, List.drop_one, List.tail_cons]

theorem advance_nil (h : w.Stands source []) : w.advance = w := h.shows.advance_nil

/-- The error of meeting a window's token is that of meeting the tokens. -/
theorem unexpected (h : w.Stands source ts) (wanted : Expectation) :
    w.unexpected wanted = Parse.unexpected (endOf source) wanted ts := by
  obtain ⟨c, k, l⟩ := w
  obtain rfl : k = Parse.kindOf ts := h.kind
  obtain rfl : l = Parse.locationOf (endOf source) ts := h.location
  rfl

/-- How far a window is along the text is told by how many tokens are left. -/
theorem exists_reached (h : w.Stands source ts) :
    ∃ k, k + ts.length = (tokensOf source).length ∧ w = reached source k := by
  obtain ⟨k, hk, rfl, rfl⟩ := h
  exact ⟨k, by rw [List.length_drop]; omega, rfl⟩

/-- So the tokens that are left tell the window. -/
theorem unique (h : w.Stands source ts) (h' : w'.Stands source ts) : w = w' := by
  obtain ⟨k, hk, rfl⟩ := h.exists_reached
  obtain ⟨k', hk', rfl⟩ := h'.exists_reached
  rw [show k = k' by omega]

theorem atEnd (h : w.Stands source ts) : w.token.kind = .eof ↔ ts = [] := by
  rw [h.kind]
  cases ts with
  | nil => simp [Parse.kindOf]
  | cons t ts => simpa [Parse.kindOf] using h.kind_ne_eof

end Stands

/-- The windows of a text up to its end are all different. -/
theorem reached_inj {j k : Nat} (hj : j ≤ (tokensOf source).length)
    (hk : k ≤ (tokensOf source).length) (h : reached source j = reached source k) : j = k := by
  have hdrop := (shows_reached hj).unique (h ▸ shows_reached hk)
  have hlength := congrArg List.length hdrop
  rw [List.length_drop, List.length_drop] at hlength
  omega

end Window

/-! ## Runs -/

namespace Pull

variable {α β : Type} {w w' : Window}

theorem run_bind_of_ok {x : Pull α} {a : α} (h : x.run w = some (.ok a, w')) (f : α → Pull β) :
    (x >>= f).run w = (f a).run w' := by
  simp only [run, ExceptT.run_bind, StateT.run_bind] at h ⊢
  rw [h]
  rfl

theorem run_bind_of_error {x : Pull α} {e : ParseError} (h : x.run w = some (.error e, w'))
    (f : α → Pull β) : (x >>= f).run w = some (.error e, w') := by
  simp only [run, ExceptT.run_bind, StateT.run_bind] at h ⊢
  rw [h]
  rfl

theorem run_refuse (wanted : Expectation) :
    (refuse wanted : Pull α).run w = some (.error (w.unexpected wanted), w) := rfl

theorem run_token (f : Token → Pull α) : (token >>= f).run w = (f w.token).run w := rfl

theorem run_location (f : Location → Pull α) :
    (location >>= f).run w = (f w.token.location).run w := rfl

theorem run_advance (f : Token → Pull α) :
    (advance >>= f).run w = (f w.token).run w.advance := rfl

theorem run_keyword? (f : Option Keyword → Pull α) :
    (keyword? >>= f).run w = (f w.token.kind.reserved?).run w := rfl

theorem run_at? (s : Symbol) (f : Bool → Pull α) :
    (at? s >>= f).run w = (f (decide (w.token.kind = .symbol s))).run w := rfl

theorem run_take? (s : Symbol) (f : Bool → Pull α) :
    (take? s >>= f).run w
      = if w.token.kind = .symbol s then (f true).run w.advance else (f false).run w := by
  rw [take?, bind_assoc, run_at?]
  by_cases h : w.token.kind = .symbol s
  · rw [decide_eq_true h, if_pos rfl, if_pos h]
    rfl
  · rw [decide_eq_false h, if_neg Bool.false_ne_true, if_neg h]
    rfl

/-! ### Conditions on the window -/

variable (x y : Pull α)

theorem run_ifAt (s : Symbol) :
    (do if ← at? s then x else y : Pull α).run w
      = if w.token.kind = .symbol s then x.run w else y.run w := by
  rw [run_at?]
  by_cases h : w.token.kind = .symbol s <;> simp only [h, decide_true, decide_false, if_true,
    if_false, Bool.false_eq_true]

theorem run_ifAtEnd :
    (do if ← atEnd? then x else y : Pull α).run w
      = if w.token.kind = .eof then x.run w else y.run w := by
  have hrun : ∀ f : Bool → Pull α,
      (atEnd? >>= f).run w = (f (decide (w.token.kind = .eof))).run w := fun _ ↦ rfl
  rw [hrun]
  by_cases h : w.token.kind = .eof <;> simp only [h, decide_true, decide_false, if_true, if_false,
    Bool.false_eq_true]

theorem run_ifTake (s : Symbol) :
    (do if ← take? s then x else y : Pull α).run w
      = if w.token.kind = .symbol s then x.run w.advance else y.run w := by
  rw [run_take?]
  rfl

theorem run_ifTakeEither (s s' : Symbol) :
    (do if ← takeEither? s s' then x else y : Pull α).run w
      = if w.token.kind = .symbol s ∨ w.token.kind = .symbol s' then x.run w.advance
        else y.run w := by
  rw [takeEither?, bind_assoc, run_take?]
  by_cases h : w.token.kind = .symbol s
  · rw [if_pos h, if_pos rfl, if_pos (Or.inl h)]
    rfl
  · rw [if_neg h, if_neg Bool.false_ne_true, run_ifTake]
    simp only [h, false_or]

end Pull

end Scriptlet
