import Scriptlet.Proofs.Parse.Open
import Scriptlet.Proofs.Parse.Sequel.Program
import Scriptlet.Proofs.Pull.Window
import Scriptlet.Pull.Grammar

/-!
# Runs that follow replies

A parser of lists says with its reply that it ends, since tokens are used up with each value.
Nothing of that kind is said by a parser that pulls tokens, so the two are compared: a run follows a
reply if it ends with the same value or the same error, at the window that belongs to the tokens
which the reply leaves. That a run follows a reply is kept by each way in which the grammar puts
parsers together, and goes form by form from the parsers for fewer tokens to those for more. Since
each list has a reply, each run comes to an end.
-/

namespace Scriptlet.Pull

open Parse (Parsers kindOf locationOf)

variable {α β : Type} {source : String} {ts us rest : List Token} {w w' : Window}

/-- The run ends as the reply does, and no farther back than where the reply began. -/
def Follows (source : String) (outcome : Option (Except ParseError α × Window))
    (r : Reply α ts) : Prop :=
  match r with
  | .ok value rest _ => ∃ w, outcome = some (.ok value, w) ∧ w.Stands source rest
  | .fail e rest =>
    ∃ w, outcome = some (.error e, w) ∧ w.Stands source rest ∧ rest.length ≤ ts.length

/-! ## Ways to put parsers together -/

theorem follows_ok {value : α} (hw : w.Stands source rest) {h : rest.length < ts.length} :
    Follows source (some (.ok value, w)) (.ok value rest h : Reply α ts) :=
  ⟨w, rfl, hw⟩

theorem follows_one {t : Token} {value : α} (hw : w.Stands source us) :
    Follows source (some (.ok value, w)) (.one value : Reply α (t :: us)) :=
  follows_ok hw

theorem follows_stop {wanted : Expectation} (hw : w.Stands source ts)
    (hle : ts.length ≤ us.length) :
    Follows source (some (.error (w.unexpected wanted), w))
      (Parse.stop (endOf source) wanted ts : Reply α us) := by
  rw [hw.unexpected]
  exact ⟨w, rfl, hw, hle⟩

namespace Follows

variable {outcome : Option (Except ParseError α × Window)} {x : Pull α} {f : α → Pull β}

theorem of_ok {r : Reply α ts} (hr : Follows source outcome r) {value : α}
    {h : rest.length < ts.length} (heq : r = .ok value rest h) :
    ∃ w, outcome = some (.ok value, w) ∧ w.Stands source rest := by
  subst heq
  exact hr

theorem of_fail {r : Reply α ts} (hr : Follows source outcome r) {e : ParseError}
    (heq : r = .fail e rest) :
    ∃ w, outcome = some (.error e, w) ∧ w.Stands source rest ∧ rest.length ≤ ts.length := by
  subst heq
  exact hr

/-- A run that fails where the reply does, before what was still to be done. -/
theorem bind_of_fail {r : Reply α us} (hr : Follows source (x.run w) r) {e : ParseError}
    (heq : r = .fail e rest) (hle : us.length ≤ ts.length) :
    Follows source ((x >>= f).run w) (.fail e rest : Reply β ts) := by
  obtain ⟨w', hrun, hw', hrest⟩ := hr.of_fail heq
  exact ⟨w', run_bind_of_error hrun f, hw', hrest.trans hle⟩

theorem bind {r : Reply α us} (hr : Follows source (x.run w) r) (hle : us.length ≤ ts.length)
    {k : (value : α) → (rest : List Token) → rest.length < us.length → Reply β ts}
    (hk : ∀ value rest h w', w'.Stands source rest →
      Follows source ((f value).run w') (k value rest h)) :
    Follows source ((x >>= f).run w) (r.andThen k) := by
  cases r with
  | ok value rest h =>
    obtain ⟨w', hrun, hw'⟩ := hr
    rw [run_bind_of_ok hrun]
    exact hk value rest h w' hw'
  | fail e rest => exact hr.bind_of_fail rfl hle

theorem mapBind {γ : Type} {g : α → γ} {r : Reply α us} (hr : Follows source (x.run w) r)
    (hle : us.length ≤ ts.length)
    {k : (value : γ) → (rest : List Token) → rest.length < us.length → Reply β ts}
    (hk : ∀ value rest h w', w'.Stands source rest →
      Follows source ((f value).run w') (k (g value) rest h)) :
    Follows source ((x >>= f).run w) ((r.map g).andThen k) := by
  cases r with
  | ok value rest h => exact hr.bind (k := fun value ↦ k (g value)) hle hk
  | fail e rest => exact hr.bind_of_fail rfl hle

theorem within {r : Reply α us} (hr : Follows source (x.run w) r) {h : us.length < ts.length}
    {g : α → β} : Follows source ((x >>= fun a ↦ pure (g a)).run w) (r.within h g) := by
  cases r with
  | ok value rest _ =>
    obtain ⟨w', hrun, hw'⟩ := hr
    rw [run_bind_of_ok hrun]
    exact follows_ok hw'
  | fail e rest => exact hr.bind_of_fail rfl (Nat.le_of_lt h)

theorem behind {t : Token} {r : Reply α us} (hr : Follows source (x.run w) r) {g : α → β} :
    Follows source ((x >>= fun a ↦ pure (g a)).run w) (r.behind g : Reply β (t :: us)) :=
  hr.within

theorem map {r : Reply α ts} (hr : Follows source (x.run w) r) {g : α → β} :
    Follows source ((x >>= fun a ↦ pure (g a)).run w) (r.map g) := by
  cases r with
  | ok value rest _ =>
    obtain ⟨w', hrun, hw'⟩ := hr
    rw [run_bind_of_ok hrun]
    exact follows_ok hw'
  | fail e rest => exact hr.bind_of_fail rfl le_rfl

theorem mapWithin {γ : Type} {g : α → γ} {g' : γ → β} {r : Reply α us}
    (hr : Follows source (x.run w) r) {h : us.length < ts.length} :
    Follows source ((x >>= fun a ↦ pure (g' (g a))).run w) ((r.within h g).map g') := by
  cases r with
  | ok value rest _ => exact hr.within (h := h)
  | fail e rest => exact hr.bind_of_fail rfl (Nat.le_of_lt h)

/-- A reply about fewer tokens is followed as one about more. -/
theorem widen {r : Reply α us} (hr : Follows source outcome r) {h : us.length < ts.length} :
    Follows source outcome (r.within h id) := by
  cases r with
  | ok value rest _ => exact hr
  | fail e rest =>
    obtain ⟨w', hrun, hw', hrest⟩ := hr
    exact ⟨w', hrun, hw', hrest.trans (Nat.le_of_lt h)⟩

/-- So it is with one token in front. -/
theorem deeper {t : Token} {r : Reply α us} (hr : Follows source outcome r) :
    Follows source outcome (r.behind id : Reply α (t :: us)) :=
  hr.widen

end Follows

/-! ## Words -/

theorem eq_cons_of_symbol {s : Symbol} (h : kindOf ts = .symbol s) :
    ∃ l rest, ts = ⟨.symbol s, l⟩ :: rest :=
  eq_cons_of_kindOf h (by simp)

theorem kindOf_ne {s : Symbol}
    (h : ∀ (l : Location) (rest : List Token), ts = ⟨.symbol s, l⟩ :: rest → False) :
    kindOf ts ≠ .symbol s := by
  intro hkind
  obtain ⟨l, rest, hts⟩ := eq_cons_of_symbol hkind
  exact h l rest hts

/-- The symbol that has to be there is taken where it is. -/
theorem run_expect {s : Symbol} {wanted : Expectation} {l : Location}
    (hw : w.Stands source (⟨.symbol s, l⟩ :: rest)) :
    (expect s wanted).run w = some (.ok (), w.advance) := by
  rw [expect, run_ifAt, hw.kind_cons, if_pos rfl]
  rfl

theorem follows_expect {s : Symbol} {wanted : Expectation} (hw : w.Stands source ts) :
    Follows source ((expect s wanted).run w) (Parse.expect (endOf source) s wanted ts) := by
  by_cases hkind : kindOf ts = .symbol s
  · obtain ⟨l, rest, rfl⟩ := eq_cons_of_symbol hkind
    rw [run_expect hw, Parse.expect, if_pos rfl]
    exact follows_one hw.advance
  · have hstop : Parse.expect (endOf source) s wanted ts = Parse.stop (endOf source) wanted ts := by
      unfold Parse.expect
      split
      · exact if_neg fun hs ↦ hkind (by rw [← hs]; rfl)
      · rfl
    rw [expect, run_ifAt, hw.kind, if_neg hkind, hstop]
    exact follows_stop hw le_rfl

theorem follows_identifier (hw : w.Stands source ts) :
    Follows source (identifier.run w) (Parse.identifier (endOf source) ts) := by
  unfold Parse.identifier
  split
  · rename_i x l rest
    rw [identifier, run_token, hw.kind_cons]
    dsimp only
    split
    · exact follows_stop hw le_rfl
    · exact follows_one hw.advance
  · rename_i hne
    have hstop : identifier.run w = (refuse .identifier : Pull String).run w := by
      rw [identifier, run_token, hw.kind]
      split
      · rename_i x hkind
        obtain ⟨l, rest, rfl⟩ := eq_cons_of_kindOf hkind (by simp)
        exact absurd rfl (hne x l rest)
      · rfl
    rw [hstop]
    exact follows_stop hw le_rfl

theorem follows_anyName (hw : w.Stands source ts) :
    Follows source (anyName.run w) (Parse.anyName (endOf source) ts) := by
  unfold Parse.anyName
  split
  · rw [anyName, run_token, hw.kind_cons]
    exact follows_one hw.advance
  · rename_i hne
    have hstop : anyName.run w = (refuse .name : Pull String).run w := by
      rw [anyName, run_token, hw.kind]
      split
      · rename_i x hkind
        obtain ⟨l, rest, rfl⟩ := eq_cons_of_kindOf hkind (by simp)
        exact absurd rfl (hne x l rest)
      · rfl
    rw [hstop]
    exact follows_stop hw le_rfl

theorem follows_arrowTarget (hw : w.Stands source ts) :
    Follows source (arrowTarget.run w) (Parse.arrowTarget (endOf source) ts) := by
  rw [arrowTarget, run_location, run_ifTake, hw.kind, hw.location]
  by_cases hkind : kindOf ts = .symbol .at
  · obtain ⟨l, rest, rfl⟩ := eq_cons_of_symbol hkind
    rw [if_pos hkind]
    exact (follows_anyName hw.advance).behind
  · rw [if_neg hkind]
    unfold Parse.arrowTarget
    split
    · exact absurd rfl hkind
    · exact (follows_identifier hw).map

/-! ## Calls

A loop calls itself with fewer tokens left, so for what it calls one level of depth less will do. -/

/-- With one level of depth more a callee does what it does with the calls of the others. -/
theorem depth_succ (n : Nat) (callee : Callee α) :
    (depth (n + 1)).call callee = callee.body (depth n) := rfl

variable {n : Nat}

theorem run_skipTerminators (hn : ts.length < n) (hw : w.Stands source ts) :
    ∃ w', ((depth n).call .skipTerminators).run w = some (.ok (), w')
      ∧ w'.Stands source (Parse.skipTerminators ts) := by
  induction n generalizing ts w with
  | zero => exact absurd hn (Nat.not_lt_zero _)
  | succ n ih =>
    rw [depth_succ, Callee.body, skipTerminators, run_ifTake, hw.kind]
    by_cases hkind : kindOf ts = .symbol .semicolon
    · obtain ⟨l, rest, rfl⟩ := eq_cons_of_symbol hkind
      rw [if_pos hkind, Parse.skipTerminators_semicolon]
      exact ih (by rw [List.length_cons] at hn; omega) hw.advance
    · rw [if_neg hkind, Parse.skipTerminators_stop hkind]
      exact ⟨w, rfl, hw⟩

theorem follows_dottedNames {first : String} {origin : List Token}
    {h : ts.length < origin.length} (hn : ts.length < n) (hw : w.Stands source ts) :
    Follows source (((depth n).call (.dottedNames first)).run w)
      (Parse.dottedNames (endOf source) first origin ts h) := by
  induction n generalizing ts first w with
  | zero => exact absurd hn (Nat.not_lt_zero _)
  | succ n ih =>
    rw [depth_succ, Callee.body, dottedNames, run_ifTake, hw.kind]
    by_cases hkind : kindOf ts = .symbol .dot
    · obtain ⟨l, rest, rfl⟩ := eq_cons_of_symbol hkind
      rw [if_pos hkind, Parse.dottedNames_dot]
      rw [List.length_cons] at hn h
      refine (follows_identifier hw.advance).bind (by omega) fun x rest' hr w' hw' ↦ ?_
      exact ih (by omega) hw'
    · rw [if_neg hkind, Parse.dottedNames_stop hkind]
      exact follows_ok hw

/-! ### Brackets -/

/-- A reading that came to nothing leaves the window where it was, any other one where it ended. -/
theorem run_speculate {reading : Pull Bool} {b : Bool} (h : reading.run w = some (.ok b, w')) :
    (speculate reading).run w = some (.ok b, if b then w' else w) := by
  have hrun : (speculate reading).run w
      = (reading >>= fun b ↦ if b then pure true else do set w; pure false).run w := rfl
  rw [hrun, run_bind_of_ok h]
  cases b <;> rfl

/-- The bracket behind the one in the window closes it, or both are left. -/
theorem run_closedBracket (w : Window) :
    closedBracket.run w = if w.advance.token.kind = .symbol .closeBracket
      then some (.ok true, w.advance.advance) else some (.ok false, w) := by
  have hreading : (do let _ ← advance; take? .closeBracket : Pull Bool).run w
      = if w.advance.token.kind = .symbol .closeBracket
        then some (.ok true, w.advance.advance) else some (.ok false, w.advance) := by
    rw [run_advance, ← bind_pure (take? .closeBracket), run_take?]
    rfl
  rw [closedBracket]
  by_cases h : w.advance.token.kind = .symbol .closeBracket
  · rw [if_pos h] at hreading ⊢
    exact run_speculate hreading
  · rw [if_neg h] at hreading ⊢
    exact run_speculate hreading

theorem run_brackets (rank : Nat) (hn : ts.length < n) (hw : w.Stands source ts) :
    ∃ w', ((depth n).call (.brackets rank)).run w = some (.ok (rank + (Parse.brackets ts).1), w')
      ∧ w'.Stands source (Parse.brackets ts).2 := by
  induction n generalizing ts rank w with
  | zero => exact absurd hn (Nat.not_lt_zero _)
  | succ n ih =>
    rw [depth_succ, Callee.body, brackets, run_ifAt, hw.kind]
    by_cases hopen : kindOf ts = .symbol .openBracket
    · obtain ⟨l, rest, rfl⟩ := eq_cons_of_symbol hopen
      have hrun := run_closedBracket w
      rw [hw.advance.kind] at hrun
      rw [if_pos hopen]
      by_cases hclose : kindOf rest = .symbol .closeBracket
      · obtain ⟨l', rest, rfl⟩ := eq_cons_of_symbol hclose
        rw [List.length_cons, List.length_cons] at hn
        obtain ⟨w', hmore, hw'⟩ := ih (rank + 1) (by omega) hw.advance.advance
        rw [if_pos hclose] at hrun
        refine ⟨w', ?_, hw'⟩
        rw [run_bind_of_ok hrun, if_pos rfl, hmore, Nat.add_right_comm]
        rfl
      · rw [if_neg hclose] at hrun
        rw [run_bind_of_ok hrun, if_neg Bool.false_ne_true, Parse.brackets_stop]
        · exact ⟨w, rfl, hw⟩
        · exact fun l l' us hcons ↦ ne_cons_of_kindOf hclose (List.cons.inj hcons).2
    · rw [if_neg hopen, Parse.brackets_stop fun l l' us ↦ ne_cons_of_kindOf hopen]
      exact ⟨w, rfl, hw⟩

/-! ### Types and parameters -/

theorem follows_typeExpr (hn : ts.length ≤ n) (hw : w.Stands source ts) :
    Follows source ((typeExpr (depth n)).run w) (Parse.typeExpr (endOf source) ts) := by
  rw [typeExpr, run_location]
  refine (follows_identifier hw).bind le_rfl fun first rest hr w₁ hw₁ ↦ ?_
  refine (follows_dottedNames (by omega) hw₁).bind le_rfl fun name rest hr w₂ hw₂ ↦ ?_
  obtain ⟨w₃, hrun, hw₃⟩ := run_brackets 0 (hr.trans_le hn) hw₂
  rw [run_bind_of_ok hrun, Nat.zero_add, hw.location]
  exact follows_ok hw₃

theorem follows_optionalTypeExpr {origin : List Token} {h : ts.length < origin.length}
    (hn : ts.length ≤ n) (hw : w.Stands source ts) :
    Follows source ((optionalTypeExpr (depth n)).run w)
      (Parse.optionalTypeExpr (endOf source) origin ts h) := by
  rw [optionalTypeExpr, run_ifTake, hw.kind]
  by_cases hkind : kindOf ts = .symbol .colon
  · obtain ⟨l, rest, rfl⟩ := eq_cons_of_symbol hkind
    rw [if_pos hkind, Parse.optionalTypeExpr_colon]
    exact (follows_typeExpr (Nat.le_of_succ_le hn) hw.advance).within
  · rw [if_neg hkind, Parse.optionalTypeExpr_stop hkind]
    exact follows_ok hw

theorem follows_param (hn : ts.length ≤ n) (hw : w.Stands source ts) :
    Follows source ((param (depth n)).run w) (Parse.param (endOf source) ts) := by
  refine (follows_identifier hw).bind le_rfl fun x rest hr w' hw' ↦ ?_
  exact (follows_optionalTypeExpr (by omega) hw').map

/-- The parameters and what closes them; a list of parameters is read together with its end. -/
theorem follows_paramLoop (hn : ts.length < n) (hw : w.Stands source ts) :
    Follows source ((do
        let ps ← (depth n).call .paramLoop
        expect .closeParen .closeParams
        return ps : Pull (List Param)).run w) (Parse.paramLoop (endOf source) ts) := by
  induction n generalizing ts w with
  | zero => exact absurd hn (Nat.not_lt_zero _)
  | succ n ih =>
    rw [depth_succ, Callee.body, paramLoop, bind_assoc, Parse.paramLoop_eq]
    refine (follows_param (by omega) hw).bind le_rfl fun p rest hr w' hw' ↦ ?_
    rw [bind_assoc, run_take?, hw'.kind]
    by_cases hkind : kindOf rest = .symbol .comma
    · obtain ⟨l, rest, rfl⟩ := eq_cons_of_symbol hkind
      rw [List.length_cons] at hr
      rw [if_pos hkind, if_pos rfl, bind_assoc]
      have hloop := (ih (by omega) hw'.advance).within
        (h := length_lt_of_succ hr) (g := (p :: ·))
      simp only [bind_assoc, pure_bind] at hloop ⊢
      exact hloop
    · rw [if_neg hkind, if_neg Bool.false_ne_true, pure_bind]
      split
      · exact absurd rfl hkind
      · exact (follows_expect hw').within

theorem follows_params (hn : ts.length ≤ n) (hw : w.Stands source ts) :
    Follows source ((params (depth n)).run w) (Parse.params (endOf source) ts) := by
  refine (follows_expect hw).bind le_rfl fun _ rest hr w' hw' ↦ ?_
  rw [run_at?, hw'.kind]
  dsimp only
  by_cases hkind : kindOf rest = .symbol .closeParen
  · obtain ⟨l, rest, rfl⟩ := eq_cons_of_symbol hkind
    rw [decide_eq_true hkind, if_pos rfl, pure_bind, run_bind_of_ok (run_expect hw')]
    exact follows_ok hw'.advance
  · rw [decide_eq_false hkind, if_neg Bool.false_ne_true]
    split
    · exact absurd rfl hkind
    · exact (follows_paramLoop (by omega) hw').widen

/-! ### Constructions and alternatives -/

theorem follows_newTarget {target : Expr} {text : String} {origin : List Token}
    {h : ts.length < origin.length} (hn : ts.length < n) (hw : w.Stands source ts) :
    Follows source (((depth n).call (.newTarget target text)).run w)
      (Parse.newTarget (endOf source) target text origin ts h) := by
  induction n generalizing ts target text w with
  | zero => exact absurd hn (Nat.not_lt_zero _)
  | succ n ih =>
    rw [depth_succ, Callee.body, newTarget, run_location, run_ifTakeEither, hw.kind]
    by_cases hkind : kindOf ts = .symbol .dot ∨ kindOf ts = .symbol .colonColon
    · obtain ⟨s, hs, l, rest, rfl⟩ : ∃ s, (s = .dot ∨ s = .colonColon)
          ∧ ∃ l rest, ts = ⟨.symbol s, l⟩ :: rest := by
        rcases hkind with hkind | hkind
        · exact ⟨_, .inl rfl, eq_cons_of_symbol hkind⟩
        · exact ⟨_, .inr rfl, eq_cons_of_symbol hkind⟩
      rw [if_pos hkind, Parse.newTarget_dot hs, hw.token]
      rw [List.length_cons] at hn h
      refine (follows_identifier hw.advance).bind (by omega) fun x rest' hr w' hw' ↦ ?_
      exact ih (by omega) hw'
    · rw [if_neg hkind]
      rw [not_or] at hkind
      rw [Parse.newTarget_stop hkind.1 hkind.2]
      exact follows_ok hw

theorem follows_newBrackets {rank : Nat} {origin : List Token} {h : ts.length < origin.length}
    (hn : ts.length < n) (hw : w.Stands source ts) :
    Follows source (((depth n).call (.newBrackets rank)).run w)
      (Parse.newBrackets (endOf source) rank origin ts h) := by
  induction n generalizing ts rank w with
  | zero => exact absurd hn (Nat.not_lt_zero _)
  | succ n ih =>
    rw [depth_succ, Callee.body, newBrackets, run_ifTake, hw.kind]
    by_cases hkind : kindOf ts = .symbol .openBracket
    · obtain ⟨l, rest, rfl⟩ := eq_cons_of_symbol hkind
      rw [if_pos hkind, Parse.newBrackets_open]
      rw [List.length_cons] at hn h
      refine (follows_expect hw.advance).bind (by omega) fun _ rest' hr w' hw' ↦ ?_
      exact ih (by omega) hw'
    · rw [if_neg hkind, Parse.newBrackets_stop hkind]
      exact follows_ok hw

/-- An `else` past the semicolons is taken with them, or they are left. -/
theorem run_elseBehind (hn : ts.length < n) (hw : w.Stands source ts) :
    if kindOf (Parse.skipTerminators ts) = .word "else" then
      ∃ w', (elseBehind (depth n)).run w = some (.ok true, w')
        ∧ w'.Stands source (Parse.skipTerminators ts).tail
    else (elseBehind (depth n)).run w = some (.ok false, w) := by
  obtain ⟨w', hskip, hw'⟩ := run_skipTerminators hn hw
  have hreading : (do
      (depth n).call .skipTerminators
      if (← keyword?) = some .else then
        let _ ← advance
        return true
      else return false : Pull Bool).run w
        = if kindOf (Parse.skipTerminators ts) = .word "else"
          then some (.ok true, w'.advance) else some (.ok false, w') := by
    rw [run_bind_of_ok hskip, run_keyword?, hw'.kind]
    simp only [TokenKind.reserved?_eq_else]
    split <;> rfl
  split
  · rename_i helse
    rw [if_pos helse] at hreading
    obtain ⟨l, rest, hts⟩ := eq_cons_of_kindOf helse (by simp)
    rw [hts] at hw' ⊢
    exact ⟨w'.advance, run_speculate hreading, hw'.advance⟩
  · rename_i helse
    rw [if_neg helse] at hreading
    exact run_speculate hreading

end Scriptlet.Pull
