import Scriptlet.Parse.Statement

/-!
# Statements that an `else` could go on with

An `if` without an `else` is open: behind it an `else` would still find a place. So is an `if` whose
`else` ends in such a statement. To decide where an `else` belongs, the parser looks for one behind
every statement that could have one, the innermost first, and looking past semicolons it forgets
what it passed when there is none. All of that comes to one fact: no open statement that the parser
gives back has an `else` behind it, however many semicolons stand between.

It is proved by induction on the bound of the parsers. A statement in the place of a branch is given
back by a parser of the bound below, so the `else` that an outer `if` finds cannot be one that an
inner `if` missed.
-/

namespace Scriptlet

/-- An `else` behind the statement would belong to it. -/
inductive Statement.IsOpen : Statement → Prop where
  | alone {l : Location} {x : Expr} {a : Statement} : IsOpen (.cond l x a none)
  | within {l : Location} {x : Expr} {a b : Statement} (hb : IsOpen b) :
      IsOpen (.cond l x a (some b))

/-! ## Where a value comes from -/

namespace Reply

variable {α β : Type} {ts us rest : List Token}

theorem of_andThen_eq_ok {r : Reply α us}
    {k : (value : α) → (rest : List Token) → rest.length < us.length → Reply β ts} {value : β}
    {hrest : rest.length < ts.length} (h : r.andThen k = .ok value rest hrest) :
    ∃ a vs hvs, r = .ok a vs hvs ∧ k a vs hvs = .ok value rest hrest := by
  cases r with
  | ok a vs hvs => exact ⟨a, vs, hvs, rfl, h⟩
  | fail e vs => cases h

theorem of_map_eq_ok {r : Reply α ts} {f : α → β} {value : β} {hrest : rest.length < ts.length}
    (h : r.map f = .ok value rest hrest) : ∃ a, value = f a ∧ r = .ok a rest hrest := by
  cases r with
  | ok a vs hvs =>
    obtain ⟨hvalue, rfl⟩ := Reply.ok.inj h
    exact ⟨a, hvalue.symm, rfl⟩
  | fail e vs => cases h

theorem of_within_eq_ok {r : Reply α us} {hus : us.length < ts.length} {f : α → β} {value : β}
    {hrest : rest.length < ts.length} (h : r.within hus f = .ok value rest hrest) :
    ∃ a hrest', value = f a ∧ r = .ok a rest hrest' := by
  cases r with
  | ok a vs hvs =>
    obtain ⟨hvalue, rfl⟩ := Reply.ok.inj h
    exact ⟨a, hvs, hvalue.symm, rfl⟩
  | fail e vs => cases h

end Reply

namespace Parse

open Reply

variable {n : Nat} {fin : Location} {p : Parsers n} {ts rest : List Token}

/-! ## Reading a condition -/

theorem of_expect {s : Symbol} {wanted : Expectation} {u : Unit} {hrest : rest.length < ts.length}
    (h : expect fin s wanted ts = .ok u rest hrest) : ∃ l, ts = ⟨.symbol s, l⟩ :: rest := by
  unfold expect at h
  split at h
  · rename_i s' l us
    split at h
    · rename_i hs
      obtain ⟨-, rfl⟩ := Reply.ok.inj h
      exact ⟨l, by rw [hs]⟩
    · cases h
  · cases h

/-- How a condition is read, behind its first word: what stands between the parentheses, the
statement behind them, which ends at `rest₄`, and either nothing more or, past any semicolons, an
`else` and another statement. -/
theorem of_condition {l : Location} {h : ts.length ≤ n} {st : Statement}
    {hrest : rest.length < ts.length} (heq : condition fin p l ts h = .ok st rest hrest) :
    ∃ rest₁ rest₂ rest₃ rest₄ x a h₁ h₂ h₃ h₄ hx ha,
      expect fin .openParen .openCondition ts = .ok () rest₁ h₁ ∧
      p.expr rest₁ hx = .ok x rest₂ h₂ ∧
      expect fin .closeParen .closeCondition rest₂ = .ok () rest₃ h₃ ∧
      p.statement rest₃ ha = .ok a rest₄ h₄ ∧
      (st = .cond l x a none ∧ rest = rest₄ ∧ kindOf (skipTerminators rest₄) ≠ .word "else" ∨
        ∃ t us b hb h₅, skipTerminators rest₄ = t :: us ∧ t.kind = .word "else" ∧
          p.statement us hb = .ok b rest h₅ ∧ st = .cond l x a (some b)) := by
  obtain ⟨_, rest₁, h₁, hopen, heq⟩ := of_andThen_eq_ok heq
  obtain ⟨x, rest₂, h₂, hx, heq⟩ := of_andThen_eq_ok heq
  obtain ⟨_, rest₃, h₃, hclose, heq⟩ := of_andThen_eq_ok heq
  obtain ⟨a, rest₄, h₄, ha, heq⟩ := of_andThen_eq_ok heq
  refine ⟨rest₁, rest₂, rest₃, rest₄, x, a, h₁, h₂, h₃, h₄, _, _, hopen, hx, hclose, ha, ?_⟩
  split at heq
  · rename_i hs
    obtain ⟨hst, hrest₄⟩ := Reply.ok.inj heq
    exact .inl ⟨hst.symm, hrest₄.symm, by rw [hs]; exact TokenKind.noConfusion⟩
  · rename_i t us hs
    split at heq
    · rename_i helse
      obtain ⟨b, h₅, hst, hb⟩ := of_within_eq_ok heq
      exact .inr ⟨t, us, b, _, h₅, hs, helse, hb, hst⟩
    · rename_i helse
      obtain ⟨hst, hrest₄⟩ := Reply.ok.inj heq
      exact .inl ⟨hst.symm, hrest₄.symm, by rwa [hs]⟩

/-- Only the parser of conditions gives a condition back. -/
theorem of_statement_cond {h : ts.length ≤ n} {l : Location} {x : Expr} {a : Statement}
    {b : Option Statement} {hrest : rest.length < ts.length}
    (heq : statement fin p ts h = .ok (.cond l x a b) rest hrest) :
    ∃ l' us hus hrest', ts = ⟨.word "if", l'⟩ :: us ∧
      condition fin p l' us hus = .ok (.cond l x a b) rest hrest' := by
  have hexpr : ∀ {vs : List Token} {h' : rest.length < vs.length} {r : Reply Expr vs},
      r.map Statement.expr ≠ .ok (.cond l x a b) rest h' := by
    intro vs h' r hr
    obtain ⟨e, he, -⟩ := of_map_eq_ok hr
    cases he
  unfold statement at heq
  split at heq
  · rename_i t us hus
    split at heq
    · obtain ⟨body, _, hbody, -⟩ := of_within_eq_ok heq
      cases hbody
    · rename_i w hword
      split at heq
      · obtain ⟨ds, _, hds, -⟩ := of_within_eq_ok heq
        cases hds
      · obtain ⟨f, _, rfl, hf⟩ := of_within_eq_ok heq
        obtain ⟨name, vs, _, -, hf⟩ := of_andThen_eq_ok hf
        obtain ⟨ps, ws, _, -, hf⟩ := of_andThen_eq_ok hf
        obtain ⟨ret, zs, _, -, hf⟩ := of_andThen_eq_ok hf
        obtain ⟨body, _, hbody, -⟩ := of_within_eq_ok hf
        cases hbody
      · rename_i hif
        obtain ⟨c, hrest', rfl, hc⟩ := of_within_eq_ok heq
        obtain rfl : w = "if" := by simpa [Keyword.all] using Keyword.mem_all_of_ofWord? hif
        exact ⟨t.location, us, _, hrest', by rw [← hword], hc⟩
      · obtain ⟨v, hv, -⟩ := of_map_eq_ok heq
        cases hv
      · obtain ⟨v, hv, -⟩ := of_map_eq_ok heq
        cases hv
      · cases heq
      · cases heq
      · exact absurd heq hexpr
    · exact absurd heq hexpr
  · exact absurd heq hexpr

/-! ## No open statement before an `else` -/

/-- Behind an open statement that the parsers give back there is no `else`, nor past semicolons. -/
def Parsers.Close (p : Parsers n) : Prop :=
  ∀ ts h st rest hrest, p.statement ts h = .ok st rest hrest → st.IsOpen →
    kindOf (skipTerminators rest) ≠ .word "else"

theorem close_condition (hp : p.Close) {l : Location} {h : ts.length ≤ n} {st : Statement}
    {hrest : rest.length < ts.length} (heq : condition fin p l ts h = .ok st rest hrest)
    (hopen : st.IsOpen) : kindOf (skipTerminators rest) ≠ .word "else" := by
  obtain ⟨_, _, _, rest₄, x, a, _, _, _, _, _, _, -, -, -, -, hcond⟩ := of_condition heq
  rcases hcond with ⟨-, rfl, helse⟩ | ⟨t, us, b, hb, h₅, -, -, hb, rfl⟩
  · exact helse
  · cases hopen with
    | within hopen => exact hp _ _ _ _ _ hb hopen

theorem close_statement (hp : p.Close) {h : ts.length ≤ n} {st : Statement}
    {hrest : rest.length < ts.length} (heq : statement fin p ts h = .ok st rest hrest)
    (hopen : st.IsOpen) : kindOf (skipTerminators rest) ≠ .word "else" := by
  obtain ⟨l, x, a, b, rfl⟩ : ∃ l x a b, st = .cond l x a b := by
    cases hopen with
    | alone => exact ⟨_, _, _, _, rfl⟩
    | within => exact ⟨_, _, _, _, rfl⟩
  obtain ⟨l', us, hus, hrest', rfl, hcond⟩ := of_statement_cond heq
  exact close_condition hp hcond hopen

/-- Whatever bound they are built for, the parsers leave no `else` behind an open statement. -/
theorem parsers_close (fin : Location) (n : Nat) : (parsers fin n).Close := by
  induction n with
  | zero =>
    intro ts h
    exact absurd h (Nat.not_lt_zero _)
  | succ n ih =>
    intro ts h st rest hrest heq hopen
    exact close_statement ih heq hopen

end Parse

end Scriptlet
