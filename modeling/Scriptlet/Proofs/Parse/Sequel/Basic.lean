import Scriptlet.Proofs.Parse.Reading

/-!
# Tokens with a sequel

What a parser accepts it accepts also when the tokens stand at other places and more tokens follow,
if these begin with a semicolon and do not go on with an `else` behind it: nothing in the grammar
reads over a semicolon but the search for that word. The value is the same up to places, and the
tokens that are left are those that were left before, with the others behind them. No parser ever
uses up a bad token. Here are the sequel, what carrying over to it means for a reply, and the
parsers of words, types and parameters.
-/

namespace Scriptlet

open Parse

/-- Other places for tokens, and the tokens that stand behind them there. -/
structure Sequel where
  place : Location → Location
  tail : List Token
  ends : kindOf tail = .eof ∨ kindOf tail = .symbol .semicolon
  noElse : kindOf (skipTerminators tail) ≠ .word "else"

namespace Sequel

variable (S : Sequel)

/-- The tokens at their other places, with the tail behind them. -/
def onto (ts : List Token) : List Token :=
  ts.map (fun t ↦ ⟨t.kind, S.place t.location⟩) ++ S.tail

theorem onto_eq (ts : List Token) :
    S.onto ts = ts.map (fun t ↦ ⟨t.kind, S.place t.location⟩) ++ S.tail := rfl

@[simp] theorem onto_nil : S.onto [] = S.tail := rfl

@[simp] theorem onto_cons (t : Token) (ts : List Token) :
    S.onto (t :: ts) = ⟨t.kind, S.place t.location⟩ :: S.onto ts := rfl

/-- What does not tell the end from a semicolon is true of the first token as it was before. -/
theorem apply_kindOf_onto {α : Sort*} (f : TokenKind → α) (hf : f (.symbol .semicolon) = f .eof)
    (ts : List Token) : f (kindOf (S.onto ts)) = f (kindOf ts) := by
  cases ts with
  | nil =>
    rcases S.ends with h | h
    · exact congrArg f h
    · exact (congrArg f h).trans hf
  | cons t ts => rfl

/-- What is neither the end nor a semicolon comes first exactly if it came first before. -/
theorem kindOf_onto {k : TokenKind} (heof : k ≠ .eof) (hsemicolon : k ≠ .symbol .semicolon)
    (ts : List Token) : kindOf (S.onto ts) = k ↔ kindOf ts = k :=
  iff_of_eq (S.apply_kindOf_onto (· = k) (by simp [heof.symm, hsemicolon.symm]) ts)

theorem kindOf_onto_ne {s : Symbol} (hs : s ≠ .semicolon) {ts : List Token}
    (h : kindOf ts ≠ .symbol s) : kindOf (S.onto ts) ≠ .symbol s := by
  rwa [ne_eq, S.kindOf_onto (by simp) (by simpa using hs)]

end Sequel

attribute [irreducible] Sequel.onto

theorem eq_cons_of_kindOf {ts : List Token} {k : TokenKind} (h : kindOf ts = k) (hk : k ≠ .eof) :
    ∃ l rest, ts = ⟨k, l⟩ :: rest := by
  cases ts with
  | nil => exact absurd h.symm hk
  | cons t ts => exact ⟨t.location, ts, by rw [← h]; rfl⟩

theorem ne_cons_of_kindOf {ts rest : List Token} {k : TokenKind} {l : Location}
    (h : kindOf ts ≠ k) : ts ≠ ⟨k, l⟩ :: rest := by
  rintro rfl
  exact h rfl

/-! ## Tokens used up -/

/-- The tokens are what is left when good tokens are used up. -/
def Uses (ts rest : List Token) : Prop :=
  ∃ used, ts = used ++ rest ∧ ∀ t ∈ used, ∀ c, t.kind ≠ .bad c

namespace Uses

theorem refl (ts : List Token) : Uses ts ts := ⟨[], rfl, by simp⟩

theorem trans {ts us vs : List Token} (h : Uses ts us) (k : Uses us vs) : Uses ts vs := by
  obtain ⟨used, rfl, hused⟩ := h
  obtain ⟨used', rfl, hused'⟩ := k
  exact ⟨used ++ used', (List.append_assoc ..).symm, List.forall_mem_append.mpr ⟨hused, hused'⟩⟩

theorem one {t : Token} (ht : ∀ c, t.kind ≠ .bad c) (ts : List Token) : Uses (t :: ts) ts :=
  ⟨[t], rfl, by simpa using ht⟩

theorem symbol (s : Symbol) (l : Location) (ts : List Token) : Uses (⟨.symbol s, l⟩ :: ts) ts :=
  one (by simp) ts

end Uses

/-! ## Replies -/

namespace Reply

variable {α β γ δ : Type} {ts us us' ts' read read' : List Token} {f : α → γ} {f' : β → δ}

/-- If the one reply is a value, it has used up good tokens of those that were read, and the other
is a value that differs in nothing that counts, with the same tokens left and the sequel behind
them. -/
def Carries (S : Sequel) (read : List Token) (f : α → γ) (r : Reply α ts) (r' : Reply α ts') :
    Prop :=
  ∀ value rest, r.Yields value rest →
    Uses read rest ∧ ∃ value', r'.Yields value' (S.onto rest) ∧ f value' = f value

variable {S : Sequel}

theorem carries_fail {e : ParseError} {rest : List Token} {r' : Reply α ts'} :
    (Reply.fail e rest : Reply α ts).Carries S read f r' := by
  rintro value rest ⟨h, heq⟩
  cases heq

theorem carries_ok {value value' : α} {rest rest' : List Token} {h : rest.length < ts.length}
    {h' : rest'.length < ts'.length} (huses : Uses read rest) (hrest : rest' = S.onto rest)
    (hvalue : f value' = f value) :
    (Reply.ok value rest h).Carries S read f (Reply.ok value' rest' h') := by
  rintro _ _ ⟨_, heq⟩
  cases heq
  subst hrest
  exact ⟨huses, value', ⟨h', rfl⟩, hvalue⟩

theorem Carries.mono {r : Reply α ts} {r' : Reply α ts'} (hr : r.Carries S read f r')
    (huses : Uses read' read) : r.Carries S read' f r' := by
  intro value rest h
  obtain ⟨hread, hvalue⟩ := hr value rest h
  exact ⟨huses.trans hread, hvalue⟩

theorem Carries.andThen {r : Reply α us} {r' : Reply α us'}
    {k : (value : α) → (rest : List Token) → rest.length < us.length → Reply β ts}
    {k' : (value : α) → (rest : List Token) → rest.length < us'.length → Reply β ts'}
    (hr : r.Carries S read f r')
    (hk : ∀ value rest h value' h', Uses read rest → f value' = f value →
      (k value rest h).Carries S read' f' (k' value' (S.onto rest) h')) :
    (r.andThen k).Carries S read' f' (r'.andThen k') := by
  intro value rest hyields
  cases r with
  | ok v rest₁ h =>
    obtain ⟨huses, v', ⟨h', rfl⟩, hv⟩ := hr v rest₁ ⟨h, rfl⟩
    exact hk v rest₁ h v' h' huses hv value rest hyields
  | fail e rest₁ => exact absurd hyields.choose_spec (by simp [Reply.andThen])

theorem Carries.within {r : Reply α us} {r' : Reply α us'} {h : us.length < ts.length}
    {h' : us'.length < ts'.length} {F F' : α → β} (hr : r.Carries S read f r')
    (hF : ∀ value value', f value' = f value → f' (F' value') = f' (F value)) :
    (r.within h F).Carries S read f' (r'.within h' F') := by
  intro value rest hyields
  cases r with
  | ok v rest₁ hlt =>
    obtain ⟨huses, v', hv', hv⟩ := hr v rest₁ ⟨hlt, rfl⟩
    obtain ⟨_, heq⟩ := hyields
    cases heq
    exact ⟨huses, F' v', hv'.within h' F', hF v v' hv⟩
  | fail e rest₁ => exact absurd hyields.choose_spec (by simp [Reply.within])

theorem Carries.behind {r : Reply α us} {r' : Reply α us'} {t t' : Token} {F F' : α → β}
    (hr : r.Carries S read f r')
    (hF : ∀ value value', f value' = f value → f' (F' value') = f' (F value)) :
    (r.behind F : Reply β (t :: us)).Carries S read f' (r'.behind F' : Reply β (t' :: us')) :=
  hr.within hF

theorem Carries.map {r : Reply α ts} {r' : Reply α ts'} {F F' : α → β}
    (hr : r.Carries S read f r')
    (hF : ∀ value value', f value' = f value → f' (F' value') = f' (F value)) :
    (r.map F).Carries S read f' (r'.map F') := by
  intro value rest hyields
  cases r with
  | ok v rest₁ hlt =>
    obtain ⟨huses, v', hv', hv⟩ := hr v rest₁ ⟨hlt, rfl⟩
    obtain ⟨_, heq⟩ := hyields
    cases heq
    exact ⟨huses, F' v', hv'.map F', hF v v' hv⟩
  | fail e rest₁ => exact absurd hyields.choose_spec (by simp [Reply.map])

theorem carries_one {k : TokenKind} {l : Location} {value value' : α} (hk : ∀ c, k ≠ .bad c)
    (hvalue : f value' = f value) :
    (one value : Reply α (⟨k, l⟩ :: us)).Carries S (⟨k, l⟩ :: us) f
      (one value' : Reply α (⟨k, S.place l⟩ :: S.onto us)) :=
  carries_ok (.one hk us) rfl hvalue

end Reply

namespace Parse

open Reply

variable {S : Sequel} {fin fin' : Location} {ts : List Token}

/-! ## Words, types and parameters -/

theorem carries_expect {s : Symbol} {wanted : Expectation} :
    (expect fin s wanted ts).Carries S ts id (expect fin' s wanted (S.onto ts)) := by
  unfold expect
  split
  · rename_i s' l rest
    rw [Sequel.onto_cons]
    dsimp only
    split
    · exact carries_one (by simp) rfl
    · exact carries_fail
  · exact carries_fail

theorem carries_identifier :
    (identifier fin ts).Carries S ts id (identifier fin' (S.onto ts)) := by
  unfold identifier
  split
  · rw [Sequel.onto_cons]
    dsimp only
    split
    · exact carries_fail
    · exact carries_one (by simp) rfl
  · exact carries_fail

theorem carries_anyName : (anyName fin ts).Carries S ts id (anyName fin' (S.onto ts)) := by
  unfold anyName
  split
  · rw [Sequel.onto_cons]
    exact carries_one (by simp) rfl
  · exact carries_fail

theorem dottedNames_dot {first : String} {origin rest : List Token} {l : Location}
    (h : (⟨.symbol .dot, l⟩ :: rest : List Token).length < origin.length) :
    dottedNames fin first origin (⟨.symbol .dot, l⟩ :: rest) h
      = (identifier fin rest).andThen fun w rest' hr ↦
        dottedNames fin (first ++ "." ++ w) origin rest'
          (length_lt_trans hr (length_lt_of_succ h)) := by
  rw [dottedNames]
  cases identifier fin rest <;> rfl

theorem dottedNames_stop {first : String} {origin : List Token} {h : ts.length < origin.length}
    (hts : kindOf ts ≠ .symbol .dot) : dottedNames fin first origin ts h = .ok first ts h := by
  rw [dottedNames.eq_def]
  split
  · exact absurd rfl hts
  · rfl

theorem carries_dottedNames {first : String} {origin origin' : List Token}
    {h : ts.length < origin.length} {h' : (S.onto ts).length < origin'.length} :
    (dottedNames fin first origin ts h).Carries S ts id
      (dottedNames fin' first origin' (S.onto ts) h') := by
  induction hn : ts.length using Nat.strongRecOn generalizing ts first with
  | ind n ih =>
    by_cases hts : kindOf ts = .symbol .dot
    · obtain ⟨l, rest, rfl⟩ := eq_cons_of_kindOf hts (by simp)
      rw [dottedNames_dot]
      simp only [Sequel.onto_cons, dottedNames_dot]
      refine carries_identifier.andThen fun w rest' hlt w' hlt' huses hw ↦ ?_
      obtain rfl : w' = w := hw
      refine Carries.mono (ih _ ?_ rfl) (.trans (.symbol _ l rest) huses)
      rw [← hn, List.length_cons]
      omega
    · rw [dottedNames_stop hts, dottedNames_stop (S.kindOf_onto_ne (by decide) hts)]
      exact carries_ok (.refl _) rfl rfl

theorem brackets_stop (h : ∀ l l' rest,
    ts ≠ ⟨.symbol .openBracket, l⟩ :: ⟨.symbol .closeBracket, l'⟩ :: rest) :
    brackets ts = (0, ts) := by
  unfold brackets
  split
  · rename_i l l' rest
    exact absurd rfl (h l l' rest)
  · rfl

theorem brackets_onto (ts : List Token) :
    brackets (S.onto ts) = ((brackets ts).1, S.onto (brackets ts).2) ∧ Uses ts (brackets ts).2 := by
  fun_induction brackets ts with
  | case1 l l' rest more ih =>
    refine ⟨?_, .trans (.symbol _ l _) (.trans (.symbol _ l' _) ih.2)⟩
    rw [Sequel.onto_cons, Sequel.onto_cons, brackets, ih.1]
  | case2 ts hne =>
    refine ⟨brackets_stop fun l l' rest heq ↦ ?_, .refl ts⟩
    have hopen : kindOf (S.onto ts) = .symbol .openBracket := by rw [heq]; rfl
    rw [S.kindOf_onto (by simp) (by simp)] at hopen
    obtain ⟨k, us, rfl⟩ := eq_cons_of_kindOf hopen (by simp)
    rw [Sequel.onto_cons] at heq
    have hclose : kindOf (S.onto us) = .symbol .closeBracket := by
      rw [(List.cons.inj heq).2]
      rfl
    rw [S.kindOf_onto (by simp) (by simp)] at hclose
    obtain ⟨k', vs, rfl⟩ := eq_cons_of_kindOf hclose (by simp)
    exact hne k k' vs rfl

theorem carries_typeExpr :
    (typeExpr fin ts).Carries S ts TypeExpr.withoutPlace (typeExpr fin' (S.onto ts)) := by
  refine carries_identifier.andThen fun w rest _ w' _ huses hw ↦ ?_
  obtain rfl : w' = w := hw
  refine (carries_dottedNames.mono huses).andThen fun name rest _ name' _ huses hname ↦ ?_
  obtain rfl : name' = name := hname
  obtain ⟨hbrackets, huses'⟩ := brackets_onto (S := S) rest
  refine carries_ok (huses.trans huses') (congrArg Prod.snd hbrackets) ?_
  rw [TypeExpr.withoutPlace, TypeExpr.withoutPlace, hbrackets]

theorem optionalTypeExpr_colon {origin rest : List Token} {l : Location}
    (h : (⟨.symbol .colon, l⟩ :: rest : List Token).length < origin.length) :
    optionalTypeExpr fin origin (⟨.symbol .colon, l⟩ :: rest) h
      = (typeExpr fin rest).within (length_lt_of_succ h) some := rfl

theorem optionalTypeExpr_stop {origin : List Token} {h : ts.length < origin.length}
    (hts : kindOf ts ≠ .symbol .colon) : optionalTypeExpr fin origin ts h = .ok none ts h := by
  unfold optionalTypeExpr
  split
  · exact absurd rfl hts
  · rfl

theorem carries_optionalTypeExpr {origin origin' : List Token} {h : ts.length < origin.length}
    {h' : (S.onto ts).length < origin'.length} :
    (optionalTypeExpr fin origin ts h).Carries S ts (Option.map TypeExpr.withoutPlace)
      (optionalTypeExpr fin' origin' (S.onto ts) h') := by
  by_cases hts : kindOf ts = .symbol .colon
  · obtain ⟨l, rest, rfl⟩ := eq_cons_of_kindOf hts (by simp)
    simp only [Sequel.onto_cons, optionalTypeExpr_colon]
    refine Carries.within (carries_typeExpr.mono (.symbol _ l rest)) fun a a' ha ↦ ?_
    exact congrArg some ha
  · rw [optionalTypeExpr_stop hts, optionalTypeExpr_stop (S.kindOf_onto_ne (by decide) hts)]
    exact carries_ok (.refl _) rfl rfl

theorem carries_param :
    (param fin ts).Carries S ts Param.withoutPlace (param fin' (S.onto ts)) := by
  refine carries_identifier.andThen fun w rest _ w' _ huses hw ↦ ?_
  obtain rfl : w' = w := hw
  refine (carries_optionalTypeExpr.mono huses).map fun a a' ha ↦ ?_
  exact congrArg (Param.mk w') ha

theorem paramLoop_eq : paramLoop fin ts = (param fin ts).andThen fun p rest h ↦
    match rest, h with
    | ⟨.symbol .comma, _⟩ :: rest', h =>
      (paramLoop fin rest').within (length_lt_of_succ h) (p :: ·)
    | rest, h => (expect fin .closeParen .closeParams rest).within h fun _ ↦ [p] := by
  rw [paramLoop]
  cases param fin ts <;> rfl

theorem carries_paramLoop :
    (paramLoop fin ts).Carries S ts (List.map Param.withoutPlace) (paramLoop fin' (S.onto ts)) := by
  induction hn : ts.length using Nat.strongRecOn generalizing ts with
  | ind n ih =>
    rw [paramLoop_eq, paramLoop_eq]
    refine carries_param.andThen fun p rest hlt p' hlt' huses hp ↦ ?_
    by_cases hrest : kindOf rest = .symbol .comma
    · obtain ⟨l, rest, rfl⟩ := eq_cons_of_kindOf hrest (by simp)
      have hloop := ih rest.length (by rw [← hn]; exact length_lt_of_succ hlt) rfl
      simp only [Sequel.onto_cons]
      refine Carries.within (hloop.mono (huses.trans (.symbol _ l rest))) fun ps ps' hps ↦ ?_
      rw [List.map_cons, List.map_cons, hp, hps]
    · have hrest' := S.kindOf_onto_ne (by decide) hrest
      split
      · exact absurd rfl hrest
      split
      · rename_i heq _
        exact absurd heq (ne_cons_of_kindOf hrest')
      refine Carries.within (carries_expect.mono huses) fun _ _ _ ↦ ?_
      rw [List.map_cons, List.map_cons, hp]

theorem carries_params :
    (params fin ts).Carries S ts (List.map Param.withoutPlace) (params fin' (S.onto ts)) := by
  refine carries_expect.andThen fun _ rest hlt _ hlt' huses _ ↦ ?_
  by_cases hrest : kindOf rest = .symbol .closeParen
  · obtain ⟨l, rest, rfl⟩ := eq_cons_of_kindOf hrest (by simp)
    simp only [Sequel.onto_cons]
    exact carries_ok (huses.trans (.symbol _ l rest)) rfl rfl
  · have hrest' := S.kindOf_onto_ne (by decide) hrest
    split
    · exact absurd rfl hrest
    split
    · rename_i heq _
      exact absurd heq (ne_cons_of_kindOf hrest')
    exact Carries.within (carries_paramLoop.mono huses) fun _ _ h ↦ h

end Parse

end Scriptlet
