import Scriptlet.Proofs.Parse.Sequel.Expr

/-!
# Programs with a sequel

A program that is read to its end can be read in front of another one. The search for an `else` is
the one place of the grammar that looks past semicolons; a program does not begin with that word, so
the search finds as little in the sequel as it found at the end.
-/

namespace Scriptlet

namespace Parse

open Reply

variable {S : Sequel} {fin fin' : Location} {ts : List Token}

attribute [local simp] Expr.withoutPlaces exprsWithoutPlaces optionWithoutPlaces
  Statement.withoutPlaces statementsWithoutPlaces alternativeWithoutPlaces

variable {n n' : Nat} {p : Parsers n} {p' : Parsers n'} (hp : p.Carry S p')

include hp

/-! ## Statements -/

/-- A token before which a `return` or a `throw` has no value. -/
def endsValue : TokenKind → Bool
  | .symbol .semicolon | .symbol .closeBrace | .eof => true
  | _ => false

omit hp in
theorem optionalValue_of_ends {t : Token} {h : ts.length < n} (hts : endsValue (kindOf ts)) :
    optionalValue p t ts h = .one none := by
  unfold optionalValue
  unfold endsValue at hts
  split <;> simp_all

omit hp in
theorem optionalValue_of_not {t : Token} {h : ts.length < n} (hts : endsValue (kindOf ts) = false) :
    optionalValue p t ts h = (p.expr ts h).behind some := by
  unfold optionalValue
  unfold endsValue at hts
  split <;> simp_all

theorem carries_optionalValue {t t' : Token} (ht : ∀ c, t.kind ≠ .bad c) {h : ts.length < n}
    {h' : (S.onto ts).length < n'} :
    (optionalValue p t ts h).Carries S (t :: ts) optionWithoutPlaces
      (optionalValue p' t' (S.onto ts) h') := by
  have hends := S.apply_kindOf_onto endsValue rfl ts
  rcases hts : endsValue (kindOf ts) with _ | _
  · rw [optionalValue_of_not hts, optionalValue_of_not (hends.trans hts)]
    refine Carries.behind ((hp.expr ts h h').mono (.one ht ts)) fun e e' he ↦ ?_
    simp [he]
  · rw [optionalValue_of_ends hts, optionalValue_of_ends (hends.trans hts)]
    exact carries_ok (.one ht ts) rfl rfl

omit hp in
theorem optionalInit_eq {origin rest : List Token} {l : Location}
    (h : (⟨.symbol .eq, l⟩ :: rest : List Token).length < origin.length) (hn : origin.length ≤ n) :
    optionalInit p origin (⟨.symbol .eq, l⟩ :: rest) h hn
      = (p.expr rest (length_lt_bound (length_lt_of_succ h) hn)).within (length_lt_of_succ h)
          some :=
  rfl

omit hp in
theorem optionalInit_stop {origin : List Token} {h : ts.length < origin.length}
    {hn : origin.length ≤ n} (hts : kindOf ts ≠ .symbol .eq) :
    optionalInit p origin ts h hn = .ok none ts h := by
  unfold optionalInit
  split
  · exact absurd rfl hts
  · rfl

theorem carries_optionalInit {origin origin' : List Token} {h : ts.length < origin.length}
    {hn : origin.length ≤ n} {h' : (S.onto ts).length < origin'.length}
    {hn' : origin'.length ≤ n'} :
    (optionalInit p origin ts h hn).Carries S ts optionWithoutPlaces
      (optionalInit p' origin' (S.onto ts) h' hn') := by
  by_cases hts : kindOf ts = .symbol .eq
  · obtain ⟨l, rest, rfl⟩ := eq_cons_of_kindOf hts (by simp)
    simp only [Sequel.onto_cons, optionalInit_eq]
    refine Carries.within ((hp.expr rest _ _).mono (.symbol _ l rest)) fun e e' he ↦ ?_
    simp [he]
  · rw [optionalInit_stop hts, optionalInit_stop (S.kindOf_onto_ne (by decide) hts)]
    exact carries_ok (.refl _) rfl rfl

theorem carries_declaration {h : ts.length ≤ n} {h' : (S.onto ts).length ≤ n'} :
    (declaration fin p ts h).Carries S ts Expr.withoutPlaces
      (declaration fin' p' (S.onto ts) h') := by
  refine carries_identifier.andThen fun x rest _ x' _ huses hx ↦ ?_
  obtain rfl : x' = x := hx
  refine (carries_optionalTypeExpr.mono huses).andThen fun a rest _ a' _ huses ha ↦ ?_
  refine Carries.map ((carries_optionalInit hp).mono huses) fun init init' hinit ↦ ?_
  simp [ha, hinit]

omit hp in
theorem declarations_eq {h : ts.length ≤ n} :
    declarations fin p ts h = (declaration fin p ts h).andThen fun d rest hr ↦
      match rest, hr with
      | ⟨.symbol .comma, _⟩ :: rest, hr =>
        (declarations fin p rest (length_le_bound (length_lt_of_succ hr) h)).within
          (length_lt_of_succ hr) (d :: ·)
      | rest, hr => .ok [d] rest hr := by
  rw [declarations]
  cases declaration fin p ts h <;> rfl

theorem carries_declarations {h : ts.length ≤ n} {h' : (S.onto ts).length ≤ n'} :
    (declarations fin p ts h).Carries S ts exprsWithoutPlaces
      (declarations fin' p' (S.onto ts) h') := by
  induction hlen : ts.length using Nat.strongRecOn generalizing ts with
  | ind m ih =>
    rw [declarations_eq, declarations_eq]
    refine (carries_declaration hp).andThen fun d rest hlt d' hlt' huses hd ↦ ?_
    by_cases hrest : kindOf rest = .symbol .comma
    · obtain ⟨l, rest, rfl⟩ := eq_cons_of_kindOf hrest (by simp)
      have hshort : rest.length < m := by
        rw [← hlen]
        exact length_lt_of_succ hlt
      simp only [Sequel.onto_cons]
      refine Carries.within (Carries.mono (ih _ hshort rfl) (huses.trans (.symbol _ l rest)))
        fun ds ds' hds ↦ ?_
      simp [hd, hds]
    · have hrest' := S.kindOf_onto_ne (by decide) hrest
      split
      · exact absurd rfl hrest
      split
      · rename_i heq _
        exact absurd heq (ne_cons_of_kindOf hrest')
      exact carries_ok huses rfl (by simp [hd])

theorem carries_functionDefinition {l l' : Location} {h : ts.length ≤ n}
    {h' : (S.onto ts).length ≤ n'} :
    (functionDefinition fin p l ts h).Carries S ts Statement.withoutPlaces
      (functionDefinition fin' p' l' (S.onto ts) h') := by
  refine carries_identifier.andThen fun x rest _ x' _ huses hx ↦ ?_
  obtain rfl : x' = x := hx
  refine (carries_params.mono huses).andThen fun ps rest _ ps' _ huses hps ↦ ?_
  refine (carries_optionalTypeExpr.mono huses).andThen fun ret rest _ ret' _ huses hret ↦ ?_
  refine Carries.within ((carries_functionBody hp).mono huses) fun body body' hbody ↦ ?_
  simp [Signature.withoutPlaces, hps, hret, hbody]

theorem carries_condition {l l' : Location} {h : ts.length ≤ n} {h' : (S.onto ts).length ≤ n'} :
    (condition fin p l ts h).Carries S ts Statement.withoutPlaces
      (condition fin' p' l' (S.onto ts) h') := by
  refine carries_expect.andThen fun _ rest _ _ _ huses _ ↦ ?_
  refine Carries.andThen ((hp.expr rest _ _).mono huses) fun x rest _ x' _ huses hx ↦ ?_
  refine (carries_expect.mono huses).andThen fun _ rest _ _ _ huses _ ↦ ?_
  refine Carries.andThen ((hp.statement rest _ _).mono huses) fun a rest _ a' _ huses ha ↦ ?_
  have hskip := skipTerminators_onto (S := S) rest
  have hnone : (Statement.cond l' x' a' none).withoutPlaces
      = (Statement.cond l x a none).withoutPlaces := by simp [hx, ha]
  split
  · -- at the end there is no `else`, and in the sequel there is none either
    rename_i hs
    rw [hs, if_pos rfl] at hskip
    split
    · exact carries_ok huses rfl hnone
    · rename_i t us hs'
      have hkind : t.kind ≠ .word "else" := by
        have hno := S.noElse
        rwa [← hskip, hs'] at hno
      rw [if_neg hkind]
      exact carries_ok huses rfl hnone
  · rename_i t us hs
    rw [hs, if_neg (List.cons_ne_nil t us), Sequel.onto_cons] at hskip
    by_cases hkind : t.kind = .word "else"
    · rw [if_pos hkind]
      split
      · rename_i hs'
        rw [hskip] at hs'
        cases hs'
      · rename_i t' us' hs'
        obtain ⟨rfl, rfl⟩ := List.cons.inj (hskip.symm.trans hs')
        rw [if_pos hkind]
        have hused : Uses rest us := by
          have hused := uses_skipTerminators rest
          rw [hs] at hused
          exact hused.trans (.one (by simp [hkind]) us)
        refine Carries.within ((hp.statement us _ _).mono (huses.trans hused)) fun b b' hb ↦ ?_
        simp [hx, ha, hb]
    · rw [if_neg hkind]
      split
      · exact carries_ok huses rfl hnone
      · rename_i t' us' hs'
        obtain ⟨rfl, rfl⟩ := List.cons.inj (hskip.symm.trans hs')
        rw [if_neg hkind]
        exact carries_ok huses rfl hnone

omit hp in
/-- There is nothing to use up. -/
theorem carries_nil {α γ : Type} {ts' read : List Token} {f : α → γ} {r : Reply α []}
    {r' : Reply α ts'} : r.Carries S read f r' := by
  rintro value rest ⟨h, -⟩
  exact absurd h (Nat.not_lt_zero _)

theorem carries_statement {h : ts.length ≤ n} {h' : (S.onto ts).length ≤ n'} :
    (statement fin p ts h).Carries S ts Statement.withoutPlaces
      (statement fin' p' (S.onto ts) h') := by
  cases ts with
  | nil => exact carries_nil
  | cons t ts =>
    -- what begins with neither a brace nor a word of its own is read as an expression
    have hexpr : ∀ h', ((assignment fin p (t :: ts) h).map .expr).Carries S (t :: ts)
        Statement.withoutPlaces ((assignment fin' p' (S.onto (t :: ts)) h').map .expr) := by
      intro h'
      refine (carries_assignment hp).map fun e e' he ↦ ?_
      simp [he]
    revert h'
    rw [Sequel.onto_cons] at hexpr ⊢
    intro h'
    obtain ⟨k, l⟩ := t
    cases k with
    | number | str | bad | eof => exact hexpr h'
    | symbol s =>
      cases s with
      | openBrace =>
        refine Carries.behind ((carries_blockBody hp).mono (.symbol _ l ts)) fun body body' hb ↦ ?_
        simp [hb]
      | _ => exact hexpr h'
    | word w =>
      have hgood : ∀ c, (TokenKind.word w) ≠ .bad c := by simp
      have hone : Uses (⟨.word w, l⟩ :: ts) ts := .one hgood ts
      unfold statement
      dsimp only
      split
      · refine Carries.behind ((carries_declarations hp).mono hone) fun ds ds' hds ↦ ?_
        simp [hds]
      · exact Carries.behind ((carries_functionDefinition hp).mono hone) fun _ _ h ↦ h
      · exact Carries.behind ((carries_condition hp).mono hone) fun _ _ h ↦ h
      · refine Carries.map (carries_optionalValue hp hgood) fun v v' hv ↦ ?_
        simp [hv]
      · refine Carries.map (carries_optionalValue hp hgood) fun v v' hv ↦ ?_
        simp [hv]
      · exact carries_fail
      · exact carries_fail
      · exact hexpr h'

omit hp in
theorem parsers_carry (fin fin' : Location) (n n' : Nat) :
    (parsers fin n).Carry S (parsers fin' n') := by
  induction n generalizing n' with
  | zero => exact ⟨fun _ h ↦ absurd h (Nat.not_lt_zero _), fun _ h ↦ absurd h (Nat.not_lt_zero _),
      fun _ h ↦ absurd h (Nat.not_lt_zero _)⟩
  | succ n ih =>
    cases n' with
    | zero => exact ⟨fun _ _ h ↦ absurd h (Nat.not_lt_zero _),
        fun _ _ h ↦ absurd h (Nat.not_lt_zero _), fun _ _ h ↦ absurd h (Nat.not_lt_zero _)⟩
    | succ n' => exact ⟨fun _ _ _ ↦ carries_assignment (ih n'), fun _ _ _ ↦ carries_unary (ih n'),
        fun _ _ _ ↦ carries_statement (ih n')⟩

end Parse

/-! ## Programs -/

namespace Reader

open Parse

variable {S : Sequel} {ts : List Token} {fin fin' : Location} {p q : Program}

/-- The statements from the reader on, which stands at the first of them. -/
def programHere (r : Reader) : Except ParseError Program :=
  match r.statementHere with
  | .fail e _ => .error e
  | .ok st rest _ => (program ⟨rest, r.fin⟩).map (st :: ·)

theorem program_eq (r : Reader) :
    r.program
      = if r.skipTerminators.tokens = [] then .ok [] else r.skipTerminators.programHere := by
  rw [program]
  split
  · rename_i hnil
    rw [if_pos hnil]
  · rename_i t us hcons
    have hne : r.skipTerminators.tokens ≠ [] := by simp [hcons]
    rw [if_neg hne, programHere]
    cases r.skipTerminators.statementHere with
    | fail e rest => rfl
    | ok st rest h =>
      change _ = (program ⟨rest, r.fin⟩).map (st :: ·)
      dsimp only
      cases program ⟨rest, r.fin⟩ <;> rfl

theorem program_congr {us : List Token} (h : Parse.skipTerminators ts = Parse.skipTerminators us) :
    program ⟨ts, fin⟩ = program ⟨us, fin⟩ := by
  have hskip : skipTerminators ⟨ts, fin⟩ = skipTerminators ⟨us, fin⟩ :=
    congrArg (Reader.mk · fin) h
  rw [program_eq, program_eq, hskip]

theorem program_cons {t : Token} {us rest : List Token} {st : Statement}
    (hs : Parse.skipTerminators ts = t :: us)
    (hst : (statementHere ⟨t :: us, fin⟩).Yields st rest) (h : program ⟨rest, fin⟩ = .ok p) :
    program ⟨ts, fin⟩ = .ok (st :: p) := by
  obtain ⟨hlt, heq⟩ := hst
  have hskip : skipTerminators ⟨ts, fin⟩ = ⟨t :: us, fin⟩ := congrArg (Reader.mk · fin) hs
  rw [program_eq, hskip, if_neg (List.cons_ne_nil t us), programHere, heq]
  simp only [h]
  rfl

/-- A program with another one behind it is read as the statements of the one and then those of the
other. -/
theorem program_onto {r : Reader} (h : r.program = .ok p)
    (htail : program ⟨S.tail, fin'⟩ = .ok q) :
    Uses r.tokens [] ∧ ∃ p', program ⟨S.onto r.tokens, fin'⟩ = .ok (p' ++ q)
      ∧ statementsWithoutPlaces p' = statementsWithoutPlaces p := by
  fun_induction program r generalizing p with
  | case1 r hs =>
    have huses := uses_skipTerminators r.tokens
    have hskip := skipTerminators_onto (S := S) r.tokens
    rw [show Parse.skipTerminators r.tokens = [] from hs] at huses hskip
    obtain rfl := Except.ok.inj h
    refine ⟨huses, [], ?_, rfl⟩
    rw [program_congr (hskip.trans (if_pos rfl)), htail, List.nil_append]
  | case2 => cases h
  | case3 r t us hs st rest hlt heq _ more hmore ih =>
    obtain rfl := Except.ok.inj h
    obtain ⟨hused, more', hprogram, hsame⟩ := ih hmore
    have hs : Parse.skipTerminators r.tokens = t :: us := hs
    have huses := uses_skipTerminators r.tokens
    have hskip := skipTerminators_onto (S := S) r.tokens
    rw [hs, if_neg (List.cons_ne_nil t us), Sequel.onto_cons] at hskip
    -- the statement that the reader stands at, read among the other tokens
    obtain ⟨huse, st', hst', hsame'⟩ := (parsers_carry (S := S) r.fin fin' _ _).statement _ _
      (Nat.lt_succ_self _) st rest ⟨hlt, heq⟩
    refine ⟨huses.trans (huse.trans hused), st' :: more', ?_, ?_⟩
    · refine program_cons hskip ?_ hprogram
      have htokens : S.onto r.skipTerminators.tokens
          = ⟨t.kind, S.place t.location⟩ :: S.onto us := by
        rw [show r.skipTerminators.tokens = t :: us from hs, Sequel.onto_cons]
      rw [htokens] at hst'
      exact hst'
    · rw [statementsWithoutPlaces, statementsWithoutPlaces, hsame', hsame]
  | case4 => cases h

end Reader

end Scriptlet
