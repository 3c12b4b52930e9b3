import Scriptlet.Proofs.Parse.Sequel.Basic

/-!
# Expressions with a sequel

The parsers of lists, blocks and expressions carry over to tokens with a sequel, if those that the
grammar starts over with do. A function that goes on while it finds some token is unfolded for that
token and for all others; the end and a semicolon are always among the others.
-/

namespace Scriptlet.Parse

open Reply

variable {S : Sequel} {fin fin' : Location} {ts : List Token}

/-! ## Lists and blocks -/

/-- The parsers that the grammar starts over with carry over to others. -/
structure Parsers.Carry (S : Sequel) {n n' : Nat} (p : Parsers n) (p' : Parsers n') : Prop where
  expr : ∀ ts h h', (p.expr ts h).Carries S ts Expr.withoutPlaces (p'.expr (S.onto ts) h')
  unary : ∀ ts h h', (p.unary ts h).Carries S ts Expr.withoutPlaces (p'.unary (S.onto ts) h')
  statement : ∀ ts h h', (p.statement ts h).Carries S ts Statement.withoutPlaces
    (p'.statement (S.onto ts) h')

attribute [local simp] Expr.withoutPlaces exprsWithoutPlaces optionWithoutPlaces
  Statement.withoutPlaces statementsWithoutPlaces alternativeWithoutPlaces

variable {n n' : Nat} {p : Parsers n} {p' : Parsers n'} {close : Symbol} {wanted : Expectation}

theorem itemLoop_comma {rest : List Token} {l : Location}
    (h : (⟨.symbol .comma, l⟩ :: rest : List Token).length < n) :
    itemLoop fin p close wanted (⟨.symbol .comma, l⟩ :: rest) h
      = (itemLoop fin p close wanted rest (Nat.lt_of_succ_lt h)).behind (.empty (.at l) :: ·) := by
  rw [itemLoop]

theorem itemLoop_close {h : ts.length < n} (hts : kindOf ts ≠ .symbol .comma)
    (hclose : kindOf ts = .symbol close) :
    itemLoop fin p close wanted ts h
      = (expect fin close wanted ts).map fun _ ↦ [.empty (.at (locationOf fin ts))] := by
  rw [itemLoop, if_pos hclose]
  exact fun _ _ _ hcons _ ↦ ne_cons_of_kindOf hts hcons

theorem itemLoop_expr {h : ts.length < n} (hts : kindOf ts ≠ .symbol .comma)
    (hclose : kindOf ts ≠ .symbol close) :
    itemLoop fin p close wanted ts h = (p.expr ts h).andThen fun e rest hr ↦
      match rest, hr with
      | ⟨.symbol .comma, _⟩ :: rest', hr =>
        (itemLoop fin p close wanted rest' (Nat.lt_trans (length_lt_of_succ hr) h)).within
          (length_lt_of_succ hr) (e :: ·)
      | rest, hr => (expect fin close wanted rest).within hr fun _ ↦ [e] := by
  rw [itemLoop, if_neg hclose]
  · cases p.expr ts h <;> rfl
  · exact fun _ _ _ hcons _ ↦ ne_cons_of_kindOf hts hcons

variable (hp : p.Carry S p')

include hp

theorem carries_itemLoop (hsemicolon : close ≠ .semicolon) {h : ts.length < n}
    {h' : (S.onto ts).length < n'} :
    (itemLoop fin p close wanted ts h).Carries S ts exprsWithoutPlaces
      (itemLoop fin' p' close wanted (S.onto ts) h') := by
  induction hn : ts.length using Nat.strongRecOn generalizing ts with
  | ind n ih =>
    by_cases hts : kindOf ts = .symbol .comma
    · obtain ⟨l, rest, rfl⟩ := eq_cons_of_kindOf hts (by simp)
      revert h'
      rw [Sequel.onto_cons]
      intro h'
      rw [itemLoop_comma, itemLoop_comma]
      refine Carries.behind ((ih _ ?_ rfl).mono (.symbol _ l rest)) fun es es' hes ↦ ?_
      · rw [← hn]
        exact Nat.lt_succ_self _
      · simp [hes]
    · have hts' := S.kindOf_onto_ne (by decide) hts
      by_cases hclose : kindOf ts = .symbol close
      · have hclose' := (S.kindOf_onto (by simp) (by simpa using hsemicolon) ts).mpr hclose
        rw [itemLoop_close hts hclose, itemLoop_close hts' hclose']
        exact carries_expect.map fun _ _ _ ↦ by simp
      · rw [itemLoop_expr hts hclose, itemLoop_expr hts' (S.kindOf_onto_ne hsemicolon hclose)]
        refine (hp.expr ts h h').andThen fun e rest hlt e' hlt' huses he ↦ ?_
        -- behind an item the loop goes on at a comma only
        by_cases hrest : kindOf rest = .symbol .comma
        · obtain ⟨l, rest, rfl⟩ := eq_cons_of_kindOf hrest (by simp)
          have hlen : rest.length < n := by
            rw [← hn]
            exact length_lt_of_succ hlt
          simp only [Sequel.onto_cons]
          refine Carries.within (Carries.mono (ih _ hlen rfl) (huses.trans (.symbol _ l rest)))
            fun es es' hes ↦ ?_
          simp [he, hes]
        · have hrest' := S.kindOf_onto_ne (by decide) hrest
          split
          · exact absurd rfl hrest
          split
          · rename_i heq _
            exact absurd heq (ne_cons_of_kindOf hrest')
          refine Carries.within (carries_expect.mono huses) fun _ _ _ ↦ ?_
          simp [he]

theorem carries_items (hsemicolon : close ≠ .semicolon) {h : ts.length < n}
    {h' : (S.onto ts).length < n'} :
    (items fin p close wanted ts h).Carries S ts exprsWithoutPlaces
      (items fin' p' close wanted (S.onto ts) h') := by
  unfold items
  simp only [S.kindOf_onto (k := .symbol close) (by simp) (by simpa using hsemicolon)]
  split
  · exact carries_expect.map fun _ _ _ ↦ rfl
  · exact carries_itemLoop hp hsemicolon

omit hp in
theorem uses_skipTerminators (ts : List Token) : Uses ts (skipTerminators ts) := by
  fun_induction skipTerminators ts with
  | case1 l rest ih => exact .trans (.symbol _ l rest) ih
  | case2 ts => exact .refl ts

omit hp in
theorem skipTerminators_semicolon (l : Location) (ts : List Token) :
    skipTerminators (⟨.symbol .semicolon, l⟩ :: ts) = skipTerminators ts := rfl

omit hp in
theorem skipTerminators_stop (h : kindOf ts ≠ .symbol .semicolon) : skipTerminators ts = ts := by
  rw [skipTerminators]
  exact fun l rest hcons ↦ ne_cons_of_kindOf h hcons

omit hp in
/-- Behind the semicolons stands what stood there, or what stands behind the semicolons of the
sequel. -/
theorem skipTerminators_onto (ts : List Token) :
    skipTerminators (S.onto ts)
      = if skipTerminators ts = [] then skipTerminators S.tail
        else S.onto (skipTerminators ts) := by
  fun_induction skipTerminators ts with
  | case1 l rest ih => rw [Sequel.onto_cons, skipTerminators_semicolon, ih]
  | case2 ts hne =>
    cases ts with
    | nil => rw [Sequel.onto_nil, if_pos rfl]
    | cons t ts =>
      rw [if_neg (List.cons_ne_nil t ts)]
      refine skipTerminators_stop fun hkind ↦ ?_
      rw [Sequel.onto_cons] at hkind
      exact hne t.location ts (by rw [← show t.kind = _ from hkind])

omit hp in
theorem blockBody_cons {h : ts.length < n} {t : Token} {us : List Token}
    (hs : skipTerminators ts = t :: us) (hle : us.length < ts.length) :
    blockBody fin p ts h
      = if t.kind = .symbol .closeBrace then .ok [] us hle
        else (p.statement (t :: us) (Nat.lt_of_le_of_lt hle h)).andThen fun st rest hr ↦
          have hrest : rest.length < ts.length := Nat.lt_of_lt_of_le hr hle
          (blockBody fin p rest (Nat.lt_trans hrest h)).within hrest (st :: ·) := by
  rw [blockBody]
  split
  · rename_i hnil
    rw [hs] at hnil
    cases hnil
  · rename_i hcons
    rw [hs] at hcons
    obtain ⟨rfl, rfl⟩ := List.cons.inj hcons
    split
    · rfl
    · dsimp only
      cases p.statement (t :: us) (Nat.lt_of_le_of_lt hle h) <;> rfl

theorem carries_blockBody {h : ts.length < n} {h' : (S.onto ts).length < n'} :
    (blockBody fin p ts h).Carries S ts statementsWithoutPlaces
      (blockBody fin' p' (S.onto ts) h') := by
  induction hn : ts.length using Nat.strongRecOn generalizing ts with
  | ind n ih =>
    have hskip := uses_skipTerminators ts
    rcases hs : skipTerminators ts with _ | ⟨t, us⟩
    · rw [blockBody]
      split
      · exact carries_fail
      · rename_i hcons
        rw [hs] at hcons
        cases hcons
    · have hs' : skipTerminators (S.onto ts) = ⟨t.kind, S.place t.location⟩ :: S.onto us := by
        rw [skipTerminators_onto, hs, if_neg (List.cons_ne_nil t us), Sequel.onto_cons]
      rw [hs] at hskip
      rw [blockBody_cons hs (length_of_skipTerminators hs),
        blockBody_cons hs' (length_of_skipTerminators hs')]
      by_cases ht : t.kind = .symbol .closeBrace
      · rw [if_pos ht, if_pos ht]
        exact carries_ok (hskip.trans (.one (by simp [ht]) us)) rfl rfl
      · rw [if_neg ht, if_neg ht]
        have hstatement := hp.statement (t :: us)
        rw [Sequel.onto_cons] at hstatement
        refine Carries.andThen ((hstatement _ _).mono hskip) fun st rest hlt st' hlt' huses hst ↦ ?_
        have hlen : rest.length < n := by
          rw [← hn]
          exact Nat.lt_of_lt_of_le hlt (length_of_skipTerminators hs)
        refine Carries.within (Carries.mono (ih _ hlen rfl) huses) fun body body' hbody ↦ ?_
        simp [hst, hbody]

theorem carries_functionBody {h : ts.length ≤ n} {h' : (S.onto ts).length ≤ n'} :
    (functionBody fin p ts h).Carries S ts statementsWithoutPlaces
      (functionBody fin' p' (S.onto ts) h') := by
  unfold functionBody
  split
  · rename_i l rest h
    revert h'
    rw [Sequel.onto_cons]
    intro h'
    refine Carries.behind ((hp.expr rest _ _).mono (.symbol _ l rest)) fun e e' he ↦ ?_
    simp [he]
  · rename_i l rest h
    revert h'
    rw [Sequel.onto_cons]
    intro h'
    exact Carries.behind ((carries_blockBody hp).mono (.symbol _ l rest)) fun _ _ h ↦ h
  · exact carries_fail

/-! ## Primary expressions -/

omit hp in
theorem newTarget_dot {target : Expr} {text : String} {origin rest : List Token} {s : Symbol}
    {l : Location} (hs : s = .dot ∨ s = .colonColon)
    (h : (⟨.symbol s, l⟩ :: rest : List Token).length < origin.length) :
    newTarget fin target text origin (⟨.symbol s, l⟩ :: rest) h
      = (identifier fin rest).andThen fun w rest' hr ↦
        newTarget fin (.member (.at l) target w) (text ++ "." ++ w) origin rest'
          (length_lt_trans hr (length_lt_of_succ h)) := by
  rw [newTarget, if_pos hs]
  cases identifier fin rest <;> rfl

omit hp in
theorem newTarget_stop {target : Expr} {text : String} {origin : List Token}
    {h : ts.length < origin.length} (hdot : kindOf ts ≠ .symbol .dot)
    (hcolons : kindOf ts ≠ .symbol .colonColon) :
    newTarget fin target text origin ts h = .ok (target, text) ts h := by
  rw [newTarget.eq_def]
  split
  · rename_i s l rest h
    rw [if_neg]
    rintro (rfl | rfl)
    · exact hdot rfl
    · exact hcolons rfl
  · rfl

omit hp in
theorem carries_newTarget {target target' : Expr}
    (htarget : target'.withoutPlaces = target.withoutPlaces)
    {text : String} {origin origin' : List Token} {h : ts.length < origin.length}
    {h' : (S.onto ts).length < origin'.length} :
    (newTarget fin target text origin ts h).Carries S ts (fun r ↦ (r.1.withoutPlaces, r.2))
      (newTarget fin' target' text origin' (S.onto ts) h') := by
  induction hn : ts.length using Nat.strongRecOn generalizing ts target target' text with
  | ind n ih =>
    by_cases hts : kindOf ts = .symbol .dot ∨ kindOf ts = .symbol .colonColon
    · obtain ⟨s, hs, l, rest, rfl⟩ : ∃ s, (s = .dot ∨ s = .colonColon)
          ∧ ∃ l rest, ts = ⟨.symbol s, l⟩ :: rest := by
        rcases hts with hts | hts
        · exact ⟨_, .inl rfl, eq_cons_of_kindOf hts (by simp)⟩
        · exact ⟨_, .inr rfl, eq_cons_of_kindOf hts (by simp)⟩
      rw [newTarget_dot hs]
      simp only [Sequel.onto_cons, newTarget_dot hs]
      refine carries_identifier.andThen fun w rest' hlt w' hlt' huses hw ↦ ?_
      obtain rfl : w' = w := hw
      have hlen : rest'.length < n := by
        rw [← hn]
        exact length_lt_trans hlt (Nat.lt_succ_self _)
      refine Carries.mono (ih _ hlen ?_ rfl) (.trans (.symbol _ l rest) huses)
      simp [htarget]
    · rw [not_or] at hts
      rw [newTarget_stop hts.1 hts.2, newTarget_stop (S.kindOf_onto_ne (by decide) hts.1)
        (S.kindOf_onto_ne (by decide) hts.2)]
      exact carries_ok (.refl _) rfl (by rw [htarget])

omit hp in
theorem newBrackets_open {rank : Nat} {origin rest : List Token} {l : Location}
    (h : (⟨.symbol .openBracket, l⟩ :: rest : List Token).length < origin.length) :
    newBrackets fin rank origin (⟨.symbol .openBracket, l⟩ :: rest) h
      = (expect fin .closeBracket .closeArrayType rest).andThen fun _ rest' hr ↦
        newBrackets fin (rank + 1) origin rest' (length_lt_trans hr (length_lt_of_succ h)) := by
  rw [newBrackets]
  cases expect fin .closeBracket .closeArrayType rest <;> rfl

omit hp in
theorem newBrackets_stop {rank : Nat} {origin : List Token} {h : ts.length < origin.length}
    (hts : kindOf ts ≠ .symbol .openBracket) :
    newBrackets fin rank origin ts h = .ok rank ts h := by
  rw [newBrackets.eq_def]
  split
  · exact absurd rfl hts
  · rfl

omit hp in
theorem carries_newBrackets {rank : Nat} {origin origin' : List Token}
    {h : ts.length < origin.length} {h' : (S.onto ts).length < origin'.length} :
    (newBrackets fin rank origin ts h).Carries S ts id
      (newBrackets fin' rank origin' (S.onto ts) h') := by
  induction hn : ts.length using Nat.strongRecOn generalizing ts rank with
  | ind n ih =>
    by_cases hts : kindOf ts = .symbol .openBracket
    · obtain ⟨l, rest, rfl⟩ := eq_cons_of_kindOf hts (by simp)
      rw [newBrackets_open]
      simp only [Sequel.onto_cons, newBrackets_open]
      refine carries_expect.andThen fun _ rest' hlt _ hlt' huses _ ↦ ?_
      have hlen : rest'.length < n := by
        rw [← hn]
        exact length_lt_trans hlt (Nat.lt_succ_self _)
      exact Carries.mono (ih _ hlen rfl) (.trans (.symbol _ l rest) huses)
    · rw [newBrackets_stop hts, newBrackets_stop (S.kindOf_onto_ne (by decide) hts)]
      exact carries_ok (.refl _) rfl rfl

theorem carries_newExpr {l l' : Location} {h : ts.length < n} {h' : (S.onto ts).length < n'} :
    (newExpr fin p l ts h).Carries S ts Expr.withoutPlaces (newExpr fin' p' l' (S.onto ts) h') := by
  refine carries_identifier.andThen fun first rest _ first' _ huses hfirst ↦ ?_
  obtain rfl : first' = first := hfirst
  refine Carries.andThen ((carries_newTarget (by simp)).mono huses)
    fun t rest hlt t' hlt' huses ht ↦ ?_
  obtain ⟨ht, htext⟩ : t'.1.withoutPlaces = t.1.withoutPlaces ∧ t'.2 = t.2 := Prod.mk.inj ht
  by_cases hopen : kindOf rest = .symbol .openBracket
  · have hopen' := (S.kindOf_onto (by simp) (by simp) rest).mpr hopen
    simp only [hopen, hopen']
    refine (carries_newBrackets.mono huses).andThen fun rank rest _ rank' _ huses hrank ↦ ?_
    obtain rfl : rank' = rank := hrank
    refine (carries_expect.mono huses).andThen fun _ rest _ _ _ huses _ ↦ ?_
    refine Carries.within ((carries_items hp (by decide)).mono huses) fun es es' hes ↦ ?_
    simp [hes, htext, TypeExpr.withoutPlace]
  · have hopen' := S.kindOf_onto_ne (by decide) hopen
    by_cases hparen : kindOf rest = .symbol .openParen
    · have hparen' := (S.kindOf_onto (by simp) (by simp) rest).mpr hparen
      simp only [hparen, hparen']
      refine (carries_expect.mono huses).andThen fun _ rest _ _ _ huses _ ↦ ?_
      refine Carries.within ((carries_items hp (by decide)).mono huses) fun es es' hes ↦ ?_
      simp [hes, ht]
    · have hparen' := S.kindOf_onto_ne (by decide) hparen
      split
      · exact absurd ‹_› hopen
      · exact absurd ‹_› hparen
      exact carries_ok huses rfl (by simp [ht])

omit hp in
theorem keywordExpr_name {k : Keyword} (hk : k = .out ∨ k = .return) {t : Token}
    {h : ts.length < n} (hts : kindOf ts ≠ .symbol .at) :
    keywordExpr fin p k t ts h = (anyName fin ts).behind (.variableRef (.at t.location)) := by
  rcases hk with rfl | rfl
  all_goals
    unfold keywordExpr
    dsimp only
    split
    · exact absurd rfl hts
    · rfl

theorem carries_keywordExpr {k : Keyword} {t : Token} (ht : ∀ c, t.kind ≠ .bad c)
    {h : ts.length < n} {h' : (S.onto ts).length < n'} :
    (keywordExpr fin p k t ts h).Carries S (t :: ts) Expr.withoutPlaces
      (keywordExpr fin' p' k ⟨t.kind, S.place t.location⟩ (S.onto ts) h') := by
  have hone : Uses (t :: ts) ts := .one ht ts
  cases k with
  | new => exact Carries.behind ((carries_newExpr hp).mono hone) fun _ _ h ↦ h
  | «true» | «false» | null | this => exact carries_one ht (by simp)
  | out | «return» =>
    by_cases hts : kindOf ts = .symbol .at
    · obtain ⟨l, rest, rfl⟩ := eq_cons_of_kindOf hts (by simp)
      revert h'
      rw [Sequel.onto_cons]
      intro h'
      refine Carries.behind (f := Expr.withoutPlaces) (Carries.behind (f := id)
        (carries_anyName.mono (hone.trans (.symbol _ l rest))) fun w w' hw ↦ ?_) fun _ _ h ↦ h
      obtain rfl : w' = w := hw
      simp
    · rw [keywordExpr_name (by simp) hts,
        keywordExpr_name (by simp) (S.kindOf_onto_ne (by decide) hts)]
      refine Carries.behind (carries_anyName.mono hone) fun w w' hw ↦ ?_
      obtain rfl : w' = w := hw
      simp
  | lambda =>
    refine Carries.behind (f := Expr.withoutPlaces) (Carries.andThen
      (carries_params.mono hone) fun ps rest _ ps' _ huses hps ↦ ?_) fun _ _ h ↦ h
    refine Carries.within ((carries_functionBody hp).mono huses) fun body body' hbody ↦ ?_
    simp [hps, hbody]
  | «if» | «else» | var | function | «class» | throw => exact carries_fail

theorem carries_primary {h : ts.length ≤ n} {h' : (S.onto ts).length ≤ n'} :
    (primary fin p ts h).Carries S ts Expr.withoutPlaces (primary fin' p' (S.onto ts) h') := by
  cases ts with
  | nil => exact carries_fail
  | cons t ts =>
    revert h'
    rw [Sequel.onto_cons]
    intro h'
    obtain ⟨k, l⟩ := t
    -- the first token is the same with the sequel behind, and it decides what is read
    match k, h, h' with
    | .number (.int i), h, h' => exact carries_one (by simp) (by simp)
    | .number (.double x), h, h' => exact carries_one (by simp) (by simp)
    | .str s, h, h' => exact carries_one (by simp) (by simp)
    | .bad c, h, h' => exact carries_fail
    | .eof, h, h' => exact carries_fail
    | .word w, h, h' =>
      unfold primary
      dsimp only
      split
      · exact carries_keywordExpr hp (by simp)
      · exact carries_one (by simp) (by simp)
    | .symbol s, h, h' =>
      have hone : Uses (⟨.symbol s, l⟩ :: ts) ts := .symbol s l ts
      cases s with
      | «at» | underscore =>
        refine Carries.behind (carries_anyName.mono hone) fun w w' hw ↦ ?_
        obtain rfl : w' = w := hw
        simp
      | openBrace =>
        refine Carries.behind ((carries_blockBody hp).mono hone) fun body body' hbody ↦ ?_
        simp [hbody]
      | openParen =>
        refine Carries.behind (f := Expr.withoutPlaces)
          (Carries.andThen ((hp.expr ts _ _).mono hone) fun e rest _ e' _ huses he ↦ ?_)
          fun _ _ h ↦ h
        refine Carries.within (carries_expect.mono huses) fun _ _ _ ↦ ?_
        simp [he]
      | openBracket =>
        refine Carries.behind ((carries_items hp (by decide)).mono hone) fun es es' hes ↦ ?_
        simp [hes]
      | _ => exact carries_fail

/-! ## Suffixes -/

omit hp in
theorem carries_arrowTarget :
    (arrowTarget fin ts).Carries S ts Expr.withoutPlaces (arrowTarget fin' (S.onto ts)) := by
  by_cases hts : kindOf ts = .symbol .at
  · obtain ⟨l, rest, rfl⟩ := eq_cons_of_kindOf hts (by simp)
    rw [Sequel.onto_cons]
    refine Carries.behind (carries_anyName.mono (.symbol _ l rest)) fun w w' hw ↦ ?_
    obtain rfl : w' = w := hw
    simp
  · have hstop {fin : Location} {us : List Token} (hus : kindOf us ≠ .symbol .at) :
        arrowTarget fin us = (identifier fin us).map (.name (.at (locationOf fin us))) := by
      unfold arrowTarget
      split
      · exact absurd rfl hus
      · rfl
    rw [hstop hts, hstop (S.kindOf_onto_ne (by decide) hts)]
    refine carries_identifier.map fun w w' hw ↦ ?_
    obtain rfl : w' = w := hw
    simp

/-- What the next suffix makes of an expression, if the symbol begins a suffix. -/
def suffix? (fin : Location) (p : Parsers n) (e : Expr) (s : Symbol) (l : Location)
    (rest : List Token) (h : rest.length < n) : Option (Reply Expr rest) :=
  match s with
  | .openParen =>
    some ((items fin p .closeParen .closeArguments rest h).map fun args ↦ .call (.at l) e args none)
  | .openBracket =>
    some ((items fin p .closeBracket .closeIndex rest h).map fun args ↦ .index (.at l) e args none)
  | .arrow => some ((arrowTarget fin rest).map fun t ↦ .assign (.at l) t e none)
  | .questionQuestion => some ((p.unary rest h).map fun r ↦ .coalesce (.at l) e r)
  | .dot | .colonColon => some ((anyName fin rest).map fun w ↦ .member (.at l) e w)
  | _ => none

omit hp in
theorem suffixes_symbol {e : Expr} {origin rest : List Token} {s : Symbol} {l : Location}
    (h : (⟨.symbol s, l⟩ :: rest : List Token).length < origin.length) (hn : origin.length ≤ n) :
    suffixes fin p e origin (⟨.symbol s, l⟩ :: rest) h hn
      = match suffix? fin p e s l rest (length_lt_bound (length_lt_of_succ h) hn) with
        | none => .ok e (⟨.symbol s, l⟩ :: rest) h
        | some r => r.andThen fun e rest' hr ↦
          suffixes fin p e origin rest' (length_lt_trans hr (length_lt_of_succ h)) hn := by
  rw [suffixes.eq_def]
  dsimp only [suffix?]
  cases s with
  | openParen | openBracket | arrow | questionQuestion | dot | colonColon =>
    dsimp only
    generalize Reply.map _ _ = r
    cases r <;> rfl
  | _ => rfl

theorem carries_suffix? {e e' : Expr} (he : e'.withoutPlaces = e.withoutPlaces) (s : Symbol)
    {l l' : Location} {rest : List Token} {h : rest.length < n} {h' : (S.onto rest).length < n'} :
    Option.Rel (Carries S rest Expr.withoutPlaces) (suffix? fin p e s l rest h)
      (suffix? fin' p' e' s l' (S.onto rest) h') := by
  cases s with
  | openParen | openBracket =>
    refine .some ((carries_items hp (by decide)).map fun args args' hargs ↦ ?_)
    simp [he, hargs]
  | arrow =>
    refine .some (carries_arrowTarget.map fun t t' ht ↦ ?_)
    simp [he, ht]
  | questionQuestion =>
    refine .some ((hp.unary rest h h').map fun r r' hr ↦ ?_)
    simp [he, hr]
  | dot | colonColon =>
    refine .some (carries_anyName.map fun w w' hw ↦ ?_)
    obtain rfl : w' = w := hw
    simp [he]
  | _ => exact .none

theorem carries_suffixes {e e' : Expr} (he : e'.withoutPlaces = e.withoutPlaces)
    {origin origin' : List Token} {h : ts.length < origin.length} {hn : origin.length ≤ n}
    {h' : (S.onto ts).length < origin'.length} {hn' : origin'.length ≤ n'} :
    (suffixes fin p e origin ts h hn).Carries S ts Expr.withoutPlaces
      (suffixes fin' p' e' origin' (S.onto ts) h' hn') := by
  induction hlen : ts.length using Nat.strongRecOn generalizing ts e e' with
  | ind m ih =>
    by_cases hts : beginsSuffix (kindOf ts)
    · obtain ⟨s, l, rest, rfl⟩ : ∃ s l rest, ts = ⟨.symbol s, l⟩ :: rest := by
        obtain ⟨s, hs⟩ : ∃ s, kindOf ts = .symbol s := by
          cases hk : kindOf ts with
          | symbol s => exact ⟨s, rfl⟩
          | _ =>
            rw [hk] at hts
            cases hts
        exact ⟨s, eq_cons_of_kindOf hs (by simp)⟩
      simp only [Sequel.onto_cons] at h' ⊢
      rw [suffixes_symbol, suffixes_symbol]
      have hrel : Option.Rel (Carries S rest Expr.withoutPlaces)
          (suffix? fin p e s l rest (length_lt_bound (length_lt_of_succ h) hn))
          (suffix? fin' p' e' s (S.place l) (S.onto rest)
            (length_lt_bound (length_lt_of_succ h') hn')) := carries_suffix? hp he s
      revert hrel
      generalize suffix? fin p e s l rest _ = o
      generalize suffix? fin' p' e' s (S.place l) (S.onto rest) _ = o'
      rintro (⟨hr⟩ | _)
      · refine Carries.andThen (hr.mono (.symbol s l rest)) fun e rest' hlt e' hlt' huses he ↦ ?_
        have hshort : rest'.length < m := by
          rw [← hlen]
          exact length_lt_trans hlt (Nat.lt_succ_self _)
        exact Carries.mono (ih _ hshort he rfl) huses
      · exact carries_ok (.refl _) (S.onto_cons ⟨.symbol s, l⟩ rest).symm he
    · rw [Bool.not_eq_true] at hts
      have hts' : beginsSuffix (kindOf (S.onto ts)) = false :=
        (S.apply_kindOf_onto beginsSuffix rfl ts).trans hts
      rw [suffixes_stop hts, suffixes_stop hts']
      exact carries_ok (.refl _) rfl he

omit hp in
theorem uses_increments (e : Expr) (ts : List Token) : Uses ts (increments e ts).2 := by
  fun_induction increments e ts with
  | case1 e l rest ih => exact .trans (.symbol _ l rest) ih
  | case2 e l rest ih => exact .trans (.symbol _ l rest) ih
  | case3 e ts => exact .refl ts

omit hp in
theorem increments_onto {e e' : Expr} (he : e'.withoutPlaces = e.withoutPlaces) (ts : List Token) :
    (increments e' (S.onto ts)).2 = S.onto (increments e ts).2
      ∧ (increments e' (S.onto ts)).1.withoutPlaces = (increments e ts).1.withoutPlaces := by
  fun_induction increments e ts generalizing e' with
  | case1 e l rest ih =>
    rw [Sequel.onto_cons, increments]
    exact ih (by simp [he])
  | case2 e l rest ih =>
    rw [Sequel.onto_cons, increments]
    exact ih (by simp [he])
  | case3 e ts hinc hdec =>
    have hstop : isStep (kindOf ts) = false := by
      rw [Bool.eq_false_iff]
      intro hstep
      cases ts with
      | nil => cases hstep
      | cons t ts =>
        obtain ⟨k, l⟩ := t
        cases k with
        | symbol s =>
          cases s with
          | plusPlus => exact hinc l ts rfl
          | minusMinus => exact hdec l ts rfl
          | _ => cases hstep
        | _ => cases hstep
    rw [increments_stop ((S.apply_kindOf_onto isStep rfl ts).trans hstop)]
    exact ⟨rfl, he⟩

theorem carries_suffixed {h : ts.length ≤ n} {h' : (S.onto ts).length ≤ n'} :
    (suffixed fin p ts h).Carries S ts Expr.withoutPlaces (suffixed fin' p' (S.onto ts) h') := by
  refine (carries_primary hp).andThen fun e rest _ e' _ huses he ↦ ?_
  refine Carries.andThen ((carries_suffixes hp he).mono huses) fun e rest _ e' _ huses he ↦ ?_
  obtain ⟨hrest, hvalue⟩ := increments_onto (S := S) he rest
  exact carries_ok (huses.trans (uses_increments e rest)) hrest hvalue

/-! ## The ladder -/

omit hp in
theorem unary_of_none {h : ts.length ≤ n} (hts : prefixOp? (kindOf ts) = none) :
    unary fin p ts h = suffixed fin p ts h := by
  cases ts with
  | nil => rfl
  | cons t ts =>
    rw [unary]
    split
    · rename_i op hop
      rw [show prefixOp? t.kind = none from hts] at hop
      cases hop
    · rfl

omit hp in
theorem unary_of_some {t : Token} {op : UnaryOp} {h : (t :: ts).length ≤ n}
    (hop : prefixOp? t.kind = some op) :
    unary fin p (t :: ts) h = (p.unary ts h).behind fun e ↦ .unary (.at t.location) op e none := by
  rw [unary]
  split
  · rename_i op' hop'
    obtain rfl : op = op' := Option.some.inj (hop.symm.trans hop')
    rfl
  · rename_i hnone
    rw [hop] at hnone
    cases hnone

theorem carries_unary {h : ts.length ≤ n} {h' : (S.onto ts).length ≤ n'} :
    (unary fin p ts h).Carries S ts Expr.withoutPlaces (unary fin' p' (S.onto ts) h') := by
  rcases hop : prefixOp? (kindOf ts) with _ | op
  · have hop' : prefixOp? (kindOf (S.onto ts)) = none :=
      (S.apply_kindOf_onto prefixOp? rfl ts).trans hop
    rw [unary_of_none hop, unary_of_none hop']
    exact carries_suffixed hp
  · cases ts with
    | nil => cases hop
    | cons t rest =>
      have hgood : ∀ c, t.kind ≠ .bad c := by
        intro c hc
        rw [kindOf, hc] at hop
        cases hop
      revert h'
      rw [Sequel.onto_cons]
      intro h'
      rw [unary_of_some hop, unary_of_some (t := ⟨t.kind, S.place t.location⟩) hop]
      refine Carries.behind ((hp.unary rest _ _).mono (.one hgood rest)) fun e e' he ↦ ?_
      simp [he]

omit hp in
theorem operatorLoop_of_none {level : Level}
    {operand : (ts : List Token) → ts.length ≤ n → Reply Expr ts} {left : Expr}
    {origin : List Token} {h : ts.length < origin.length} {hn : origin.length ≤ n}
    (hts : level.op? (kindOf ts) = none) :
    operatorLoop level operand left origin ts h hn = .ok left ts h := by
  cases ts with
  | nil => rw [operatorLoop]
  | cons t ts =>
    rw [operatorLoop]
    split
    · rename_i op hop
      rw [show level.op? t.kind = none from hts] at hop
      cases hop
    · rfl

omit hp in
theorem operatorLoop_of_some {level : Level}
    {operand : (ts : List Token) → ts.length ≤ n → Reply Expr ts} {left : Expr} {t : Token}
    {origin rest : List Token} {h : (t :: rest).length < origin.length} {hn : origin.length ≤ n}
    {op : BinaryOp} (hop : level.op? t.kind = some op) :
    operatorLoop level operand left origin (t :: rest) h hn
      = (operand rest (length_le_bound (length_lt_of_succ h) hn)).andThen fun right rest' hr ↦
        operatorLoop level operand (.binary (.at t.location) op left right none) origin rest'
          (length_lt_trans hr (length_lt_of_succ h)) hn := by
  rw [operatorLoop]
  split
  · rename_i op' hop'
    obtain rfl : op = op' := Option.some.inj (hop.symm.trans hop')
    cases operand rest (length_le_bound (length_lt_of_succ h) hn) <;> rfl
  · rename_i hnone
    rw [hop] at hnone
    cases hnone

omit hp in
theorem carries_operatorLoop {level : Level}
    (hlevel : level.op? (.symbol .semicolon) = none)
    {operand : (ts : List Token) → ts.length ≤ n → Reply Expr ts}
    {operand' : (ts : List Token) → ts.length ≤ n' → Reply Expr ts}
    (hoperand : ∀ ts h h', (operand ts h).Carries S ts Expr.withoutPlaces
      (operand' (S.onto ts) h'))
    {left left' : Expr} (hleft : left'.withoutPlaces = left.withoutPlaces)
    {origin origin' : List Token} {h : ts.length < origin.length} {hn : origin.length ≤ n}
    {h' : (S.onto ts).length < origin'.length} {hn' : origin'.length ≤ n'} :
    (operatorLoop level operand left origin ts h hn).Carries S ts Expr.withoutPlaces
      (operatorLoop level operand' left' origin' (S.onto ts) h' hn') := by
  induction hlen : ts.length using Nat.strongRecOn generalizing ts left left' with
  | ind m ih =>
    rcases hop : level.op? (kindOf ts) with _ | op
    · have hop' := (S.apply_kindOf_onto level.op? hlevel ts).trans hop
      rw [operatorLoop_of_none hop, operatorLoop_of_none hop']
      exact carries_ok (.refl _) rfl hleft
    · cases ts with
      | nil => cases hop
      | cons t rest =>
        have hgood : ∀ c, t.kind ≠ .bad c := by
          intro c hc
          rw [kindOf, hc] at hop
          cases hop
        simp only [Sequel.onto_cons] at h' ⊢
        rw [operatorLoop_of_some hop,
          operatorLoop_of_some (t := ⟨t.kind, S.place t.location⟩) hop]
        refine Carries.andThen ((hoperand rest _ _).mono (.one hgood rest))
          fun right rest' hlt right' hlt' huses hright ↦ ?_
        have hshort : rest'.length < m := by
          rw [← hlen]
          exact length_lt_trans hlt (Nat.lt_succ_self _)
        refine Carries.mono (ih _ hshort ?_ rfl) huses
        simp [hleft, hright]

theorem carries_ladder {levels : List Level}
    (hlevels : ∀ level ∈ levels, level.op? (.symbol .semicolon) = none) (ts : List Token)
    (h : ts.length ≤ n) (h' : (S.onto ts).length ≤ n') :
    (ladder fin p levels ts h).Carries S ts Expr.withoutPlaces
      (ladder fin' p' levels (S.onto ts) h') := by
  induction levels generalizing ts with
  | nil => exact carries_unary hp
  | cons level tighter ih =>
    obtain ⟨hlevel, htighter⟩ := List.forall_mem_cons.mp hlevels
    refine (ih htighter ts h h').andThen fun e rest _ e' _ huses he ↦ ?_
    exact Carries.mono (carries_operatorLoop hlevel (ih htighter) he) huses

theorem carries_conditional {h : ts.length ≤ n} {h' : (S.onto ts).length ≤ n'} :
    (conditional fin p ts h).Carries S ts Expr.withoutPlaces
      (conditional fin' p' (S.onto ts) h') := by
  refine (carries_ladder hp (by decide) ts h h').andThen fun x rest hlt x' hlt' huses hx ↦ ?_
  by_cases hrest : kindOf rest = .symbol .question
  · obtain ⟨l, rest, rfl⟩ := eq_cons_of_kindOf hrest (by simp)
    simp only [Sequel.onto_cons]
    refine Carries.andThen ((hp.expr rest _ _).mono (huses.trans (.symbol _ l rest)))
      fun a rest _ a' _ huses ha ↦ ?_
    refine (carries_expect.mono huses).andThen fun _ rest _ _ _ huses _ ↦ ?_
    refine Carries.within ((hp.expr rest _ _).mono huses) fun b b' hb ↦ ?_
    simp [hx, ha, hb]
  · have hrest' := S.kindOf_onto_ne (by decide) hrest
    split
    · exact absurd rfl hrest
    split
    · rename_i heq _
      exact absurd heq (ne_cons_of_kindOf hrest')
    exact carries_ok huses rfl hx

theorem carries_assignment {h : ts.length ≤ n} {h' : (S.onto ts).length ≤ n'} :
    (assignment fin p ts h).Carries S ts Expr.withoutPlaces
      (assignment fin' p' (S.onto ts) h') := by
  refine (carries_conditional hp).andThen fun t rest hlt t' hlt' huses ht ↦ ?_
  by_cases hrest : kindOf rest = .symbol .eq
  · obtain ⟨l, rest, rfl⟩ := eq_cons_of_kindOf hrest (by simp)
    simp only [Sequel.onto_cons]
    refine Carries.within ((hp.expr rest _ _).mono (huses.trans (.symbol _ l rest)))
      fun v v' hv ↦ ?_
    simp [ht, hv]
  · have hrest' := S.kindOf_onto_ne (by decide) hrest
    split
    · exact absurd rfl hrest
    split
    · rename_i heq _
      exact absurd heq (ne_cons_of_kindOf hrest')
    exact carries_ok huses rfl ht

end Scriptlet.Parse
