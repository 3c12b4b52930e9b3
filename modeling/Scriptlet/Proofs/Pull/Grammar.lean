import Scriptlet.Proofs.Pull.Replies

/-!
# The grammar follows the replies

Each parser of the grammar follows the one of the same form that replies about lists of tokens. The
parsers that the grammar starts over with are asked about fewer tokens, so for them it can be taken
for granted, and the bound of the parsers carries the induction.

The depth that is enough grows with the tokens, two levels for each: a loop over the elements of a
list calls the parser of expressions before it has used up a token, but then it has used one up
before it goes on, and nothing else calls anything before that.
-/

namespace Scriptlet.Pull

open Parse (Parsers kindOf locationOf)

variable {source : String} {ts us rest : List Token} {w : Window} {m n : Nat} {p : Parsers m}

/-- The parsers that the grammar starts over with are followed. -/
structure Followed (source : String) (p : Parsers m) : Prop where
  expr : ∀ {n ts w} (h : ts.length < m), 2 * ts.length < n → w.Stands source ts →
    Follows source (((depth n).call .expr).run w) (p.expr ts h)
  unary : ∀ {n ts w} (h : ts.length < m), 2 * ts.length < n → w.Stands source ts →
    Follows source (((depth n).call .unary).run w) (p.unary ts h)
  statement : ∀ {n ts w} (h : ts.length < m), 2 * ts.length < n → w.Stands source ts →
    Follows source (((depth n).call .statement).run w) (p.statement ts h)

/-! ## Lists and blocks -/

section Grammar

variable (hp : Followed source p) {close : Symbol} {wanted : Expectation}

/-- An element is omitted in front of a comma or of the closing symbol. -/
theorem run_item {α : Type} {self : Self} (hw : w.Stands source ts) (f : Expr → Pull α) :
    (item self close >>= f).run w
      = if kindOf ts = .symbol .comma ∨ kindOf ts = .symbol close
        then (f (.empty (.at (locationOf (endOf source) ts)))).run w
        else (self.call .expr >>= f).run w := by
  rw [item, bind_assoc, run_at?, bind_assoc, run_at?, hw.kind]
  by_cases h : kindOf ts = .symbol .comma ∨ kindOf ts = .symbol close
  · rw [if_pos h, if_pos (by simpa using h), bind_assoc, run_location, pure_bind, hw.location]
  · rw [if_neg h, if_neg (by simpa using h)]

include hp

theorem follows_itemLoop (h : ts.length < m) (hn : 2 * ts.length + 1 < n)
    (hw : w.Stands source ts) :
    Follows source (((depth n).call (.itemLoop close wanted)).run w)
      (Parse.itemLoop (endOf source) p close wanted ts h) := by
  induction n generalizing ts w with
  | zero => exact absurd hn (Nat.not_lt_zero _)
  | succ n ih =>
    rw [depth_succ, Callee.body, itemLoop, run_item hw]
    by_cases hcomma : kindOf ts = .symbol .comma
    · obtain ⟨l, rest, rfl⟩ := eq_cons_of_symbol hcomma
      -- the element is omitted, but a comma is used up before the loop goes on
      rw [if_pos (.inl hcomma), run_ifTake, hw.kind, if_pos hcomma, Parse.itemLoop_comma]
      rw [List.length_cons] at hn
      exact (ih _ (by omega) hw.advance).behind
    · by_cases hclose : kindOf ts = .symbol close
      · rw [if_pos (.inr hclose), run_ifTake, hw.kind, if_neg hcomma,
          Parse.itemLoop_close hcomma hclose]
        exact (follows_expect hw).map
      · rw [if_neg (not_or.mpr ⟨hcomma, hclose⟩), Parse.itemLoop_expr hcomma hclose]
        refine Follows.bind (hp.expr h (by omega) hw) le_rfl fun e rest hr w' hw' ↦ ?_
        rw [run_ifTake, hw'.kind]
        by_cases hrest : kindOf rest = .symbol .comma
        · obtain ⟨l, rest, rfl⟩ := eq_cons_of_symbol hrest
          rw [if_pos hrest]
          rw [List.length_cons] at hr
          exact Follows.within (ih _ (by omega) hw'.advance)
        · rw [if_neg hrest]
          split
          · exact absurd rfl hrest
          · exact (follows_expect hw').within

theorem follows_items (h : ts.length < m) (hn : 2 * ts.length + 1 < n) (hw : w.Stands source ts) :
    Follows source ((items (depth n) close wanted).run w)
      (Parse.items (endOf source) p close wanted ts h) := by
  rw [items, run_ifTake, hw.kind, Parse.items]
  by_cases hclose : kindOf ts = .symbol close
  · obtain ⟨l, rest, rfl⟩ := eq_cons_of_symbol hclose
    rw [if_pos hclose, if_pos hclose, Parse.expect, if_pos rfl]
    exact follows_one hw.advance
  · rw [if_neg hclose, if_neg hclose]
    exact follows_itemLoop hp h hn hw

theorem follows_blockLoop (h : ts.length < m) (hn : 2 * ts.length + 1 < n)
    (hw : w.Stands source ts) :
    Follows source (((depth n).call .blockLoop).run w)
      (Parse.blockBody (endOf source) p ts h) := by
  induction n generalizing ts w with
  | zero => exact absurd hn (Nat.not_lt_zero _)
  | succ n ih =>
    obtain ⟨w', hskip, hw'⟩ := run_skipTerminators (n := n) (by omega) hw
    rw [depth_succ, Callee.body, blockLoop, run_bind_of_ok hskip, run_ifTake]
    rcases hs : Parse.skipTerminators ts with _ | ⟨t, us⟩
    · rw [hs] at hw'
      have heof : w'.token.kind = .eof := hw'.kind
      rw [heof, if_neg (by simp), run_ifAtEnd, if_pos heof, Parse.blockBody]
      split
      · exact follows_stop hw' (Nat.zero_le _)
      · rename_i hcons
        rw [hs] at hcons
        cases hcons
    · rw [hs] at hw'
      have hus := Parse.length_of_skipTerminators hs
      rw [hw'.kind_cons, Parse.blockBody_cons hs hus]
      by_cases hclose : t.kind = .symbol .closeBrace
      · rw [if_pos hclose, if_pos hclose]
        exact follows_ok hw'.advance
      · have hlength : (t :: us).length ≤ ts.length := hus
        rw [if_neg hclose, if_neg hclose, run_ifAtEnd, hw'.kind_cons, if_neg hw'.kind_ne_eof]
        refine Follows.bind (hp.statement _ (by omega) hw') hus fun s rest hr w'' hw'' ↦ ?_
        exact Follows.within (ih _ (by omega) hw'')

/-- The statements between braces. -/
theorem follows_blockBody (h : ts.length ≤ m) (hn : 2 * ts.length ≤ n) (hw : w.Stands source ts) :
    Follows source ((blockBody (depth n)).run w)
      ((Parse.expect (endOf source) .openBrace .openBlock ts).andThen fun _ rest hr ↦
        (Parse.blockBody (endOf source) p rest (length_lt_bound hr h)).within hr id) := by
  rw [blockBody]
  refine (follows_expect hw).bind le_rfl fun _ rest hr w' hw' ↦ ?_
  exact (follows_blockLoop hp _ (by omega) hw').widen

/-- A block where its opening brace is known to be. -/
theorem follows_braces {l : Location} (h : rest.length < m) (hn : 2 * rest.length + 1 < n)
    (hw : w.Stands source (⟨.symbol .openBrace, l⟩ :: rest)) :
    Follows source ((blockBody (depth n)).run w) (Parse.blockBody (endOf source) p rest h) := by
  rw [blockBody, run_bind_of_ok (run_expect hw)]
  exact follows_blockLoop hp h hn hw.advance

theorem follows_functionBody (h : ts.length ≤ m) (hn : 2 * ts.length ≤ n)
    (hw : w.Stands source ts) :
    Follows source ((functionBody (depth n)).run w)
      (Parse.functionBody (endOf source) p ts h) := by
  rw [functionBody, run_location, run_ifTake, hw.kind, hw.location]
  by_cases harrow : kindOf ts = .symbol .fatArrow
  · obtain ⟨l, rest, rfl⟩ := eq_cons_of_symbol harrow
    rw [List.length_cons] at hn
    rw [if_pos harrow]
    exact Follows.behind (hp.expr _ (by omega) hw.advance)
  · rw [if_neg harrow, run_ifAt, hw.kind]
    by_cases hopen : kindOf ts = .symbol .openBrace
    · obtain ⟨l, rest, rfl⟩ := eq_cons_of_symbol hopen
      rw [List.length_cons] at hn
      rw [if_pos hopen]
      exact (follows_braces hp _ (by omega) hw).deeper
    · rw [if_neg hopen]
      unfold Parse.functionBody
      split
      · exact absurd rfl harrow
      · exact absurd rfl hopen
      · exact follows_stop hw le_rfl

/-! ## Primary expressions -/

theorem follows_newExpr {t : Token} (h : rest.length < m) (hn : 2 * rest.length ≤ n)
    (hw : w.Stands source (t :: rest)) :
    Follows source ((newExpr (depth n)).run w)
      (Parse.newExpr (endOf source) p t.location rest h) := by
  rw [newExpr, run_advance, run_location, hw.token, hw.advance.location]
  refine (follows_identifier hw.advance).bind le_rfl fun first us hr w' hw' ↦ ?_
  refine (follows_newTarget (by omega) hw').bind le_rfl fun target us hr w' hw' ↦ ?_
  rw [run_ifAt, hw'.kind]
  by_cases hbracket : kindOf us = .symbol .openBracket
  · rw [if_pos hbracket]
    simp only [hbracket]
    refine (follows_newBrackets (by omega) hw').bind le_rfl fun rank us hr w' hw' ↦ ?_
    refine (follows_expect hw').bind (Nat.le_of_lt hr) fun _ us hr' w' hw' ↦ ?_
    exact Follows.within (follows_items hp _ (by omega) hw')
  · rw [if_neg hbracket, run_ifTake, hw'.kind]
    by_cases hparen : kindOf us = .symbol .openParen
    · obtain ⟨l, vs, rfl⟩ := eq_cons_of_symbol hparen
      rw [List.length_cons] at hr
      rw [if_pos hparen]
      simp only [hparen, Parse.expect, if_true, Reply.one, Reply.andThen]
      exact Follows.within (follows_items hp _ (by omega) hw'.advance)
    · rw [if_neg hparen]
      split
      · exact absurd ‹_› hbracket
      · exact absurd ‹_› hparen
      · exact follows_ok hw'

theorem follows_keywordExpr {k : Keyword} {t : Token} (h : rest.length < m)
    (hn : 2 * rest.length ≤ n) (hw : w.Stands source (t :: rest)) :
    Follows source ((keywordExpr (depth n) k).run w)
      (Parse.keywordExpr (endOf source) p k t rest h) := by
  rw [keywordExpr, run_location, hw.token]
  cases k with
  | new => exact (follows_newExpr hp h hn hw).deeper
  | «true» | «false» | null | this => exact follows_one hw.advance
  | out | «return» =>
    dsimp only
    rw [run_advance, run_take?, hw.advance.kind]
    by_cases hat : kindOf rest = .symbol .at
    · obtain ⟨l, us, rfl⟩ := eq_cons_of_symbol hat
      rw [if_pos hat]
      exact (follows_anyName hw.advance.advance).behind.deeper
    · rw [if_neg hat, Parse.keywordExpr_name (by simp) hat]
      exact (follows_anyName hw.advance).behind
  | lambda =>
    dsimp only
    rw [run_advance]
    refine Follows.deeper ((follows_params (by omega) hw.advance).bind le_rfl
      fun ps us hr w' hw' ↦ ?_)
    exact (follows_functionBody hp _ (by omega) hw').within
  | «if» | «else» | var | function | «class» | throw => exact follows_stop hw le_rfl

theorem follows_symbolExpr {s : Symbol} {l : Location} (h : rest.length < m)
    (hn : 2 * rest.length + 1 < n) (hw : w.Stands source (⟨.symbol s, l⟩ :: rest)) :
    Follows source ((symbolExpr (depth n) s).run w)
      (Parse.primary (endOf source) p (⟨.symbol s, l⟩ :: rest) h) := by
  rw [symbolExpr.eq_def, run_location, hw.token]
  cases s with
  | «at» | underscore => exact (follows_anyName hw.advance).behind
  | openBrace => exact (follows_braces hp h hn hw).behind
  | openParen =>
    refine Follows.deeper (Follows.bind (hp.expr h (by omega) hw.advance) le_rfl
      fun e us hr w' hw' ↦ ?_)
    exact (follows_expect hw').within
  | openBracket =>
    dsimp only
    rw [run_advance]
    exact (follows_items hp h hn hw.advance).behind
  | _ => exact follows_stop hw le_rfl

theorem follows_primary (h : ts.length ≤ m) (hn : 2 * ts.length ≤ n) (hw : w.Stands source ts) :
    Follows source ((primary (depth n)).run w) (Parse.primary (endOf source) p ts h) := by
  rw [primary, run_location, run_token, hw.kind, hw.location]
  cases ts with
  | nil => exact follows_stop hw le_rfl
  | cons t rest =>
    rw [List.length_cons] at hn
    obtain ⟨k, l⟩ := t
    match k, h with
    | .number (.int i), h | .number (.double x), h | .str s, h => exact follows_one hw.advance
    | .symbol s, h => exact follows_symbolExpr hp h (by omega) hw
    | .bad c, h | .eof, h => exact follows_stop hw le_rfl
    | .word x, h =>
      simp only [kindOf, Parse.primary]
      rcases Keyword.ofWord? x with _ | k
      · exact follows_one hw.advance
      · exact follows_keywordExpr hp _ (by omega) hw

/-! ## Suffixes -/

omit hp in
/-- The suffixes end at the first token that begins none. -/
theorem run_suffixes_stop {self : Self} {e : Expr} (hw : w.Stands source ts)
    (hstop : Parse.beginsSuffix (kindOf ts) = false) :
    (suffixes self e).run w = some (.ok e, w) := by
  have hne : ∀ {s}, Parse.beginsSuffix (.symbol s) = true → kindOf ts ≠ .symbol s := by
    intro s hs hkind
    rw [hkind, hs] at hstop
    cases hstop
  rw [suffixes, run_location, run_ifTake, hw.kind, if_neg (hne rfl), run_ifTake, hw.kind,
    if_neg (hne rfl), run_ifTake, hw.kind, if_neg (hne rfl), run_ifTake, hw.kind,
    if_neg (hne rfl), run_ifTakeEither, hw.kind, if_neg (not_or.mpr ⟨hne rfl, hne rfl⟩)]
  rfl

theorem follows_suffixes {e : Expr} {origin : List Token} (h : ts.length < origin.length)
    (hm : origin.length ≤ m) (hn : 2 * ts.length < n) (hw : w.Stands source ts) :
    Follows source (((depth n).call (.suffixes e)).run w)
      (Parse.suffixes (endOf source) p e origin ts h hm) := by
  induction n generalizing ts e w with
  | zero => exact absurd hn (Nat.not_lt_zero _)
  | succ n ih =>
    rw [depth_succ, Callee.body]
    by_cases hbegins : Parse.beginsSuffix (kindOf ts)
    · obtain ⟨s, l, rest, rfl⟩ : ∃ s l rest, ts = ⟨.symbol s, l⟩ :: rest := by
        obtain ⟨s, hs⟩ : ∃ s, kindOf ts = .symbol s := by
          cases hk : kindOf ts with
          | symbol s => exact ⟨s, rfl⟩
          | _ =>
            rw [hk] at hbegins
            cases hbegins
        exact ⟨s, eq_cons_of_symbol hs⟩
      rw [List.length_cons] at hn
      have hle : rest.length ≤ origin.length := Nat.le_of_lt (length_lt_of_succ h)
      -- what any suffix leaves is shorter, so the others behind it are followed
      have hothers : ∀ {e' : Expr} {rest' : List Token} (hr : rest'.length < rest.length) {w'},
          w'.Stands source rest' → Follows source (((depth n).call (.suffixes e')).run w')
            (Parse.suffixes (endOf source) p e' origin rest'
              (length_lt_trans hr (length_lt_of_succ h)) hm) :=
        fun hr _ hw' ↦ ih _ (by omega) hw'
      rw [suffixes, run_location, hw.token, Parse.suffixes_symbol]
      simp only [run_ifTake, run_ifTakeEither, hw.kind_cons]
      cases s with
      | openParen =>
        exact (follows_items hp _ (by omega) hw.advance).mapBind hle
          fun _ _ hr _ hw' ↦ hothers hr hw'
      | openBracket =>
        exact (follows_items hp _ (by omega) hw.advance).mapBind hle
          fun _ _ hr _ hw' ↦ hothers hr hw'
      | arrow =>
        exact (follows_arrowTarget hw.advance).mapBind hle fun _ _ hr _ hw' ↦ hothers hr hw'
      | questionQuestion =>
        exact Follows.mapBind (hp.unary _ (by omega) hw.advance) hle
          fun _ _ hr _ hw' ↦ hothers hr hw'
      | dot | colonColon =>
        exact (follows_anyName hw.advance).mapBind hle fun _ _ hr _ hw' ↦ hothers hr hw'
      | _ => cases hbegins
    · rw [Bool.not_eq_true] at hbegins
      rw [run_suffixes_stop hw hbegins, Parse.suffixes_stop hbegins]
      exact follows_ok hw

omit hp in
theorem run_increments (e : Expr) (hn : ts.length < n) (hw : w.Stands source ts) :
    ∃ w', ((depth n).call (.increments e)).run w = some (.ok (Parse.increments e ts).1, w')
      ∧ w'.Stands source (Parse.increments e ts).2 := by
  induction n generalizing ts e w with
  | zero => exact absurd hn (Nat.not_lt_zero _)
  | succ n ih =>
    rw [depth_succ, Callee.body, increments, run_token, hw.kind]
    split
    · rename_i hplus
      obtain ⟨l, rest, rfl⟩ := eq_cons_of_symbol hplus
      rw [List.length_cons] at hn
      rw [run_advance, hw.token]
      exact ih _ (by omega) hw.advance
    · rename_i hminus
      obtain ⟨l, rest, rfl⟩ := eq_cons_of_symbol hminus
      rw [List.length_cons] at hn
      rw [run_advance, hw.token]
      exact ih _ (by omega) hw.advance
    · rename_i hplus hminus
      rw [Parse.increments_stop]
      · exact ⟨w, rfl, hw⟩
      · cases hkind : kindOf ts with
        | symbol s =>
          have hne : s ≠ .plusPlus ∧ s ≠ .minusMinus :=
            ⟨fun hs ↦ hplus (hs ▸ hkind), fun hs ↦ hminus (hs ▸ hkind)⟩
          simp [Parse.isStep, hne]
        | _ => rfl

theorem follows_leftHandSide (h : ts.length ≤ m) (hn : 2 * ts.length ≤ n)
    (hw : w.Stands source ts) :
    Follows source ((leftHandSide (depth n)).run w) (Parse.applied (endOf source) p ts h) := by
  rw [leftHandSide]
  refine (follows_primary hp h hn hw).bind le_rfl fun e rest hr _ hw' ↦ ?_
  exact follows_suffixes hp hr h (by omega) hw'

theorem follows_postfixed (h : ts.length ≤ m) (hn : 2 * ts.length ≤ n) (hw : w.Stands source ts) :
    Follows source ((postfixed (depth n)).run w) (Parse.suffixed (endOf source) p ts h) := by
  rw [postfixed, Parse.suffixed, ← Reply.andThen_assoc]
  refine (follows_leftHandSide hp h hn hw).bind le_rfl fun e rest hr w' hw' ↦ ?_
  obtain ⟨w'', hrun, hw''⟩ := run_increments e (n := n) (by omega) hw'
  exact ⟨w'', hrun, hw''⟩

/-! ## The ladder -/

theorem follows_unary (h : ts.length ≤ m) (hn : 2 * ts.length ≤ n) (hw : w.Stands source ts) :
    Follows source ((unary (depth n)).run w) (Parse.unary (endOf source) p ts h) := by
  rw [unary, run_token, hw.kind]
  cases ts with
  | nil => exact follows_postfixed hp h hn hw
  | cons t rest =>
    simp only [kindOf, Parse.unary]
    rcases Parse.prefixOp? t.kind with _ | op
    · exact follows_postfixed hp h hn hw
    · rw [List.length_cons] at hn
      dsimp only
      rw [run_advance, hw.token]
      exact Follows.behind (hp.unary h (by omega) hw.advance)

omit hp in
theorem follows_operatorLoop {level : Parse.Level} {tighter : List Parse.Level}
    {operand : (ts : List Token) → ts.length ≤ m → Reply Expr ts}
    (hoperand : ∀ {n ts w} (h : ts.length ≤ m), 2 * ts.length ≤ n → w.Stands source ts →
      Follows source ((ladder (depth n) tighter).run w) (operand ts h))
    {left : Expr} {origin : List Token} (h : ts.length < origin.length) (hm : origin.length ≤ m)
    (hn : 2 * ts.length < n) (hw : w.Stands source ts) :
    Follows source (((depth n).call (.operatorLoop level tighter left)).run w)
      (Parse.operatorLoop level operand left origin ts h hm) := by
  induction n generalizing ts left w with
  | zero => exact absurd hn (Nat.not_lt_zero _)
  | succ n ih =>
    rw [depth_succ, Callee.body, operatorLoop, run_token, hw.kind]
    rcases hop : level.op? (kindOf ts) with _ | op
    · rw [Parse.operatorLoop_of_none hop]
      exact follows_ok hw
    · rcases ts with _ | ⟨t, rest⟩
      · cases hop
      · rw [Parse.operatorLoop_of_some hop]
        rw [List.length_cons] at h hn
        dsimp only
        rw [run_advance, hw.token]
        refine Follows.bind (hoperand _ (by omega) hw.advance) (by omega)
          fun right rest' hr w' hw' ↦ ?_
        exact ih _ (by omega) hw'

theorem follows_ladder (levels : List Parse.Level) (h : ts.length ≤ m) (hn : 2 * ts.length ≤ n)
    (hw : w.Stands source ts) :
    Follows source ((ladder (depth n) levels).run w)
      (Parse.ladder (endOf source) p levels ts h) := by
  induction levels generalizing n ts w with
  | nil =>
    rw [ladder]
    exact follows_unary hp h hn hw
  | cons level tighter ih =>
    rw [ladder]
    refine (ih h hn hw).bind le_rfl fun left rest hr w' hw' ↦ ?_
    exact follows_operatorLoop ih hr h (by omega) hw'

theorem follows_conditional (h : ts.length ≤ m) (hn : 2 * ts.length ≤ n)
    (hw : w.Stands source ts) :
    Follows source ((conditional (depth n)).run w)
      (Parse.conditional (endOf source) p ts h) := by
  rw [conditional]
  refine (follows_ladder hp Parse.levels h hn hw).bind le_rfl fun c rest hr w' hw' ↦ ?_
  rw [run_location, run_ifTake, hw'.kind, hw'.location]
  by_cases hkind : kindOf rest = .symbol .question
  · obtain ⟨l, us, rfl⟩ := eq_cons_of_symbol hkind
    rw [if_pos hkind]
    rw [List.length_cons] at hr
    refine Follows.bind (hp.expr _ (by omega) hw'.advance) (by omega) fun a vs hvs w' hw' ↦ ?_
    refine (follows_expect hw').bind (by omega) fun _ vs hvs w' hw' ↦ ?_
    exact Follows.within (hp.expr _ (by omega) hw')
  · rw [if_neg hkind]
    split
    · exact absurd rfl hkind
    · exact follows_ok hw'

theorem follows_expr (h : ts.length ≤ m) (hn : 2 * ts.length ≤ n) (hw : w.Stands source ts) :
    Follows source ((expr (depth n)).run w) (Parse.assignment (endOf source) p ts h) := by
  rw [expr]
  refine (follows_conditional hp h hn hw).bind le_rfl fun target rest hr w' hw' ↦ ?_
  rw [run_location, run_ifTake, hw'.kind, hw'.location]
  by_cases hkind : kindOf rest = .symbol .eq
  · obtain ⟨l, us, rfl⟩ := eq_cons_of_symbol hkind
    rw [List.length_cons] at hr
    rw [if_pos hkind]
    exact Follows.within (hp.expr _ (by omega) hw'.advance)
  · rw [if_neg hkind]
    split
    · exact absurd rfl hkind
    · exact follows_ok hw'

/-! ## Statements -/

omit hp in
/-- Behind `return` and `throw` there is no value in front of a terminator. -/
theorem run_optionalValue {self : Self} (hw : w.Stands source ts) :
    (optionalValue self).run w = (if Parse.endsValue (kindOf ts) then pure none
      else self.call .expr >>= fun e ↦ pure (some e) : Pull (Option Expr)).run w := by
  have hends : Parse.endsValue (kindOf ts) = (decide (kindOf ts = .symbol .semicolon)
      || decide (kindOf ts = .symbol .closeBrace) || decide (kindOf ts = .eof)) := by
    unfold Parse.endsValue
    split <;> simp_all
  rw [optionalValue, hends, ← hw.kind]
  rfl

theorem follows_optionalValue {t : Token} (h : rest.length < m) (hn : 2 * rest.length < n)
    (hw : w.Stands source (t :: rest)) :
    Follows source ((optionalValue (depth n)).run w.advance) (Parse.optionalValue p t rest h) := by
  rw [run_optionalValue hw.advance]
  rcases hvalue : Parse.endsValue (kindOf rest) with _ | _
  · rw [Parse.optionalValue_of_not hvalue]
    exact Follows.behind (hp.expr h hn hw.advance)
  · rw [Parse.optionalValue_of_ends hvalue]
    exact follows_one hw.advance

theorem follows_declaration (h : ts.length ≤ m) (hn : 2 * ts.length ≤ n)
    (hw : w.Stands source ts) :
    Follows source ((declaration (depth n)).run w)
      (Parse.declaration (endOf source) p ts h) := by
  rw [declaration, run_location, hw.location]
  refine (follows_identifier hw).bind le_rfl fun name rest hr w' hw' ↦ ?_
  refine (follows_optionalTypeExpr (by omega) hw').bind le_rfl fun a rest hr w' hw' ↦ ?_
  rw [run_ifTake, hw'.kind]
  by_cases hkind : kindOf rest = .symbol .eq
  · obtain ⟨l, us, rfl⟩ := eq_cons_of_symbol hkind
    rw [List.length_cons] at hr
    rw [if_pos hkind, Parse.optionalInit_eq]
    exact Follows.mapWithin (hp.expr _ (by omega) hw'.advance)
  · rw [if_neg hkind, Parse.optionalInit_stop hkind]
    exact follows_ok hw'

theorem follows_declarations (h : ts.length ≤ m) (hn : 2 * ts.length < n)
    (hw : w.Stands source ts) :
    Follows source (((depth n).call .declarations).run w)
      (Parse.declarations (endOf source) p ts h) := by
  induction n generalizing ts w with
  | zero => exact absurd hn (Nat.not_lt_zero _)
  | succ n ih =>
    rw [depth_succ, Callee.body, declarations, Parse.declarations_eq]
    refine (follows_declaration hp h (by omega) hw).bind le_rfl fun d rest hr w' hw' ↦ ?_
    rw [run_ifTake, hw'.kind]
    by_cases hkind : kindOf rest = .symbol .comma
    · obtain ⟨l, us, rfl⟩ := eq_cons_of_symbol hkind
      rw [List.length_cons] at hr
      rw [if_pos hkind]
      exact Follows.within (ih _ (by omega) hw'.advance)
    · rw [if_neg hkind]
      split
      · exact absurd rfl hkind
      · exact follows_ok hw'

theorem follows_varStatement {t : Token} (h : rest.length ≤ m) (hn : 2 * rest.length < n)
    (hw : w.Stands source (t :: rest)) :
    Follows source ((varStatement (depth n)).run w)
      ((Parse.declarations (endOf source) p rest h).behind (.vars t.location) :
        Reply Statement (t :: rest)) := by
  rw [varStatement, run_advance, hw.token]
  exact (follows_declarations hp h hn hw.advance).behind

theorem follows_functionDefinition {t : Token} (h : rest.length ≤ m) (hn : 2 * rest.length ≤ n)
    (hw : w.Stands source (t :: rest)) :
    Follows source ((functionDefinition (depth n)).run w)
      (Parse.functionDefinition (endOf source) p t.location rest h) := by
  rw [functionDefinition, run_advance, hw.token]
  refine (follows_identifier hw.advance).bind le_rfl fun name us hr w' hw' ↦ ?_
  refine (follows_params (by omega) hw').bind (Nat.le_of_lt hr) fun ps us hr' w' hw' ↦ ?_
  refine (follows_optionalTypeExpr (by omega) hw').bind le_rfl fun ret us hr w' hw' ↦ ?_
  exact (follows_functionBody hp _ (by omega) hw').within

theorem follows_ifStatement {t : Token} (h : rest.length ≤ m) (hn : 2 * rest.length ≤ n)
    (hw : w.Stands source (t :: rest)) :
    Follows source ((ifStatement (depth n)).run w)
      (Parse.condition (endOf source) p t.location rest h) := by
  rw [ifStatement, run_advance, hw.token]
  refine (follows_expect hw.advance).bind le_rfl fun _ us h₁ w' hw' ↦ ?_
  refine Follows.bind (hp.expr _ (by omega) hw') (Nat.le_of_lt h₁) fun c us h₂ w' hw' ↦ ?_
  refine (follows_expect hw').bind (by omega) fun _ us h₃ w' hw' ↦ ?_
  refine Follows.bind (hp.statement _ (by omega) hw') (by omega) fun onTrue us h₄ w' hw' ↦ ?_
  -- without an `else` the window is put back in front of the semicolons, as the reply leaves them
  have helse := run_elseBehind (n := n) (by omega) hw'
  split
  · rename_i hs
    rw [hs, if_neg (by simp [kindOf])] at helse
    rw [run_bind_of_ok helse]
    exact follows_ok hw'
  · rename_i t us hs
    have hus := Parse.length_of_skipTerminators hs
    by_cases hkind : t.kind = .word "else"
    · rw [hs, kindOf, if_pos hkind] at helse
      obtain ⟨w'', hrun, hw''⟩ := helse
      rw [List.tail_cons] at hw''
      rw [run_bind_of_ok hrun, if_pos hkind]
      exact Follows.within (hp.statement _ (by omega) hw'')
    · rw [hs, kindOf, if_neg hkind] at helse
      rw [run_bind_of_ok helse, if_neg hkind]
      exact follows_ok hw'

theorem follows_statement (h : ts.length ≤ m) (hn : 2 * ts.length ≤ n) (hw : w.Stands source ts) :
    Follows source ((statement (depth n)).run w) (Parse.statement (endOf source) p ts h) := by
  have hexpr : Follows source
      ((expr (depth n) >>= fun e ↦ pure (.expr e) : Pull Statement).run w)
      ((Parse.assignment (endOf source) p ts h).map .expr) := (follows_expr hp h hn hw).map
  rw [statement, run_location, run_ifAt, run_keyword?, hw.kind, hw.location]
  cases ts with
  | nil => exact hexpr
  | cons t rest =>
    rw [List.length_cons] at hn
    obtain ⟨k, l⟩ := t
    cases k with
    | number | str | bad | eof => exact hexpr
    | symbol s =>
      cases s with
      | openBrace => exact (follows_braces hp h (by omega) hw).behind
      | _ => exact hexpr
    | word x =>
      rw [if_neg (by simp [kindOf])]
      -- the forms that a reserved word begins, before it is told which word it is
      have hvar := follows_varStatement hp (n := n) (Nat.le_of_succ_le h) (by omega) hw
      have hfunction :=
        follows_functionDefinition hp (n := n) (Nat.le_of_succ_le h) (by omega) hw
      have hif := follows_ifStatement hp (n := n) (Nat.le_of_succ_le h) (by omega) hw
      have hvalue := follows_optionalValue hp (n := n) h (by omega) hw
      simp only [kindOf, Parse.statement, TokenKind.reserved?] at hexpr ⊢
      cases Keyword.ofWord? x with
      | none => exact hexpr
      | some k =>
        cases k with
        | var => exact hvar
        | function => exact hfunction.deeper
        | «if» => exact hif.deeper
        | «return» | throw =>
          dsimp only
          rw [run_advance]
          exact hvalue.map
        | «else» | «class» => exact ⟨w, rfl, hw, le_rfl⟩
        | _ => exact hexpr

end Grammar

/-- The parsers below any bound are followed. -/
theorem parsers_followed (source : String) (m : Nat) :
    Followed source (Parse.parsers (endOf source) m) := by
  induction m with
  | zero =>
    exact ⟨fun h ↦ absurd h (Nat.not_lt_zero _), fun h ↦ absurd h (Nat.not_lt_zero _),
      fun h ↦ absurd h (Nat.not_lt_zero _)⟩
  | succ m ih =>
    -- the call itself uses up a level, and what its body calls is asked about fewer tokens
    refine ⟨fun {n ts w} h hn hw ↦ ?_, fun {n ts w} h hn hw ↦ ?_, fun {n ts w} h hn hw ↦ ?_⟩
    · cases n with
      | zero => exact absurd hn (Nat.not_lt_zero _)
      | succ n => exact follows_expr ih _ (Nat.le_of_lt_succ hn) hw
    · cases n with
      | zero => exact absurd hn (Nat.not_lt_zero _)
      | succ n => exact follows_unary ih _ (Nat.le_of_lt_succ hn) hw
    · cases n with
      | zero => exact absurd hn (Nat.not_lt_zero _)
      | succ n => exact follows_statement ih _ (Nat.le_of_lt_succ hn) hw

end Scriptlet.Pull
