import Scriptlet.Proofs.Pull.Grammar

/-!
# Whole advances

Nothing but `advance` moves a window on, and a reading that came to nothing puts back a window from
before. Neither makes it plain how the windows before and behind a method are related: a method may
have gone on and back any number of times, and on the face of it need not come to an end. But called
at the window behind some number of calls of `advance`, each method of the grammar replies, and
leaves the window behind that many calls or more; and where it replies with something that it read,
there are more.

This is read off the replies about lists of tokens, which the methods follow: how many calls have
been made is told by how many tokens are left.
-/

namespace Scriptlet

open Parse (kindOf)

/-- The reader that has the same tokens before it as the window behind that many calls. -/
def Reader.behind (source : String) (k : Nat) : Reader := ⟨(tokensOf source).drop k, endOf source⟩

/-- What the reply of reading an expression comes to if the expression has to end the text; a
semicolon may stand behind it. -/
def Reply.whole {ts : List Token} (fin : Location) (r : Reply Expr ts) : Except ParseError Expr :=
  match r with
  | .fail e _ => .error e
  | .ok e rest _ =>
    let rest := match rest with
      | ⟨.symbol .semicolon, _⟩ :: rest => rest
      | rest => rest
    if rest.isEmpty then .ok e else .error (Parse.unexpected fin .endOfInput rest)

theorem parseExpression_eq (source : String) :
    parseExpression source = (Reader.ofText source).expr.whole (endOf source) := by
  unfold parseExpression
  dsimp only
  generalize (Reader.ofText source).expr = r
  cases r with
  | fail e rest => rfl
  | ok e rest h =>
    rcases rest with _ | ⟨⟨k, l⟩, rest⟩
    · rfl
    · cases k with
      | symbol s => cases s <;> rfl
      | _ => rfl

namespace Pull

variable {α β : Type} {source : String} {ts us rest : List Token} {w : Window} {k n : Nat}

/-! ## Methods -/

/-- The methods of the grammar. -/
inductive Method : Type → Type
  | program : Method Program
  | nextStatement : Method Statement
  | wholeExpr : Method Expr
  | statement : Method Statement
  | varStatement : Method Statement
  | functionDefinition : Method Statement
  | ifStatement : Method Statement
  | optionalValue : Method (Option Expr)
  | expr : Method Expr
  | conditional : Method Expr
  | ladder (levels : List Parse.Level) : Method Expr
  | unary : Method Expr
  | postfixed : Method Expr
  | leftHandSide : Method Expr
  | arrowTarget : Method Expr
  | primary : Method Expr
  | newExpr : Method Expr
  | items (close : Symbol) (wanted : Expectation) : Method (List Expr)
  | params : Method (List Param)
  | typeExpr : Method TypeExpr
  | functionBody : Method (List Statement)
  | blockBody : Method (List Statement)

namespace Method

/-- What a method does with the calls that it makes. -/
def parser (self : Self) : Method α → Pull α
  | .program => Pull.program self
  | .nextStatement => Pull.nextStatement self
  | .wholeExpr => Pull.wholeExpr self
  | .statement => Pull.statement self
  | .varStatement => Pull.varStatement self
  | .functionDefinition => Pull.functionDefinition self
  | .ifStatement => Pull.ifStatement self
  | .optionalValue => Pull.optionalValue self
  | .expr => Pull.expr self
  | .conditional => Pull.conditional self
  | .ladder levels => Pull.ladder self levels
  | .unary => Pull.unary self
  | .postfixed => Pull.postfixed self
  | .leftHandSide => Pull.leftHandSide self
  | .arrowTarget => Pull.arrowTarget
  | .primary => Pull.primary self
  | .newExpr => Pull.newExpr self
  | .items close wanted => Pull.items self close wanted
  | .params => Pull.params self
  | .typeExpr => Pull.typeExpr self
  | .functionBody => Pull.functionBody self
  | .blockBody => Pull.blockBody self

/-- The value has something in it that was read. The two methods that may find nothing to read say
so with their values. -/
def IsRead : Method α → α → Prop
  | .program, value => value ≠ []
  | .optionalValue, value => value ≠ none
  | _, _ => True

end Method

/-! ## Replies that read on -/

/-- The depth to which calls are nested at most in front of so many tokens. -/
def enough (tokens : Nat) : Nat := 2 * tokens + 2

theorem lt_of_enough_cons {t : Token} (h : enough (t :: ts).length ≤ n) : 2 * ts.length < n := by
  rw [enough, List.length_cons] at h
  omega

/-- The parser replies, and leaves the tokens or fewer of them. How deep it may go makes no
difference if that is enough. -/
def Reads (source : String) (ts : List Token) (isRead : α → Prop) (x : Self → Pull α)
    (w : Window) : Prop :=
  ∃ reply rest, ∀ n, enough ts.length ≤ n →
    ∃ w', (x (depth n)).run w = some (reply, w') ∧ w'.Stands source rest
      ∧ rest.length ≤ ts.length
      ∧ ∀ value, reply = .ok value → isRead value → rest.length < ts.length

theorem Reads.of_follows {isRead : α → Prop} {x : Self → Pull α} {r : Reply α us}
    (h : ∀ n, enough ts.length ≤ n → Follows source ((x (depth n)).run w) r)
    (hle : us.length ≤ ts.length) : Reads source ts isRead x w := by
  cases r with
  | ok value rest hlt =>
    refine ⟨.ok value, rest, fun n hn ↦ ?_⟩
    obtain ⟨w', hrun, hw'⟩ := h n hn
    exact ⟨w', hrun, hw', by omega, fun _ _ _ ↦ by omega⟩
  | fail e rest =>
    refine ⟨.error e, rest, fun n hn ↦ ?_⟩
    obtain ⟨w', hrun, hw', hrest⟩ := h n hn
    exact ⟨w', hrun, hw', hrest.trans hle, fun _ h ↦ by cases h⟩

/-- At the end of the text nothing can be read, so what is read first refuses to go on. -/
theorem Follows.bind_nil {x : Pull α} {f : α → Pull β} {r : Reply α []}
    (h : Follows source (x.run w) r) : Follows source ((x >>= f).run w)
      (r.andThen fun _ _ hlt ↦ absurd hlt (Nat.not_lt_zero _) : Reply β []) :=
  h.bind le_rfl fun _ _ hlt ↦ absurd hlt (Nat.not_lt_zero _)

/-! ### Texts -/

theorem follows_expr_reader (hn : 2 * ts.length ≤ n) (hw : w.Stands source ts) :
    Follows source ((expr (depth n)).run w) (Reader.mk ts (endOf source)).expr :=
  (parsers_followed source _).expr (n := n + 1) _ (Nat.lt_succ_of_le hn) hw

theorem follows_statement_reader (hn : 2 * ts.length ≤ n) (hw : w.Stands source ts) :
    Follows source ((statement (depth n)).run w) (Reader.mk ts (endOf source)).statementHere :=
  (parsers_followed source _).statement (n := n + 1) _ (Nat.lt_succ_of_le hn) hw

theorem follows_nextStatement (hn : enough ts.length ≤ n) (hw : w.Stands source ts) :
    Follows source ((nextStatement (depth n)).run w)
      (Reader.mk ts (endOf source)).skipTerminators.statementHere := by
  have hle := Parse.length_skipTerminators ts
  rw [enough] at hn
  obtain ⟨w', hskip, hw'⟩ := run_skipTerminators (n := n) (by omega) hw
  rw [nextStatement, run_bind_of_ok hskip]
  exact follows_statement_reader (Nat.le_trans (Nat.mul_le_mul_left 2 hle) (by omega)) hw'

theorem run_program_of_end (hn : ts.length < n) (hw : w.Stands source ts)
    (hend : (Reader.mk ts (endOf source)).skipTerminators.tokens = []) :
    ∃ w', (program (depth n)).run w = some (.ok [], w')
      ∧ w'.Stands source (Parse.skipTerminators ts) := by
  obtain ⟨w', hskip, hw'⟩ := run_skipTerminators hn hw
  refine ⟨w', ?_, hw'⟩
  rw [program, run_bind_of_ok hskip, run_ifAtEnd, if_pos (hw'.atEnd.mpr hend)]
  rfl

/-- Where the text does not end behind any semicolons, a statement stands there and more of the
program behind it. -/
theorem run_program_of_statement (hn : 2 * ts.length < n) (hw : w.Stands source ts)
    (hend : (Reader.mk ts (endOf source)).skipTerminators.tokens ≠ []) :
    ∃ w', (program (depth n)).run w = (do
        let s ← statement (depth n)
        return s :: (← (depth n).call .program) : Pull Program).run w'
      ∧ Follows source ((statement (depth n)).run w')
        (Reader.mk ts (endOf source)).skipTerminators.statementHere := by
  have hle := Nat.mul_le_mul_left 2 (Parse.length_skipTerminators ts)
  obtain ⟨w', hskip, hw'⟩ := run_skipTerminators (n := n) (by omega) hw
  refine ⟨w', ?_, follows_statement_reader (Nat.le_trans hle (Nat.le_of_lt hn)) hw'⟩
  rw [program, run_bind_of_ok hskip, run_ifAtEnd, if_neg (mt hw'.atEnd.mp hend)]

/-- A program ends as the reader's does. What is left is told by the tokens whatever the depth, so
the induction is on how many tokens there are. -/
theorem exists_program (ts : List Token) : ∃ rest, ∀ n w, 2 * ts.length < n → w.Stands source ts →
    ∃ w', (program (depth n)).run w = some ((Reader.mk ts (endOf source)).program, w')
      ∧ w'.Stands source rest ∧ rest.length ≤ ts.length
      ∧ ∀ p, (Reader.mk ts (endOf source)).program = .ok p → p ≠ [] → rest.length < ts.length := by
  induction hlen : ts.length using Nat.strongRecOn generalizing ts with
  | ind m ih =>
    subst hlen
    have hle := Parse.length_skipTerminators ts
    rw [Reader.program_eq]
    by_cases hend : (Reader.mk ts (endOf source)).skipTerminators.tokens = []
    · refine ⟨Parse.skipTerminators ts, fun n w hn hw ↦ ?_⟩
      obtain ⟨w', hrun, hw'⟩ := run_program_of_end (n := n) (by omega) hw hend
      rw [if_pos hend]
      exact ⟨w', hrun, hw', hle, fun p hp hne ↦ absurd (Except.ok.inj hp).symm hne⟩
    · rw [if_neg hend, Reader.programHere]
      rcases hst : (Reader.mk ts (endOf source)).skipTerminators.statementHere with
        ⟨st, us, hlt⟩ | ⟨e, us⟩
      · have hus : us.length < ts.length := Nat.lt_of_lt_of_le hlt hle
        obtain ⟨rest, hmore⟩ := ih us.length hus us rfl
        refine ⟨rest, fun n w hn hw ↦ ?_⟩
        obtain ⟨w₀, hrun, hfirst⟩ := run_program_of_statement hn hw hend
        obtain ⟨w₁, hrun₁, hw₁⟩ := hfirst.of_ok hst
        -- the statement has used up a token, so the rest of the program may have a level less
        obtain ⟨n, rfl⟩ := Nat.exists_eq_succ_of_ne_zero (Nat.ne_zero_of_lt hn)
        obtain ⟨w₂, hrun₂, hw₂, hrest, -⟩ := hmore n w₁ (by omega) hw₁
        refine ⟨w₂, ?_, hw₂, by omega, fun _ _ _ ↦ by omega⟩
        rw [hrun, run_bind_of_ok hrun₁, depth_succ, Callee.body]
        dsimp only [Reader.skipTerminators]
        generalize (Reader.mk us (endOf source)).program = q at hrun₂ ⊢
        cases q with
        | error e => exact run_bind_of_error hrun₂ _
        | ok more => exact run_bind_of_ok hrun₂ _
      · refine ⟨us, fun n w hn hw ↦ ?_⟩
        obtain ⟨w₀, hrun, hfirst⟩ := run_program_of_statement hn hw hend
        obtain ⟨w₁, hrun₁, hw₁, hle₁⟩ := hfirst.of_fail hst
        exact ⟨w₁, hrun.trans (run_bind_of_error hrun₁ _), hw₁, hle₁.trans hle,
          fun _ h ↦ by cases h⟩

/-- A value that has to end the text. -/
theorem run_expectEnd (value : α) (hw : w.Stands source ts) :
    (do expectEnd; return value : Pull α).run w = some (if ts.isEmpty then .ok value
      else .error (Parse.unexpected (endOf source) .endOfInput ts), w) := by
  cases ts with
  | nil =>
    have hrun : expectEnd.run w = some (.ok (), w) := by
      rw [expectEnd, run_ifAtEnd, if_pos (hw.atEnd.mpr rfl)]
      rfl
    exact run_bind_of_ok hrun _
  | cons t ts =>
    have hrun : expectEnd.run w
        = some (.error (Parse.unexpected (endOf source) .endOfInput (t :: ts)), w) := by
      rw [expectEnd, run_ifAtEnd, if_neg (mt hw.atEnd.mp (List.cons_ne_nil t ts)), run_refuse,
        hw.unexpected]
    exact run_bind_of_error hrun _

/-- An expression ends as it does for itself if the text ends behind it. -/
theorem exists_wholeExpr (source : String) (r : Reply Expr ts) : ∃ rest, ∀ self w,
    Follows source ((expr self).run w) r →
    ∃ w', (wholeExpr self).run w = some (r.whole (endOf source), w')
      ∧ w'.Stands source rest ∧ rest.length ≤ ts.length
      ∧ ∀ e, r.whole (endOf source) = .ok e → rest.length < ts.length := by
  cases r with
  | ok e us hlt =>
    by_cases hsemicolon : kindOf us = .symbol .semicolon
    · obtain ⟨l, rest, rfl⟩ := eq_cons_of_symbol hsemicolon
      rw [List.length_cons] at hlt
      refine ⟨rest, fun self w hr ↦ ?_⟩
      obtain ⟨w₁, hrun, hw₁⟩ := hr
      rw [wholeExpr, run_bind_of_ok hrun, run_take?, hw₁.kind, if_pos hsemicolon]
      exact ⟨_, run_expectEnd e hw₁.advance, hw₁.advance, by omega, fun _ _ ↦ by omega⟩
    · refine ⟨us, fun self w hr ↦ ?_⟩
      obtain ⟨w₁, hrun, hw₁⟩ := hr
      rw [wholeExpr, run_bind_of_ok hrun, run_take?, hw₁.kind, if_neg hsemicolon]
      unfold Reply.whole
      dsimp only
      split
      · exact absurd rfl hsemicolon
      · exact ⟨_, run_expectEnd e hw₁, hw₁, Nat.le_of_lt hlt, fun _ _ ↦ hlt⟩
  | fail e us =>
    refine ⟨us, fun self w hr ↦ ?_⟩
    obtain ⟨w₁, hrun, hw₁, hle⟩ := hr
    exact ⟨w₁, run_bind_of_error hrun _, hw₁, hle, fun _ h ↦ by cases h⟩

theorem reads_optionalValue (hw : w.Stands source ts) :
    Reads source ts Method.optionalValue.IsRead optionalValue w := by
  rcases hvalue : Parse.endsValue (kindOf ts) with _ | _
  · refine .of_follows (r := (Reader.mk ts (endOf source)).expr.map some) (fun n hn ↦ ?_) le_rfl
    rw [run_optionalValue hw, hvalue, if_neg Bool.false_ne_true]
    exact ((parsers_followed source _).expr _ (Nat.lt_of_succ_lt hn) hw).map
  · refine ⟨.ok none, ts, fun n _ ↦ ?_⟩
    rw [run_optionalValue hw, hvalue, if_pos rfl]
    exact ⟨w, rfl, hw, le_rfl, fun _ h hne ↦ absurd (Except.ok.inj h).symm hne⟩

/-! ### Methods that begin with `advance`

They take the word that tells which form it is, and never look at it. -/

variable {isRead : Statement → Prop}

theorem reads_varStatement (hw : w.Stands source ts) :
    Reads source ts isRead varStatement w := by
  have hp := parsers_followed source ts.length
  cases ts with
  | nil =>
    exact .of_follows (fun n hn ↦ by
      rw [varStatement, run_advance, hw.advance_nil]
      exact (follows_declarations hp le_rfl (Nat.lt_of_succ_lt hn) hw).bind_nil) le_rfl
  | cons t ts =>
    exact .of_follows (fun n hn ↦
      follows_varStatement hp (Nat.le_succ _) (lt_of_enough_cons hn) hw) le_rfl

theorem reads_functionDefinition (hw : w.Stands source ts) :
    Reads source ts isRead functionDefinition w := by
  have hp := parsers_followed source ts.length
  cases ts with
  | nil =>
    exact .of_follows (fun n hn ↦ by
      rw [functionDefinition, run_advance, hw.advance_nil]
      exact (follows_identifier hw).bind_nil) le_rfl
  | cons t ts =>
    exact .of_follows (fun n hn ↦ follows_functionDefinition hp (Nat.le_succ _)
      (Nat.le_of_lt (lt_of_enough_cons hn)) hw) (Nat.le_succ _)

theorem reads_ifStatement (hw : w.Stands source ts) :
    Reads source ts isRead ifStatement w := by
  have hp := parsers_followed source ts.length
  cases ts with
  | nil =>
    exact .of_follows (fun n hn ↦ by
      rw [ifStatement, run_advance, hw.advance_nil]
      exact (follows_expect hw).bind_nil) le_rfl
  | cons t ts =>
    exact .of_follows (fun n hn ↦ follows_ifStatement hp (Nat.le_succ _)
      (Nat.le_of_lt (lt_of_enough_cons hn)) hw) (Nat.le_succ _)

theorem reads_newExpr {isRead : Expr → Prop} (hw : w.Stands source ts) :
    Reads source ts isRead newExpr w := by
  have hp := parsers_followed source ts.length
  cases ts with
  | nil =>
    exact .of_follows (fun n hn ↦ by
      rw [newExpr, run_advance, run_location, hw.advance_nil]
      exact (follows_identifier hw).bind_nil) le_rfl
  | cons t ts =>
    exact .of_follows (fun n hn ↦ follows_newExpr hp (Nat.lt_succ_self _)
      (Nat.le_of_lt (lt_of_enough_cons hn)) hw) (Nat.le_succ _)

/-! ## Methods reply -/

theorem Method.reads (m : Method α) (hw : w.Stands source ts) :
    Reads source ts m.IsRead (m.parser ·) w := by
  have hp := parsers_followed source (ts.length + 1)
  have hm : ts.length ≤ ts.length + 1 := Nat.le_succ _
  have hle : ∀ {n}, enough ts.length ≤ n → 2 * ts.length ≤ n := fun hn ↦ by rw [enough] at hn; omega
  cases m with
  | program =>
    obtain ⟨rest, hrest⟩ := exists_program ts
    exact ⟨_, rest, fun n hn ↦ hrest n w (Nat.lt_of_succ_lt hn) hw⟩
  | nextStatement =>
    exact .of_follows (fun n hn ↦ follows_nextStatement hn hw) (Parse.length_skipTerminators ts)
  | wholeExpr =>
    obtain ⟨rest, hrest⟩ := exists_wholeExpr source (Reader.mk ts (endOf source)).expr
    refine ⟨(Reader.mk ts (endOf source)).expr.whole (endOf source), rest, fun n hn ↦ ?_⟩
    obtain ⟨w', hrun, hw', hle', hlt⟩ := hrest _ w (follows_expr_reader (hle hn) hw)
    exact ⟨w', hrun, hw', hle', fun e he _ ↦ hlt e he⟩
  | statement => exact .of_follows (fun n hn ↦ follows_statement hp hm (hle hn) hw) le_rfl
  | varStatement => exact reads_varStatement hw
  | functionDefinition => exact reads_functionDefinition hw
  | ifStatement => exact reads_ifStatement hw
  | optionalValue => exact reads_optionalValue hw
  | expr => exact .of_follows (fun n hn ↦ follows_expr hp hm (hle hn) hw) le_rfl
  | conditional => exact .of_follows (fun n hn ↦ follows_conditional hp hm (hle hn) hw) le_rfl
  | ladder levels => exact .of_follows (fun n hn ↦ follows_ladder hp levels hm (hle hn) hw) le_rfl
  | unary => exact .of_follows (fun n hn ↦ follows_unary hp hm (hle hn) hw) le_rfl
  | postfixed => exact .of_follows (fun n hn ↦ follows_postfixed hp hm (hle hn) hw) le_rfl
  | leftHandSide => exact .of_follows (fun n hn ↦ follows_leftHandSide hp hm (hle hn) hw) le_rfl
  | arrowTarget => exact .of_follows (fun n hn ↦ follows_arrowTarget hw) le_rfl
  | primary => exact .of_follows (fun n hn ↦ follows_primary hp hm (hle hn) hw) le_rfl
  | newExpr => exact reads_newExpr hw
  | items close wanted =>
    exact .of_follows (fun n hn ↦ follows_items hp (Nat.lt_succ_self _) hn hw) le_rfl
  | params => exact .of_follows (fun n hn ↦ follows_params (by have := hle hn; omega) hw) le_rfl
  | typeExpr => exact .of_follows (fun n hn ↦ follows_typeExpr (by have := hle hn; omega) hw) le_rfl
  | functionBody => exact .of_follows (fun n hn ↦ follows_functionBody hp hm (hle hn) hw) le_rfl
  | blockBody => exact .of_follows (fun n hn ↦ follows_blockBody hp hm (hle hn) hw) le_rfl

/-! ## Calls are counted -/

/-- The method replies so at the window, and leaves that one, if it may go deep enough. -/
def Method.Replies (m : Method α) (w : Window) (reply : Except ParseError α) (w' : Window) : Prop :=
  ∃ d, ∀ n, d ≤ n → (m.parser (depth n)).run w = some (reply, w')

/-- The windows that a parser of the text can come to: the first one, and what is left by a call of
`advance` or of a method, whether that replied with a value or with an error. To go back to a window
that was kept leads to no others. -/
inductive Reachable (source : String) : Window → Prop
  | start : Reachable source (.ofText source)
  | advance {w : Window} (h : Reachable source w) : Reachable source w.advance
  | call {α : Type} {w w' : Window} (m : Method α) {reply : Except ParseError α}
      (h : Reachable source w) (hreply : m.Replies w reply w') : Reachable source w'

theorem reachable_reached (source : String) (k : Nat) : Reachable source (.reached source k) := by
  induction k with
  | zero => exact .start
  | succ k ih =>
    rw [Window.reached_succ]
    exact .advance ih

theorem Reachable.stands (h : Reachable source w) : ∃ ts, w.Stands source ts := by
  induction h with
  | start => exact ⟨_, Window.stands_reached (Nat.zero_le _)⟩
  | advance _ ih =>
    obtain ⟨ts, hw⟩ := ih
    cases ts with
    | nil => exact ⟨[], hw.advance_nil.symm ▸ hw⟩
    | cons t ts => exact ⟨ts, hw.advance⟩
  | call m _ hreply ih =>
    obtain ⟨ts, hw⟩ := ih
    obtain ⟨d, hd⟩ := hreply
    obtain ⟨reply, rest, hreads⟩ := m.reads hw
    obtain ⟨w', hrun, hw', -⟩ := hreads (max d (enough ts.length)) (le_max_right _ _)
    rw [hd _ (le_max_left _ _)] at hrun
    obtain ⟨-, rfl⟩ := Prod.mk.inj (Option.some.inj hrun)
    exact ⟨rest, hw'⟩

/-- The parser replies at the window behind as many calls or more, and behind more where it replies
with something that was read. Its calls are nested no deeper than is enough for the tokens left. -/
def Advances (source : String) (k : Nat) (isRead : α → Prop) (x : Self → Pull α) (w : Window) :
    Prop :=
  ∃ reply, ∃ j ≤ (tokensOf source).length,
    (∀ n, enough ((tokensOf source).length - k) ≤ n →
      (x (depth n)).run w = some (reply, .reached source j))
    ∧ k ≤ j ∧ ∀ value, reply = .ok value → isRead value → k < j

theorem Reads.advances {isRead : α → Prop} {x : Self → Pull α}
    (h : Reads source ts isRead x w) (hk : k + ts.length = (tokensOf source).length) :
    Advances source k isRead x w := by
  obtain ⟨reply, rest, hreads⟩ := h
  have hlength : (tokensOf source).length - k = ts.length := by omega
  obtain ⟨w₀, -, hw, hle, hlt⟩ := hreads _ le_rfl
  obtain ⟨j, hj, rfl⟩ := hw.exists_reached
  refine ⟨reply, j, by omega, fun n hn ↦ ?_, by omega, fun value hvalue his ↦ ?_⟩
  · obtain ⟨w', hrun, hw', -⟩ := hreads n (hlength ▸ hn)
    rw [hrun, hw'.unique hw]
  · have := hlt value hvalue his
    omega

/-- If the tokens that a method leaves are the same at all great depths, so is the window. -/
theorem Method.Replies.of_stands {m : Method α} {reply : Except ParseError α} {d : Nat}
    (h : ∀ n, d ≤ n → ∃ w', (m.parser (depth n)).run w = some (reply, w')
      ∧ w'.Stands source rest) :
    ∃ j, m.Replies w reply (.reached source j) ∧ rest = (tokensOf source).drop j := by
  obtain ⟨w₀, -, j, hj, rfl, rfl⟩ := h d le_rfl
  refine ⟨j, ⟨d, fun n hn ↦ ?_⟩, rfl⟩
  obtain ⟨w', hrun, hw'⟩ := h n hn
  rw [hrun, hw'.unique (Window.stands_reached hj)]

/-- What is known of the window behind `k` calls of `advance`. -/
structure Counted (source : String) (k : Nat) (w : Window) : Prop where
  reached : w = .reached source k
  le : k ≤ (tokensOf source).length
  unique : ∀ j ≤ (tokensOf source).length, w = .reached source j → j = k
  advances : ∀ {α : Type} (m : Method α), Advances source k m.IsRead (m.parser ·) w
  /-- A bracket that is closed at once is taken, and any other is left where it is. -/
  closedBracket : Pull.closedBracket.run w =
    if (Window.reached source (k + 1)).token.kind = .symbol .closeBracket
    then some (.ok true, .reached source (k + 2)) else some (.ok false, .reached source k)
  /-- An `else` is taken with the semicolons in front of it, and without one they are left. -/
  elseBehind : ∃ m, (∀ i < m, (Window.reached source (k + i)).token.kind = .symbol .semicolon)
    ∧ (Window.reached source (k + m)).token.kind ≠ .symbol .semicolon
    ∧ ∀ n, enough ((tokensOf source).length - k) ≤ n → (Pull.elseBehind (depth n)).run w
      = if (Window.reached source (k + m)).token.kind = .word "else"
        then some (.ok true, .reached source (k + m + 1)) else some (.ok false, .reached source k)
  /-- A statement is the one that the reader before the same tokens gives. -/
  nextStatement : ∃ j, Method.nextStatement.Replies w (Reader.behind source k).next.1
      (.reached source j)
    ∧ (Reader.behind source k).next.2 = .behind source j
  program : ∃ j, Method.program.Replies w (Reader.behind source k).program (.reached source j)
  wholeExpr : ∃ j, Method.wholeExpr.Replies w
    ((Reader.behind source k).expr.whole (endOf source)) (.reached source j)

theorem exists_terminators (ts : List Token) : ∃ m, m ≤ ts.length
    ∧ Parse.skipTerminators ts = ts.drop m
    ∧ (∀ i < m, kindOf (ts.drop i) = .symbol .semicolon)
    ∧ kindOf (ts.drop m) ≠ .symbol .semicolon := by
  fun_induction Parse.skipTerminators ts with
  | case1 l rest ih =>
    obtain ⟨m, hm, hskip, hbefore, hbehind⟩ := ih
    refine ⟨m + 1, Nat.succ_le_succ hm, hskip, fun i hi ↦ ?_, hbehind⟩
    cases i with
    | zero => rfl
    | succ i => exact hbefore i (Nat.lt_of_succ_lt_succ hi)
  | case2 ts hne =>
    exact ⟨0, Nat.zero_le _, rfl, fun i hi ↦ absurd hi (Nat.not_lt_zero i), kindOf_ne hne⟩

theorem run_elseBehind_reached (hk : k ≤ (tokensOf source).length) :
    ∃ m, (∀ i < m, (Window.reached source (k + i)).token.kind = .symbol .semicolon)
      ∧ (Window.reached source (k + m)).token.kind ≠ .symbol .semicolon
      ∧ ∀ n, enough ((tokensOf source).length - k) ≤ n →
        (elseBehind (depth n)).run (.reached source k)
          = if (Window.reached source (k + m)).token.kind = .word "else"
            then some (.ok true, .reached source (k + m + 1))
            else some (.ok false, .reached source k) := by
  obtain ⟨m, hm, hskip, hbefore, hbehind⟩ := exists_terminators ((tokensOf source).drop k)
  rw [List.length_drop] at hm
  have hkind : ∀ i ≤ m, (Window.reached source (k + i)).token.kind
      = kindOf (((tokensOf source).drop k).drop i) := by
    intro i hi
    rw [List.drop_drop]
    exact (Window.stands_reached (by omega)).kind
  refine ⟨m, fun i hi ↦ (hkind i hi.le).trans (hbefore i hi), ?_, fun n hn ↦ ?_⟩
  · rw [hkind m le_rfl]
    exact hbehind
  · rw [enough, ← List.length_drop] at hn
    have helse := run_elseBehind (n := n) (by omega) (Window.stands_reached hk)
    rw [hskip] at helse
    rw [hkind m le_rfl]
    split
    · rename_i hword
      obtain ⟨l, rest, hcons⟩ := eq_cons_of_kindOf hword (by simp)
      have hlength := congrArg List.length hcons
      rw [List.drop_drop, List.length_drop, List.length_cons] at hlength
      rw [if_pos hword, hcons] at helse
      obtain ⟨w', hrun, hw'⟩ := helse
      obtain ⟨j, hj, rfl⟩ := hw'.exists_reached
      rw [hrun, show j = k + m + 1 by rw [List.tail_cons] at hj; omega]
    · rename_i hword
      rw [if_neg hword] at helse
      exact helse

theorem replies_nextStatement (hk : k ≤ (tokensOf source).length) :
    ∃ j, Method.nextStatement.Replies (.reached source k) (Reader.behind source k).next.1
        (.reached source j)
      ∧ (Reader.behind source k).next.2 = .behind source j := by
  have hw := Window.stands_reached hk
  rw [Reader.next]
  rcases hst : (Reader.behind source k).skipTerminators.statementHere with
    ⟨st, rest, hlt⟩ | ⟨e, rest⟩
  · obtain ⟨j, hreplies, rfl⟩ := Method.Replies.of_stands (m := .nextStatement) fun n hn ↦
      (follows_nextStatement hn hw).of_ok hst
    exact ⟨j, hreplies, rfl⟩
  · obtain ⟨j, hreplies, rfl⟩ := Method.Replies.of_stands (m := .nextStatement) fun n hn ↦ by
      obtain ⟨w', hrun, hw', -⟩ := (follows_nextStatement hn hw).of_fail hst
      exact ⟨w', hrun, hw'⟩
    exact ⟨j, hreplies, rfl⟩

theorem counted_reached (hk : k ≤ (tokensOf source).length) :
    Counted source k (.reached source k) where
  reached := rfl
  le := hk
  unique _ hj hreached := (Window.reached_inj hk hj hreached).symm
  advances m := (m.reads (Window.stands_reached hk)).advances (by rw [List.length_drop]; omega)
  closedBracket := by rw [run_closedBracket, ← Window.reached_succ, ← Window.reached_succ]
  elseBehind := run_elseBehind_reached hk
  nextStatement := replies_nextStatement hk
  program := by
    obtain ⟨rest, hrest⟩ := exists_program ((tokensOf source).drop k)
    obtain ⟨j, hreplies, -⟩ := Method.Replies.of_stands (m := .program) fun n hn ↦ by
      obtain ⟨w', hrun, hw', -⟩ := hrest n _ hn (Window.stands_reached hk)
      exact ⟨w', hrun, hw'⟩
    exact ⟨j, hreplies⟩
  wholeExpr := by
    have hw := Window.stands_reached hk
    obtain ⟨rest, hrest⟩ := exists_wholeExpr source (Reader.behind source k).expr
    obtain ⟨j, hreplies, -⟩ := Method.Replies.of_stands (m := .wholeExpr) fun n hn ↦ by
      obtain ⟨w', hrun, hw', -⟩ := hrest _ _ (follows_expr_reader (n := n) hn hw)
      exact ⟨w', hrun, hw'⟩
    exact ⟨j, hreplies⟩

/-- A parser of a text is always behind some number of calls of `advance`, and whatever it reads
next comes to an end behind as many or more. -/
theorem Reachable.whole_advances (h : Reachable source w) : ∃ k, Counted source k w := by
  obtain ⟨ts, k, hk, rfl, -⟩ := h.stands
  exact ⟨k, counted_reached hk⟩

/-- Behind the branch of a condition that has no `else`, but a semicolon. -/
theorem Reachable.whole_advances_of_missing_else :
    Reachable "if (x) 1; 2" (.reached "if (x) 1; 2" 5)
      ∧ ∃ k, Counted "if (x) 1; 2" k (.reached "if (x) 1; 2" 5) :=
  ⟨reachable_reached _ 5, Reachable.whole_advances (reachable_reached _ 5)⟩

/-- At the start of a text the methods for whole texts reply as the parsers of lists do. -/
theorem entries_ofText (source : String) :
    (∃ j, Method.program.Replies (.ofText source) (parseProgram source) (.reached source j))
      ∧ (∃ j, Method.nextStatement.Replies (.ofText source) (parseStatement source)
          (.reached source j))
      ∧ ∃ j, Method.wholeExpr.Replies (.ofText source) (parseExpression source)
          (.reached source j) := by
  have hstart : Counted source 0 (.ofText source) := counted_reached (Nat.zero_le _)
  obtain ⟨j, hstatement, -⟩ := hstart.nextStatement
  refine ⟨hstart.program, ⟨j, hstatement⟩, ?_⟩
  rw [parseExpression_eq]
  exact hstart.wholeExpr

end Pull

end Scriptlet
