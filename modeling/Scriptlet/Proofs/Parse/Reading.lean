import Scriptlet.Proofs.Parse.Spelling
import Scriptlet.Proofs.Tree.Erasure

/-!
# Reading a spelled expression

How each parser of the grammar answers on tokens that spell what it looks for. The loops of the
grammar are greedy, so every statement says what stands behind the spelled tokens: a suffix loop
goes on with whatever follows, and a level of the ladder stops at a token that is none of its
operators.
-/

namespace Scriptlet

/-! ## Precedence -/

/-- How tightly an operator binds, from the loosest to the tightest. -/
def BinaryOp.rank : BinaryOp → Nat
  | .or => 0
  | .and => 1
  | .bitOr => 2
  | .bitXor => 3
  | .bitAnd => 4
  | .eq | .ne => 5
  | .lt | .le | .gt | .ge => 6
  | .shl | .shr => 7
  | .add | .sub => 8
  | .mul | .div | .mod => 9

/-! ## Spelled tokens -/

/-- The tokens `ts` are tokens of these kinds, and `us` behind them. -/
def Spelled : List TokenKind → List Token → List Token → Prop
  | [], ts, us => ts = us
  | k :: ks, ts, us => ∃ l ts', ts = ⟨k, l⟩ :: ts' ∧ Spelled ks ts' us

theorem spelled_append {ks js : List TokenKind} {ts us : List Token} :
    Spelled (ks ++ js) ts us ↔ ∃ ms, Spelled ks ts ms ∧ Spelled js ms us := by
  induction ks generalizing ts with
  | nil => simp [Spelled]
  | cons k ks ih =>
    simp only [List.cons_append, Spelled, ih]
    constructor
    · rintro ⟨l, ts', rfl, ms, h, h'⟩
      exact ⟨ms, ⟨l, ts', rfl, h⟩, h'⟩
    · rintro ⟨ms, ⟨l, ts', rfl, h⟩, h'⟩
      exact ⟨l, ts', rfl, ms, h, h'⟩

theorem spelled_map (ts : List Token) : Spelled (ts.map Token.kind) ts [] := by
  induction ts with
  | nil => rfl
  | cons t ts ih => exact ⟨t.location, ts, rfl, ih⟩

/-! ## Replies -/

namespace Reply

variable {α β : Type} {ts us rest rest' : List Token} {value : α} {value' : β}

/-- The reply is this value, with these tokens left. -/
def Yields (r : Reply α ts) (value : α) (rest : List Token) : Prop := ∃ h, r = .ok value rest h

theorem Yields.andThen {r : Reply α us}
    {k : (value : α) → (rest : List Token) → rest.length < us.length → Reply β ts}
    (hr : r.Yields value rest) (hk : ∀ h, (k value rest h).Yields value' rest') :
    (r.andThen k).Yields value' rest' := by
  obtain ⟨h, rfl⟩ := hr
  exact hk h

theorem andThen_assoc {γ : Type} {vs : List Token} (r : Reply α vs)
    (k : (value : α) → (rest : List Token) → rest.length < vs.length → Reply β us)
    (k' : (value : β) → (rest : List Token) → rest.length < us.length → Reply γ ts) :
    (r.andThen k).andThen k' = r.andThen fun value rest h ↦ (k value rest h).andThen k' := by
  cases r <;> rfl

theorem Yields.map {r : Reply α ts} (hr : r.Yields value rest) (f : α → β) :
    (r.map f).Yields (f value) rest := by
  obtain ⟨h, rfl⟩ := hr
  exact ⟨h, rfl⟩

theorem Yields.within {r : Reply α us} (hr : r.Yields value rest) (h : us.length < ts.length)
    (f : α → β) : (r.within h f).Yields (f value) rest := by
  obtain ⟨hlt, rfl⟩ := hr
  exact ⟨Nat.lt_trans hlt h, rfl⟩

theorem Yields.behind {r : Reply α us} {t : Token} (hr : r.Yields value rest) (f : α → β) :
    (r.behind f : Reply β (t :: us)).Yields (f value) rest :=
  hr.within _ f

theorem yields_one {t : Token} : (one value : Reply α (t :: us)).Yields value us := ⟨_, rfl⟩

end Reply

namespace Parse

open Reply

variable {n : Nat} {fin : Location} {p : Parsers n} {ts rest us : List Token} {e : Expr}
  {l : Location}

theorem yields_expect {s : Symbol} {wanted : Expectation} :
    (expect fin s wanted (⟨.symbol s, l⟩ :: us)).Yields () us := by
  simp only [expect, if_true]
  exact yields_one

theorem yields_identifier {x : String} (hx : Keyword.ofWord? x = none) :
    (identifier fin (⟨.word x, l⟩ :: us)).Yields x us := by
  simp only [identifier, Keyword.isReserved, hx]
  exact yields_one

theorem yields_anyName {x : String} : (anyName fin (⟨.word x, l⟩ :: us)).Yields x us :=
  yields_one

/-! ## Suffixes -/

/-- A token that a suffix begins with. -/
def beginsSuffix : TokenKind → Bool
  | .symbol s =>
    [.openParen, .openBracket, .arrow, .questionQuestion, .dot, .colonColon].contains s
  | _ => false

theorem suffixes_stop {origin : List Token} {h : ts.length < origin.length}
    {hn : origin.length ≤ n} (hstop : beginsSuffix (kindOf ts) = false) :
    suffixes fin p e origin ts h hn = .ok e ts h := by
  rw [suffixes.eq_def]
  split
  · rename_i s l rest h
    cases s <;> first | rfl | cases hstop
  · rfl

theorem suffixes_dot {origin : List Token} {x : String} {l' : Location}
    (h : (⟨.symbol .dot, l⟩ :: ⟨.word x, l'⟩ :: us : List Token).length < origin.length)
    (hn : origin.length ≤ n) :
    ∃ h', suffixes fin p e origin (⟨.symbol .dot, l⟩ :: ⟨.word x, l'⟩ :: us) h hn
      = suffixes fin p (.member (.at l) e x) origin us h' hn := by
  rw [suffixes]
  exact ⟨_, rfl⟩

theorem suffixes_call {origin : List Token} {args : List Expr}
    (h : (⟨.symbol .openParen, l⟩ :: rest : List Token).length < origin.length)
    (hn : origin.length ≤ n)
    (hargs : ∀ h, (items fin p .closeParen .closeArguments rest h).Yields args us) :
    ∃ h', suffixes fin p e origin (⟨.symbol .openParen, l⟩ :: rest) h hn
      = suffixes fin p (.call (.at l) e args none) origin us h' hn := by
  obtain ⟨hlt, heq⟩ := hargs (length_lt_bound (length_lt_of_succ h) hn)
  refine ⟨length_lt_trans hlt (length_lt_of_succ h), ?_⟩
  rw [suffixes]
  simp only [heq, Reply.map]

theorem suffixes_index {origin : List Token} {args : List Expr}
    (h : (⟨.symbol .openBracket, l⟩ :: rest : List Token).length < origin.length)
    (hn : origin.length ≤ n)
    (hargs : ∀ h, (items fin p .closeBracket .closeIndex rest h).Yields args us) :
    ∃ h', suffixes fin p e origin (⟨.symbol .openBracket, l⟩ :: rest) h hn
      = suffixes fin p (.index (.at l) e args none) origin us h' hn := by
  obtain ⟨hlt, heq⟩ := hargs (length_lt_bound (length_lt_of_succ h) hn)
  refine ⟨length_lt_trans hlt (length_lt_of_succ h), ?_⟩
  rw [suffixes]
  simp only [heq, Reply.map]

theorem suffixes_coalesce {origin : List Token} {b : Expr}
    (h : (⟨.symbol .questionQuestion, l⟩ :: rest : List Token).length < origin.length)
    (hn : origin.length ≤ n) (hb : ∀ h, (p.unary rest h).Yields b us) :
    ∃ h', suffixes fin p e origin (⟨.symbol .questionQuestion, l⟩ :: rest) h hn
      = suffixes fin p (.coalesce (.at l) e b) origin us h' hn := by
  obtain ⟨hlt, heq⟩ := hb (length_lt_bound (length_lt_of_succ h) hn)
  refine ⟨length_lt_trans hlt (length_lt_of_succ h), ?_⟩
  rw [suffixes]
  simp only [heq, Reply.map]

/-- A primary expression with its suffixes, but not the steps behind them. -/
def applied (fin : Location) (p : Parsers n) (ts : List Token) (h : ts.length ≤ n) :
    Reply Expr ts :=
  (primary fin p ts h).andThen fun e rest hr ↦ suffixes fin p e ts rest hr h

theorem applied_of_primary {h : ts.length ≤ n} (hp : (primary fin p ts h).Yields e us) :
    ∃ hlt, applied fin p ts h = suffixes fin p e ts us hlt h := by
  obtain ⟨hlt, heq⟩ := hp
  rw [applied, heq]
  exact ⟨hlt, rfl⟩

/-- The expression behind the steps that follow it. -/
theorem yields_suffixed {h : ts.length ≤ n} (ha : (applied fin p ts h).Yields e us) :
    (suffixed fin p ts h).Yields (increments e us).1 (increments e us).2 := by
  rw [suffixed, ← andThen_assoc]
  exact Yields.andThen ha fun _ ↦ ⟨_, rfl⟩

/-- A token that steps the value before it. -/
def isStep : TokenKind → Bool
  | .symbol s => [.plusPlus, .minusMinus].contains s
  | _ => false

theorem increments_stop (hstop : isStep (kindOf us) = false) : increments e us = (e, us) := by
  unfold increments
  split
  · cases hstop
  · cases hstop
  · rfl

/-! ## The ladder -/

/-- A token that an operand begins with. -/
def beginsOperand : TokenKind → Bool
  | .number _ | .str _ | .word _ => true
  | .symbol s => [.at, .underscore, .openParen, .openBracket].contains s
  | _ => false

theorem prefixOp?_of_beginsOperand {k : TokenKind} (h : beginsOperand k) : prefixOp? k = none := by
  cases k with
  | symbol s => cases s <;> first | rfl | cases h
  | _ => rfl

theorem ne_symbol_of_beginsOperand {k : TokenKind} {s : Symbol} (h : beginsOperand k)
    (hs : beginsOperand (.symbol s) = false) : k ≠ .symbol s := by
  rintro rfl
  rw [hs] at h
  cases h

theorem yields_unary_of_applied {h : ts.length ≤ n} (hbegins : beginsOperand (kindOf ts))
    (ha : (applied fin p ts h).Yields e us) :
    (unary fin p ts h).Yields (increments e us).1 (increments e us).2 := by
  cases ts with
  | nil => cases hbegins
  | cons t ts =>
    have hop : prefixOp? t.kind = none := prefixOp?_of_beginsOperand hbegins
    simp only [unary, hop]
    exact yields_suffixed ha

theorem yields_signed {t : Token} {op : UnaryOp} {h : (t :: ts).length ≤ n}
    (hop : prefixOp? t.kind = some op) (hs : ∀ h, (p.unary ts h).Yields e us) :
    (unary fin p (t :: ts) h).Yields (.unary (.at t.location) op e none) us := by
  simp only [unary, hop]
  exact (hs h).behind _

theorem operatorLoop_stop {level : Level}
    {operand : (ts : List Token) → ts.length ≤ n → Reply Expr ts} {origin : List Token}
    {h : ts.length < origin.length} {hn : origin.length ≤ n}
    (hstop : level.op? (kindOf ts) = none) :
    operatorLoop level operand e origin ts h hn = .ok e ts h := by
  rw [operatorLoop.eq_def]
  split
  · rename_i t rest h
    split
    · rename_i op hop
      rw [kindOf, hop] at hstop
      cases hstop
    · rfl
  · rfl

/-- The loop reads an operator of its level and the operand behind it, and goes on. -/
theorem operatorLoop_op {level : Level}
    {operand : (ts : List Token) → ts.length ≤ n → Reply Expr ts} {k : TokenKind} {op : BinaryOp}
    {a b : Expr} {origin : List Token} (h : (⟨k, l⟩ :: rest : List Token).length < origin.length)
    (hn : origin.length ≤ n) (hop : level.op? k = some op)
    (hb : ∀ h, (operand rest h).Yields b us) :
    ∃ h', operatorLoop level operand a origin (⟨k, l⟩ :: rest) h hn
      = operatorLoop level operand (.binary (.at l) op a b none) origin us h' hn := by
  obtain ⟨hlt, heq⟩ := hb (length_le_bound (length_lt_of_succ h) hn)
  refine ⟨length_lt_trans hlt (length_lt_of_succ h), ?_⟩
  rw [operatorLoop]
  simp only [hop, heq]

/-- Looser levels pass on what they read if none of their operators follows. -/
theorem yields_ladder {looser levels : List Level} {h : ts.length ≤ n}
    (hl : (ladder fin p levels ts h).Yields e us)
    (hstop : ∀ level ∈ looser, level.op? (kindOf us) = none) :
    (ladder fin p (looser ++ levels) ts h).Yields e us := by
  induction looser with
  | nil => exact hl
  | cons level looser ih =>
    obtain ⟨hlevel, hlooser⟩ := List.forall_mem_cons.mp hstop
    exact (ih hlooser).andThen fun _ ↦ ⟨_, operatorLoop_stop hlevel⟩

/-- A level reads its operator between two operands of the tighter levels. -/
theorem yields_operator {level : Level} {tighter : List Level} {k : TokenKind} {op : BinaryOp}
    {a b : Expr} {h : ts.length ≤ n}
    (ha : (ladder fin p tighter ts h).Yields a (⟨k, l⟩ :: rest)) (hop : level.op? k = some op)
    (hb : ∀ h, (ladder fin p tighter rest h).Yields b us)
    (hstop : level.op? (kindOf us) = none) :
    (ladder fin p (level :: tighter) ts h).Yields (.binary (.at l) op a b none) us := by
  refine ha.andThen fun hlt ↦ ?_
  obtain ⟨hlt', heq⟩ := operatorLoop_op (a := a) hlt h hop hb
  exact ⟨hlt', heq.trans (operatorLoop_stop hstop)⟩

/-- Each operator has its level, and no tighter level knows it. -/
theorem exists_level (op : BinaryOp) : ∃ level,
    levels.drop op.rank = level :: levels.drop (op.rank + 1) ∧
      level.op? (.symbol op.token) = some op ∧
      ∀ l ∈ levels.drop (op.rank + 1), l.op? (.symbol op.token) = none := by
  cases op <;> exact ⟨_, rfl, rfl, by decide⟩

theorem yields_ladder_of_unary {levels : List Level} {h : ts.length ≤ n}
    (hu : (unary fin p ts h).Yields e us) (hstop : ∀ level ∈ levels, level.op? (kindOf us) = none) :
    (ladder fin p levels ts h).Yields e us := by
  rw [← List.append_nil levels]
  exact yields_ladder hu hstop

/-! ## Conditionals and assignments -/

theorem yields_conditional {h : ts.length ≤ n} (hl : (ladder fin p levels ts h).Yields e us)
    (hstop : kindOf us ≠ .symbol .question) : (conditional fin p ts h).Yields e us := by
  refine hl.andThen fun hlt ↦ ?_
  split
  · exact absurd rfl hstop
  · exact ⟨_, rfl⟩

theorem yields_ternary {x a b : Expr} {rest' : List Token} {l' : Location}
    {h : ts.length ≤ n} (hx : (ladder fin p levels ts h).Yields x (⟨.symbol .question, l⟩ :: rest))
    (ha : ∀ h, (p.expr rest h).Yields a (⟨.symbol .colon, l'⟩ :: rest'))
    (hb : ∀ h, (p.expr rest' h).Yields b us) :
    (conditional fin p ts h).Yields (.ternary (.at l) x a b none) us := by
  refine hx.andThen fun hlt ↦ (ha _).andThen fun hlt' ↦ yields_expect.andThen fun hlt'' ↦ ?_
  exact (hb _).within _ _

theorem yields_assignment {h : ts.length ≤ n} (hc : (conditional fin p ts h).Yields e us)
    (hstop : kindOf us ≠ .symbol .eq) : (assignment fin p ts h).Yields e us := by
  refine hc.andThen fun hlt ↦ ?_
  split
  · exact absurd rfl hstop
  · exact ⟨_, rfl⟩

theorem yields_assign {target v : Expr} {h : ts.length ≤ n}
    (ht : (conditional fin p ts h).Yields target (⟨.symbol .eq, l⟩ :: rest))
    (hv : ∀ h, (p.expr rest h).Yields v us) :
    (assignment fin p ts h).Yields (.assign (.at l) target v none) us :=
  ht.andThen fun _ ↦ (hv _).within _ _

/-- A token of which no part of an expression takes itself to be continued. -/
structure EndsExpr (k : TokenKind) : Prop where
  suffix : beginsSuffix k = false
  step : isStep k = false
  ops : ∀ level ∈ levels, level.op? k = none
  question : k ≠ .symbol .question
  eq : k ≠ .symbol .eq

theorem endsExpr_eof : EndsExpr .eof := by constructor <;> decide

theorem endsExpr_closeParen : EndsExpr (.symbol .closeParen) := by constructor <;> decide

theorem endsExpr_closeBracket : EndsExpr (.symbol .closeBracket) := by constructor <;> decide

theorem endsExpr_comma : EndsExpr (.symbol .comma) := by constructor <;> decide

theorem endsExpr_colon : EndsExpr (.symbol .colon) := by constructor <;> decide

theorem yields_assignment_of_ladder {h : ts.length ≤ n}
    (hl : (ladder fin p levels ts h).Yields e us) (hend : EndsExpr (kindOf us)) :
    (assignment fin p ts h).Yields e us :=
  yields_assignment (yields_conditional hl hend.question) hend.eq

theorem yields_assignment_of_unary {h : ts.length ≤ n} (hu : (unary fin p ts h).Yields e us)
    (hend : EndsExpr (kindOf us)) : (assignment fin p ts h).Yields e us :=
  yields_assignment_of_ladder (yields_ladder_of_unary hu hend.ops) hend

/-! ## Lists -/

/-- A symbol that closes a list. -/
def ClosesList (close : Symbol) : Prop := close = .closeParen ∨ close = .closeBracket

variable {close : Symbol} {wanted : Expectation} {es : List Expr}

theorem yields_itemLoop_comma {h : (⟨.symbol .comma, l⟩ :: ts : List Token).length < n}
    (hes : ∀ h, (itemLoop fin p close wanted ts h).Yields es us) :
    (itemLoop fin p close wanted (⟨.symbol .comma, l⟩ :: ts) h).Yields
      (.empty (.at l) :: es) us := by
  rw [itemLoop]
  exact (hes _).behind _

theorem yields_itemLoop_close {h : (⟨.symbol close, l⟩ :: us : List Token).length < n}
    (hclose : ClosesList close) :
    (itemLoop fin p close wanted (⟨.symbol close, l⟩ :: us) h).Yields [.empty (.at l)] us := by
  rw [itemLoop.eq_def]
  rcases hclose with rfl | rfl <;>
  · simp only [kindOf, if_true]
    exact yields_expect.map _

/-- The next element, and then another one behind a comma. -/
theorem yields_itemLoop_cons {h : ts.length < n} (hcomma : kindOf ts ≠ .symbol .comma)
    (hclose : kindOf ts ≠ .symbol close)
    (he : (p.expr ts h).Yields e (⟨.symbol .comma, l⟩ :: rest))
    (hes : ∀ h, (itemLoop fin p close wanted rest h).Yields es us) :
    (itemLoop fin p close wanted ts h).Yields (e :: es) us := by
  obtain ⟨hlt, heq⟩ := he
  rw [itemLoop.eq_def]
  split
  · exact absurd rfl hcomma
  · rw [if_neg hclose]
    simp only [heq]
    exact (hes _).within _ _

/-- The last element. -/
theorem yields_itemLoop_last {h : ts.length < n} (hcomma : kindOf ts ≠ .symbol .comma)
    (hclose : kindOf ts ≠ .symbol close) (hlist : ClosesList close)
    (he : (p.expr ts h).Yields e (⟨.symbol close, l⟩ :: us)) :
    (itemLoop fin p close wanted ts h).Yields [e] us := by
  obtain ⟨hlt, heq⟩ := he
  rw [itemLoop.eq_def]
  split
  · exact absurd rfl hcomma
  · rw [if_neg hclose]
    rcases hlist with rfl | rfl <;>
    · simp only [heq]
      exact yields_expect.within _ _

theorem yields_items_nil {h : (⟨.symbol close, l⟩ :: us : List Token).length < n} :
    (items fin p close wanted (⟨.symbol close, l⟩ :: us) h).Yields [] us := by
  simp only [items, kindOf, if_true]
  exact yields_expect.map _

theorem yields_items {h : ts.length < n} (hclose : kindOf ts ≠ .symbol close)
    (hes : (itemLoop fin p close wanted ts h).Yields es us) :
    (items fin p close wanted ts h).Yields es us := by
  rw [items, if_neg hclose]
  exact hes

end Parse

end Scriptlet
