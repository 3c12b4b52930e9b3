import Scriptlet.Parse.Reply

/-!
# Parsing expressions

The grammar is a ladder: each level reads an operand by the next tighter level and then loops over
its own operators, so operators of one level associate to the left. Assignment and the conditional
stand at the loose end, prefix operators, suffixes and primary expressions at the tight end.

Only a few places of the grammar start over: whole expressions, prefix operands and statements
inside brackets or behind a token. They are reached with fewer tokens, so the parsers for shorter
inputs are a parameter, `Parsers n`, and every function here is about inputs of length up to `n`.
-/

namespace Scriptlet.Parse

/-- The parsers that the grammar starts over with, for inputs of fewer than `n` tokens. -/
structure Parsers (n : Nat) where
  expr : (ts : List Token) → ts.length < n → Reply Expr ts
  unary : (ts : List Token) → ts.length < n → Reply Expr ts
  statement : (ts : List Token) → ts.length < n → Reply Statement ts

variable {n : Nat} (fin : Location) (p : Parsers n)

/-! ## Lists and blocks -/

/-- Expressions parted by commas, and the symbol that closes them. Between two commas, or before the
closing symbol, an element may be omitted. -/
def itemLoop (close : Symbol) (wanted : Expectation) (ts : List Token) (h : ts.length < n) :
    Reply (List Expr) ts :=
  match ts, h with
  | ⟨.symbol .comma, l⟩ :: rest, h =>
    (itemLoop close wanted rest (Nat.lt_of_succ_lt h)).behind (.empty (.at l) :: ·)
  | ts, h =>
    if kindOf ts = .symbol close then
      (expect fin close wanted ts).map fun _ ↦ [.empty (.at (locationOf fin ts))]
    else
      match p.expr ts h with
      | .fail e rest => .fail e rest
      | .ok e rest hr =>
        match rest, hr with
        | ⟨.symbol .comma, _⟩ :: rest', hr =>
          have hrest : rest'.length + 1 < ts.length := hr
          have shorter : rest'.length < ts.length := length_lt_of_succ hrest
          (itemLoop close wanted rest' (Nat.lt_trans shorter h)).within shorter (e :: ·)
        | rest, hr => (expect fin close wanted rest).within hr fun _ ↦ [e]
termination_by ts.length
decreasing_by
  · simp only [List.length_cons]; omega
  · omega

/-- The elements of a bracketed list, behind its opening symbol. -/
def items (close : Symbol) (wanted : Expectation) (ts : List Token) (h : ts.length < n) :
    Reply (List Expr) ts :=
  if kindOf ts = .symbol close then
    (expect fin close wanted ts).map fun _ ↦ []
  else itemLoop fin p close wanted ts h

/-- The statements of a block, behind its opening brace. -/
def blockBody (ts : List Token) (h : ts.length < n) : Reply (List Statement) ts :=
  match hs : skipTerminators ts with
  | [] => stop fin .closeBlock []
  | t :: us =>
    have hle : us.length + 1 ≤ ts.length := by
      have := length_skipTerminators ts
      rwa [hs] at this
    if t.kind = .symbol .closeBrace then .ok [] us hle
    else
      match p.statement (t :: us) (Nat.lt_of_le_of_lt hle h) with
      | .fail e rest => .fail e rest
      | .ok s rest hr =>
        have hrest : rest.length < ts.length := Nat.lt_of_lt_of_le hr hle
        (blockBody rest (Nat.lt_trans hrest h)).within hrest (s :: ·)
termination_by ts.length
decreasing_by omega

/-- A function's body: an arrow and the expression that it returns, or a block. -/
def functionBody (ts : List Token) (h : ts.length ≤ n) : Reply (List Statement) ts :=
  match ts, h with
  | ⟨.symbol .fatArrow, l⟩ :: rest, h =>
    (p.expr rest h).behind fun e ↦ [.ret l (some e) none]
  | ⟨.symbol .openBrace, _⟩ :: rest, h =>
    (blockBody fin p rest h).behind id
  | ts, _ => stop fin .functionBody ts

/-! ## Primary expressions -/

/-- The dotted name of a type behind `new`, as a tree and as a text. -/
def newTarget (target : Expr) (text : String) (origin ts : List Token)
    (h : ts.length < origin.length) : Reply (Expr × String) origin :=
  match ts, h with
  | ⟨.symbol s, l⟩ :: rest, h =>
    have hrest : rest.length + 1 < origin.length := h
    if s = .dot ∨ s = .colonColon then
      match identifier fin rest with
      | .ok w rest' hr =>
        newTarget (.member (.at l) target w) (text ++ "." ++ w) origin rest'
          (length_lt_trans hr (length_lt_of_succ hrest))
      | .fail e rest' => .fail e rest'
    else .ok (target, text) (⟨.symbol s, l⟩ :: rest) h
  | ts, h => .ok (target, text) ts h
termination_by ts.length
decreasing_by simp only [List.length_cons]; omega

/-- The brackets of an array type behind `new`, counted; each must be closed at once. -/
def newBrackets (rank : Nat) (origin ts : List Token) (h : ts.length < origin.length) :
    Reply Nat origin :=
  match ts, h with
  | ⟨.symbol .openBracket, _⟩ :: rest, h =>
    have hrest : rest.length + 1 < origin.length := h
    match expect fin .closeBracket .closeArrayType rest with
    | .ok _ rest' hr =>
      newBrackets (rank + 1) origin rest' (length_lt_trans hr (length_lt_of_succ hrest))
    | .fail e rest' => .fail e rest'
  | ts, h => .ok rank ts h
termination_by ts.length
decreasing_by simp only [List.length_cons]; omega

/-- A construction, behind `new`: a type with arguments, a type alone, or an array type and its
items between braces. -/
def newExpr (l : Location) (ts : List Token) (h : ts.length < n) : Reply Expr ts :=
  (identifier fin ts).andThen fun first rest hr ↦
    (newTarget fin (.name (.at (locationOf fin ts)) first) first ts rest hr).andThen
      fun target rest hr ↦
        match kindOf rest with
        | .symbol .openBracket =>
          (newBrackets fin 0 ts rest hr).andThen fun rank rest hr ↦
            (expect fin .openBrace .openTypedItems rest).andThen fun _ rest hr' ↦
              have shorter : rest.length < ts.length := length_lt_trans hr' hr
              (items fin p .closeBrace .closeTypedItems rest (Nat.lt_trans shorter h)).within
                shorter fun es ↦
                  .array (.at l) (some ⟨target.2, rank - 1, locationOf fin ts⟩) es none
        | .symbol .openParen =>
          (expect fin .openParen .closeConstructor rest).andThen fun _ rest hr' ↦
            have shorter : rest.length < ts.length := length_lt_trans hr' hr
            (items fin p .closeParen .closeConstructor rest (Nat.lt_trans shorter h)).within shorter
              fun es ↦ .new (.at l) target.1 es none
        | _ => .ok (.new (.at l) target.1 [] none) rest hr

/-- An expression that a reserved word begins. -/
def keywordExpr (k : Keyword) (t : Token) (rest : List Token) (h : rest.length < n) :
    Reply Expr (t :: rest) :=
  match k with
  | .new => (newExpr fin p t.location rest h).behind id
  | .true => .one (.literal (.at t.location) (.bool true))
  | .false => .one (.literal (.at t.location) (.bool false))
  | .null => .one (.null (.at t.location))
  | .this => .one (.this (.at t.location))
  | .out | .return =>
    match rest with
    | ⟨.symbol .at, _⟩ :: rest' =>
      ((anyName fin rest').behind (.variableRef (.at t.location))).behind id
    | rest => (anyName fin rest).behind (.variableRef (.at t.location))
  | .lambda =>
    Reply.behind ((params fin rest).andThen fun ps rest' hr ↦
      (functionBody fin p rest' (Nat.le_of_lt (Nat.lt_trans hr h))).within hr
        (.lambda (.at t.location) ps ·)) id
  | .if | .else | .var | .function | .class | .throw => stop fin .noKeyword (t :: rest)

/-- A literal, a name, a reference, a block, a group, an array or a form that a reserved word
begins. -/
def primary (ts : List Token) (h : ts.length ≤ n) : Reply Expr ts :=
  match ts, h with
  | ⟨.number (.int i), l⟩ :: _, _ => .one (.literal (.at l) (.int i))
  | ⟨.number (.double x), l⟩ :: _, _ => .one (.literal (.at l) (.double x))
  | ⟨.str s, l⟩ :: _, _ => .one (.literal (.at l) (.str s))
  | ⟨.symbol .at, l⟩ :: rest, _ => (anyName fin rest).behind (.variableRef (.at l))
  | ⟨.symbol .underscore, l⟩ :: rest, _ => (anyName fin rest).behind (.constantRef (.at l))
  | ⟨.symbol .openBrace, l⟩ :: rest, h =>
    (blockBody fin p rest h).behind (.block (.at l) ·)
  | ⟨.symbol .openParen, l⟩ :: rest, h =>
    Reply.behind ((p.expr rest h).andThen fun e rest' hr ↦
      (expect fin .closeParen .closeGroup rest').within hr fun _ ↦ .unary (.at l) .group e none) id
  | ⟨.symbol .openBracket, l⟩ :: rest, h =>
    (items fin p .closeBracket .closeItems rest h).behind
      fun es ↦ .array (.at l) none es none
  | ⟨.word w, l⟩ :: rest, h =>
    match Keyword.ofWord? w with
    | some k => keywordExpr fin p k ⟨.word w, l⟩ rest h
    | none => .one (.name (.at l) w)
  | ts, _ => stop fin .expression ts

/-! ## Suffixes -/

/-- The target of an arrow: a name, or a name behind a sigil. -/
def arrowTarget (ts : List Token) : Reply Expr ts :=
  match ts with
  | ⟨.symbol .at, l⟩ :: rest => (anyName fin rest).behind (.variableRef (.at l))
  | ts => (identifier fin ts).map (.name (.at (locationOf fin ts)))

/-- The suffixes behind an expression: arguments, indices, an arrow, a fallback or a member. -/
def suffixes (e : Expr) (origin ts : List Token) (h : ts.length < origin.length)
    (hn : origin.length ≤ n) : Reply Expr origin :=
  match ts, h with
  | ⟨.symbol s, l⟩ :: rest, h =>
    have hrest : rest.length < origin.length := length_lt_of_succ h
    let next : Option (Reply Expr rest) :=
      match s with
      | .openParen =>
        some ((items fin p .closeParen .closeArguments rest (length_lt_bound hrest hn)).map
          fun args ↦ .call (.at l) e args none)
      | .openBracket =>
        some ((items fin p .closeBracket .closeIndex rest (length_lt_bound hrest hn)).map
          fun args ↦ .index (.at l) e args none)
      | .arrow =>
        some ((arrowTarget fin rest).map fun t ↦ .assign (.at l) t e none)
      | .questionQuestion =>
        some ((p.unary rest (length_lt_bound hrest hn)).map fun r ↦ .coalesce (.at l) e r)
      | .dot | .colonColon =>
        some ((anyName fin rest).map fun w ↦ .member (.at l) e w)
      | _ => none
    match next with
    | none => .ok e (⟨.symbol s, l⟩ :: rest) h
    | some (.fail e rest') => .fail e rest'
    | some (.ok e rest' hr) => suffixes e origin rest' (length_lt_trans hr hrest) hn
  | ts, h => .ok e ts h
termination_by ts.length
decreasing_by simp only [List.length_cons]; omega

/-- The increments and decrements behind an expression. -/
def increments (e : Expr) : List Token → Expr × List Token
  | ⟨.symbol .plusPlus, l⟩ :: rest => increments (.unary (.at l) .postInc e none) rest
  | ⟨.symbol .minusMinus, l⟩ :: rest => increments (.unary (.at l) .postDec e none) rest
  | ts => (e, ts)

theorem length_increments (e : Expr) (ts : List Token) :
    (increments e ts).2.length ≤ ts.length := by
  fun_induction increments e ts with
  | case1 _ _ rest ih => exact Nat.le_trans ih (Nat.le_succ _)
  | case2 _ _ rest ih => exact Nat.le_trans ih (Nat.le_succ _)
  | case3 => exact Nat.le_refl _

/-- A primary expression with everything that stands behind it. -/
def suffixed (ts : List Token) (h : ts.length ≤ n) : Reply Expr ts :=
  (primary fin p ts h).andThen fun e rest hr ↦
    (suffixes fin p e ts rest hr h).andThen fun e rest hr ↦
      .ok (increments e rest).1 (increments e rest).2
        (Nat.lt_of_le_of_lt (length_increments e rest) hr)

/-! ## The ladder -/

/-- The prefix operators. -/
def prefixOp? : TokenKind → Option UnaryOp
  | .symbol .plusPlus => some .preInc
  | .symbol .minusMinus => some .preDec
  | .symbol .bang => some .not
  | .symbol .plus => some .plus
  | .symbol .minus => some .neg
  | _ => none

/-- An operand with any prefix operators. -/
def unary (ts : List Token) (h : ts.length ≤ n) : Reply Expr ts :=
  match ts, h with
  | t :: rest, h =>
    match prefixOp? t.kind with
    | some op => (p.unary rest h).behind fun e ↦ .unary (.at t.location) op e none
    | none => suffixed fin p (t :: rest) h
  | [], h => suffixed fin p [] h

/-- The operators of one level, by the symbol that writes them. -/
abbrev Level := List (Symbol × BinaryOp)

/-- The levels of the binary operators, the loosest first. -/
def levels : List Level :=
  [[(.pipePipe, .or)],
   [(.ampAmp, .and)],
   [(.pipe, .bitOr)],
   [(.caret, .bitXor)],
   [(.amp, .bitAnd)],
   [(.eqEq, .eq), (.notEq, .ne)],
   [(.lt, .lt), (.le, .le), (.gt, .gt), (.ge, .ge)],
   [(.ltLt, .shl), (.gtGt, .shr)],
   [(.plus, .add), (.minus, .sub)],
   [(.star, .mul), (.slash, .div), (.percent, .mod)]]

/-- The operator of the level that a token writes. -/
def Level.op? (level : Level) : TokenKind → Option BinaryOp
  | .symbol s => level.lookup s
  | _ => none

/-- Reads on while an operator of the level follows, taking each result as the left operand of the
next operator. -/
def operatorLoop (level : Level)
    (operand : (ts : List Token) → ts.length ≤ n → Reply Expr ts)
    (left : Expr) (origin ts : List Token) (h : ts.length < origin.length)
    (hn : origin.length ≤ n) : Reply Expr origin :=
  match ts, h with
  | t :: rest, h =>
    have hrest : rest.length < origin.length := length_lt_of_succ h
    match level.op? t.kind with
    | some op =>
      match operand rest (length_le_bound hrest hn) with
      | .fail e rest' => .fail e rest'
      | .ok right rest' hr =>
        operatorLoop level operand (.binary (.at t.location) op left right none) origin rest'
          (length_lt_trans hr hrest) hn
    | none => .ok left (t :: rest) h
  | [], h => .ok left [] h
termination_by ts.length
decreasing_by simp only [List.length_cons]; omega

/-- An expression of binary operators of the given levels, the loosest first. -/
def ladder : List Level → (ts : List Token) → ts.length ≤ n → Reply Expr ts
  | [], ts, h => unary fin p ts h
  | level :: tighter, ts, h =>
    (ladder tighter ts h).andThen fun left rest hr ↦
      operatorLoop level (ladder tighter) left ts rest hr h

/-- A conditional, or an expression without one. -/
def conditional (ts : List Token) (h : ts.length ≤ n) : Reply Expr ts :=
  (ladder fin p levels ts h).andThen fun c rest hr ↦
    match rest, hr with
    | ⟨.symbol .question, l⟩ :: rest, hr =>
      have hrest : rest.length < ts.length := length_lt_of_succ hr
      (p.expr rest (length_lt_bound hrest h)).andThen fun t rest' hr' ↦
        (expect fin .colon .colonInConditional rest').andThen fun _ rest'' hr'' ↦
          have shorter' : rest'.length < ts.length := length_lt_trans hr' hrest
          have shorter : rest''.length < ts.length := length_lt_trans hr'' shorter'
          (p.expr rest'' (length_lt_bound shorter h)).within shorter fun e ↦
            .ternary (.at l) c t e none
    | rest, hr => .ok c rest hr

/-- A whole expression: an assignment, which associates to the right, or a conditional. -/
def assignment (ts : List Token) (h : ts.length ≤ n) : Reply Expr ts :=
  (conditional fin p ts h).andThen fun target rest hr ↦
    match rest, hr with
    | ⟨.symbol .eq, l⟩ :: rest, hr =>
      have hrest : rest.length < ts.length := length_lt_of_succ hr
      (p.expr rest (length_lt_bound hrest h)).within hrest fun v ↦ .assign (.at l) target v none
    | rest, hr => .ok target rest hr

end Scriptlet.Parse
