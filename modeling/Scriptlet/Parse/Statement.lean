import Scriptlet.Parse.Expr

/-!
# Parsing statements

The first word of a statement says which form it has; anything else is an expression. An `else`
belongs to the nearest `if` before it, also when semicolons stand between them: they are skipped to
look for it, and kept if it is not there.
-/

namespace Scriptlet.Parse

variable {n : Nat} (fin : Location) (p : Parsers n)

/-- The value behind `return` or `throw`; there is none before a terminator. -/
def optionalValue (t : Token) (rest : List Token) (h : rest.length < n) :
    Reply (Option Expr) (t :: rest) :=
  match kindOf rest with
  | .symbol .semicolon | .symbol .closeBrace | .eof => .one none
  | _ => (p.expr rest h).behind some

/-- An optional initial value behind an equals sign. -/
def optionalInit (origin ts : List Token) (h : ts.length < origin.length)
    (hn : origin.length ≤ n) : Reply (Option Expr) origin :=
  match ts, h with
  | ⟨.symbol .eq, _⟩ :: rest, h =>
    have hrest : rest.length < origin.length := length_lt_of_succ h
    (p.expr rest (length_lt_bound hrest hn)).within hrest some
  | ts, h => .ok none ts h

/-- One declaration of a `var` statement. -/
def declaration (ts : List Token) (h : ts.length ≤ n) : Reply Expr ts :=
  (identifier fin ts).andThen fun name rest hr ↦
    (optionalTypeExpr fin ts rest hr).andThen fun a rest hr ↦
      (optionalInit p ts rest hr h).map fun init ↦
        .declare (.at (locationOf fin ts)) name a init none

/-- Declarations parted by commas. -/
def declarations (ts : List Token) (h : ts.length ≤ n) : Reply (List Expr) ts :=
  match declaration fin p ts h with
  | .fail e rest => .fail e rest
  | .ok d rest hr =>
    match rest, hr with
    | ⟨.symbol .comma, _⟩ :: rest, hr =>
      have hrest : rest.length < ts.length := length_lt_of_succ hr
      (declarations rest (length_le_bound hrest h)).within hrest (d :: ·)
    | rest, hr => .ok [d] rest hr
termination_by ts.length
decreasing_by omega

/-- A function definition, behind its first word. -/
def functionDefinition (l : Location) (ts : List Token) (h : ts.length ≤ n) :
    Reply Statement ts :=
  (identifier fin ts).andThen fun name rest hr ↦
    (params fin rest).andThen fun ps rest' hr' ↦
      (optionalTypeExpr fin ts rest' (length_lt_trans hr' hr)).andThen fun ret rest'' hr'' ↦
        (functionBody fin p rest'' (length_le_bound hr'' h)).within hr'' fun body ↦
          .function l ⟨name, ps, ret, l⟩ body

/-- A condition, behind its first word. -/
def condition (l : Location) (ts : List Token) (h : ts.length ≤ n) : Reply Statement ts :=
  (expect fin .openParen .openCondition ts).andThen fun _ rest₁ h₁ ↦
    (p.expr rest₁ (length_lt_bound h₁ h)).andThen fun c rest₂ h₂ ↦
      (expect fin .closeParen .closeCondition rest₂).andThen fun _ rest₃ h₃ ↦
        have short₂ : rest₂.length < ts.length := length_lt_trans h₂ h₁
        have short₃ : rest₃.length < ts.length := length_lt_trans h₃ short₂
        (p.statement rest₃ (length_lt_bound short₃ h)).andThen fun onTrue rest₄ h₄ ↦
          have short₄ : rest₄.length < ts.length := length_lt_trans h₄ short₃
          match hs : skipTerminators rest₄ with
          | [] => .ok (.cond l c onTrue none) rest₄ short₄
          | t :: us =>
            if t.kind = .word "else" then
              have short : us.length < ts.length :=
                length_lt_trans (length_of_skipTerminators hs) short₄
              (p.statement us (length_lt_bound short h)).within short fun onFalse ↦
                .cond l c onTrue (some onFalse)
            else .ok (.cond l c onTrue none) rest₄ short₄

/-- A statement. -/
def statement (ts : List Token) (h : ts.length ≤ n) : Reply Statement ts :=
  match ts, h with
  | t :: rest, h =>
    match t.kind with
    | .symbol .openBrace => (blockBody fin p rest h).behind (.block t.location)
    | .word w =>
      match Keyword.ofWord? w with
      | some .var =>
        (declarations fin p rest (Nat.le_of_lt h)).behind (.vars t.location)
      | some .function =>
        (functionDefinition fin p t.location rest (Nat.le_of_lt h)).behind id
      | some .if => (condition fin p t.location rest (Nat.le_of_lt h)).behind id
      | some .return =>
        (optionalValue p t rest h).map fun v ↦ .ret t.location v none
      | some .throw =>
        (optionalValue p t rest h).map fun v ↦ .throw t.location v
      | some .else => .fail (.strayElse t.location) (t :: rest)
      | some .class => .fail (.reservedClass t.location) (t :: rest)
      | _ => (assignment fin p (t :: rest) h).map .expr
    | _ => (assignment fin p (t :: rest) h).map .expr
  | [], h => (assignment fin p [] h).map .expr

/-- The parsers for inputs of fewer than `n` tokens, each bound built on the one below it. The one
below is built when it is asked, so that a bound costs nothing until a parser descends to it. -/
def parsers : (n : Nat) → Parsers n
  | 0 => ⟨fun _ h ↦ absurd h (Nat.not_lt_zero _), fun _ h ↦ absurd h (Nat.not_lt_zero _),
      fun _ h ↦ absurd h (Nat.not_lt_zero _)⟩
  | n + 1 =>
    ⟨fun ts h ↦ assignment fin (parsers n) ts (Nat.le_of_lt_succ h),
      fun ts h ↦ unary fin (parsers n) ts (Nat.le_of_lt_succ h),
      fun ts h ↦ statement fin (parsers n) ts (Nat.le_of_lt_succ h)⟩

end Scriptlet.Parse
