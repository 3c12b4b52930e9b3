import Scriptlet.Keyword
import Scriptlet.Tree.Basic

/-!
# Replies of parsers

A parser works on the tokens that are left, the mark of the end not among them. It replies with a
value and fewer tokens, or with an error and the tokens at which it stopped. That tokens are used up
is part of a successful reply, so whoever asks again is bound to come to an end.
-/

namespace Scriptlet

/-! ## Errors -/

/-- What a parser was looking for when it met another token. -/
inductive Expectation where
  | expression | noKeyword | identifier | name | endOfInput
  | colonInConditional
  | openParams | closeParams | functionBody | openBlock | closeBlock
  | openCondition | closeCondition | closeGroup
  | closeArguments | closeIndex | closeItems | closeTypedItems | closeConstructor
  | closeArrayType | openTypedItems
deriving DecidableEq

/-- The wording of what was expected. -/
def Expectation.text : Expectation → String
  | expression => "Expected expression"
  | noKeyword => "Unexpected keyword in expression"
  | identifier => "Expected identifier"
  | name => "Expected name"
  | endOfInput => "Expected end of input"
  | colonInConditional => "Expected ':' in conditional expression"
  | openParams => "Expected '(' before parameters"
  | closeParams => "Expected ')' after parameters"
  | functionBody => "Expected '=>' or '\x7b' to start a function body"
  | openBlock => "Expected '\x7b'"
  | closeBlock => "Expected '\x7d' to close block"
  | openCondition => "Expected '(' after 'if'"
  | closeCondition => "Expected ')' after if condition"
  | closeGroup => "Expected ')' after expression"
  | closeArguments => "Expected ')' after arguments"
  | closeIndex => "Expected ']' after index"
  | closeItems => "Expected ']' after array items"
  | closeTypedItems => "Expected '\x7d' after array items"
  | closeConstructor => "Expected ')' after constructor arguments"
  | closeArrayType => "Expected ']' in array type"
  | openTypedItems => "Expected '\x7b' before array items"

/-- Why a text is not a program. -/
inductive ParseError where
  | badCharacter (found : Char) (location : Location)
  | unexpected (wanted : Expectation) (found : TokenKind) (location : Location)
  | strayElse (location : Location)
  | reservedClass (location : Location)
deriving DecidableEq

namespace ParseError

/-- Where the error is. -/
def location : ParseError → Location
  | badCharacter _ l | unexpected _ _ l | strayElse l | reservedClass l => l

/-- The message of an error. -/
def message : ParseError → String
  | badCharacter c l => s!"Lexical error at {l.text}: unexpected character '" ++ c.toString ++ "'"
  | unexpected wanted found l => s!"Syntax error at {l.text}: {wanted.text}, found {found.text}"
  | strayElse l => s!"Syntax error at {l.text}: 'else' without matching 'if'"
  | reservedClass l => s!"Syntax error at {l.text}: 'class' is reserved"

end ParseError

/-! ## Replies -/

/-- The reply of a parser that was given the tokens `ts`. -/
inductive Reply (α : Type) (ts : List Token) where
  | ok (value : α) (rest : List Token) (shorter : rest.length < ts.length)
  | fail (error : ParseError) (rest : List Token)

namespace Reply

variable {α β : Type} {ts us : List Token}

/-- Goes on behind a successful reply, which may have been given about fewer tokens. -/
def andThen (r : Reply α us)
    (k : (value : α) → (rest : List Token) → rest.length < us.length → Reply β ts) : Reply β ts :=
  match r with
  | .ok value rest shorter => k value rest shorter
  | .fail e rest => .fail e rest

/-- The reply with its value changed. -/
def map (r : Reply α ts) (f : α → β) : Reply β ts :=
  match r with
  | .ok value rest shorter => .ok (f value) rest shorter
  | .fail e rest => .fail e rest

/-- The reply with its value changed, as a reply about more tokens. -/
def within (r : Reply α us) (h : us.length < ts.length) (f : α → β) : Reply β ts :=
  match r with
  | .ok value rest shorter => .ok (f value) rest (Nat.lt_trans shorter h)
  | .fail e rest => .fail e rest

/-- The reply with its value changed, as a reply about the tokens with one more in front. -/
def behind {t : Token} (r : Reply α us) (f : α → β) : Reply β (t :: us) :=
  r.within (Nat.lt_succ_self _) f

/-- The reply of taking one token. -/
def one {t : Token} (value : α) : Reply α (t :: us) := .ok value us (Nat.lt_succ_self _)

end Reply

/-! ## Bounds

What a parser is given is shorter than what it began with. These are the steps of that kind that
the grammar takes. -/

section Bounds

variable {xs ys zs : List Token} {n : Nat}

theorem length_lt_bound (h : xs.length < ys.length) (hn : ys.length ≤ n) : xs.length < n :=
  Nat.lt_of_lt_of_le h hn

theorem length_le_bound (h : xs.length < ys.length) (hn : ys.length ≤ n) : xs.length ≤ n :=
  Nat.le_of_lt (Nat.lt_of_lt_of_le h hn)

theorem length_lt_trans (h : xs.length < ys.length) (k : ys.length < zs.length) :
    xs.length < zs.length :=
  Nat.lt_trans h k

theorem length_lt_of_succ (h : xs.length + 1 < ys.length) : xs.length < ys.length :=
  Nat.lt_of_succ_lt h

end Bounds

namespace Parse

/-- The place of the first token, or of the end of the text. -/
def locationOf (fin : Location) : List Token → Location
  | [] => fin
  | t :: _ => t.location

/-- The first token's kind, or the mark of the end of the text. -/
def kindOf : List Token → TokenKind
  | [] => .eof
  | t :: _ => t.kind

/-- The error of meeting these tokens. A bad character is reported as such, whatever was wanted. -/
def unexpected (fin : Location) (wanted : Expectation) (ts : List Token) : ParseError :=
  match kindOf ts with
  | .bad c => .badCharacter c (locationOf fin ts)
  | found => .unexpected wanted found (locationOf fin ts)

/-- The reply of stopping at these tokens. -/
def stop {α : Type} {us : List Token} (fin : Location) (wanted : Expectation)
    (ts : List Token) : Reply α us :=
  .fail (unexpected fin wanted ts) ts

/-- Takes one symbol. -/
def expect (fin : Location) (s : Symbol) (wanted : Expectation) (ts : List Token) :
    Reply Unit ts :=
  match ts with
  | ⟨.symbol s', l⟩ :: rest =>
    if s' = s then .one () else stop fin wanted (⟨.symbol s', l⟩ :: rest)
  | ts => stop fin wanted ts

/-- Takes a word that is not reserved. -/
def identifier (fin : Location) (ts : List Token) : Reply String ts :=
  match ts with
  | ⟨.word w, l⟩ :: rest =>
    if Keyword.isReserved w then stop fin .identifier (⟨.word w, l⟩ :: rest)
    else .one w
  | ts => stop fin .identifier ts

/-- Takes any word: behind a sigil or a dot no word is reserved. -/
def anyName (fin : Location) (ts : List Token) : Reply String ts :=
  match ts with
  | ⟨.word w, _⟩ :: _ => .one w
  | ts => stop fin .name ts

/-- The tokens behind any semicolons at their front. -/
def skipTerminators : List Token → List Token
  | ⟨.symbol .semicolon, _⟩ :: rest => skipTerminators rest
  | ts => ts

theorem length_skipTerminators (ts : List Token) :
    (skipTerminators ts).length ≤ ts.length := by
  fun_induction skipTerminators ts with
  | case1 _ rest ih => simp; omega
  | case2 => exact Nat.le_refl _

theorem length_of_skipTerminators {t : Token} {ts us : List Token}
    (h : skipTerminators ts = t :: us) : us.length < ts.length := by
  have hle := length_skipTerminators ts
  rw [h] at hle
  exact hle

/-! ## Types and parameters -/

/-- The names behind dots that continue a type's name. -/
def dottedNames (fin : Location) (first : String) (origin ts : List Token)
    (h : ts.length < origin.length) : Reply String origin :=
  match ts, h with
  | ⟨.symbol .dot, _⟩ :: rest, h =>
    have hrest : rest.length + 1 < origin.length := h
    match identifier fin rest with
    | .ok w rest' shorter =>
      dottedNames fin (first ++ "." ++ w) origin rest'
        (length_lt_trans shorter (length_lt_of_succ hrest))
    | .fail e rest' => .fail e rest'
  | ts, h => .ok first ts h
termination_by ts.length
decreasing_by simp only [List.length_cons]; omega

/-- Pairs of brackets at the front, counted. A bracket that is not closed at once is left. -/
def brackets : List Token → Nat × List Token
  | ⟨.symbol .openBracket, _⟩ :: ⟨.symbol .closeBracket, _⟩ :: rest =>
    let more := brackets rest
    (more.1 + 1, more.2)
  | ts => (0, ts)

theorem length_brackets (ts : List Token) : (brackets ts).2.length ≤ ts.length := by
  fun_induction brackets ts with
  | case1 _ _ rest more ih => exact Nat.le_trans ih (by simp only [List.length_cons]; omega)
  | case2 => exact Nat.le_refl _

/-- A type as it is written. -/
def typeExpr (fin : Location) (ts : List Token) : Reply TypeExpr ts :=
  (identifier fin ts).andThen fun first rest h ↦
    (dottedNames fin first ts rest h).andThen fun name rest h ↦
      .ok ⟨name, (brackets rest).1, locationOf fin ts⟩ (brackets rest).2
        (Nat.lt_of_le_of_lt (length_brackets rest) h)

/-- An optional type behind a colon, at the front of fewer tokens than `origin`. -/
def optionalTypeExpr (fin : Location) (origin ts : List Token) (h : ts.length < origin.length) :
    Reply (Option TypeExpr) origin :=
  match ts, h with
  | ⟨.symbol .colon, _⟩ :: rest, h =>
    have hrest : rest.length + 1 < origin.length := h
    (typeExpr fin rest).within (length_lt_of_succ hrest) some
  | ts, h => .ok none ts h

/-- A parameter: a name and an optional type. -/
def param (fin : Location) (ts : List Token) : Reply Param ts :=
  (identifier fin ts).andThen fun name rest h ↦
    (optionalTypeExpr fin ts rest h).map fun a ↦ ⟨name, a⟩

/-- Parameters parted by commas, and the parenthesis that closes them. -/
def paramLoop (fin : Location) (ts : List Token) : Reply (List Param) ts :=
  match param fin ts with
  | .fail e rest => .fail e rest
  | .ok p rest h =>
    match rest, h with
    | ⟨.symbol .comma, _⟩ :: rest', h =>
      have hrest : rest'.length + 1 < ts.length := h
      (paramLoop fin rest').within (length_lt_of_succ hrest) (p :: ·)
    | rest, h => (expect fin .closeParen .closeParams rest).within h fun _ ↦ [p]
termination_by ts.length
decreasing_by omega

/-- A list of parameters between parentheses. -/
def params (fin : Location) (ts : List Token) : Reply (List Param) ts :=
  (expect fin .openParen .openParams ts).andThen fun _ rest h ↦
    match rest, h with
    | ⟨.symbol .closeParen, _⟩ :: rest', h =>
      have hrest : rest'.length + 1 < ts.length := h
      .ok [] rest' (length_lt_of_succ hrest)
    | rest, h => (paramLoop fin rest).within h id

end Parse

end Scriptlet
