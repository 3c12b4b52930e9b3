import Scriptlet.Parse.Expr
import Scriptlet.Pull.Basic

/-!
# The grammar for parsers that pull tokens

Some parsers are called again before they have ended: the loops, which go on with what they have
read so far, and the few places at which the grammar starts over. These are the callees. All parsers
of the grammar are written with the callees as a parameter, and the depth to which calls are nested
ties them to each other: without any depth a call does not reply, and one level more lets each
callee do what it does with calls of one level less.
-/

namespace Scriptlet.Pull

/-- The parsers that are called again while they run. -/
inductive Callee : Type → Type
  | skipTerminators : Callee Unit
  | dottedNames (name : String) : Callee String
  | brackets (rank : Nat) : Callee Nat
  | paramLoop : Callee (List Param)
  | newTarget (target : Expr) (text : String) : Callee (Expr × String)
  | newBrackets (rank : Nat) : Callee Nat
  | itemLoop (close : Symbol) (wanted : Expectation) : Callee (List Expr)
  | blockLoop : Callee (List Statement)
  | suffixes (e : Expr) : Callee Expr
  | increments (e : Expr) : Callee Expr
  | operatorLoop (level : Parse.Level) (tighter : List Parse.Level) (left : Expr) : Callee Expr
  | unary : Callee Expr
  | expr : Callee Expr
  | declarations : Callee (List Expr)
  | statement : Callee Statement
  | program : Callee Program

/-- What the callees do when they are called. -/
structure Self where
  call : {α : Type} → Callee α → Pull α

variable (self : Self)

/-! ## Types and parameters -/

/-- Takes any semicolons. -/
def skipTerminators : Pull Unit := do
  if ← take? .semicolon then self.call .skipTerminators
  else return ()

/-- The names behind dots that continue a type's name. -/
def dottedNames (name : String) : Pull String := do
  if ← take? .dot then
    let w ← identifier
    self.call (.dottedNames (name ++ "." ++ w))
  else return name

/-- Pairs of brackets, counted. -/
def brackets (rank : Nat) : Pull Nat := do
  if ← at? .openBracket then
    if ← closedBracket then self.call (.brackets (rank + 1))
    else return rank
  else return rank

/-- A type as it is written. -/
def typeExpr : Pull TypeExpr := do
  let l ← location
  let first ← identifier
  let name ← self.call (.dottedNames first)
  let rank ← self.call (.brackets 0)
  return ⟨name, rank, l⟩

/-- An optional type behind a colon. -/
def optionalTypeExpr : Pull (Option TypeExpr) := do
  if ← take? .colon then return some (← typeExpr self)
  else return none

/-- A parameter: a name and an optional type. -/
def param : Pull Param := do
  let name ← identifier
  return ⟨name, ← optionalTypeExpr self⟩

/-- Parameters parted by commas. -/
def paramLoop : Pull (List Param) := do
  let p ← param self
  if ← take? .comma then return p :: (← self.call .paramLoop)
  else return [p]

/-- A list of parameters between parentheses. -/
def params : Pull (List Param) := do
  expect .openParen .openParams
  let ps ← do
    if ← at? .closeParen then pure []
    else self.call .paramLoop
  expect .closeParen .closeParams
  return ps

/-! ## Lists and blocks -/

/-- An element of a list; one before a comma or the closing symbol is omitted. -/
def item (close : Symbol) : Pull Expr := do
  if (← at? .comma) || (← at? close) then return .empty (.at (← location))
  else self.call .expr

/-- Elements parted by commas, and the symbol that closes them. -/
def itemLoop (close : Symbol) (wanted : Expectation) : Pull (List Expr) := do
  let e ← item self close
  if ← take? .comma then return e :: (← self.call (.itemLoop close wanted))
  else
    expect close wanted
    return [e]

/-- The elements of a bracketed list, behind its opening symbol. -/
def items (close : Symbol) (wanted : Expectation) : Pull (List Expr) := do
  if ← take? close then return []
  else self.call (.itemLoop close wanted)

/-- The statements of a block, behind its opening brace. -/
def blockLoop : Pull (List Statement) := do
  self.call .skipTerminators
  if ← take? .closeBrace then return []
  else if ← atEnd? then refuse .closeBlock
  else
    let s ← self.call .statement
    return s :: (← self.call .blockLoop)

/-- The statements of a block between its braces. -/
def blockBody : Pull (List Statement) := do
  expect .openBrace .openBlock
  self.call .blockLoop

/-- A function's body: an arrow and the expression that it returns, or a block. -/
def functionBody : Pull (List Statement) := do
  let l ← location
  if ← take? .fatArrow then return [.ret l (some (← self.call .expr)) none]
  else if ← at? .openBrace then blockBody self
  else refuse .functionBody

/-! ## Primary expressions -/

/-- The dotted name of a type behind `new`, as a tree and as a text. -/
def newTarget (target : Expr) (text : String) : Pull (Expr × String) := do
  let l ← location
  if ← takeEither? .dot .colonColon then
    let w ← identifier
    self.call (.newTarget (.member (.at l) target w) (text ++ "." ++ w))
  else return (target, text)

/-- The brackets of an array type behind `new`, counted; each must be closed at once. -/
def newBrackets (rank : Nat) : Pull Nat := do
  if ← take? .openBracket then
    expect .closeBracket .closeArrayType
    self.call (.newBrackets (rank + 1))
  else return rank

/-- A construction, from `new` on. -/
def newExpr : Pull Expr := do
  let l := (← advance).location
  let typeLocation ← location
  let first ← identifier
  let target ← self.call (.newTarget (.name (.at typeLocation) first) first)
  if ← at? .openBracket then
    let rank ← self.call (.newBrackets 0)
    expect .openBrace .openTypedItems
    let es ← items self .closeBrace .closeTypedItems
    return .array (.at l) (some ⟨target.2, rank - 1, typeLocation⟩) es none
  else if ← take? .openParen then
    return .new (.at l) target.1 (← items self .closeParen .closeConstructor) none
  else return .new (.at l) target.1 [] none

/-- An expression that a reserved word begins. -/
def keywordExpr (k : Keyword) : Pull Expr := do
  let l ← location
  match k with
  | .new => newExpr self
  | .true =>
    let _ ← advance
    return .literal (.at l) (.bool true)
  | .false =>
    let _ ← advance
    return .literal (.at l) (.bool false)
  | .null =>
    let _ ← advance
    return .null (.at l)
  | .this =>
    let _ ← advance
    return .this (.at l)
  | .out | .return =>
    let _ ← advance
    let _ ← take? .at
    return .variableRef (.at l) (← anyName)
  | .lambda =>
    let _ ← advance
    let ps ← params self
    return .lambda (.at l) ps (← functionBody self)
  | .if | .else | .var | .function | .class | .throw => refuse .noKeyword

/-- A reference, a block, a group or an array, by the symbol that begins it. -/
def symbolExpr (s : Symbol) : Pull Expr := do
  let l ← location
  match s with
  | .at =>
    let _ ← advance
    return .variableRef (.at l) (← anyName)
  | .underscore =>
    let _ ← advance
    return .constantRef (.at l) (← anyName)
  | .openBrace => return .block (.at l) (← blockBody self)
  | .openParen =>
    let _ ← advance
    let e ← self.call .expr
    expect .closeParen .closeGroup
    return .unary (.at l) .group e none
  | .openBracket =>
    let _ ← advance
    return .array (.at l) none (← items self .closeBracket .closeItems) none
  | _ => refuse .expression

/-- A literal, a name, or a form that a symbol or a reserved word begins. -/
def primary : Pull Expr := do
  let l ← location
  match (← token).kind with
  | .number (.int i) =>
    let _ ← advance
    return .literal (.at l) (.int i)
  | .number (.double x) =>
    let _ ← advance
    return .literal (.at l) (.double x)
  | .str s =>
    let _ ← advance
    return .literal (.at l) (.str s)
  | .symbol s => symbolExpr self s
  | .word w =>
    match Keyword.ofWord? w with
    | some k => keywordExpr self k
    | none =>
      let _ ← advance
      return .name (.at l) w
  | _ => refuse .expression

/-! ## Suffixes -/

/-- The suffixes behind an expression: arguments, indices, an arrow, a fallback or a member. -/
def suffixes (e : Expr) : Pull Expr := do
  let l ← location
  if ← take? .openParen then
    let args ← items self .closeParen .closeArguments
    self.call (.suffixes (.call (.at l) e args none))
  else if ← take? .openBracket then
    let args ← items self .closeBracket .closeIndex
    self.call (.suffixes (.index (.at l) e args none))
  else if ← take? .arrow then
    let target ← arrowTarget
    self.call (.suffixes (.assign (.at l) target e none))
  else if ← take? .questionQuestion then
    let right ← self.call .unary
    self.call (.suffixes (.coalesce (.at l) e right))
  else if ← takeEither? .dot .colonColon then
    let w ← anyName
    self.call (.suffixes (.member (.at l) e w))
  else return e

/-- A primary expression with its suffixes. -/
def leftHandSide : Pull Expr := do
  let e ← primary self
  self.call (.suffixes e)

/-- The increments and decrements behind an expression. -/
def increments (e : Expr) : Pull Expr := do
  match (← token).kind with
  | .symbol .plusPlus =>
    let l := (← advance).location
    self.call (.increments (.unary (.at l) .postInc e none))
  | .symbol .minusMinus =>
    let l := (← advance).location
    self.call (.increments (.unary (.at l) .postDec e none))
  | _ => return e

/-- A primary expression with everything that stands behind it. -/
def postfixed : Pull Expr := do
  let e ← leftHandSide self
  self.call (.increments e)

/-! ## The ladder -/

/-- An operand with any prefix operators. -/
def unary : Pull Expr := do
  match Parse.prefixOp? (← token).kind with
  | some op =>
    let l := (← advance).location
    let e ← self.call .unary
    return .unary (.at l) op e none
  | none => postfixed self

/-- An expression of binary operators of the given levels, the loosest first. -/
def ladder (levels : List Parse.Level) : Pull Expr := do
  match levels with
  | [] => unary self
  | level :: tighter =>
    let left ← ladder tighter
    self.call (.operatorLoop level tighter left)

/-- Reads on while an operator of the level follows, taking each result as the left operand of the
next operator. -/
def operatorLoop (level : Parse.Level) (tighter : List Parse.Level) (left : Expr) : Pull Expr := do
  match level.op? (← token).kind with
  | some op =>
    let l := (← advance).location
    let right ← ladder self tighter
    self.call (.operatorLoop level tighter (.binary (.at l) op left right none))
  | none => return left

/-- A conditional, or an expression without one. -/
def conditional : Pull Expr := do
  let c ← ladder self Parse.levels
  let l ← location
  if ← take? .question then
    let a ← self.call .expr
    expect .colon .colonInConditional
    let b ← self.call .expr
    return .ternary (.at l) c a b none
  else return c

/-- A whole expression: an assignment, which associates to the right, or a conditional. -/
def expr : Pull Expr := do
  let target ← conditional self
  let l ← location
  if ← take? .eq then
    let value ← self.call .expr
    return .assign (.at l) target value none
  else return target

/-! ## Statements -/

/-- The value behind `return` or `throw`; there is none before a terminator. -/
def optionalValue : Pull (Option Expr) := do
  if (← at? .semicolon) || (← at? .closeBrace) || (← atEnd?) then return none
  else return some (← self.call .expr)

/-- One declaration of a `var` statement. -/
def declaration : Pull Expr := do
  let l ← location
  let name ← identifier
  let a ← optionalTypeExpr self
  if ← take? .eq then return .declare (.at l) name a (some (← self.call .expr)) none
  else return .declare (.at l) name a none none

/-- Declarations parted by commas. -/
def declarations : Pull (List Expr) := do
  let d ← declaration self
  if ← take? .comma then return d :: (← self.call .declarations)
  else return [d]

/-- Declarations, from `var` on. -/
def varStatement : Pull Statement := do
  let l := (← advance).location
  return .vars l (← self.call .declarations)

/-- A function definition, from `function` on. -/
def functionDefinition : Pull Statement := do
  let l := (← advance).location
  let name ← identifier
  let ps ← params self
  let ret ← optionalTypeExpr self
  let body ← functionBody self
  return .function l ⟨name, ps, ret, l⟩ body

/-- An `else`, past any semicolons. Without one the semicolons are left where they are. -/
def elseBehind : Pull Bool :=
  speculate do
    self.call .skipTerminators
    if (← keyword?) = some .else then
      let _ ← advance
      return true
    else return false

/-- A condition, from `if` on. -/
def ifStatement : Pull Statement := do
  let l := (← advance).location
  expect .openParen .openCondition
  let c ← self.call .expr
  expect .closeParen .closeCondition
  let onTrue ← self.call .statement
  if ← elseBehind self then
    let onFalse ← self.call .statement
    return .cond l c onTrue (some onFalse)
  else return .cond l c onTrue none

/-- A statement. -/
def statement : Pull Statement := do
  let l ← location
  if ← at? .openBrace then return .block l (← blockBody self)
  else
    match ← keyword? with
    | some .var => varStatement self
    | some .function => functionDefinition self
    | some .if => ifStatement self
    | some .return =>
      let _ ← advance
      return .ret l (← optionalValue self) none
    | some .throw =>
      let _ ← advance
      return .throw l (← optionalValue self)
    | some .else => throw (.strayElse l)
    | some .class => throw (.reservedClass l)
    | _ => return .expr (← expr self)

/-! ## Texts -/

/-- The end of the text, which must be there. -/
def expectEnd : Pull Unit := do
  if ← atEnd? then return ()
  else refuse .endOfInput

/-- An expression that ends the text; a semicolon may stand behind it. -/
def wholeExpr : Pull Expr := do
  let e ← expr self
  let _ ← take? .semicolon
  expectEnd
  return e

/-- The next statement, past any semicolons. -/
def nextStatement : Pull Statement := do
  self.call .skipTerminators
  statement self

/-- The statements up to the end of the text. -/
def program : Pull Program := do
  self.call .skipTerminators
  if ← atEnd? then return []
  else
    let s ← statement self
    return s :: (← self.call .program)

/-! ## Depth -/

/-- What a callee does with the calls that it makes. -/
def Callee.body {α : Type} : Callee α → Pull α
  | .skipTerminators => Pull.skipTerminators self
  | .dottedNames name => Pull.dottedNames self name
  | .brackets rank => Pull.brackets self rank
  | .paramLoop => Pull.paramLoop self
  | .newTarget target text => Pull.newTarget self target text
  | .newBrackets rank => Pull.newBrackets self rank
  | .itemLoop close wanted => Pull.itemLoop self close wanted
  | .blockLoop => Pull.blockLoop self
  | .suffixes e => Pull.suffixes self e
  | .increments e => Pull.increments self e
  | .operatorLoop level tighter left => Pull.operatorLoop self level tighter left
  | .unary => Pull.unary self
  | .expr => Pull.expr self
  | .declarations => Pull.declarations self
  | .statement => Pull.statement self
  | .program => Pull.program self

/-- Calls that are nested no deeper than this. -/
def depth : Nat → Self
  | 0 => ⟨fun _ ↦ never⟩
  | n + 1 => ⟨fun callee ↦ callee.body (depth n)⟩

end Scriptlet.Pull
