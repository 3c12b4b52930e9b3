import Scriptlet.Tree.Basic

/-!
# Trees as text

Every operator is written with parentheses around it, so the text shows the shape of the tree; the
parentheses of the source are not written again.
-/

namespace Scriptlet

/-- The text of a literal; a string stands between backticks. -/
def Literal.text : Literal → String
  | .int n => Whole.text n
  | .double x => x.text
  | .str s => "`" ++ s ++ "`"
  | .bool b => if b then "true" else "false"

/-- The text of parameters, with their types where these are written. -/
def paramsText (params : List Param) : String :=
  ", ".intercalate <| params.map fun p ↦
    match p.typeExpr with
    | some a => p.name ++ ": " ++ a.text
    | none => p.name

/-- An optional type behind a colon. -/
def typeExprText : Option TypeExpr → String
  | some a => ": " ++ a.text
  | none => ""

/-- A body between its braces. -/
def braced (body : String) : String := "\x7b" ++ body ++ " \x7d"

mutual

/-- The text of an expression. An omitted element has none. -/
def Expr.text : Expr → String
  | .literal _ v => v.text
  | .name _ n => n
  | .variableRef _ n => "@" ++ n
  | .constantRef _ n => "_" ++ n
  | .unary _ op e _ =>
    match op with
    | .group => e.text
    | .neg => "(-" ++ e.text ++ ")"
    | .plus => "(+" ++ e.text ++ ")"
    | .not => "(!" ++ e.text ++ ")"
    | .preInc => "(++" ++ e.text ++ ")"
    | .preDec => "(--" ++ e.text ++ ")"
    | .postInc => "(" ++ e.text ++ "++)"
    | .postDec => "(" ++ e.text ++ "--)"
  | .binary _ op l r _ => "(" ++ l.text ++ " " ++ op.symbol ++ " " ++ r.text ++ ")"
  | .coalesce _ l r => "(" ++ l.text ++ " ?? " ++ r.text ++ ")"
  | .ternary _ c t e _ => "(" ++ c.text ++ " ? " ++ t.text ++ " : " ++ e.text ++ ")"
  | .assign _ t v _ => "(" ++ t.text ++ " = " ++ v.text ++ ")"
  | .call _ t args _ => t.text ++ "(" ++ ", ".intercalate (exprTexts args) ++ ")"
  | .new _ t args _ => "new " ++ t.text ++ "(" ++ ", ".intercalate (exprTexts args) ++ ")"
  | .member _ t n => t.text ++ "." ++ n
  | .index _ t args _ => t.text ++ "[" ++ ", ".intercalate (exprTexts args) ++ "]"
  | .declare _ n a init _ => "var " ++ n ++ typeExprText a ++ initText init
  | .array _ element items _ =>
    (match element with
      | some a => "new " ++ a.text ++ "[] "
      | none => "") ++ "[" ++ ", ".intercalate (exprTexts items) ++ "]"
  | .lambda _ params body => "lambda(" ++ paramsText params ++ ") " ++ braced (statementsText body)
  | .this _ => "this"
  | .null _ => "null"
  | .block _ body => braced (statementsText body)
  | .empty _ => ""

/-- The texts of the expressions in a list. -/
def exprTexts : List Expr → List String
  | [] => []
  | e :: es => e.text :: exprTexts es

/-- The initial value of a declaration. -/
def initText : Option Expr → String
  | none => ""
  | some e => " = " ++ e.text

/-- Statements behind one another, each closed by a semicolon. -/
def statementsText : List Statement → String
  | [] => ""
  | s :: ss => " " ++ s.text ++ ";" ++ statementsText ss

/-- The text of a statement. -/
def Statement.text : Statement → String
  | .expr e => e.text
  | .block _ body => braced (statementsText body)
  | .cond _ c t e => "if (" ++ c.text ++ ") " ++ t.text ++ elseText e
  | .ret _ v _ => "return" ++ valueText v
  | .throw _ v => "throw" ++ valueText v
  | .vars _ ds => ", ".intercalate (exprTexts ds)
  | .function _ s body =>
    "function " ++ s.name ++ "(" ++ paramsText s.params ++ ")" ++ typeExprText s.ret ++ " "
      ++ braced (statementsText body)

/-- The other branch of a condition. -/
def elseText : Option Statement → String
  | none => ""
  | some s => " else " ++ s.text

/-- The value of a return or a throw. -/
def valueText : Option Expr → String
  | none => ""
  | some e => " " ++ e.text

end

end Scriptlet
