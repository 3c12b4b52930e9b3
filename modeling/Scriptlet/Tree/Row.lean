import Scriptlet.Tree.Text

/-!
# Rows of a tree for reading

A tree as it is shown to somebody at work: one row per node with a short label, indented by its
depth, and with the type and the storage if the tree is bound. Parentheses and declarations are
rows like any other; a declaring statement has only the rows of its declarations.
-/

namespace Scriptlet

/-- One row. -/
structure TreeRow where
  depth : Nat
  label : String
  ty : Option String
  binding : Option String
deriving DecidableEq

namespace TreeRow

/-- A row that has only a label. -/
def ofLabel (depth : Nat) (label : String) : TreeRow := ⟨depth, label, none, none⟩

/-- Names of parameters in parentheses. -/
def paramsText (params : List Param) : String :=
  "(" ++ ", ".intercalate (params.map Param.name) ++ ")"

/-- The label of an expression. -/
def exprLabel : Expr → String
  | .literal _ v => v.text
  | .name _ x => x
  | .variableRef _ x => "@" ++ x
  | .constantRef _ x => "_" ++ x
  | .unary _ op _ _ => "unary " ++ op.name
  | .binary _ op _ _ _ => "binary " ++ op.symbol
  | .coalesce .. => "??"
  | .ternary .. => "?:"
  | .assign .. => "="
  | .call .. => "call"
  | .new .. => "new"
  | .member _ _ x => "." ++ x
  | .index .. => "[]"
  | .declare _ x (some t) _ _ => s!"var {x}: {t.text}"
  | .declare _ x none _ _ => "var " ++ x
  | .array .. => "array"
  | .lambda _ params _ => "lambda" ++ paramsText params
  | .this _ => "this"
  | .null _ => "null"
  | .block .. => "block"
  | .empty _ => "(empty)"

/-- The row of an expression. -/
def ofExpr (depth : Nat) (e : Expr) : TreeRow :=
  ⟨depth, exprLabel e, e.node.ty.map Ty.text, e.node.binding.map Binding.text⟩

mutual

/-- The rows of an expression. -/
def expr (depth : Nat) : Expr → List TreeRow
  | e@(.unary _ _ x _) => ofExpr depth e :: expr (depth + 1) x
  | e@(.binary _ _ a b _) => ofExpr depth e :: (expr (depth + 1) a ++ expr (depth + 1) b)
  | e@(.coalesce _ a b) => ofExpr depth e :: (expr (depth + 1) a ++ expr (depth + 1) b)
  | e@(.ternary _ x a b _) =>
    ofExpr depth e :: (expr (depth + 1) x ++ expr (depth + 1) a ++ expr (depth + 1) b)
  | e@(.assign _ t v _) => ofExpr depth e :: (expr (depth + 1) t ++ expr (depth + 1) v)
  | e@(.call _ t args _) => ofExpr depth e :: (expr (depth + 1) t ++ exprs (depth + 1) args)
  | e@(.new _ t args _) => ofExpr depth e :: (expr (depth + 1) t ++ exprs (depth + 1) args)
  | e@(.index _ t args _) => ofExpr depth e :: (expr (depth + 1) t ++ exprs (depth + 1) args)
  | e@(.member _ t _) => ofExpr depth e :: expr (depth + 1) t
  | e@(.declare _ _ _ init _) => ofExpr depth e :: optional (depth + 1) init
  | e@(.array _ _ items _) => ofExpr depth e :: exprs (depth + 1) items
  | e@(.lambda _ _ body) => ofExpr depth e :: statements (depth + 1) body
  | e@(.block _ body) => ofExpr depth e :: statements (depth + 1) body
  | e => [ofExpr depth e]

/-- The rows of the expressions in a list. -/
def exprs (depth : Nat) : List Expr → List TreeRow
  | [] => []
  | e :: es => expr depth e ++ exprs depth es

/-- The rows of an expression that may be missing. -/
def optional (depth : Nat) : Option Expr → List TreeRow
  | none => []
  | some e => expr depth e

/-- The rows of a statement. -/
def statement (depth : Nat) : Statement → List TreeRow
  | .expr e => expr depth e
  | .block _ body => ofLabel depth "block" :: statements (depth + 1) body
  | .cond _ x a b =>
    ofLabel depth "if" :: (expr (depth + 1) x ++ statement (depth + 1) a ++ alternative depth b)
  | .ret _ v _ => ofLabel depth "return" :: optional (depth + 1) v
  | .throw _ v => ofLabel depth "throw" :: optional (depth + 1) v
  | .vars _ declarations => exprs depth declarations
  | .function _ s body =>
    ofLabel depth ("function " ++ s.name ++ paramsText s.params) :: statements (depth + 1) body

/-- The rows of the other branch of a conditional statement, under a row of their own. -/
def alternative (depth : Nat) : Option Statement → List TreeRow
  | none => []
  | some st => ofLabel depth "else" :: statement (depth + 1) st

/-- The rows of the statements in a list. -/
def statements (depth : Nat) : List Statement → List TreeRow
  | [] => []
  | st :: sts => statement depth st ++ statements depth sts

end

/-- The rows of a program. -/
def program (p : Program) : List TreeRow := statements 0 p

/-- The spans of a row: the indented label, the type and the storage. -/
def spans (r : TreeRow) : List String :=
  (String.join (List.replicate r.depth "  ") ++ r.label)
    :: (r.ty.map (" : " ++ ·)).toList ++ (r.binding.map ("  [" ++ · ++ "]")).toList

end TreeRow

end Scriptlet
