import Scriptlet.Tree.Text

/-!
# The outline of a tree

A tree as a flat list of rows, one for each node, parents before children: what the node is, where
it stands, and everything that binding has filled in so far. It shows a tree completely, so it is
the view to compare two trees by.
-/

namespace Scriptlet

/-- Something that binding has filled in. -/
inductive Slot where
  | text (s : String)
  | flag (b : Bool)
  | conversion (c : Option Conversion)
  | conversions (cs : Conversions)
deriving DecidableEq

/-- One row of an outline. -/
structure OutlineRow where
  depth : Nat
  location : Location
  label : String
  slots : List (String × Slot)
deriving DecidableEq

namespace Outline

/-! ## Labels -/

/-- A literal with its kind. -/
def literalLabel : Literal → String
  | .int n => "int " ++ Whole.text n
  | .double x => "double " ++ x.text
  | .str s => "string " ++ s
  | .bool b => if b then "bool true" else "bool false"

/-- An optional type behind a colon, with its place. -/
def typeExprLabel : Option TypeExpr → String
  | some a => s!": {a.text} @{a.location.text}"
  | none => ""

/-- Parameters parted by commas. -/
def paramsLabel (ps : List Param) : String :=
  ", ".intercalate (ps.map fun p ↦ p.name ++ typeExprLabel p.typeExpr)

/-- What kind of node an expression is. -/
def exprLabel : Expr → String
  | .literal _ v => literalLabel v
  | .name _ n => "name " ++ n
  | .variableRef _ n => "variable " ++ n
  | .constantRef _ n => "constant " ++ n
  | .unary _ op _ _ => "unary " ++ op.name
  | .binary _ op _ _ _ => "binary " ++ op.symbol
  | .coalesce .. => "coalesce"
  | .ternary .. => "ternary"
  | .assign .. => "assign"
  | .call _ _ args _ => s!"call/{args.length}"
  | .new _ _ args _ => s!"new/{args.length}"
  | .index _ _ args _ => s!"index/{args.length}"
  | .member _ _ n => "member " ++ n
  | .declare _ n a _ _ => "declare " ++ n ++ typeExprLabel a
  | .array _ a items _ => s!"array/{items.length}" ++ typeExprLabel a
  | .lambda _ ps _ => "lambda(" ++ paramsLabel ps ++ ")"
  | .this _ => "this"
  | .null _ => "null"
  | .block .. => "block"
  | .empty _ => "empty"

/-! ## Slots -/

/-- The slots that every expression has. -/
def nodeSlots (n : Node) : List (String × Slot) :=
  (match n.ty with
    | some ty => [("type", .text ty.text)]
    | none => []) ++
  match n.binding with
  | some b =>
    [("binding", .text b.text), ("settable", .flag b.isSettable),
     ("instance", .flag b.needsInstance)]
  | none => []

/-- The slots of an operator. -/
def operatorSlots : Option OperatorTarget → List (String × Slot)
  | some t => [("target", .text t.kind.text), ("conv", .conversions t.conversions)]
  | none => []

/-- The slots of a call, a construction or an index. -/
def callSlots : Option CallTarget → List (String × Slot)
  | some t =>
    [("target", .text t.callee.text), ("returns", .text t.ret.text),
     ("conv", .conversions t.conversions)]
  | none => []

/-- The slot of a single conversion. -/
def conversionSlot : Option (Option Conversion) → List (String × Slot)
  | some c => [("conv", .conversion c)]
  | none => []

/-- The slots of an expression. -/
def exprSlots (e : Expr) : List (String × Slot) :=
  nodeSlots e.node ++
  match e with
  | .unary _ _ _ t => operatorSlots t
  | .binary _ _ _ _ t => operatorSlots t
  | .call _ _ _ t | .new _ _ _ t | .index _ _ _ t => callSlots t
  | .ternary _ _ _ _ (some c) =>
    [("branch", .text c.branch.text), ("conv", .conversion c.conversion)]
  | .assign _ _ _ c => conversionSlot c
  | .declare _ _ _ _ c => conversionSlot c
  | .array _ _ _ (some cs) => [("conv", .conversions cs)]
  | _ => []

/-- The row of an expression. -/
def exprRow (depth : Nat) (e : Expr) : OutlineRow :=
  ⟨depth, e.location, exprLabel e, exprSlots e⟩

/-! ## Rows -/

mutual

/-- The rows of an expression. -/
def expr (depth : Nat) : Expr → List OutlineRow
  | e@(.unary _ _ x _) => exprRow depth e :: expr (depth + 1) x
  | e@(.binary _ _ l r _) => exprRow depth e :: (expr (depth + 1) l ++ expr (depth + 1) r)
  | e@(.coalesce _ l r) => exprRow depth e :: (expr (depth + 1) l ++ expr (depth + 1) r)
  | e@(.ternary _ c t f _) =>
    exprRow depth e :: (expr (depth + 1) c ++ expr (depth + 1) t ++ expr (depth + 1) f)
  | e@(.assign _ t v _) => exprRow depth e :: (expr (depth + 1) t ++ expr (depth + 1) v)
  | e@(.call _ t args _) => exprRow depth e :: (expr (depth + 1) t ++ exprs (depth + 1) args)
  | e@(.new _ t args _) => exprRow depth e :: (expr (depth + 1) t ++ exprs (depth + 1) args)
  | e@(.index _ t args _) => exprRow depth e :: (expr (depth + 1) t ++ exprs (depth + 1) args)
  | e@(.member _ t _) => exprRow depth e :: expr (depth + 1) t
  | e@(.declare _ _ _ init _) => exprRow depth e :: optionalExpr (depth + 1) init
  | e@(.array _ _ items _) => exprRow depth e :: exprs (depth + 1) items
  | e@(.lambda _ _ body) => exprRow depth e :: statements (depth + 1) body
  | e@(.block _ body) => exprRow depth e :: statements (depth + 1) body
  | e => [exprRow depth e]

/-- The rows of the expressions in a list. -/
def exprs (depth : Nat) : List Expr → List OutlineRow
  | [] => []
  | e :: es => expr depth e ++ exprs depth es

/-- The rows of an optional expression. -/
def optionalExpr (depth : Nat) : Option Expr → List OutlineRow
  | none => []
  | some e => expr depth e

/-- The rows of a statement; one that is an expression has the rows of the expression. -/
def statement (depth : Nat) : Statement → List OutlineRow
  | .expr e => expr depth e
  | .block l body => ⟨depth, l, "block statement", []⟩ :: statements (depth + 1) body
  | .cond l c t f =>
    ⟨depth, l, if f.isSome then "if else" else "if", []⟩ ::
      (expr (depth + 1) c ++ statement (depth + 1) t ++ optionalStatement (depth + 1) f)
  | .ret l v c => ⟨depth, l, "return", conversionSlot c⟩ :: optionalExpr (depth + 1) v
  | .throw l v => ⟨depth, l, "throw", []⟩ :: optionalExpr (depth + 1) v
  | .vars l ds => ⟨depth, l, "var", []⟩ :: exprs (depth + 1) ds
  | .function l s body =>
    ⟨depth, l, "function " ++ s.name ++ "(" ++ paramsLabel s.params ++ ")" ++ typeExprLabel s.ret,
      []⟩ :: statements (depth + 1) body

/-- The rows of an optional statement. -/
def optionalStatement (depth : Nat) : Option Statement → List OutlineRow
  | none => []
  | some s => statement depth s

/-- The rows of the statements in a list. -/
def statements (depth : Nat) : List Statement → List OutlineRow
  | [] => []
  | s :: ss => statement depth s ++ statements depth ss

end

end Outline

/-- The outline of a program. -/
def outline (program : Program) : List OutlineRow := Outline.statements 0 program

end Scriptlet
