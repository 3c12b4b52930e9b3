import Scriptlet.Location
import Scriptlet.Resolution
import Scriptlet.Token.Basic
import Scriptlet.Tree.Operator

/-!
# Programs as trees

Expressions and statements, as they are written. Every expression has a place for its static type
and its storage, and those nodes whose meaning depends on a choice of definitions have one more for
that choice. All these places are empty after parsing; evaluation never looks at them.
-/

namespace Scriptlet

/-- A type as it is written: a name, perhaps with dots, and how many pairs of brackets follow. -/
structure TypeExpr where
  name : String
  rank : Nat
  location : Location
deriving DecidableEq

/-- The type as it is written. -/
def TypeExpr.text (a : TypeExpr) : String :=
  a.name ++ String.join (List.replicate a.rank "[]")

/-- A parameter of a function. -/
structure Param where
  name : String
  typeExpr : Option TypeExpr
deriving DecidableEq

/-- The head of a function definition. -/
structure Signature where
  name : String
  params : List Param
  ret : Option TypeExpr
  location : Location
deriving DecidableEq

/-- A literal. -/
inductive Literal where
  | int (n : Int64)
  | double (x : Double)
  | str (s : String)
  | bool (b : Bool)
deriving DecidableEq

/-- What every expression carries: its place, and what binding finds out about any expression. -/
structure Node where
  location : Location
  ty : Option Ty
  binding : Option Binding
deriving DecidableEq

/-- A node that is not bound yet. -/
def Node.at (location : Location) : Node := ⟨location, none, none⟩

mutual

/-- An expression. The last field of an operator, a call and the like is what binding chose. -/
inductive Expr where
  | literal (node : Node) (value : Literal)
  | name (node : Node) (name : String)
  | variableRef (node : Node) (name : String)
  | constantRef (node : Node) (name : String)
  | unary (node : Node) (op : UnaryOp) (operand : Expr) (target : Option OperatorTarget)
  | binary (node : Node) (op : BinaryOp) (left right : Expr) (target : Option OperatorTarget)
  | coalesce (node : Node) (left right : Expr)
  | ternary (node : Node) (condition onTrue onFalse : Expr)
      (conversion : Option BranchConversion)
  | assign (node : Node) (target value : Expr) (conversion : Option (Option Conversion))
  | call (node : Node) (target : Expr) (args : List Expr) (resolved : Option CallTarget)
  | new (node : Node) (target : Expr) (args : List Expr) (resolved : Option CallTarget)
  | index (node : Node) (target : Expr) (args : List Expr) (resolved : Option CallTarget)
  | member (node : Node) (target : Expr) (name : String)
  | declare (node : Node) (name : String) (typeExpr : Option TypeExpr)
      (init : Option Expr) (conversion : Option (Option Conversion))
  | array (node : Node) (element : Option TypeExpr) (items : List Expr)
      (conversions : Option Conversions)
  | lambda (node : Node) (params : List Param) (body : List Statement)
  | this (node : Node)
  | null (node : Node)
  | block (node : Node) (body : List Statement)
  | empty (node : Node)

/-- A statement. -/
inductive Statement where
  | expr (e : Expr)
  | block (location : Location) (body : List Statement)
  | cond (location : Location) (condition : Expr) (onTrue : Statement)
      (onFalse : Option Statement)
  | ret (location : Location) (value : Option Expr) (conversion : Option (Option Conversion))
  | throw (location : Location) (value : Option Expr)
  | vars (location : Location) (declarations : List Expr)
  | function (location : Location) (signature : Signature) (body : List Statement)

end

/-- A program is a list of statements. -/
abbrev Program := List Statement

instance : Inhabited Expr := ⟨.empty (.at .start)⟩

instance : Inhabited Statement := ⟨.expr default⟩

namespace Expr

/-- What the expression carries as any expression does. -/
def node : Expr → Node
  | literal n _ | name n _ | variableRef n _ | constantRef n _ | unary n .. | binary n ..
  | coalesce n .. | ternary n .. | assign n .. | call n .. | new n .. | index n .. | member n ..
  | declare n .. | array n .. | lambda n .. | this n | null n | block n _ | empty n => n

/-- The expression with something else in that place. -/
def setNode (n : Node) : Expr → Expr
  | literal _ v => literal n v
  | name _ x => name n x
  | variableRef _ x => variableRef n x
  | constantRef _ x => constantRef n x
  | unary _ op e t => unary n op e t
  | binary _ op a b t => binary n op a b t
  | coalesce _ a b => coalesce n a b
  | ternary _ c a b v => ternary n c a b v
  | assign _ t v c => assign n t v c
  | call _ t as r => call n t as r
  | new _ t as r => new n t as r
  | index _ t as r => index n t as r
  | member _ t x => member n t x
  | declare _ x t i c => declare n x t i c
  | array _ t es cs => array n t es cs
  | lambda _ ps b => lambda n ps b
  | this _ => this n
  | null _ => null n
  | block _ b => block n b
  | empty _ => empty n

/-- Where the expression begins, or where its operator stands. -/
def location (e : Expr) : Location := e.node.location

/-- The expression without the parentheses around it. -/
def ungrouped : Expr → Expr
  | unary _ .group e _ => e.ungrouped
  | e => e

/-- The name that an assignment to the expression writes. -/
def assignableName? (e : Expr) : Option String :=
  match e.ungrouped with
  | name _ n | variableRef _ n | constantRef _ n => some n
  | _ => none

end Expr

/-- Where the statement begins. -/
def Statement.location : Statement → Location
  | expr e => e.location
  | block l _ | cond l .. | ret l .. | throw l _ | vars l _ | function l .. => l

end Scriptlet
