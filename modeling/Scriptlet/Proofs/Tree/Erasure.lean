import Scriptlet.Tree.Basic

/-!
# Trees without parentheses and without places

Two trees can differ in ways that do not matter for what they mean: in the parentheses that the
source had around their parts, and in where the parts stood. `withoutGroups` replaces every group by
its operand, at any depth, and `withoutPlaces` moves every part to the start of the text; neither
changes what binding put into a tree.
-/

namespace Scriptlet

/-! ## Parentheses -/

mutual

/-- The expression with every group in it replaced by its operand. -/
def Expr.withoutGroups : Expr → Expr
  | .literal n v => .literal n v
  | .name n x => .name n x
  | .variableRef n x => .variableRef n x
  | .constantRef n x => .constantRef n x
  | .unary n op e t =>
    if op = .group then e.withoutGroups else .unary n op e.withoutGroups t
  | .binary n op a b t => .binary n op a.withoutGroups b.withoutGroups t
  | .coalesce n a b => .coalesce n a.withoutGroups b.withoutGroups
  | .ternary n x a b v => .ternary n x.withoutGroups a.withoutGroups b.withoutGroups v
  | .assign n target v k => .assign n target.withoutGroups v.withoutGroups k
  | .call n target args r => .call n target.withoutGroups (exprsWithoutGroups args) r
  | .new n target args r => .new n target.withoutGroups (exprsWithoutGroups args) r
  | .index n target args r => .index n target.withoutGroups (exprsWithoutGroups args) r
  | .member n target x => .member n target.withoutGroups x
  | .declare n x ty init k => .declare n x ty (optionWithoutGroups init) k
  | .array n ty items cs => .array n ty (exprsWithoutGroups items) cs
  | .lambda n params body => .lambda n params (statementsWithoutGroups body)
  | .this n => .this n
  | .null n => .null n
  | .block n body => .block n (statementsWithoutGroups body)
  | .empty n => .empty n

/-- The expressions of a list without the groups in them. -/
def exprsWithoutGroups : List Expr → List Expr
  | [] => []
  | e :: es => e.withoutGroups :: exprsWithoutGroups es

/-- An optional expression without the groups in it. -/
def optionWithoutGroups : Option Expr → Option Expr
  | none => none
  | some e => some e.withoutGroups

/-- The statement without the groups in it. -/
def Statement.withoutGroups : Statement → Statement
  | .expr e => .expr e.withoutGroups
  | .block l body => .block l (statementsWithoutGroups body)
  | .cond l x a b => .cond l x.withoutGroups a.withoutGroups (alternativeWithoutGroups b)
  | .ret l value k => .ret l (optionWithoutGroups value) k
  | .throw l value => .throw l (optionWithoutGroups value)
  | .vars l declarations => .vars l (exprsWithoutGroups declarations)
  | .function l signature body => .function l signature (statementsWithoutGroups body)

/-- The statements of a list without the groups in them. -/
def statementsWithoutGroups : List Statement → List Statement
  | [] => []
  | st :: sts => st.withoutGroups :: statementsWithoutGroups sts

/-- An optional statement without the groups in it. -/
def alternativeWithoutGroups : Option Statement → Option Statement
  | none => none
  | some st => some st.withoutGroups

end

/-! ## Places -/

/-- What the expression carries, moved to the start of the text. -/
def Node.withoutPlace (n : Node) : Node := ⟨.start, n.ty, n.binding⟩

@[simp] theorem Node.withoutPlace_at (l : Location) : (Node.at l).withoutPlace = .at .start := rfl

/-- The type as written, moved to the start of the text. -/
def TypeExpr.withoutPlace (a : TypeExpr) : TypeExpr := ⟨a.name, a.rank, .start⟩

/-- The parameter with its type moved to the start of the text. -/
def Param.withoutPlace (p : Param) : Param := ⟨p.name, p.typeExpr.map TypeExpr.withoutPlace⟩

/-- The head of a function with its parts moved to the start of the text. -/
def Signature.withoutPlaces (s : Signature) : Signature :=
  ⟨s.name, s.params.map Param.withoutPlace, s.ret.map TypeExpr.withoutPlace, .start⟩

mutual

/-- The expression with all of its parts moved to the start of the text. -/
def Expr.withoutPlaces : Expr → Expr
  | .literal n v => .literal n.withoutPlace v
  | .name n x => .name n.withoutPlace x
  | .variableRef n x => .variableRef n.withoutPlace x
  | .constantRef n x => .constantRef n.withoutPlace x
  | .unary n op e t => .unary n.withoutPlace op e.withoutPlaces t
  | .binary n op a b t => .binary n.withoutPlace op a.withoutPlaces b.withoutPlaces t
  | .coalesce n a b => .coalesce n.withoutPlace a.withoutPlaces b.withoutPlaces
  | .ternary n x a b v =>
    .ternary n.withoutPlace x.withoutPlaces a.withoutPlaces b.withoutPlaces v
  | .assign n target v k => .assign n.withoutPlace target.withoutPlaces v.withoutPlaces k
  | .call n target args r => .call n.withoutPlace target.withoutPlaces (exprsWithoutPlaces args) r
  | .new n target args r => .new n.withoutPlace target.withoutPlaces (exprsWithoutPlaces args) r
  | .index n target args r =>
    .index n.withoutPlace target.withoutPlaces (exprsWithoutPlaces args) r
  | .member n target x => .member n.withoutPlace target.withoutPlaces x
  | .declare n x ty init k =>
    .declare n.withoutPlace x (ty.map TypeExpr.withoutPlace) (optionWithoutPlaces init) k
  | .array n ty items cs =>
    .array n.withoutPlace (ty.map TypeExpr.withoutPlace) (exprsWithoutPlaces items) cs
  | .lambda n params body =>
    .lambda n.withoutPlace (params.map Param.withoutPlace) (statementsWithoutPlaces body)
  | .this n => .this n.withoutPlace
  | .null n => .null n.withoutPlace
  | .block n body => .block n.withoutPlace (statementsWithoutPlaces body)
  | .empty n => .empty n.withoutPlace

/-- The expressions of a list, moved to the start of the text. -/
def exprsWithoutPlaces : List Expr → List Expr
  | [] => []
  | e :: es => e.withoutPlaces :: exprsWithoutPlaces es

/-- An optional expression, moved to the start of the text. -/
def optionWithoutPlaces : Option Expr → Option Expr
  | none => none
  | some e => some e.withoutPlaces

/-- The statement with all of its parts moved to the start of the text. -/
def Statement.withoutPlaces : Statement → Statement
  | .expr e => .expr e.withoutPlaces
  | .block _ body => .block .start (statementsWithoutPlaces body)
  | .cond _ x a b => .cond .start x.withoutPlaces a.withoutPlaces (alternativeWithoutPlaces b)
  | .ret _ value k => .ret .start (optionWithoutPlaces value) k
  | .throw _ value => .throw .start (optionWithoutPlaces value)
  | .vars _ declarations => .vars .start (exprsWithoutPlaces declarations)
  | .function _ signature body =>
    .function .start signature.withoutPlaces (statementsWithoutPlaces body)

/-- The statements of a list, moved to the start of the text. -/
def statementsWithoutPlaces : List Statement → List Statement
  | [] => []
  | st :: sts => st.withoutPlaces :: statementsWithoutPlaces sts

/-- An optional statement, moved to the start of the text. -/
def alternativeWithoutPlaces : Option Statement → Option Statement
  | none => none
  | some st => some st.withoutPlaces

end

/-! ## Shapes -/

/-- What is left of an expression when neither its parentheses nor its places count. -/
def Expr.shape (e : Expr) : Expr := e.withoutGroups.withoutPlaces

/-- The shapes of the expressions in a list. -/
def shapes (es : List Expr) : List Expr := exprsWithoutPlaces (exprsWithoutGroups es)

section Shapes

attribute [local simp] Expr.shape shapes Expr.withoutGroups Expr.withoutPlaces exprsWithoutGroups
  exprsWithoutPlaces

variable (n : Node)

@[simp] theorem shapes_nil : shapes [] = [] := by simp

@[simp] theorem shapes_cons (e : Expr) (es : List Expr) :
    shapes (e :: es) = e.shape :: shapes es := by simp

@[simp] theorem shape_literal (v : Literal) :
    (Expr.literal n v).shape = .literal n.withoutPlace v := by simp

@[simp] theorem shape_name (x : String) : (Expr.name n x).shape = .name n.withoutPlace x := by simp

@[simp] theorem shape_variableRef (x : String) :
    (Expr.variableRef n x).shape = .variableRef n.withoutPlace x := by simp

@[simp] theorem shape_constantRef (x : String) :
    (Expr.constantRef n x).shape = .constantRef n.withoutPlace x := by simp

@[simp] theorem shape_group (e : Expr) (t : Option OperatorTarget) :
    (Expr.unary n .group e t).shape = e.shape := by simp

theorem shape_unary {op : UnaryOp} (hop : op ≠ .group) (e : Expr) (t : Option OperatorTarget) :
    (Expr.unary n op e t).shape = .unary n.withoutPlace op e.shape t := by simp [hop]

@[simp] theorem shape_binary (op : BinaryOp) (a b : Expr) (t : Option OperatorTarget) :
    (Expr.binary n op a b t).shape = .binary n.withoutPlace op a.shape b.shape t := by simp

@[simp] theorem shape_coalesce (a b : Expr) :
    (Expr.coalesce n a b).shape = .coalesce n.withoutPlace a.shape b.shape := by simp

@[simp] theorem shape_ternary (x a b : Expr) (v : Option BranchConversion) :
    (Expr.ternary n x a b v).shape = .ternary n.withoutPlace x.shape a.shape b.shape v := by simp

@[simp] theorem shape_assign (target v : Expr) (k : Option (Option Conversion)) :
    (Expr.assign n target v k).shape = .assign n.withoutPlace target.shape v.shape k := by simp

@[simp] theorem shape_call (target : Expr) (args : List Expr) (r : Option CallTarget) :
    (Expr.call n target args r).shape = .call n.withoutPlace target.shape (shapes args) r := by simp

@[simp] theorem shape_new (target : Expr) (args : List Expr) (r : Option CallTarget) :
    (Expr.new n target args r).shape = .new n.withoutPlace target.shape (shapes args) r := by simp

@[simp] theorem shape_index (target : Expr) (args : List Expr) (r : Option CallTarget) :
    (Expr.index n target args r).shape
      = .index n.withoutPlace target.shape (shapes args) r := by simp

@[simp] theorem shape_member (target : Expr) (x : String) :
    (Expr.member n target x).shape = .member n.withoutPlace target.shape x := by simp

@[simp] theorem shape_array (ty : Option TypeExpr) (items : List Expr) (cs : Option Conversions) :
    (Expr.array n ty items cs).shape
      = .array n.withoutPlace (ty.map TypeExpr.withoutPlace) (shapes items) cs := by simp

@[simp] theorem shape_this : (Expr.this n).shape = .this n.withoutPlace := by simp

@[simp] theorem shape_null : (Expr.null n).shape = .null n.withoutPlace := by simp

@[simp] theorem shape_empty : (Expr.empty n).shape = .empty n.withoutPlace := by simp

end Shapes

end Scriptlet
