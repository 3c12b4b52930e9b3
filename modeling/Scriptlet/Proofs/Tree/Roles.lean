import Scriptlet.Tree.Basic

/-!
# The expressions in a tree, with their roles

Most expressions in a tree stand where a value is wanted. Those that do not are a name or an access
in front of a call's arguments, together with the parentheses around it, and the name of a type
behind `new`. The list of all expressions in a tree says for each of them which it is.
-/

namespace Scriptlet

/-- What an expression stands for: a value, the function that is called, the type that is made, or
an inner name of such a type. -/
inductive Role where
  | value | called | typeName | innerName
deriving DecidableEq

/-- The role of the expression in front of a member's name, given that of the access. -/
def Role.owner : Role → Role
  | .value | .called => .value
  | .typeName | .innerName => .innerName

mutual

/-- The expression and all expressions in it, each with its role. -/
def Expr.roles (p : Role) : Expr → List (Role × Expr)
  | .literal n v => [(.value, .literal n v)]
  | .name n x => [(p, .name n x)]
  | .variableRef n x => [(.value, .variableRef n x)]
  | .constantRef n x => [(.value, .constantRef n x)]
  | .unary n op e t =>
    if op = .group then (p, .unary n op e t) :: e.roles p
    else (.value, .unary n op e t) :: e.roles .value
  | .binary n op a b t => (.value, .binary n op a b t) :: (a.roles .value ++ b.roles .value)
  | .coalesce n a b => (.value, .coalesce n a b) :: (a.roles .value ++ b.roles .value)
  | .ternary n x a b v =>
    (.value, .ternary n x a b v) :: (x.roles .value ++ a.roles .value ++ b.roles .value)
  | .assign n target v k =>
    (.value, .assign n target v k) :: (target.roles .value ++ v.roles .value)
  | .call n target args t =>
    (.value, .call n target args t) :: (target.roles .called ++ exprsRoles args)
  | .new n target args t =>
    (.value, .new n target args t) :: (target.roles .typeName ++ exprsRoles args)
  | .index n target args t =>
    (.value, .index n target args t) :: (target.roles .value ++ exprsRoles args)
  | .member n target x => (p, .member n target x) :: target.roles p.owner
  | .declare n x ty init k => (.value, .declare n x ty init k) :: optionRoles init
  | .array n ty items cs => (.value, .array n ty items cs) :: exprsRoles items
  | .lambda n params body => (.value, .lambda n params body) :: statementsRoles body
  | .this n => [(.value, .this n)]
  | .null n => [(.value, .null n)]
  | .block n body => (.value, .block n body) :: statementsRoles body
  | .empty n => [(.value, .empty n)]

/-- All expressions in the members of a list. -/
def exprsRoles : List Expr → List (Role × Expr)
  | [] => []
  | e :: es => e.roles .value ++ exprsRoles es

/-- All expressions in one that may be missing. -/
def optionRoles : Option Expr → List (Role × Expr)
  | none => []
  | some e => e.roles .value

/-- All expressions in a statement. -/
def Statement.roles : Statement → List (Role × Expr)
  | .expr e => e.roles .value
  | .block _ body => statementsRoles body
  | .cond _ x a b => x.roles .value ++ a.roles ++ alternativeRoles b
  | .ret _ value _ => optionRoles value
  | .throw _ value => optionRoles value
  | .vars _ declarations => exprsRoles declarations
  | .function _ _ body => statementsRoles body

/-- All expressions in the statements of a list. -/
def statementsRoles : List Statement → List (Role × Expr)
  | [] => []
  | st :: sts => st.roles ++ statementsRoles sts

/-- All expressions in a statement that may be missing. -/
def alternativeRoles : Option Statement → List (Role × Expr)
  | none => []
  | some st => st.roles

end

attribute [simp] Expr.roles Statement.roles

variable {q : Role × Expr}

@[simp] theorem mem_exprsRoles {es : List Expr} :
    q ∈ exprsRoles es ↔ ∃ e ∈ es, q ∈ e.roles .value := by
  induction es with
  | nil => simp [exprsRoles]
  | cons e es ih => simp [exprsRoles, ih]

@[simp] theorem mem_optionRoles {o : Option Expr} :
    q ∈ optionRoles o ↔ ∃ e ∈ o, q ∈ e.roles .value := by
  cases o <;> simp [optionRoles]

@[simp] theorem mem_statementsRoles {sts : List Statement} :
    q ∈ statementsRoles sts ↔ ∃ st ∈ sts, q ∈ st.roles := by
  induction sts with
  | nil => simp [statementsRoles]
  | cons st sts ih => simp [statementsRoles, ih]

@[simp] theorem mem_alternativeRoles {o : Option Statement} :
    q ∈ alternativeRoles o ↔ ∃ st ∈ o, q ∈ st.roles := by
  cases o <;> simp [alternativeRoles]

end Scriptlet
