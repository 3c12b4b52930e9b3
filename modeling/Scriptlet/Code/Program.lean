import Scriptlet.Bind.State
import Scriptlet.Code.Tree

/-!
# Code of programs

The code of a program stands first, then the bodies of the functions that binding registered, each
after a mark with its number. A body is found in the program by the place of its definition.
-/

namespace Scriptlet.Code

/-- The code of a program outside of functions. The value of an expression at its end is returned,
boxed if it is not a reference. -/
def program (r : Registry) : Program → Emit
  | [] => .put .ret
  | [.expr e] =>
    if e.producesValue then
      expr r e
        ++ (match e.node.ty with
          | some ty => if ty.isReference then .nothing else .put (.box ty)
          | none => .nothing)
        ++ .put .ret
    else statement r (.expr e) ++ .put .ret
  | st :: sts => statement r st ++ program r sts

/-- The statements end with a return. -/
def endsWithReturn (body : List Statement) : Bool :=
  match body.getLast? with
  | some (.ret ..) => true
  | _ => false

/-- The code of a function's body. A return is added unless one ends the body. -/
def functionBody (r : Registry) (body : List Statement) : Emit :=
  statements r body ++ (if endsWithReturn body then .nothing else .put .ret)

mutual

/-- The functions that a statement defines, with the bodies inside their bodies; a function inside
an expression is not one of them. -/
def definitionsIn : Statement → List (Location × List Statement)
  | .function _ signature body => (signature.location, body) :: definitions body
  | .block _ body => definitions body
  | .cond _ _ a b =>
    definitionsIn a ++
      match b with
      | some b => definitionsIn b
      | none => []
  | .expr _ | .ret .. | .throw .. | .vars .. => []

/-- The functions that statements define: where each definition stands, and its body. -/
def definitions : List Statement → List (Location × List Statement)
  | [] => []
  | st :: sts => definitionsIn st ++ definitions sts

end

/-- The code of the bodies of functions, the first of which has the given number. -/
def functions (r : Registry) (p : Program) (index : Nat) : List ScriptFunction → Emit
  | [] => .nothing
  | f :: fs =>
    .require ((definitions p).find? fun d ↦ d.1 = f.location) f.location fun d ↦
      .put (.function index) ++ functionBody r d.2 ++ functions r p (index + 1) fs

end Scriptlet.Code
