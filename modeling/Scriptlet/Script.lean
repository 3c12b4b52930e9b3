import Scriptlet.Bind.Tree
import Scriptlet.Code.Program
import Scriptlet.Error
import Scriptlet.Eval.Call
import Scriptlet.Parse.Program

/-!
# Whole scripts

A script is run against an environment, or it is bound against a registry and compiled. Both start
from the same tree.
-/

namespace Scriptlet

/-- Runs a program; calls nest as deep as they may by default. -/
def evaluate (p : Program) : Eval Value := Eval.program Eval.defaultLimit p

/-- Parses and runs a script. A script that cannot be parsed leaves the environment as it is. -/
def runWith (limit : Nat) (source : String) (env : Environment) :
    Except ScriptError Value × Environment :=
  match parseProgram source with
  | .error e => (.error (.parse e), env)
  | .ok p =>
    let r := Eval.program limit p env
    (r.1.mapError .eval, r.2)

/-- Parses and runs a script; calls nest as deep as they may by default. -/
def run (source : String) (env : Environment) : Except ScriptError Value × Environment :=
  runWith Eval.defaultLimit source env

/-- Binds a program from scratch. -/
def bindProgram (c : BindContext) (p : Program) : Bound Program Ty := c.program p .start

/-- All code of a bound program: its own, and that of its functions. -/
def codeOf (r : Registry) (p : Program) (functions : List ScriptFunction) : Emit :=
  Code.program r p ++ Code.functions r p 0 functions

/-- What compiling a program gives: its type, its tree with all places filled, and its code. -/
structure Compiled where
  ty : Ty
  tree : Program
  code : List Instruction

/-- Binds a program and makes its code. -/
def compile (c : BindContext) (p : Program) : Except ScriptError Compiled :=
  let b := bindProgram c p
  match b.answer with
  | .error e => .error (.bind e)
  | .ok ty =>
    let e := codeOf c.registry b.tree b.state.functions 0
    match e.failure with
    | some e => .error (.emit e)
    | none => .ok ⟨ty, b.tree, e.code⟩

end Scriptlet
