import Scriptlet.Eval.Tree

/-!
# Calls and runs

A call runs the part that its name, its number of arguments and its place select. Calls nest only so
deep: each one spends one unit of a budget, and the recursion is on that budget, so every run ends.
-/

namespace Scriptlet.Eval

/-- How deep calls nest unless a run says otherwise. -/
def defaultLimit : Nat := 128

/-- Carries out the actions of a part of the host. -/
def host (invoke : String → List Value → Location → Eval Value) : HostAction → Eval Value
  | .done r => lift r
  | .print line next => do
    change fun env ↦ env.print line
    host invoke next
  | .call name args l next => fun env ↦
    let r := invoke name args l env
    host invoke (next r.1) r.2

/-- Runs the body of a part. A script's body runs in a frame of its own with the parameters
defined there; without a return its value is null. -/
def body (invoke : String → List Value → Location → Eval Value) (b : PartBody)
    (args : List Value) (l : Location) : Eval Value :=
  match b with
  | .native act => host invoke (act args l)
  | .script params stmts => inFrame .function do
    change fun env ↦ (params.zip args).foldl (fun env p ↦ env.define p.1 p.2) env
    let flow ← statements invoke .null stmts
    match flow with
    | .returning v => return v
    | .normal _ => return .null

/-- Calls a function with a budget of nested calls. The part is selected before the budget is
looked at, so a call that selects no part fails for that reason. -/
def call (limit : Nat) : (budget : Nat) → String → List Value → Location → Eval Value
  | 0, name, args, l => do
    let selected ← ask fun env ↦ env.part name args.length env.callScope l
    let _ ← lift selected
    fail (.recursionLimit limit l)
  | budget + 1, name, args, l => do
    let selected ← ask fun env ↦ env.part name args.length env.callScope l
    let part ← lift selected
    body (call limit budget) part.body args l

/-- Calls a function from the host. -/
def callFunction (limit : Nat) (name : String) (args : List Value) (l : Location) : Eval Value :=
  call limit limit name args l

/-- Runs a program in the current frame. Its value is that of the last statement, or that of a
return at the top level. -/
def program (limit : Nat) (p : Program) : Eval Value := do
  let flow ← statements (call limit limit) .null p
  return flow.value

end Scriptlet.Eval
