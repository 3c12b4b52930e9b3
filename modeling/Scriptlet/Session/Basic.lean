import Scriptlet.Eval.Builtin
import Scriptlet.Registry.Primitive
import Scriptlet.Script
import Scriptlet.Session.Line
import Scriptlet.Text.Basic
import Scriptlet.Tree.Row

/-!
# Interactive sessions

A session evaluates or binds one input after another. Evaluated inputs share an environment. An
input that is bound is bound together with all inputs that were accepted before it, because a tree
is bound only once; only its own rows are shown.
-/

namespace Scriptlet

/-- What is done with an input. -/
inductive Mode where
  | evaluate | bind
deriving DecidableEq

namespace Mode

/-- The other mode. -/
def toggle : Mode → Mode
  | evaluate => bind
  | bind => evaluate

/-- The name of the mode. -/
def label : Mode → String
  | evaluate => "evaluate"
  | bind => "bind"

/-- What stands in front of an input. -/
def prompt : Mode → String
  | evaluate => "> "
  | bind => ": "

end Mode

/-- What came of an input: a value, a type or an error, each as it is shown. -/
inductive Outcome where
  | value (text : String)
  | type (text : String)
  | error (text : String)
deriving DecidableEq

/-- The input failed. -/
def Outcome.isError : Outcome → Bool
  | .error _ => true
  | _ => false

/-- An input that was submitted, the lines that it printed, and what came of it. -/
structure HistoryEntry where
  mode : Mode
  input : String
  output : List String
  outcome : Outcome
deriving DecidableEq

/-- How far the panes are scrolled. -/
structure Scroll where
  history : Nat
  environment : Nat
  tree : Nat
deriving DecidableEq

/-- The greatest offset. A pane at this offset shows its end. -/
def Scroll.greatest : Nat := 18446744073709551615

/-- A session. `recalled` is the entry that the arrow keys have brought back, if any, and `accepted`
holds the inputs that were bound. -/
structure Session where
  env : Environment
  registry : Registry
  mode : Mode
  line : InputLine
  history : List HistoryEntry
  recalled : Option Nat
  accepted : List String
  tree : List TreeRow
  instructions : List String
  scroll : Scroll
  quit : Bool
  status : String
  failed : Bool

namespace Session

/-- A session in which nothing has happened. -/
def start (env : Environment) (registry : Registry) : Session where
  env := env
  registry := registry
  mode := .evaluate
  line := .empty
  history := []
  recalled := none
  accepted := []
  tree := []
  instructions := []
  scroll := ⟨0, 0, 0⟩
  quit := false
  status := "Ready!"
  failed := false

/-! ## Submitting an input -/

/-- Evaluates an input. The lines that it prints move from the environment to the history. -/
def evaluateInput (s : Session) (input : String) : Session × HistoryEntry :=
  let (s, outcome) : Session × Outcome :=
    match parseProgram input with
    | .error e => (s, .error (ScriptError.parse e).text)
    | .ok p =>
      let r := evaluate p s.env
      ({ s with env := r.2, tree := TreeRow.program p, instructions := [] },
        match r.1 with
        | .ok v => .value v.text
        | .error e => .error (ScriptError.eval e).text)
  ({ s with env := s.env.clearOutput }, ⟨.evaluate, input, s.env.output, outcome⟩)

/-- What an input contributes to a bound program: the number of its statements is counted apart, and
the whole program is what was accepted so far with the input at its end. -/
def boundWith (s : Session) (input : String) : Except ScriptError (Nat × Compiled) := do
  let own ← (parseProgram input).mapError .parse
  let all ← (parseProgram (";\n".intercalate (s.accepted ++ [input]))).mapError .parse
  let compiled ← compile ⟨s.registry, none⟩ all
  return (own.length, compiled)

/-- Binds an input. One that fails changes nothing. -/
def bindInput (s : Session) (input : String) : Session × HistoryEntry :=
  match s.boundWith input with
  | .error e => (s, ⟨.bind, input, [], .error e.text⟩)
  | .ok (own, c) =>
    ({ s with
        accepted := s.accepted ++ [input]
        tree := TreeRow.program (c.tree.drop (c.tree.length - own))
        instructions := c.code.map Instruction.text },
      ⟨.bind, input, [], .type c.ty.text⟩)

/-- The message after an input. -/
def statusOf (s : Session) : Outcome → String
  | .error _ => "Failed"
  | .value _ => "Evaluated"
  | .type _ => s!"Bound, {s.instructions.length} instruction(s)"

/-- An entry added to the history, which is then shown from its end. -/
def record (s : Session) (entry : HistoryEntry) : Session :=
  { s with
    history := s.history ++ [entry]
    failed := entry.outcome.isError
    status := s.statusOf entry.outcome
    scroll := { s.scroll with history := Scroll.greatest } }

/-- Takes the line, without the blanks around it, as an input. A blank line does nothing but go
away. -/
def submit (s : Session) : Session :=
  let input := Text.trim s.line.chars
  let s := { s with line := .empty, recalled := none }
  if input.isEmpty then s
  else
    let (s, entry) :=
      match s.mode with
      | .evaluate => s.evaluateInput (String.ofList input)
      | .bind => s.bindInput (String.ofList input)
    s.record entry

/-! ## Recalling inputs -/

/-- The line replaced by an input of the history. -/
def showEntry (s : Session) (index : Nat) : Session :=
  match s.history[index]? with
  | some entry => { s with recalled := some index, line := .ofText entry.input }
  | none => s

/-- Goes one input back; at the first one it stays. -/
def recallPrevious (s : Session) : Session :=
  match s.recalled with
  | none => s.showEntry (s.history.length - 1)
  | some i => s.showEntry (i - 1)

/-- Goes one input forward, and behind the last one to an empty line. -/
def recallNext (s : Session) : Session :=
  match s.recalled with
  | none => s
  | some i =>
    if i + 1 < s.history.length then s.showEntry (i + 1)
    else { s with recalled := none, line := .empty }

end Session

end Scriptlet
