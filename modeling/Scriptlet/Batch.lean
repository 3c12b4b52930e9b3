import Scriptlet.Eval.Builtin
import Scriptlet.Files
import Scriptlet.Registry.Primitive
import Scriptlet.Script
import Scriptlet.Tree.Text

/-!
# Scripts on the command line

A script is run once, and what it leaves is a report: the text for each of the two outputs and the
exit code.
-/

namespace Scriptlet

/-- What is done with a script: its tree is printed first or not, and it is bound or else run. -/
structure BatchOptions where
  bind : Bool
  tree : Bool
deriving DecidableEq

/-- The text of the standard output, that of the error output, and the exit code. -/
structure Report where
  stdout : String
  stderr : String
  code : UInt32
deriving DecidableEq

namespace Report

/-- Lines, each with its end. -/
def block (lines : List String) : String := String.join (lines.map (· ++ "\n"))

/-- Some lines were printed and nothing failed. -/
def success (lines : List String) : Report := ⟨block lines, "", 0⟩

/-- Some lines were printed before a failure. -/
def failure (lines : List String) (message : String) : Report := ⟨block lines, message ++ "\n", 1⟩

/-- A script that cannot be read. -/
def unreadable (path reason : String) : Report :=
  failure [] s!"Error: cannot read '{path}': {reason}"

end Report

/-- The lines that a run leaves: those that it printed, and its value unless that is null. A run
that fails leaves none. -/
def runLines (p : Program) : Except ScriptError (List String) :=
  let r := evaluate p .withBuiltins
  match r.1 with
  | .error e => .error (.eval e)
  | .ok v => .ok (r.2.output ++ if v.isNull then [] else [v.text])

/-- The lines that binding leaves: the code. -/
def codeLines (p : Program) : Except ScriptError (List String) :=
  (compile ⟨.primitive, none⟩ p).map fun c ↦ c.code.map Instruction.text

/-- Runs or binds a script. -/
def batch (o : BatchOptions) (source : String) : Report :=
  match parseProgram source with
  | .error e => .failure [] (ScriptError.parse e).text
  | .ok p =>
    let tree := if o.tree then p.map Statement.text else []
    match if o.bind then codeLines p else runLines p with
    | .ok lines => .success (tree ++ lines)
    | .error e => .failure tree e.text

/-- Runs or binds the script in a file. -/
def batchFile (o : BatchOptions) (files : FileTree) (path : String) : Report :=
  match files.read path with
  | .ok source => batch o source
  | .error e => .unreadable path e.text

end Scriptlet
