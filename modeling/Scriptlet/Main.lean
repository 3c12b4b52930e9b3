import Scriptlet.Batch

/-!
# The command

`scriptlet FILE` or `scriptlet -e TEXT` runs a script; `--bind` prints its code instead, and
`--tree` prints its statements first.
-/

namespace Scriptlet.Command

/-- Where the script comes from. -/
inductive Source where
  | file (path : String)
  | text (text : String)

/-- A command line that was understood. -/
structure Request where
  source : Source
  options : BatchOptions

/-- How the command is used. -/
def usage : String := "Usage: scriptlet [--bind] [--tree] (FILE | -e TEXT)"

/-- Reads the arguments after those that gave the source and the options so far. There has to be
exactly one source. -/
def parse (source : Option Source) (o : BatchOptions) : List String → Option Request
  | [] => source.map fun s ↦ ⟨s, o⟩
  | "--bind" :: args => parse source { o with bind := true } args
  | "--tree" :: args => parse source { o with tree := true } args
  | "-e" :: text :: args | "--eval" :: text :: args =>
    if source.isNone then parse (some (.text text)) o args else none
  | arg :: args =>
    if source.isSome then none
    else if arg.startsWith "--eval=" then parse (some (.text (arg.drop 7).toString)) o args
    else if arg.startsWith "-" then none
    else parse (some (.file arg)) o args

/-- Why a file could not be read. -/
def reason : IO.Error → String
  | .noFileOrDirectory _ code details => s!"{details} (os error {code})"
  | .inappropriateType _ code details => s!"{details} (os error {code})"
  | .invalidArgument _ code details => s!"{details} (os error {code})"
  | .permissionDenied _ code details => s!"{details} (os error {code})"
  | e => toString e

/-- Carries out a request. -/
def report (r : Request) : IO Report := do
  match r.source with
  | .text text => return batch r.options text
  | .file path =>
    try return batch r.options (← IO.FS.readFile path)
    catch e => return .unreadable path (reason e)

end Scriptlet.Command

open Scriptlet in
/-- Runs the command. -/
def main (args : List String) : IO UInt32 := do
  match Command.parse none ⟨false, false⟩ args with
  | none =>
    IO.eprintln Command.usage
    return 2
  | some request =>
    let r ← Command.report request
    IO.print r.stdout
    IO.eprint r.stderr
    return r.code
