import Scriptlet.Parse.Statement
import Scriptlet.Token.Scan

/-!
# Parsing texts

Three entries read a whole text, its first statement, or a single expression that fills it. A
`Reader` reads one statement after another and can go on behind an error: it stands at the token
that was refused.
-/

namespace Scriptlet

/-- The tokens of a text that are left to read, and the place of its end. -/
structure Reader where
  tokens : List Token
  fin : Location
deriving DecidableEq

namespace Reader

/-- A reader at the start of a text. -/
def ofText (source : String) : Reader :=
  let read := (Cursor.ofText source).tokens
  ⟨read.1, read.2⟩

/-- A whole expression at the reader. -/
def expr (r : Reader) : Reply Expr r.tokens :=
  (Parse.parsers r.fin (r.tokens.length + 1)).expr r.tokens (Nat.lt_succ_self _)

/-- A statement at the reader, which may not be behind semicolons. -/
def statementHere (r : Reader) : Reply Statement r.tokens :=
  (Parse.parsers r.fin (r.tokens.length + 1)).statement r.tokens (Nat.lt_succ_self _)

/-- The reader behind any semicolons. -/
def skipTerminators (r : Reader) : Reader := ⟨Parse.skipTerminators r.tokens, r.fin⟩

/-- The next statement, and the reader behind it or at the token that was refused. -/
def next (r : Reader) : Except ParseError Statement × Reader :=
  match r.skipTerminators.statementHere with
  | .ok s rest _ => (.ok s, ⟨rest, r.fin⟩)
  | .fail e rest => (.error e, ⟨rest, r.fin⟩)

/-- The statements from the reader to the end of the text. -/
def program (r : Reader) : Except ParseError Program :=
  match r.skipTerminators.tokens with
  | [] => .ok []
  | _ :: _ =>
    match r.skipTerminators.statementHere with
    | .fail e _ => .error e
    | .ok s rest h =>
      have : rest.length < r.tokens.length :=
        Nat.lt_of_lt_of_le h (Parse.length_skipTerminators r.tokens)
      match program ⟨rest, r.fin⟩ with
      | .ok more => .ok (s :: more)
      | .error e => .error e
termination_by r.tokens.length

end Reader

/-- The program that a text is. -/
def parseProgram (source : String) : Except ParseError Program := (Reader.ofText source).program

/-- The first statement of a text. -/
def parseStatement (source : String) : Except ParseError Statement :=
  (Reader.ofText source).next.1

/-- The expression that a text is; a semicolon may stand behind it. -/
def parseExpression (source : String) : Except ParseError Expr :=
  let r := Reader.ofText source
  match r.expr with
  | .fail e _ => .error e
  | .ok e rest _ =>
    let rest := match rest with
      | ⟨.symbol .semicolon, _⟩ :: rest => rest
      | rest => rest
    if rest.isEmpty then .ok e else .error (Parse.unexpected r.fin .endOfInput rest)

end Scriptlet
