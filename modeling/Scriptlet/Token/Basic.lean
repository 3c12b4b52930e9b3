import Scriptlet.Location
import Scriptlet.Whole
import Scriptlet.Binary.Shortest

/-!
# Tokens

A token is a word, a number, a string, a symbol, or a character that fits nothing. Words are not
split into names and reserved words here: that is for the grammar to ask.
-/

namespace Scriptlet

/-- The value of a number literal. -/
inductive Number where
  | int (n : Int64)
  | double (x : Double)
deriving DecidableEq

/-- The value as a text. -/
def Number.text : Number → String
  | .int n => Whole.text n
  | .double x => x.text

/-- Punctuation and operators. -/
inductive Symbol where
  | at | underscore
  | openParen | closeParen | openBrace | closeBrace | openBracket | closeBracket
  | comma | semicolon | colon | colonColon | dot
  | plus | plusPlus | minus | minusMinus | arrow | fatArrow | star | slash | percent
  | eq | eqEq | bang | notEq | lt | le | ltLt | gt | ge | gtGt
  | amp | ampAmp | pipe | pipePipe | caret | question | questionQuestion
deriving DecidableEq

/-- How a symbol is written. -/
def Symbol.spelling : Symbol → String
  | .at => "@" | .underscore => "_"
  | .openParen => "(" | .closeParen => ")"
  | .openBrace => "\x7b" | .closeBrace => "\x7d"
  | .openBracket => "[" | .closeBracket => "]"
  | .comma => "," | .semicolon => ";" | .colon => ":" | .colonColon => "::" | .dot => "."
  | .plus => "+" | .plusPlus => "++" | .minus => "-" | .minusMinus => "--"
  | .arrow => "->" | .fatArrow => "=>" | .star => "*" | .slash => "/" | .percent => "%"
  | .eq => "=" | .eqEq => "==" | .bang => "!" | .notEq => "!="
  | .lt => "<" | .le => "<=" | .ltLt => "<<" | .gt => ">" | .ge => ">=" | .gtGt => ">>"
  | .amp => "&" | .ampAmp => "&&" | .pipe => "|" | .pipePipe => "||" | .caret => "^"
  | .question => "?" | .questionQuestion => "??"

/-- What a token is. A string that never ends is a bad backtick. -/
inductive TokenKind where
  | number (n : Number)
  | str (s : String)
  | word (name : String)
  | symbol (s : Symbol)
  | bad (c : Char)
  | eof
deriving DecidableEq

/-- The text by which messages name a token. -/
def TokenKind.text : TokenKind → String
  | .number n => "number " ++ n.text
  | .str s => "string `" ++ s ++ "`"
  | .word name => "identifier '" ++ name ++ "'"
  | .symbol s => "'" ++ s.spelling ++ "'"
  | .bad c => "unexpected character '" ++ c.toString ++ "'"
  | .eof => "end of input"

/-- A token and the place of its first character. -/
structure Token where
  kind : TokenKind
  location : Location
deriving DecidableEq

end Scriptlet
