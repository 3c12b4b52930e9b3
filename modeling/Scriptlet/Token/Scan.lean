import Scriptlet.Token.Basic
import Scriptlet.Text.Numeral

/-!
# From text to tokens

A cursor is the text that is left and its place. Reading decides, from the characters at the cursor,
how many belong to the next gap or the next token; the cursor then moves over exactly these
characters. A token takes at least one character, so reading a whole text ends, and no text is
refused: what fits nothing is a bad token.
-/

namespace Scriptlet

/-- A position in a text: what is left of it, and the place of the first character left. -/
structure Cursor where
  rest : List Char
  location : Location
deriving DecidableEq

/-! ## Gaps -/

/-- The characters that separate tokens. -/
def isGapChar (c : Char) : Bool := c == ' ' || c == '\t' || c == '\r' || c == '\n'

/-- How many characters of a text lie before its first token: blanks, and comments from two slashes
to the end of the line. The flag says whether the text begins inside a comment. -/
def gapLength : Bool → List Char → Nat
  | _, [] => 0
  | true, c :: cs => gapLength (c != '\n') cs + 1
  | false, '/' :: '/' :: cs => gapLength true cs + 2
  | false, c :: cs => if isGapChar c then gapLength false cs + 1 else 0

/-! ## Numbers -/

/-- A digit of base eight. -/
def isOctDigit (c : Char) : Bool := decide ('0' ≤ c) && decide (c ≤ '7')

/-- A digit of base sixteen. -/
def isHexDigit (c : Char) : Bool :=
  c.isDigit || (decide ('a' ≤ c) && decide (c ≤ 'f')) || (decide ('A' ≤ c) && decide (c ≤ 'F'))

/-- A literal in a base other than ten; one without digits or beyond the whole numbers is not a
number. -/
def radixNumber (base : Nat) (digits : List Char) : Number :=
  match Whole.ofDigits? base digits with
  | some n => .int n
  | none => .double (.nan false)

/-- The fraction at the front of a text: a point and at least one digit. A point that no digit
follows is not part of the number. -/
def fractionPart : List Char → List Char
  | '.' :: d :: cs => if d.isDigit then '.' :: d :: cs.takeWhile Char.isDigit else []
  | _ => []

/-- The exponent at the front of a text: a mark, an optional sign and any digits, perhaps none. -/
def exponentPart : List Char → List Char
  | c :: cs =>
    if c == 'e' || c == 'E' then
      match cs with
      | '+' :: ds => c :: '+' :: ds.takeWhile Char.isDigit
      | '-' :: ds => c :: '-' :: ds.takeWhile Char.isDigit
      | ds => c :: ds.takeWhile Char.isDigit
    else []
  | [] => []

/-- The value of a decimal literal: a whole number if it has neither fraction nor exponent and
fits, else the nearest double, and not a number if the exponent has no digits. -/
def decimalNumber (whole fraction exponent : List Char) : Number :=
  let double : Double := (Binary.ofText? (whole ++ fraction ++ exponent)).getD (.nan false)
  if fraction.isEmpty && exponent.isEmpty then
    match Whole.ofDigits? 10 whole with
    | some n => .int n
    | none => .double double
  else .double double

/-- A decimal literal at the front of a text, and its length. -/
def readDecimal (cs : List Char) : Number × Nat :=
  let whole := cs.takeWhile Char.isDigit
  let rest := cs.dropWhile Char.isDigit
  let fraction := fractionPart rest
  let exponent := exponentPart (rest.drop fraction.length)
  (decimalNumber whole fraction exponent,
    whole.length + fraction.length + exponent.length)

/-- A number literal, given its first digit and the text behind it, and how much of that text
belongs to it. A leading zero before `x` marks base sixteen, before an octal digit base eight. -/
def readNumber (c : Char) (cs : List Char) : Number × Nat :=
  let decimal := ((readDecimal (c :: cs)).1, (readDecimal (c :: cs)).2 - 1)
  if c == '0' then
    match cs with
    | x :: ds =>
      if x == 'x' || x == 'X' then
        (radixNumber 16 (ds.takeWhile isHexDigit), (ds.takeWhile isHexDigit).length + 1)
      else if isOctDigit x then
        (radixNumber 8 (cs.takeWhile isOctDigit), (cs.takeWhile isOctDigit).length)
      else decimal
    | [] => decimal
  else decimal

/-! ## Symbols, words and strings -/

/-- The symbols that a character can begin: those that another character completes, in order, and
then the one that it is alone, if there is one. -/
def symbolsOf : Char → List (Char × Symbol) × Option Symbol
  | '@' => ([], some .at)
  | '(' => ([], some .openParen)
  | ')' => ([], some .closeParen)
  | '\x7b' => ([], some .openBrace)
  | '\x7d' => ([], some .closeBrace)
  | '[' => ([], some .openBracket)
  | ']' => ([], some .closeBracket)
  | ',' => ([], some .comma)
  | ';' => ([], some .semicolon)
  | '.' => ([], some .dot)
  | '*' => ([], some .star)
  | '/' => ([], some .slash)
  | '%' => ([], some .percent)
  | '^' => ([], some .caret)
  | ':' => ([(':', .colonColon)], some .colon)
  | '?' => ([('?', .questionQuestion)], some .question)
  | '&' => ([('&', .ampAmp)], some .amp)
  | '|' => ([('|', .pipePipe)], some .pipe)
  | '!' => ([('=', .notEq)], some .bang)
  | '+' => ([('+', .plusPlus)], some .plus)
  | '-' => ([('-', .minusMinus), ('>', .arrow)], some .minus)
  | '=' => ([('=', .eqEq), ('>', .fatArrow)], some .eq)
  | '<' => ([('=', .le), ('<', .ltLt)], some .lt)
  | '>' => ([('=', .ge), ('>', .gtGt)], some .gt)
  | _ => ([], none)

/-- A symbol at the front of a text, the longer one if two fit. An underscore is a symbol only
before a letter. -/
def readSymbol (c : Char) (cs : List Char) : TokenKind × Nat :=
  if c == '_' then
    if cs.head?.any Text.isLetter then (.symbol .underscore, 0) else (.bad c, 0)
  else
    match cs.head?.bind (fun d ↦ (symbolsOf c).1.lookup d), (symbolsOf c).2 with
    | some s, _ => (.symbol s, 1)
    | none, some s => (.symbol s, 0)
    | none, none => (.bad c, 0)

/-- The body of a string, behind its opening backtick: everything up to the next backtick, or a bad
token that takes the whole rest of the text. -/
def readString (cs : List Char) : TokenKind × Nat :=
  let body := cs.takeWhile (· != '\x60')
  match cs.dropWhile (· != '\x60') with
  | [] => (.bad '\x60', body.length)
  | _ :: _ => (.str (String.ofList body), body.length + 1)

/-- The token that a character and the text behind it begin, and how much of that text belongs to
it. -/
def readToken (c : Char) (cs : List Char) : TokenKind × Nat :=
  if c.isDigit then
    (.number (readNumber c cs).1, (readNumber c cs).2)
  else if Text.isLetter c then
    let tail := cs.takeWhile Text.isWordChar
    (.word (String.ofList (c :: tail)), tail.length)
  else if c == '\x60' then readString cs
  else readSymbol c cs

/-! ## The cursor -/

namespace Cursor

/-- The start of a text. -/
def ofText (source : String) : Cursor := ⟨source.toList, .start⟩

/-- The character at the cursor. -/
def current (c : Cursor) : Option Char := c.rest.head?

/-- The character behind the one at the cursor. -/
def peek (c : Cursor) : Option Char := c.rest.tail.head?

/-- The cursor moved over `n` characters. -/
def advance (c : Cursor) (n : Nat) : Cursor :=
  ⟨c.rest.drop n, (c.rest.take n).foldl Location.after c.location⟩

/-- The cursor moved over the gap before the next token. -/
def skipGap (c : Cursor) : Cursor := c.advance (gapLength false c.rest)

/-- The next token and the cursor behind it, unless the text has ended. -/
def next? (c : Cursor) : Option (Token × Cursor) :=
  let s := c.skipGap
  match s.rest with
  | [] => none
  | ch :: cs =>
    let read := readToken ch cs
    some (⟨read.1, s.location⟩, s.advance (read.2 + 1))

/-- The next token and the cursor behind it; at the end of the text the token says so, as often as
it is asked for. -/
def next (c : Cursor) : Token × Cursor :=
  c.next?.getD (⟨.eof, c.skipGap.location⟩, c.skipGap)

theorem length_advance (c : Cursor) (n : Nat) : (c.advance n).rest.length = c.rest.length - n := by
  simp [advance]

/-- Reading a token uses up text. -/
theorem length_of_next? {c c' : Cursor} {t : Token} (h : c.next? = some (t, c')) :
    c'.rest.length < c.rest.length := by
  have hs : c.skipGap.rest.length ≤ c.rest.length := by
    rw [skipGap, length_advance]
    omega
  simp only [next?] at h
  split at h
  · simp at h
  · rename_i ch cs hcs
    have hpos : 0 < c.skipGap.rest.length := by simp [hcs]
    simp only [Option.some.injEq, Prod.mk.injEq] at h
    rw [← h.2, length_advance]
    omega

/-- The tokens from the cursor to the end of the text, and the place of the end. -/
def tokens (c : Cursor) : List Token × Location :=
  match h : c.next? with
  | none => ([], c.skipGap.location)
  | some (t, c') =>
    have := length_of_next? h
    let more := c'.tokens
    (t :: more.1, more.2)
termination_by c.rest.length

end Cursor

/-- The tokens of a text, the mark of its end included. -/
def scan (source : String) : List Token :=
  let read := (Cursor.ofText source).tokens
  read.1 ++ [⟨.eof, read.2⟩]

end Scriptlet
