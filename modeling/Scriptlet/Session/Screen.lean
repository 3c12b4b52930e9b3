import Scriptlet.Session.Basic
import Scriptlet.Session.Cells
import Scriptlet.Text.Case

/-!
# The screen of a session

The history stands on the left, the environment over the tree on the right, the input line and the
status bar below. A pane has a border and shows as many of its items as fit, from its offset on. An
item consists of lines and a line of spans, which are drawn one by one.
-/

namespace Scriptlet

/-- The spans of a line. -/
abbrev SpanLine := List String

/-- What a pane shows one below another: an item has the lines it consists of. -/
abbrev PaneItem := List SpanLine

namespace Screen

/-! ## Measures -/

/-- The number of columns. -/
def columns : Nat := 160

/-- The columns of the left pane. -/
def leftColumns : Nat := columns * 55 / 100

/-- The columns of the panes on the right. -/
def rightColumns : Nat := columns - leftColumns

/-- The rows of the history. -/
def historyRows (height : Nat) : Nat := height - 4

/-- The rows of the environment. -/
def environmentRows (height : Nat) : Nat := historyRows height * 2 / 5

/-- The rows of the tree. -/
def treeRows (height : Nat) : Nat := historyRows height - environmentRows height

/-- The number of items that a pane counts as visible. -/
def visibleItems (rows : Nat) : Nat := max (rows - 2) 1

/-- An offset at which the last page is full. -/
def clampOffset (offset items visible : Nat) : Nat := min offset (items - visible)

/-! ## Items -/

/-- The lines of a text, given the characters of the line at hand in reverse. A line ends before a
line feed, or before a carriage return and a line feed; the end of the text ends a line only if
there is something in it. -/
def linesFrom (line : List Char) : List Char → List String
  | [] => if line.isEmpty then [] else [String.ofList line.reverse]
  | '\r' :: '\n' :: cs => String.ofList line.reverse :: linesFrom [] cs
  | '\n' :: cs => String.ofList line.reverse :: linesFrom [] cs
  | c :: cs => linesFrom (c :: line) cs

/-- An item for a text of any number of lines; an empty text has one line. -/
def textItem (s : String) : PaneItem :=
  (if s.isEmpty then [""] else linesFrom [] s.toList).map fun line ↦ [line]

/-- The result of an input. -/
def outcomeLine : Outcome → SpanLine
  | .value text => ["= ", text]
  | .type text => [": ", text]
  | .error text => [text]

/-- The items of an entry of the history. -/
def entryItems (e : HistoryEntry) : List PaneItem :=
  [[e.mode.prompt, e.input]] :: e.output.map textItem ++ [[outcomeLine e.outcome]]

/-- The items of the history. -/
def historyItems (s : Session) : List PaneItem := s.history.flatMap entryItems

/-- A value as the environment shows it: texts and characters in quotes. -/
def quoted : Value → String
  | .str s => "\x60" ++ s ++ "\x60"
  | .char c => "'" ++ c.toString ++ "'"
  | v => v.text

/-- A heading with items below it, left out if there are none. -/
def titled (title : String) (items : List SpanLine) : List PaneItem :=
  if items.isEmpty then [] else [[title]] :: items.map fun i ↦ [i]

/-- A name with its value. -/
def bindingLine (name : String) (v : Value) : SpanLine := ["  " ++ name, " = ", quoted v]

/-- A part of a function, with where it comes from. -/
def partLine (name : String) (p : Part) : SpanLine :=
  ["  " ++ name, "/" ++ p.text ++ (if p.body.isNative then " native" else " script")]

/-- The items of the environment: what the global frame holds, sorted by name. -/
def environmentItems (s : Session) : List PaneItem :=
  let g := s.env.global
  titled "Variables" (g.vars.sorted.map fun v ↦ bindingLine v.1 v.2)
    ++ titled "Constants" (g.constants.sorted.map fun v ↦ bindingLine ("_" ++ v.1) v.2)
    ++ titled "Functions" (g.functions.sorted.flatMap fun f ↦ f.2.map (partLine f.1))

/-- The items of the tree, with the code of the program below. -/
def treeItems (s : Session) : List PaneItem :=
  s.tree.map (fun r ↦ [r.spans])
    ++ if s.instructions.isEmpty then [] else [["-- emitted --"]] :: s.instructions.map textItem

/-! ## Offsets -/

/-- The session with the offsets that a screen of the given height leaves. The history keeps its
offset while it is empty. -/
def settle (height : Nat) (s : Session) : Session :=
  { s with scroll :=
    { history :=
        if s.history.isEmpty then s.scroll.history
        else clampOffset s.scroll.history (historyItems s).length
          (visibleItems (historyRows height))
      environment := clampOffset s.scroll.environment (environmentItems s).length
        (visibleItems (environmentRows height))
      tree := clampOffset s.scroll.tree (treeItems s).length
        (visibleItems (treeRows height)) } }

/-! ## Panes -/

/-- A border of a pane: a corner, a title, a rule up to the last column, and a corner. -/
def border (width : Nat) (left title right : String) : Cells :=
  #[left] ++ Cells.ofText title ++ Array.replicate (width - 2 - title.length) "─" ++ #[right]

/-- A row between the borders at both sides. -/
def between (inside : Cells) : Cells := #["│"] ++ inside ++ #["│"]

/-- A pane with a border, a title in it, and the given rows inside. -/
def pane (width height : Nat) (title : String) (inside : List Cells) : List Cells :=
  let top := border width "┌" title "┐"
  let bottom := border width "└" "" "┘"
  let shown := inside ++ List.replicate (height - 2 - inside.length) (Cells.blank (width - 2))
  match height with
  | 0 => []
  | 1 => [top]
  | _ => top :: shown.map between ++ [bottom]

/-- The lines of the items that fit as a whole. -/
def itemLines (height : Nat) : List PaneItem → List SpanLine
  | [] => []
  | item :: items =>
    if item.length ≤ height then item ++ itemLines (height - item.length) items else []

/-- A line of an item, with one empty column in front of it. -/
def itemRow (width : Nat) (line : SpanLine) : Cells :=
  #[Cells.empty] ++ (Cells.blank (width - 1)).putLine 0 line

/-- A pane with items from an offset on. -/
def itemPane (width height : Nat) (title : String) (offset : Nat) (items : List PaneItem) :
    List Cells :=
  pane width height title
    ((itemLines (height - 2) ((items.drop offset).take (visibleItems height))).map
      (itemRow (width - 2)))

/-- A paragraph of one line of spans, over the given number of columns. -/
def paragraph (width : Nat) (line : SpanLine) : Cells :=
  (Cells.blank width).putParagraph 0 (line.flatMap Cells.clusters)

/-- The pane of the history. -/
def historyPane (height : Nat) (s : Session) : List Cells :=
  if s.history.isEmpty then
    pane leftColumns (historyRows height) " History "
      ([paragraph (leftColumns - 2) ["(type a script and press Enter)"]].take
        (historyRows height - 2))
  else
    itemPane leftColumns (historyRows height) " History " s.scroll.history (historyItems s)

/-- The characters of the input line that are scrolled out on the left. -/
def hiddenInput (s : Session) : Nat :=
  s.mode.prompt.length + s.line.cursor + 1 - (columns - 2)

/-- The pane of the input line. -/
def inputPane (s : Session) : List Cells :=
  pane columns 3 s!" Input [{s.mode.label}] "
    [paragraph (columns - 2)
      [s.mode.prompt, String.ofList (s.line.chars.drop (hiddenInput s))]]

/-- The keys that the status bar names. -/
def hints : List (String × String) :=
  [("Enter", "run"), ("Tab", "mode"), ("Up/Down", "recall"), ("PgUp/PgDn", "scroll"),
   ("Esc", "quit")]

/-- The status bar: mode and message on the left, the keys on the right. -/
def statusBar (s : Session) : Cells :=
  let keys := " ".intercalate (hints.map fun h ↦ s!" {h.1}  {h.2} ")
  let messageColumns := columns * 45 / 100
  paragraph messageColumns [s!" {Text.toUpper s.mode.label} ", " " ++ s.status]
    ++ Cells.blank (columns - messageColumns - keys.length) ++ Cells.ofText keys

/-- The rows of the whole screen. -/
def paint (height : Nat) (s : Session) : List Cells :=
  let right := itemPane rightColumns (environmentRows height) " Environment "
      s.scroll.environment (environmentItems s)
    ++ itemPane rightColumns (treeRows height) " Tree " s.scroll.tree (treeItems s)
  (historyPane height s).zipWith (· ++ ·) right ++ inputPane s ++ [statusBar s]

/-- The place of the cursor, in columns and rows from the upper left corner. -/
def cursor (height : Nat) (s : Session) : Nat × Nat :=
  (min (1 + (s.mode.prompt.length + s.line.cursor - hiddenInput s)) (columns - 2), height - 3)

end Screen

end Scriptlet
