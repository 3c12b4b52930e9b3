import Scriptlet.Text.Basic
import Scriptlet.Text.Cluster.Basic
import Scriptlet.Text.Width.Basic

/-!
# Rows of cells

A row of the screen has a cell for each column. A cell holds a cluster, or several if all but one
take no column; a cluster of more than one column stands in its first cell and hides those behind
it. There are two ways to write into a row. A *line* consists of spans, each of which starts where
the widths of the spans before it say, whatever these have drawn; a *paragraph* puts one cluster
after another and leaves out those that take no column. Neither changes the number of columns.
-/

namespace Scriptlet

/-- A row of the screen: what stands in each column. -/
abbrev Cells := Array String

namespace Cells

/-- What an empty cell holds. -/
def empty : String := " "

/-- An empty row. -/
def blank (columns : Nat) : Cells := Array.replicate columns empty

/-- A row of narrow characters, one to a cell. -/
def ofText (s : String) : Cells := (s.toList.map Char.toString).toArray

/-- The clusters that are drawn for a text: a line feed that stands alone is not. -/
def clusters (s : String) : List String := (Text.clusters s).filter (· != "\n")

@[simp]
theorem size_blank (columns : Nat) : (blank columns).size = columns := by simp [blank]

/-! ## Lines -/

/-- The row with `n` cells from a column on emptied. -/
def clear (row : Cells) (column n : Nat) : Cells :=
  (List.range' column n).foldl (fun row i ↦ row.setIfInBounds i empty) row

@[simp]
theorem size_clear (row : Cells) (column n : Nat) : (row.clear column n).size = row.size := by
  rw [clear]
  generalize List.range' column n = columns
  induction columns generalizing row with
  | nil => rfl
  | cons i columns ih => rw [List.foldl_cons, ih, Array.size_setIfInBounds]

/-- A cluster of a span that starts at column `start`, put at `column`. The first one takes its
cell; others join the first cell while they are still in it, and join the cell before them if they
take no column. -/
def putCluster (row : Cells) (start column : Nat) (first : Bool) (cluster : String) : Cells :=
  if first then row.setIfInBounds column cluster
  else if column = start then row.modify column (· ++ cluster)
  else if Text.width cluster = 0 then row.modify (column - 1) (· ++ cluster)
  else row.setIfInBounds column cluster

@[simp]
theorem size_putCluster (row : Cells) (start column : Nat) (first : Bool) (cluster : String) :
    (row.putCluster start column first cluster).size = row.size := by
  rw [putCluster]
  split
  · exact Array.size_setIfInBounds
  split
  · exact Array.size_modify
  split
  · exact Array.size_modify
  · exact Array.size_setIfInBounds

/-- Clusters of a span that starts at column `start`, put at `column` and behind it, up to the first
one that does not fit. -/
def putClusters (row : Cells) (start column : Nat) (first : Bool) : List String → Cells
  | [] => row
  | g :: gs =>
    let w := Text.width g
    if row.size < column + w then row
    else
      putClusters ((row.putCluster start column first g).clear (column + 1) (w - 1)) start
        (column + w) false gs

@[simp]
theorem size_putClusters (row : Cells) (start column : Nat) (first : Bool) (gs : List String) :
    (row.putClusters start column first gs).size = row.size := by
  induction gs generalizing row column first with
  | nil => rfl
  | cons g gs ih =>
    simp only [putClusters]
    split
    · rfl
    · rw [ih, size_clear, size_putCluster]

/-- A line of spans from a column on. A span without width is not drawn, even if it has clusters. -/
def putLine (row : Cells) (column : Nat) : List String → Cells
  | [] => row
  | span :: spans =>
    let w := Text.width span
    if w = 0 then putLine row column spans
    else if row.size ≤ column then row
    else putLine (row.putClusters column column true (clusters span)) (column + w) spans

@[simp]
theorem size_putLine (row : Cells) (column : Nat) (spans : List String) :
    (row.putLine column spans).size = row.size := by
  induction spans generalizing row column with
  | nil => rfl
  | cons span spans ih =>
    simp only [putLine]
    split
    · exact ih row column
    split
    · rfl
    · rw [ih, size_putClusters]

/-! ## Paragraphs -/

/-- Clusters put one after another from a column on, up to the first one that does not fit. One that
is wider than the whole row is passed over. -/
def putParagraph (row : Cells) (column : Nat) : List String → Cells
  | [] => row
  | g :: gs =>
    let w := Text.width g
    if row.size < w then putParagraph row column gs
    else if row.size < column + w then row
    else putParagraph (if w = 0 then row else row.setIfInBounds column g) (column + w) gs

@[simp]
theorem size_putParagraph (row : Cells) (column : Nat) (gs : List String) :
    (row.putParagraph column gs).size = row.size := by
  induction gs generalizing row column with
  | nil => rfl
  | cons g gs ih =>
    simp only [putParagraph]
    split
    · exact ih row column
    split
    · rfl
    · rw [ih]
      split
      · rfl
      · exact Array.size_setIfInBounds

/-! ## What is shown -/

/-- The row that is shown when a row is drawn over another: a cell that a wide cluster hides is left
as it was. -/
def drawOver (old new : Cells) : Cells :=
  new.mapIdx fun i cell ↦
    if 0 < i && 2 ≤ Text.width (new.getD (i - 1) empty) then old.getD i empty else cell

@[simp]
theorem size_drawOver (old new : Cells) : (old.drawOver new).size = new.size := by simp [drawOver]

/-- The text of a row without blanks at its end. -/
def text (row : Cells) : String :=
  String.ofList ((String.join row.toList).toList.reverse.dropWhile Text.isBlank).reverse

end Cells

end Scriptlet
