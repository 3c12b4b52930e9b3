import Scriptlet.Text.Cluster.Class

/-!
# Clusters

A text is cut into clusters, each of which a reader takes for one character. Whether a character
belongs to the cluster before it depends on the characters of that cluster alone, and of these only
on what `ClusterEnd` keeps: the rules never look across the start of a cluster, because the
characters that they look back over all join what stands before them.
-/

namespace Scriptlet.Text

/-- Whether a cluster ends in a picture, perhaps with marks, or in one with a joiner behind it. -/
inductive PictureEnd where
  | none | picture | joined
deriving DecidableEq

/-- Whether a cluster ends in a letter that forms conjuncts, perhaps with marks, and whether a
linker is among these. -/
inductive ConjunctEnd where
  | none | letter | linked
deriving DecidableEq

/-- What the end of a cluster says about the character that follows: the class of its last
character, whether it ends in an odd number of regional letters, and what pictures and conjuncts are
open. -/
structure ClusterEnd where
  last : JoinClass
  oddRegional : Bool
  picture : PictureEnd
  conjunct : ConjunctEnd
deriving DecidableEq

namespace ClusterEnd

/-- The end of a cluster of one character. -/
def start (j : Joint) : ClusterEnd where
  last := j.kind
  oddRegional := j.kind == .regional
  picture := if j.pictograph then .picture else .none
  conjunct := if j.conjunctLetter then .letter else .none

/-- The open picture after one more character: marks leave it open, and a joiner joins it. -/
def nextPicture (e : ClusterEnd) (j : Joint) : PictureEnd :=
  if j.pictograph then .picture
  else
    match e.picture, j.kind with
    | .picture, .extend => .picture
    | .picture, .joiner => .joined
    | _, _ => .none

/-- The open conjunct after one more character: a linker links it, and marks and joiners leave it as
it is, but for the one that keeps letters apart. -/
def nextConjunct (e : ClusterEnd) (j : Joint) : ConjunctEnd :=
  if j.conjunctLetter then .letter
  else if j.linker then (if e.conjunct = .none then .none else .linked)
  else if j.kind == .joiner || (j.kind == .extend && !j.apart) then e.conjunct
  else .none

/-- The end after one more character. -/
def push (e : ClusterEnd) (j : Joint) : ClusterEnd where
  last := j.kind
  oddRegional := j.kind == .regional && !e.oddRegional
  picture := e.nextPicture j
  conjunct := e.nextConjunct j

/-- Parts of a syllable that follow one another join. -/
def syllableJoins : JoinClass → JoinClass → Bool
  | .leading, .leading => true
  | .leading, .vowel => true
  | .leading, .openSyllable => true
  | .leading, .closedSyllable => true
  | .openSyllable, .vowel => true
  | .openSyllable, .trailing => true
  | .vowel, .vowel => true
  | .vowel, .trailing => true
  | .closedSyllable, .trailing => true
  | .trailing, .trailing => true
  | _, _ => false

/-- Controls and line ends stand alone. -/
def standsAlone : JoinClass → Bool
  | .carriageReturn => true
  | .lineFeed => true
  | .control => true
  | _ => false

/-- The character belongs to the cluster that ends so. -/
def joins (e : ClusterEnd) (j : Joint) : Bool :=
  if e.last = .carriageReturn ∧ j.kind = .lineFeed then true
  else if standsAlone e.last || standsAlone j.kind then false
  else
    syllableJoins e.last j.kind
      || j.kind == .extend || j.kind == .joiner || j.kind == .spacing || e.last == .prepend
      || (e.conjunct == .linked && j.conjunctLetter)
      || (e.picture == .joined && j.pictograph)
      || (e.oddRegional && j.kind == .regional)

end ClusterEnd

/-- The clusters of the characters behind some of a cluster, which are given in reverse. -/
def clustersFrom (e : ClusterEnd) (cluster : List Char) : List Char → List String
  | [] => [String.ofList cluster.reverse]
  | c :: cs =>
    let j := Joint.ofChar c
    if e.joins j then clustersFrom (e.push j) (c :: cluster) cs
    else String.ofList cluster.reverse :: clustersFrom (.start j) [c] cs

theorem flatMap_clustersFrom (e : ClusterEnd) (cluster cs : List Char) :
    (clustersFrom e cluster cs).flatMap String.toList = cluster.reverse ++ cs := by
  induction cs generalizing e cluster with
  | nil => simp [clustersFrom]
  | cons c cs ih =>
    simp only [clustersFrom]
    split
    · simp [ih]
    · simp [ih]

/-- The clusters of a text, in order. -/
def clusters (s : String) : List String :=
  match s.toList with
  | [] => []
  | c :: cs => clustersFrom (.start (.ofChar c)) [c] cs

/-- Cutting a text into clusters loses nothing. -/
theorem flatMap_clusters (s : String) : (clusters s).flatMap String.toList = s.toList := by
  rw [clusters]
  split
  · next h => rw [h, List.flatMap_nil]
  · next c cs h => rw [h, flatMap_clustersFrom, List.reverse_singleton, List.singleton_append]

end Scriptlet.Text
