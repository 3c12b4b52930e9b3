import Scriptlet.Text.Width.Ligature
import Scriptlet.Text.Width.Picture

/-!
# Widths of texts

The number of columns that a text takes is not the sum over its characters: selectors, joiners and
skin tones make one picture of several characters, and ligatures one sign of two letters. The text
is read from its end, and each character adds to the width what its `Follow`, that is, what stands
behind it, leaves it to add. A character may take back columns, so the sum runs in the integers.
-/

namespace Scriptlet.Text

/-- What stands behind a character, as far as widths depend on it. The `joined` kinds begin with a
joiner that has a picture behind it; a keycap, regional letters or tags may stand in front of that
joiner, the tags with a count of their letters or digits. -/
inductive Follow where
  | plain | lineFeed
  | picture | skinTone
  | regional | regionals
  | joined | joinedKeycap
  | joinedRegional | joinedEven | joinedOdd
  | joinedTags | joinedTagLetters (n : Nat) | joinedTagDigits (n : Nat)
  | ligature (l : Ligature)
deriving DecidableEq

/-- What stands behind a character, and whether selectors in front of it ask for a sign of text or
for a picture. -/
structure FollowContext where
  follow : Follow
  text : Bool
  picture : Bool
deriving DecidableEq

namespace Follow

/-- The context without a selector. -/
def toContext (f : Follow) : FollowContext := ⟨f, false, false⟩

/-- The half of a ligature stands behind. -/
def isLigature : Follow → Bool
  | ligature _ => true
  | _ => false

/-- A joiner stands behind, perhaps with a keycap in front. -/
def isJoined : Follow → Bool
  | joined => true
  | joinedKeycap => true
  | _ => false

end Follow

namespace FollowContext

/-- A selector for pictures in front of the context. Only halves of ligatures and joined pictures
are still seen across it. -/
def selectPicture (k : FollowContext) : FollowContext :=
  if k.follow.isLigature || k.follow.isJoined then { k with picture := true }
  else ⟨.plain, false, true⟩

/-- A selector for text in front of the context. Only halves of ligatures are still seen across
it. -/
def selectText (k : FollowContext) : FollowContext :=
  if k.follow.isLigature then { k with text := true } else ⟨.plain, true, false⟩

/-- The context after a selector for pictures that selects nothing. -/
def dropPicture (k : FollowContext) : FollowContext :=
  if !k.picture then k
  else if k.follow.isLigature then { k with picture := false }
  else Follow.plain.toContext

end FollowContext

namespace Follow

/-- The width of a character by itself, and what it is to those in front of it. -/
def ofChar (c : Char) : Nat × Follow :=
  match Ligature.ofChar? c with
  | some l => (1, .ligature l)
  | none =>
    if isRegional c then (1, .regional)
    else if isTone c then (2, .skinTone)
    else if isPicture c then (2, .picture)
    else (charWidth c, .plain)

/-- A joiner in front of these makes one picture with what stands before it. -/
def isJoinable : Follow → Bool
  | picture => true
  | regionals => true
  | joinedEven => true
  | joinedOdd => true
  | skinTone => true
  | _ => false

/-- A tag letter. -/
def isTagLetter (c : Char) : Bool := 0xE0061 ≤ c.toNat && c.toNat ≤ 0xE007A

/-- A tag digit. -/
def isTagDigit (c : Char) : Bool := 0xE0030 ≤ c.toNat && c.toNat ≤ 0xE0039

/-- The flag that tags follow, which name a region by three to six letters or three digits. -/
def isTagged (c : Char) : Bool := c.toNat == 0x1F3F4

/-- What a character adds to the width because of a joined picture behind it, and what the two are
to those in front. -/
def extendJoined (c : Char) : Option (Int × Follow) :=
  if c.toNat == 0x20E3 then some (0, joinedKeycap)
  else if isRegional c then some (1, joinedRegional)
  else if isTone c then some (0, skinTone)
  else if c.toNat == 0xE007F then some (0, joinedTags)
  else if (ofChar c).2 = picture then some (0, picture)
  else none

/-- What a character adds to the width because of what stands behind it, and what the two are to
those in front. No answer means that the character stands by itself. -/
def extend? (f : Follow) (c : Char) : Option (Int × Follow) :=
  if c.toNat == 0x200D && f.isJoinable then some (0, joined)
  else
    match f with
    | ligature l => (l.extend? c).map fun r ↦ (r.1, r.2.elim plain ligature)
    | skinTone => if isToned c then some (0, picture) else none
    | regional => if isRegional c then some (1, regionals) else none
    | regionals => if isRegional c then some (1, regionals) else none
    | joined => extendJoined c
    | joinedRegional => if isRegional c then some (-1, joinedEven) else none
    | joinedOdd => if isRegional c then some (-1, joinedEven) else none
    | joinedEven => if isRegional c then some (3, joinedOdd) else none
    | joinedTags =>
      if isTagLetter c then some (0, joinedTagLetters 1)
      else if isTagDigit c then some (0, joinedTagDigits 1) else none
    | joinedTagLetters n =>
      if isTagLetter c && n < 6 then some (0, joinedTagLetters (n + 1))
      else if isTagDigit c && n < 5 then some (0, joinedTagDigits 1)
      else if isTagged c && 3 ≤ n then some (0, picture) else none
    | joinedTagDigits n =>
      if isTagDigit c && n < 3 then some (0, joinedTagDigits (n + 1))
      else if isTagged c && n == 3 then some (0, picture) else none
    | _ => none

end Follow

namespace FollowContext

/-- What a character up to the no-break space adds. Each has one column, but a line feed has none,
and neither has a carriage return right before it. -/
def beforeLow (c : Char) (k : FollowContext) : Int × FollowContext :=
  if c == '\n' then (0, Follow.lineFeed.toContext)
  else if c == '\r' && k.follow == .lineFeed then (0, Follow.plain.toContext)
  else (1, Follow.plain.toContext)

/-- What a character adds to the width in front of a context, and the context that the two are. -/
def before (c : Char) (k : FollowContext) : Int × FollowContext :=
  if k.picture && isSelectable c then
    (if k.follow.isJoined then 0 else 2, Follow.picture.toContext)
  else
    let k := k.dropPicture
    if c.toNat ≤ 0xA0 then beforeLow c k
    else if c.toNat == 0xFE0F then (0, k.selectPicture)
    else if c.toNat == 0xFE0E then (0, k.selectText)
    else if k.text && isNarrowable c then (1, Follow.plain.toContext)
    else
      match k.follow.extend? c with
      | some r => (r.1, r.2.toContext)
      | none =>
        let (n, f) := Follow.ofChar c
        (n, f.toContext)

end FollowContext

/-- The width of the characters, and what they are to those in front of them. -/
def widthFrom : List Char → Int × FollowContext
  | [] => (0, Follow.plain.toContext)
  | c :: cs =>
    let (n, k) := widthFrom cs
    let (d, k) := k.before c
    (n + d, k)

/-- The number of columns of a text. -/
def width (s : String) : Nat := (widthFrom s.toList).1.toNat

end Scriptlet.Text
