import Scriptlet.Text.Width.Single

/-!
# Ligatures

In some scripts two letters that stand side by side are written as one sign. A text is measured
from its end, so a ligature is known by its second half first, and `Ligature` is what has been seen
of it.
-/

namespace Scriptlet.Text

/-! ## Letters -/

/-- An Arabic lam. -/
def isLam (c : Char) : Bool :=
  inRanges [(0x644, 0x644), (0x6B5, 0x6B8), (0x76A, 0x76A), (0x8A6, 0x8A6), (0x8C7, 0x8C7)] c.toNat

/-- An Arabic alef. -/
def isAlef (c : Char) : Bool :=
  inRanges [(0x622, 0x623), (0x625, 0x625), (0x627, 0x627), (0x671, 0x673), (0x675, 0x675),
    (0x773, 0x774), (0x870, 0x882)] c.toNat

/-- A Khmer letter that may stand below another. -/
def isCoengLetter (c : Char) : Bool :=
  inRanges [(0x1780, 0x1782), (0x1784, 0x1787), (0x1789, 0x178C), (0x178E, 0x1793),
    (0x1795, 0x1798), (0x179B, 0x179D), (0x17A0, 0x17A0), (0x17A2, 0x17A2), (0x17A7, 0x17A7),
    (0x17AB, 0x17AC), (0x17AF, 0x17AF)] c.toNat

/-- A Tifinagh consonant. -/
def isTifinagh (c : Char) : Bool := inRanges [(0x2D31, 0x2D65), (0x2D6F, 0x2D6F)] c.toNat

/-- A character that two halves of a ligature may have between them. -/
def isBridge (c : Char) : Bool :=
  inRanges [(0x34F, 0x34F), (0x17B4, 0x17B5), (0x180B, 0x180D), (0x180F, 0x180F), (0x200D, 0x200D),
    (0xFE00, 0xFE0F), (0xE0100, 0xE01EF)] c.toNat

/-- The ranges of the characters that take no column and yet keep Arabic letters apart, ascending
and apart. -/
def separatingRanges : RangeTable :=
  #[(0x605, 0x605), (0x890, 0x891), (0x8E2, 0x8E2), (0x9BE, 0x9BE), (0x9D7, 0x9D7), (0xB3E, 0xB3E),
   (0xB57, 0xB57), (0xBBE, 0xBBE), (0xBD7, 0xBD7), (0xCC0, 0xCC0), (0xCC2, 0xCC2), (0xCC7, 0xCC8),
   (0xCCA, 0xCCB), (0xCD5, 0xCD6), (0xD3E, 0xD3E), (0xD4E, 0xD4E), (0xD57, 0xD57), (0xDCF, 0xDCF),
   (0xDDF, 0xDDF), (0x1160, 0x11FF), (0x180E, 0x180E), (0x1B35, 0x1B35), (0x1B3B, 0x1B3B),
   (0x1B3D, 0x1B3D), (0x1B43, 0x1B43), (0x200C, 0x200D), (0x2065, 0x2069), (0x302E, 0x302F),
   (0x3164, 0x3164), (0xA8FA, 0xA8FA), (0xD7B0, 0xD7C6), (0xD7CB, 0xD7FB), (0xFF9E, 0xFFA0),
   (0xFFF0, 0xFFF8), (0x111C2, 0x111C3), (0x1133E, 0x1133E), (0x11357, 0x11357), (0x114B0, 0x114B0),
   (0x114BD, 0x114BD), (0x115AF, 0x115AF), (0x11930, 0x11930), (0x1193F, 0x1193F),
   (0x11941, 0x11941), (0x11A3A, 0x11A3A), (0x11A84, 0x11A89), (0x11D46, 0x11D46),
   (0x11F02, 0x11F02), (0x1D165, 0x1D165), (0x1D16E, 0x1D172), (0xE0000, 0xE0000),
   (0xE0002, 0xE001F), (0xE0080, 0xE00FF), (0xE01F0, 0xE0FFF)]

/-- A mark across which Arabic letters join. -/
def isArabicBridge (c : Char) : Bool :=
  charWidth c == 0 && !separatingRanges.covers c.toNat

/-! ## Halves -/

/-- The second half of a ligature, with a joiner in front where the ligature needs one. -/
inductive Ligature where
  | alef
  | lamed | joinedLamed
  | coengLetter
  | ya | joinedYa | vowelYa
  | consonant | joinedConsonant | linkedConsonant
  | toneLetter
  | orkhon | joinedOrkhon
deriving DecidableEq

namespace Ligature

/-- The half that starts with the character. -/
def ofChar? (c : Char) : Option Ligature :=
  if c.toNat < 0x5DC then none
  else if c.toNat == 0x5DC then some .lamed
  else if isAlef c then some .alef
  else if isCoengLetter c then some .coengLetter
  else if c.toNat == 0x1A10 then some .ya
  else if isTifinagh c then some .consonant
  else if 0xA4FC ≤ c.toNat && c.toNat ≤ 0xA4FD then some .toneLetter
  else if c.toNat == 0x10C03 then some .orkhon
  else none

/-- The half with a joiner in front. -/
def join : Ligature → Ligature
  | lamed => joinedLamed
  | ya => joinedYa
  | consonant => joinedConsonant
  | orkhon => joinedOrkhon
  | l => l

/-- What a character in front of the half adds to the width, and the half that it leaves open. The
character that completes a ligature adds nothing, or takes back what a sign between the halves had
added. No answer means that the character takes no part in the ligature. -/
def extend? (l : Ligature) (c : Char) : Option (Int × Option Ligature) :=
  if l = .alef then
    if isLam c then some (0, none) else if isArabicBridge c then some (0, some .alef) else none
  else if isBridge c then some (0, some (if c.toNat == 0x200D then l.join else l))
  else
    match l with
    | .joinedLamed => if c.toNat == 0x5D0 then some (0, none) else none
    | .coengLetter => if c.toNat == 0x17D2 then some (-1, none) else none
    | .joinedYa => if c.toNat == 0x1A17 then some (0, some .vowelYa) else none
    | .vowelYa => if c.toNat == 0x1A15 then some (0, none) else none
    | .consonant => if c.toNat == 0x2D7F then some (1, some .linkedConsonant) else none
    | .joinedConsonant =>
      if c.toNat == 0x2D7F then some (1, some .linkedConsonant)
      else if isTifinagh c then some (0, none) else none
    | .linkedConsonant => if isTifinagh c then some (-1, none) else none
    | .toneLetter =>
      if 0xA4F8 ≤ c.toNat && c.toNat ≤ 0xA4FB then some (0, none) else none
    | .joinedOrkhon => if c.toNat == 0x10C32 then some (0, none) else none
    | _ => none

end Ligature

end Scriptlet.Text
