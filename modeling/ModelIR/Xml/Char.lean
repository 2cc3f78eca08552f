/-!
# Characters of XML

The characters that a document may hold, which depend on its version, and of these the ones that
names are made of and the ones that are blank.
-/

namespace ModelIR.Xml

/-- The characters that separate. -/
def isBlank (c : Char) : Bool :=
  c = ' ' || c = '\t' || c = '\n' || c = '\r'

/-- The code points that may begin a name, as ranges. -/
def nameStartRanges : List (Nat × Nat) :=
  [(0x3A, 0x3A), (0x41, 0x5A), (0x5F, 0x5F), (0x61, 0x7A), (0xC0, 0xD6), (0xD8, 0xF6),
    (0xF8, 0x2FF), (0x370, 0x37D), (0x37F, 0x1FFF), (0x200C, 0x200D), (0x2070, 0x218F),
    (0x2C00, 0x2FEF), (0x3001, 0xD7FF), (0xF900, 0xFDCF), (0xFDF0, 0xFFFD), (0x10000, 0xEFFFF)]

/-- The code points that may stand only behind the first of a name, as ranges. -/
def nameFollowRanges : List (Nat × Nat) :=
  [(0x2D, 0x2E), (0x30, 0x39), (0xB7, 0xB7), (0x300, 0x36F), (0x203F, 0x2040)]

/-- Whether a code point lies in one of the ranges. -/
def inRanges (ranges : List (Nat × Nat)) (n : Nat) : Bool :=
  ranges.any fun range => range.1 ≤ n && n ≤ range.2

/-- Whether a character may begin a name. -/
def isNameStart (c : Char) : Bool :=
  inRanges nameStartRanges c.toNat

/-- Whether a character may stand in a name. -/
def isNameChar (c : Char) : Bool :=
  isNameStart c || inRanges nameFollowRanges c.toNat

/-- The characters that a document of the first version may hold: no control characters but blank
ones, and neither U+FFFE nor U+FFFF. -/
def isChar (c : Char) : Bool :=
  isBlank c || (0x20 ≤ c.toNat && c.toNat ≠ 0xFFFE && c.toNat ≠ 0xFFFF)

/-- The code points of control characters that stand in a document of the second version only where
it says them by references, or in markup, as ranges. -/
def restrictedRanges : List (Nat × Nat) :=
  [(0x1, 0x8), (0xB, 0xC), (0xE, 0x1F), (0x7F, 0x84), (0x86, 0x9F)]

/-- The versions of XML. -/
inductive Version where
  | one
  | oneOne
deriving DecidableEq, Repr

namespace Version

/-- The version that a document names. -/
def ofName? : String → Option Version
  | "1.0" => some one
  | "1.1" => some oneOne
  | _ => none

/-- The characters that a document of a version may hold. The second version has the control
characters too, but for U+0000. -/
def allows : Version → Char → Bool
  | one, c => isChar c
  | oneOne, c => c.toNat ≠ 0 && c.toNat ≠ 0xFFFE && c.toNat ≠ 0xFFFF

/-- The characters that text and values may be written with as they are. -/
def allowsRaw : Version → Char → Bool
  | one, c => isChar c
  | oneOne, c => oneOne.allows c && !inRanges restrictedRanges c.toNat

end Version

end ModelIR.Xml
