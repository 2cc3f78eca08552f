/-!
# Encodings of documents

A document is a sequence of bytes. A mark at its beginning may tell how they are read; without one
they are read as UTF-8 up to the end of the XML declaration, which may name another encoding of
single bytes for what follows.
-/

namespace ModelIR.Xml

/-- The encodings that a document may name. -/
inductive Encoding where
  | utf8
  | latin1
  | utf16
  | ascii
deriving DecidableEq, Repr

/-- What the mark at the beginning of a document tells. -/
inductive ByteOrder where
  | unmarked
  | utf8
  | bigEndian
  | littleEndian
deriving DecidableEq, Repr

/-- Reads UTF-8. -/
def decodeUtf8? (bytes : List UInt8) : Option (List Char) :=
  (String.fromUTF8? ⟨bytes.toArray⟩).map String.toList

/-- The units of UTF-16 that bytes make, two bytes each. -/
def units? (order : ByteOrder) : List UInt8 → Option (List Nat)
  | [] => some []
  | [_] => none
  | a :: b :: bytes =>
    let unit := if order = .littleEndian then b.toNat * 256 + a.toNat else a.toNat * 256 + b.toNat
    (units? order bytes).map (unit :: ·)

/-- The characters that units of UTF-16 make: one unit each, or two units that only stand together.
-/
def unitChars? : List Nat → Option (List Char)
  | [] => some []
  | unit :: units =>
    if unit < 0xD800 || 0xDFFF < unit then (unitChars? units).map (Char.ofNat unit :: ·)
    else
      match units with
      | [] => none
      | low :: units =>
        if unit < 0xDC00 && 0xDC00 ≤ low && low ≤ 0xDFFF then
          (unitChars? units).map
            (Char.ofNat (0x10000 + (unit - 0xD800) * 0x400 + (low - 0xDC00)) :: ·)
        else none

namespace ByteOrder

/-- The mark at the beginning of a document, and the bytes behind it. -/
def ofBytes : List UInt8 → ByteOrder × List UInt8
  | 0xEF :: 0xBB :: 0xBF :: bytes => (utf8, bytes)
  | 0xFE :: 0xFF :: bytes => (bigEndian, bytes)
  | 0xFF :: 0xFE :: bytes => (littleEndian, bytes)
  | bytes => (unmarked, bytes)

/-- Reads the bytes as the mark tells. -/
def decode? : ByteOrder → List UInt8 → Option (List Char)
  | unmarked, bytes => decodeUtf8? bytes
  | utf8, bytes => decodeUtf8? bytes
  | order, bytes => (units? order bytes).bind unitChars?

/-- Whether a document may name an encoding behind the mark. -/
def admits : ByteOrder → Encoding → Bool
  | unmarked, encoding => encoding ≠ .utf16
  | utf8, encoding => encoding = .utf8
  | _, encoding => encoding = .utf16

end ByteOrder

namespace Encoding

/-- The labels of the encodings. -/
def labels : List (String × Encoding) :=
  [("utf-8", utf8), ("utf8", utf8), ("iso-8859-1", latin1), ("latin1", latin1), ("utf-16", utf16),
    ("utf16", utf16), ("ascii", ascii), ("us-ascii", ascii)]

/-- Whether two texts agree as far as both go, whatever the case of letters in the second. -/
def agrees (label value : String) : Bool :=
  (label.toList.zip value.toList).all fun (a, b) => a = b.toLower

/-- The encoding that a name is taken for: the first that has a label which agrees. -/
def ofName? (value : String) : Option Encoding :=
  (labels.find? fun p => agrees p.1 value).map (·.2)

/-- The characters that are written as one byte each. -/
def bytewise (bytes : List UInt8) : List Char :=
  bytes.map fun b => Char.ofNat b.toNat

/-- Reads the bytes of a document without a mark. -/
def decode? : Encoding → List UInt8 → Option (List Char)
  | utf8, bytes => decodeUtf8? bytes
  | latin1, bytes => some (bytewise bytes)
  | ascii, bytes => if bytes.all (· < 0x80) then some (bytewise bytes) else none
  | utf16, _ => none

end Encoding

end ModelIR.Xml
