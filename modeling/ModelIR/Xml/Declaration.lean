import ModelIR.Xml.Encoding
import ModelIR.Xml.Token

/-!
# The beginning of documents

A document may begin with a mark that tells how its bytes are read, and with an XML declaration: an
instruction that names the version and may name an encoding. `charsOfBytes?` gives the version and
the characters behind the declaration.
-/

namespace ModelIR.Xml

/-- The lexeme of a character in an instruction. -/
def dataLexeme (c : Char) : Lexeme :=
  if c = '<' then .tagStart
  else if c = '>' then .tagEnd
  else if c = '=' then .equals
  else if c = '"' || c = '\'' then .quote c
  else if c = '&' then .referenceStart
  else if c = ';' then .referenceEnd
  else .char c

/-- Reads a part of the XML declaration: its initial, the rest of its name, which may have a prefix,
and its value. -/
def readPart (version : Version) (initial : Char) (name : String) (s : List Lexeme) :
    Option (String × List Lexeme) := do
  let rest ← after? [.char initial] (skipBlanks s)
  let (q, rest) ← readQName rest
  guard (q.name = name)
  let rest ← after? [.equals] (skipBlanks rest)
  let (value, rest) ← readValue { version } (skipBlanks rest)
  return (String.ofList value, rest)

/-- Reads a part that may be missing, with a blank before it; `of?` tells what its value is taken
for. -/
def readPart? {α : Type} (version : Version) (initial : Char) (name : String)
    (of? : String → Option α) (s : List Lexeme) : Option (Option α × List Lexeme) :=
  match s.head?.filter Lexeme.isBlank, readPart version initial name s with
  | some _, some (value, rest) => (of? value).map fun a => (some a, rest)
  | _, _ => some (none, s)

/-- What an XML declaration says. -/
structure Declaration where
  version : Version := .one
  encoding : Option Encoding := none
deriving DecidableEq, Repr

namespace Declaration

/-- Whether a document is said to stand alone. -/
def standalone? : String → Option Bool
  | "yes" => some true
  | "no" => some false
  | _ => none

/-- Reads what follows the name of the XML declaration. -/
def read? (text : List Char) : Option Declaration := do
  let (value, rest) ← readPart .one 'v' "ersion" (text.map dataLexeme)
  let version ← Version.ofName? value
  let (encoding, rest) ← readPart? version 'e' "ncoding" Encoding.ofName? rest
  let (_, rest) ← readPart? version 's' "tandalone" standalone? rest
  guard (skipBlanks rest = [])
  return { version, encoding }

end Declaration

/-- What follows the name of the XML declaration, up to its end, and what is behind it, for a
document that has one; `code` tells how a character is written. -/
def cutDeclaration? {α : Type} [DecidableEq α] (code : Char → α) (s : List α) :
    Option (Option (List α) × List α) :=
  match after? ("<?xml".toList.map code) s with
  | some (a :: rest) =>
    if a ∈ [' ', '\t', '\n', '\r'].map code then
      (cutAt? ("?>".toList.map code) (a :: rest)).map fun (inner, rest) => (some inner, rest)
    else some (none, s)
  | _ => some (none, s)

/-- The byte that a character is written as. -/
def byteOf (c : Char) : UInt8 :=
  c.toNat.toUInt8

/-- Reads the bytes behind a mark, and the XML declaration there if there is one. -/
def ByteOrder.read? (order : ByteOrder) (bytes : List UInt8) :
    Option (Declaration × List Char) :=
  match order with
  | unmarked => do
    let (inner, rest) ← cutDeclaration? byteOf bytes
    let declaration ← inner.elim (some {}) fun inner =>
      (decodeUtf8? inner).bind Declaration.read?
    return (declaration, ← (declaration.encoding.getD .utf8).decode? rest)
  | order => do
    let (inner, rest) ← cutDeclaration? id (← order.decode? bytes)
    return (← inner.elim (some {}) Declaration.read?, rest)

/-- The version of a document and its characters, behind the XML declaration if there is one. -/
def charsOfBytes? (bytes : ByteArray) : Option (Version × List Char) := do
  let (order, bytes) := ByteOrder.ofBytes bytes.data.toList
  let (declaration, text) ← order.read? bytes
  guard (declaration.encoding.all order.admits)
  return (declaration.version, text)

end ModelIR.Xml
