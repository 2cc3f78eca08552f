import ModelIR.Xml.Lexeme

/-!
# References

A reference stands for one character, by a name or by its number, or for an entity that the document
declares. `expand` puts what they stand for in the places of references, and `escape` writes
references for the characters that may not stand for themselves.
-/

namespace ModelIR.Xml

/-- The characters that have a name. -/
def namedCharacters : List (String × Char) :=
  [("lt", '<'), ("gt", '>'), ("amp", '&'), ("apos", '\''), ("quot", '"')]

/-- The value of a digit, letters of either case from ten on. -/
def digitValue? (c : Char) : Option Nat :=
  if '0' ≤ c && c ≤ '9' then some (c.toNat - '0'.toNat)
  else if 'a' ≤ c && c ≤ 'f' then some (c.toNat - 'a'.toNat + 10)
  else if 'A' ≤ c && c ≤ 'F' then some (c.toNat - 'A'.toNat + 10)
  else none

/-- The number that some digits of a base spell. -/
def numeral? (base : Nat) (digits : List Char) : Option Nat :=
  if digits = [] then none
  else digits.foldlM (fun n c => do
    let d ← digitValue? c
    if d < base then some (n * base + d) else none) 0

/-- The number that is read as `numeral` reads digits of a base: of sixteen behind an `x`. -/
def codePoint? (numeral : Nat → List Char → Option Nat) : List Char → Option Nat
  | 'x' :: digits => numeral 16 digits
  | digits => numeral 10 digits

/-- The character of a number, if a document of the version may hold it. -/
def numberedCharacter? (version : Version) (n : Nat) : Option Char :=
  let c := Char.ofNat n
  if version.allows c then some c else none

/-- The entities that a document declares, with their values. Of two with one name the first counts.
The names of parameters, which only declarations refer to, begin with a percent sign. -/
abbrev Glossary := List (List Char × List Char)

namespace Glossary

/-- The value of an entity that content may refer to. -/
def entity? (entities : Glossary) (name : List Char) : Option (List Char) :=
  if name.head? = some '%' then none else entities.lookup name

/-- The entities, with nothing as their values. -/
def silent (entities : Glossary) : Glossary :=
  entities.map fun e => (e.1, [])

end Glossary

/-- What a document says of how it is read. -/
structure Dialect where
  version : Version := .one
  entities : Glossary := []

/-- The dialect in which references to entities say nothing. -/
def Dialect.silent (d : Dialect) : Dialect :=
  { d with entities := d.entities.silent }

/-- What a reference stands for, seen from what is between its ends. -/
def reference? (d : Dialect) : List Char → Option (List Char)
  | '#' :: number => ((codePoint? numeral? number).bind (numberedCharacter? d.version)).map ([·])
  | name =>
    match namedCharacters.lookup (String.ofList name) with
    | some c => some [c]
    | none => d.entities.entity? name

/-- Expands lexemes; `begun` is the reference that is not yet ended, last character first. -/
def expandFrom (d : Dialect) (begun : Option (List Char)) : List Lexeme → Option (List Char)
  | [] => if begun.isNone then some [] else none
  | lexeme :: s =>
    match begun, lexeme with
    | none, .referenceStart => expandFrom d (some []) s
    | none, .char c => if d.version.allowsRaw c then (expandFrom d none s).map (c :: ·) else none
    | none, mark => (expandFrom d none s).map (mark.write ++ ·)
    | some name, .char c => expandFrom d (some (c :: name)) s
    | some name, .referenceEnd => do
      let text ← reference? d name.reverse
      (expandFrom d none s).map (text ++ ·)
    | some _, _ => none

section

variable (d : Dialect) (s : List Lexeme) (name : List Char) (c : Char)

theorem expandFrom_start :
    expandFrom d none (.referenceStart :: s) = expandFrom d (some []) s :=
  rfl

theorem expandFrom_char (h : d.version.allowsRaw c = true) :
    expandFrom d none (.char c :: s) = (expandFrom d none s).map (c :: ·) :=
  if_pos h

theorem expandFrom_begun :
    expandFrom d (some name) (.char c :: s) = expandFrom d (some (c :: name)) s :=
  rfl

theorem expandFrom_end : expandFrom d (some name) (.referenceEnd :: s) =
    (reference? d name.reverse).bind fun text => (expandFrom d none s).map (text ++ ·) :=
  rfl

end

/-- What lexemes say: what references stand for in their places, and marks as they are written. -/
def expand (d : Dialect) (s : List Lexeme) : Option (List Char) :=
  expandFrom d none s

/-- The references that text is written with. -/
def textReference? : Char → Option String
  | '<' => some "lt"
  | '>' => some "gt"
  | '&' => some "amp"
  | _ => none

/-- The references that the values of attributes are written with. -/
def valueReference? : Char → Option String
  | '"' => some "quot"
  | '\'' => some "apos"
  | '\n' => some "#xA"
  | '\r' => some "#xD"
  | c => textReference? c

/-- The text with references in the places of the characters that have one. -/
def escape (reference : Char → Option String) (text : List Char) : List Char :=
  text.flatMap fun c =>
    match reference c with
    | some name => '&' :: (name.toList ++ [';'])
    | none => [c]

end ModelIR.Xml
