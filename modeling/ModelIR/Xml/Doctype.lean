import ModelIR.Xml.Reference

/-!
# Document types

A document type declaration is read lexeme by lexeme, up to the bracket that ends it. All that it
says is passed over but for the entities that it declares: `Doctype` tells what is read at a place,
and `Doctype.step` goes on from a lexeme to the next. A parameter that is referred to among the
declarations is read in the place of the reference.
-/

namespace ModelIR.Xml

/-- An entity whose value is read, between quotes. -/
structure Draft where
  name : List Char
  quote : Char
  /-- The value so far, last character first. -/
  reversed : List Char := []
deriving DecidableEq, Repr

/-- The draft with a text behind the value. -/
def Draft.push (draft : Draft) (text : List Char) : Draft :=
  { draft with reversed := text.reverse ++ draft.reversed }

/-- What is read in a document type declaration. Names and digits are kept last character first. -/
inductive Doctype where
  | outside
  | literal (quote : Char)
  | comment
  | keyword (reversed : List Char)
  /-- What is left of a declaration. -/
  | skipped
  /-- A reference to a parameter, among the declarations. -/
  | parameter (reversed : List Char)
  | beforeName (isParameter : Bool)
  | name (reversed : List Char)
  | beforeValue (name : List Char)
  | value (draft : Draft)
  /-- A reference to a parameter, in a value. -/
  | parameterInValue (draft : Draft) (reversed : List Char)
  | ampersand (draft : Draft)
  | number (draft : Draft) (reversed : List Char)
deriving DecidableEq, Repr

namespace Doctype

/-- What a lexeme leads to. -/
structure Turn where
  /-- What is read next, if the declaration has not ended. -/
  state : Option Doctype
  /-- The entities that are declared. -/
  declared : Glossary := []
  /-- The text that is read next, in the place of a reference. -/
  inserted : List Char := []
deriving DecidableEq, Repr

/-- The turn to a state. -/
def goto (state : Doctype) : Option Turn :=
  some { state := some state }

/-- What is read behind the keyword of a declaration. -/
def behindKeyword (keyword : String) : Option Turn :=
  if keyword = "ENTITY" then goto (beforeName false)
  else if keyword ∈ ["NOTATION", "ELEMENT", "ATTLIST"] then goto skipped
  else none

/-- Reads the digits of a number, which may have a sign. -/
def signedNumeral? (base : Nat) : List Char → Option Nat
  | '+' :: digits => numeral? base digits
  | digits => numeral? base digits

/-- Goes on from a lexeme to the next. What a document keeps elsewhere is not read, so that an
entity that is kept there says nothing. In the value of an entity only numbers are read, and other
references stay. -/
def step (d : Dialect) : Doctype → Lexeme → Option Turn
  | outside, .tagEnd => some { state := none }
  | outside, .declarationStart c => goto (keyword [c])
  | outside, .char c => goto (if c = '%' then parameter ['%'] else outside)
  | outside, .commentStart => goto comment
  | outside, .quote q => goto (literal q)
  | outside, .verbatimStart => none
  | outside, .verbatimEnd => none
  | outside, _ => goto outside
  | literal q, lexeme => goto (if lexeme = .quote q then outside else literal q)
  | comment, lexeme => goto (if lexeme = .commentEnd then outside else comment)
  | keyword reversed, .char c =>
    if 'A' ≤ c && c ≤ 'Z' then goto (keyword (c :: reversed))
    else if isBlank c then behindKeyword (String.ofList reversed.reverse)
    else none
  | skipped, lexeme => goto (if lexeme = .tagEnd then outside else skipped)
  | parameter reversed, .char c => if isNameChar c then goto (parameter (c :: reversed)) else none
  | parameter reversed, .referenceEnd =>
    (d.entities.lookup reversed.reverse).map fun text => { state := some outside, inserted := text }
  | beforeName isParameter, .char c =>
    if isBlank c then goto (beforeName isParameter)
    else if c = '%' && !isParameter then goto (beforeName true)
    else if isNameStart c then goto (name (c :: if isParameter then ['%'] else []))
    else none
  | name reversed, .char c =>
    if isBlank c then goto (beforeValue reversed.reverse)
    else if isNameChar c then goto (name (c :: reversed))
    else none
  | beforeValue entity, .char c =>
    if isBlank c then goto (beforeValue entity)
    else if c = 'S' || c = 'P' then some { state := some skipped, declared := [(entity, [])] }
    else none
  | beforeValue entity, .quote q => goto (value { name := entity, quote := q })
  | value draft, .quote q =>
    if q = draft.quote then
      some { state := some skipped, declared := [(draft.name, draft.reversed.reverse)] }
    else goto (value (draft.push [q]))
  | value draft, .char c =>
    if c = '&' then goto (ampersand draft)
    else if c = '%' then goto (parameterInValue draft ['%'])
    else if d.version.allows c then goto (value (draft.push [c]))
    else none
  | parameterInValue draft reversed, .char c =>
    if c = ';' then
      (d.entities.lookup reversed.reverse).bind fun text => goto (value (draft.push text))
    else if isNameChar c then goto (parameterInValue draft (c :: reversed))
    else none
  | ampersand draft, .char c =>
    if c = '#' then goto (number draft [])
    else if d.version.allows c then goto (value (draft.push ['&', c]))
    else none
  | number draft reversed, .char c =>
    if c = ';' then
      ((codePoint? signedNumeral? reversed.reverse).bind (numberedCharacter? d.version)).bind
        fun c => goto (value (draft.push [c]))
    else if d.version.allows c then goto (number draft (c :: reversed))
    else none
  | _, _ => none

end Doctype

end ModelIR.Xml
