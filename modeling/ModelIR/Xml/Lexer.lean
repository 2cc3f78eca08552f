import ModelIR.Xml.Doctype

/-!
# Taking documents apart

`lex` takes a document apart into lexemes. What is between the tags of a document may refer to
entities that its document type declares: their values are read in the places of the references, so
that they may be markup. For this a lexer knows the place where it is, the entities declared so far,
and how much of its input is put in for references.
-/

namespace ModelIR.Xml

/-- How many references may stand in the values of one another. -/
def maxDepth : Nat := 10

/-- How many characters may be left of the values that are put in when another is put in. -/
def maxInserted : Nat := 1000000

/-- What is still to be read. -/
structure Input where
  text : List Char
  /-- How many characters at the front are put in for references. -/
  inserted : Nat := 0
  /-- How many references they are put in for, one in the value of the other. -/
  depth : Nat := 0

namespace Input

variable (input : Input)

/-- What is still to be read behind a lexeme. -/
def behind (lexeme : Lexeme) (rest : List Char) : Input :=
  let size := lexeme.write.length
  { text := rest
    inserted := input.inserted - size
    depth := if size ≤ input.inserted then input.depth else 0 }

/-- Puts the value of an entity before what is still to be read. -/
def insert? (value : List Char) : Option Input :=
  if value = [] then some input
  else if input.depth < maxDepth && input.inserted ≤ maxInserted then
    some {
      text := value ++ input.text
      inserted := input.inserted + value.length
      depth := input.depth + 1 }
  else none

/-- How much is to be read: first of what the document has, then by the references that may still be
put in, and then of what is put in. -/
def size : Nat × Nat × Nat :=
  (input.text.length - input.inserted, maxDepth - input.depth, input.inserted)

end Input

/-- The order of such sizes. -/
abbrev SizeLT : Nat × Nat × Nat → Nat × Nat × Nat → Prop :=
  Prod.Lex (· < ·) (Prod.Lex (· < ·) (· < ·))

theorem size_behind_insert {input input' : Input} {lexeme : Lexeme} {rest value : List Char}
    (htext : input.text = lexeme.write ++ rest)
    (h : (input.behind lexeme rest).insert? value = some input') :
    SizeLT input'.size input.size := by
  have hpos := List.length_pos_iff.2 (write_ne_nil lexeme)
  have hlength : input.text.length = lexeme.write.length + rest.length := by
    rw [htext, List.length_append]
  simp only [Input.size, Prod.lex_def]
  rw [Input.insert?] at h
  by_cases hfits : lexeme.write.length ≤ input.inserted
  · right
    split at h
    · obtain rfl := Option.some.inj h
      simp only [Input.behind, if_pos hfits]
      exact ⟨by omega, .inr ⟨trivial, by omega⟩⟩
    · split at h
      · next hdepth =>
        obtain rfl := Option.some.inj h
        simp only [Input.behind, if_pos hfits, Bool.and_eq_true, decide_eq_true_eq,
          List.length_append] at hdepth ⊢
        exact ⟨by omega, .inl (by omega)⟩
      · simp at h
  · left
    split at h
    · obtain rfl := Option.some.inj h
      simp only [Input.behind]
      omega
    · split at h
      · obtain rfl := Option.some.inj h
        simp only [Input.behind, List.length_append]
        omega
      · simp at h

/-- The places in a document that references are read in, and those around them. -/
inductive Place where
  | text
  /-- A reference, with what is read of it, last character first. -/
  | reference (reversed : List Char)
  | tag
  | value (quote : Char)
  | instruction
  | doctype (state : Doctype)
deriving DecidableEq, Repr

namespace Place

/-- Whether a place is in a document type declaration. -/
def isDoctype : Place → Bool
  | doctype _ => true
  | _ => false

/-- The place behind a lexeme, outside of document type declarations. -/
def next : Place → Lexeme → Place
  | text, lexeme =>
    match lexeme with
    | .tagStart | .closingStart => tag
    | .instructionStart => instruction
    | .referenceStart => reference []
    | .doctypeStart => doctype .outside
    | _ => text
  | reference reversed, lexeme =>
    match lexeme with
    | .char c => reference (c :: reversed)
    | _ => text
  | tag, lexeme =>
    match lexeme with
    | .quote q => value q
    | _ => if lexeme ∈ [.tagEnd, .emptyTagEnd] then text else tag
  | value quote, lexeme => if lexeme = .quote quote then tag else value quote
  | instruction, lexeme => if lexeme = .instructionEnd then text else instruction
  | doctype state, _ => doctype state

/-- The text that is put in behind a lexeme: what stands for the reference that it ends. -/
def inserted (entities : Glossary) : Place → Lexeme → List Char
  | reference reversed, .referenceEnd =>
    match namedCharacters.lookup (String.ofList reversed.reverse) with
    | some _ => []
    | none => (entities.entity? reversed.reverse).getD []
  | _, _ => []

end Place

/-- A document that is taken apart, up to some point. -/
structure Lexer where
  input : Input
  mode : Mode := .plain .content
  place : Place := .text
  entities : Glossary := []

namespace Lexer

/-- Goes on behind a lexeme, in the mode behind it and with the rest of the text. -/
def advance? (version : Version) (l : Lexer) (lexeme : Lexeme) (mode : Mode) (rest : List Char) :
    Option Lexer :=
  let input := l.input.behind lexeme rest
  match l.place with
  | .doctype state => do
    let turn ← state.step { version, entities := l.entities } lexeme
    let input ← input.insert? turn.inserted
    return {
      input, mode
      place := (turn.state.map .doctype).getD .text
      entities := l.entities ++ turn.declared }
  | place => do
    let input ← input.insert? (place.inserted l.entities lexeme)
    return { input, mode, place := place.next lexeme, entities := l.entities }

/-- Reads a lexeme. -/
def next? (version : Version) (l : Lexer) : Option (Lexeme × Lexer) :=
  match l.input.text with
  | [] => none
  | c :: s => do
    let (lexeme, mode, rest) ← nextLexeme? l.mode c s
    return (lexeme, ← l.advance? version lexeme mode rest)

theorem exists_insert_of_advance? {version : Version} {l l' : Lexer} {lexeme : Lexeme} {mode : Mode}
    {rest : List Char} (h : l.advance? version lexeme mode rest = some l') :
    ∃ value, (l.input.behind lexeme rest).insert? value = some l'.input := by
  simp only [advance?] at h
  split at h
  · simp only [Option.bind_eq_bind, Option.bind_eq_some_iff, Option.pure_def,
      Option.some.injEq] at h
    obtain ⟨turn, -, input, hinput, rfl⟩ := h
    exact ⟨_, hinput⟩
  · simp only [Option.bind_eq_bind, Option.bind_eq_some_iff, Option.pure_def,
      Option.some.injEq] at h
    obtain ⟨input, hinput, rfl⟩ := h
    exact ⟨_, hinput⟩

/-- A lexeme that is read is the first of the text. -/
theorem of_next? {version : Version} {l l' : Lexer} {lexeme : Lexeme}
    (h : l.next? version = some (lexeme, l')) : ∃ c s mode rest, l.input.text = c :: s ∧
      nextLexeme? l.mode c s = some (lexeme, mode, rest) ∧
      l.advance? version lexeme mode rest = some l' := by
  rw [next?] at h
  split at h
  · simp at h
  · next c s htext =>
    simp only [Option.bind_eq_bind, Option.bind_eq_some_iff, Option.pure_def, Option.some.injEq,
      Prod.mk.injEq, Prod.exists] at h
    obtain ⟨lexeme, mode, rest, hnext, l', hadvance, rfl, rfl⟩ := h
    exact ⟨c, s, mode, rest, htext, hnext, hadvance⟩

theorem size_of_next? {version : Version} {l l' : Lexer} {lexeme : Lexeme}
    (h : l.next? version = some (lexeme, l')) : SizeLT l'.input.size l.input.size := by
  obtain ⟨c, s, mode, rest, htext, hnext, hadvance⟩ := of_next? h
  obtain ⟨value, hinput⟩ := exists_insert_of_advance? hadvance
  exact size_behind_insert (htext.trans (eq_append_of_nextLexeme? hnext)) hinput

/-- Whether a document may end here. -/
def atEnd (l : Lexer) : Bool :=
  l.input.text = [] && l.mode = .plain .content && !l.place.isDoctype

/-- What is kept of a lexeme that is read: nothing in a document type declaration. -/
def kept (l : Lexer) (lexeme : Lexeme) : List Lexeme :=
  if l.place.isDoctype then [] else [lexeme]

/-- The lexemes of a document from here on, behind lexemes that are given last first, and the
entities that it declares. -/
def lexOnto (version : Version) (reversed : List Lexeme) (l : Lexer) :
    Option (List Lexeme × Glossary) :=
  match _h : l.next? version with
  | some (lexeme, l') => lexOnto version (l.kept lexeme ++ reversed) l'
  | none => if l.atEnd then some (reversed.reverse, l.entities) else none
termination_by l.input.size
decreasing_by exact size_of_next? _h

end Lexer

/-- Takes a document apart, behind its XML declaration. -/
def lex (version : Version) (text : List Char) : Option (List Lexeme × Glossary) :=
  Lexer.lexOnto version [] { input := { text } }

end ModelIR.Xml
