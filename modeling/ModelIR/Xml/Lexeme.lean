import ModelIR.Text.Search
import ModelIR.Xml.Char

/-!
# Characters and marks of XML

A document is a sequence of lexemes: marks, which the syntax is made of, and characters. What is a
mark depends on the place: there is a table of marks for every mode of reading, and a mark may
change the mode. `nextLexeme?` reads one lexeme.
-/

namespace ModelIR.Xml

/-- A mark or a character. -/
inductive Lexeme where
  | char (c : Char)
  | tagStart
  | closingStart
  | tagEnd
  | emptyTagEnd
  | equals
  | quote (c : Char)
  | referenceStart
  | referenceEnd
  | instructionStart
  | instructionEnd
  | commentStart
  | commentEnd
  | verbatimStart
  | verbatimEnd
  | doctypeStart
  /-- The beginning of a declaration in a document type, with the first letter of its keyword. -/
  | declarationStart (c : Char)
deriving DecidableEq, Repr

/-- The parts of a document that marks are looked for in. A document type declaration lasts up to a
bracket, wherever this bracket stands. -/
inductive Region where
  | content
  | doctype
deriving DecidableEq, Repr

/-- What is read: a region, or something in it that has marks of its own. -/
inductive Mode where
  | plain (region : Region)
  | comment (region : Region)
  | verbatim (region : Region)
  | instruction (region : Region)
  /-- A declaration in a document type. -/
  | declaration
  /-- A literal in such a declaration. -/
  | quoted (quote : Char)
deriving DecidableEq, Repr

namespace Lexeme

/-- A lexeme as it is written. -/
def write : Lexeme → List Char
  | char c => [c]
  | tagStart => ['<']
  | closingStart => ['<', '/']
  | tagEnd => ['>']
  | emptyTagEnd => ['/', '>']
  | equals => ['=']
  | quote c => [c]
  | referenceStart => ['&']
  | referenceEnd => [';']
  | instructionStart => ['<', '?']
  | instructionEnd => ['?', '>']
  | commentStart => ['<', '!', '-', '-']
  | commentEnd => ['-', '-', '>']
  | verbatimStart => ['<', '!', '[', 'C', 'D', 'A', 'T', 'A', '[']
  | verbatimEnd => [']', ']', '>']
  | doctypeStart => ['<', '!', 'D', 'O', 'C', 'T', 'Y', 'P', 'E']
  | declarationStart c => ['<', '!', c]

/-- Whether a lexeme ends a text. -/
def isMarkup : Lexeme → Bool
  | tagStart | closingStart | instructionStart | commentStart | verbatimStart | verbatimEnd
  | doctypeStart | declarationStart _ => true
  | _ => false

/-- Whether a lexeme is a character that separates. -/
def isBlank : Lexeme → Bool
  | char c => Xml.isBlank c
  | _ => false

end Lexeme

/-- The marks of both regions, with the modes behind them. -/
def plainMarks (region : Region) : List (Lexeme × Mode) :=
  [(.instructionStart, .instruction region),
    (.closingStart, .plain region),
    (.commentStart, .comment region),
    (.verbatimStart, .verbatim region),
    (.doctypeStart, .plain .doctype),
    (.tagEnd, .plain .content),
    (.quote '"', .plain region),
    (.quote '\'', .plain region),
    (.referenceStart, .plain region),
    (.referenceEnd, .plain region)]

/-- The marks of content. -/
def contentMarks : List (Lexeme × Mode) :=
  plainMarks .content ++
    [.emptyTagEnd, .equals, .verbatimEnd].map (·, .plain .content)

/-- The marks of document type declarations. -/
def doctypeMarks : List (Lexeme × Mode) :=
  plainMarks .doctype ++
    [.declarationStart 'E', .declarationStart 'A', .declarationStart 'N'].map (·, .declaration)

/-- The marks of declarations in them. -/
def declarationMarks : List (Lexeme × Mode) :=
  [(.tagEnd, .plain .doctype),
    (.quote '"', .quoted '"'),
    (.quote '\'', .quoted '\''),
    (.referenceStart, .declaration),
    (.referenceEnd, .declaration)]

/-- The marks of instructions. -/
def instructionMarks (region : Region) : List (Lexeme × Mode) :=
  (.instructionEnd, .plain region) ::
    [.tagStart, .tagEnd, .equals, .quote '"', .quote '\'', .referenceStart, .referenceEnd].map
      (·, .instruction region)

/-- The mark of a literal in them: the quote that it begins with. -/
def quotedMarks (quote : Char) : List (Lexeme × Mode) :=
  ([.quote '"', .quote '\''].filter (· = .quote quote)).map (·, .declaration)

/-- The marks that are looked for in a mode, with the modes behind them. -/
def Mode.marks : Mode → List (Lexeme × Mode)
  | plain .content => contentMarks
  | plain .doctype => doctypeMarks
  | comment region => [(.commentEnd, .plain region)]
  | verbatim region => [(.verbatimEnd, .plain region)]
  | instruction region => instructionMarks region
  | declaration => declarationMarks
  | quoted quote => quotedMarks quote

/-- The first of some marks that a text begins with, the mode behind it, and the rest. -/
def firstMark? (marks : List (Lexeme × Mode)) (s : List Char) :
    Option (Lexeme × Mode × List Char) :=
  marks.findSome? fun (mark, mode) => (after? mark.write s).map (mark, mode, ·)

/-- Whether a character may stand where no mark is. A bracket opens a tag or a mark, and a comment
has no two dashes but those of its end. -/
def standsAlone (mode : Mode) (c : Char) (rest : List Char) : Bool :=
  match mode with
  | .plain _ => c ≠ '<'
  | .comment _ => !(c = '-' && rest.head? = some '-')
  | .declaration => c ≠ '<'
  | _ => true

/-- Whether a bracket opens a tag. -/
def opensTag (mode : Mode) (c : Char) (rest : List Char) : Bool :=
  match mode with
  | .plain _ => c = '<' && rest.head?.any fun d => isBlank d || isNameChar d
  | _ => false

/-- Reads a lexeme off a text, which begins with a character. -/
def nextLexeme? (mode : Mode) (c : Char) (rest : List Char) :
    Option (Lexeme × Mode × List Char) :=
  match firstMark? mode.marks (c :: rest) with
  | some found => some found
  | none =>
    if standsAlone mode c rest then some (.char c, mode, rest)
    else if opensTag mode c rest then some (.tagStart, mode, rest)
    else none

section

variable {mode mode' : Mode} {lexeme : Lexeme} {c : Char} {s rest : List Char}

theorem write_ne_nil (lexeme : Lexeme) : lexeme.write ≠ [] := by
  cases lexeme <;> simp [Lexeme.write]

theorem eq_of_opensTag (h : opensTag mode c s = true) : c = '<' := by
  cases mode with
  | plain region =>
    rw [opensTag, Bool.and_eq_true, decide_eq_true_eq] at h
    exact h.1
  | _ => simp [opensTag] at h

theorem mem_marks_of_firstMark? {marks : List (Lexeme × Mode)}
    (h : firstMark? marks s = some (lexeme, mode', rest)) :
    (lexeme, mode') ∈ marks ∧ s = lexeme.write ++ rest := by
  obtain ⟨⟨mark, mode⟩, hmem, hb⟩ := List.exists_of_findSome?_eq_some h
  simp only [Option.map_eq_some_iff, Prod.mk.injEq] at hb
  obtain ⟨_, hb, rfl, rfl, rfl⟩ := hb
  exact ⟨hmem, eq_append_of_after? hb⟩

/-- A lexeme is a mark of the mode, or a character, or the bracket of a tag. -/
theorem nextLexeme?_cases (h : nextLexeme? mode c s = some (lexeme, mode', rest)) :
    ((lexeme, mode') ∈ mode.marks ∧ c :: s = lexeme.write ++ rest) ∨
      (firstMark? mode.marks (c :: s) = none ∧ mode' = mode ∧ rest = s ∧
        ((lexeme = .char c ∧ standsAlone mode c s = true) ∨
          (lexeme = .tagStart ∧ c = '<' ∧ opensTag mode c s = true))) := by
  unfold nextLexeme? at h
  split at h
  · next found hmark =>
    obtain rfl := Option.some.inj h
    exact .inl (mem_marks_of_firstMark? hmark)
  · next hmark =>
    split at h
    · next halone =>
      simp only [Option.some.injEq, Prod.mk.injEq] at h
      exact .inr ⟨hmark, h.2.1.symm, h.2.2.symm, .inl ⟨h.1.symm, halone⟩⟩
    · split at h
      · next htag =>
        simp only [Option.some.injEq, Prod.mk.injEq] at h
        exact .inr ⟨hmark, h.2.1.symm, h.2.2.symm, .inr ⟨h.1.symm, eq_of_opensTag htag, htag⟩⟩
      · simp at h

theorem eq_append_of_nextLexeme? (h : nextLexeme? mode c s = some (lexeme, mode', rest)) :
    c :: s = lexeme.write ++ rest := by
  rcases nextLexeme?_cases h with ⟨-, h⟩ | ⟨-, -, rfl, ⟨rfl, -⟩ | ⟨rfl, rfl, -⟩⟩
  · exact h
  · rfl
  · rfl

end

end ModelIR.Xml
