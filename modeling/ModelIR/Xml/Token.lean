import ModelIR.Xml.Reference

/-!
# Tokens of XML

A document is a sequence of tags, texts, comments, instructions and declarations. A token says what
it stands for: references in it are expanded, but no prefix is looked up. `Token.readAll` puts the
lexemes of a document together to tokens, and `Token.write` writes a token.
-/

namespace ModelIR.Xml

/-- A name, with a prefix if it has one. -/
structure QName where
  nsPrefix : Option String := none
  name : String
deriving DecidableEq, Repr

/-- A piece of a document. -/
inductive Token where
  /-- A tag that opens an element, which may be closed at once. -/
  | opening (name : QName) (attributes : List (QName × List Char)) (closed : Bool)
  | closing (name : QName)
  /-- A run of characters that separate, none of them written as a reference. -/
  | blanks (body : List Char)
  | text (body : List Char)
  | verbatim (body : List Char)
  | comment (body : List Char)
  | instruction (target : String) (data : Option (List Char))
  | doctype
deriving DecidableEq, Repr

namespace QName

/-- The name as it is written. -/
def write (q : QName) : List Char :=
  match q.nsPrefix with
  | some p => p.toList ++ ':' :: q.name.toList
  | none => q.name.toList

/-- Reads a name: at most one colon parts it, and does not stand at an end. -/
def ofChars? (text : List Char) : Option QName :=
  let first := text.takeWhile (· ≠ ':')
  if first = [] then none
  else
    match text.dropWhile (· ≠ ':') with
    | [] => some { name := String.ofList first }
    | _ :: second =>
      if second = [] || ':' ∈ second then none
      else some { nsPrefix := some (String.ofList first), name := String.ofList second }

end QName

/-- The characters at the front that pass a test. -/
def takeChars (p : Char → Bool) : List Lexeme → List Char
  | .char c :: s => if p c then c :: takeChars p s else []
  | _ => []

/-- What is behind the characters at the front that pass a test. -/
def dropChars (p : Char → Bool) : List Lexeme → List Lexeme
  | .char c :: s => if p c then dropChars p s else .char c :: s
  | s => s

/-- What is behind the blanks at the front. -/
def skipBlanks (s : List Lexeme) : List Lexeme :=
  dropChars isBlank s

/-- The characters that lexemes are, if all are characters that a document may hold. -/
def plainChars? (version : Version) (s : List Lexeme) : Option (List Char) :=
  let chars := s.flatMap Lexeme.write
  if chars.all version.allows then some chars else none

/-- Reads a name, colons included. -/
def readName (s : List Lexeme) : Option (List Char × List Lexeme) :=
  match takeChars isNameChar s with
  | [] => none
  | c :: name => if isNameStart c then some (c :: name, dropChars isNameChar s) else none

/-- Reads a name that may have a prefix. -/
def readQName (s : List Lexeme) : Option (QName × List Lexeme) := do
  let (name, rest) ← readName s
  let q ← QName.ofChars? name
  return (q, rest)

/-- What the lexemes between quotes say, if no tag and no instruction begins among them. -/
def valueOf? (d : Dialect) (body : List Lexeme) : Option (List Char) :=
  if .tagStart ∈ body ∨ .instructionStart ∈ body then none else expand d body

/-- Reads a value between quotes of either kind. -/
def readValue (d : Dialect) : List Lexeme → Option (List Char × List Lexeme)
  | .quote q :: s => do
    let (body, rest) ← cutAt? [.quote q] s
    return (← valueOf? d body, rest)
  | _ => none

/-- Reads a name, an equals sign and a value, with blanks around the sign. -/
def readAttribute (d : Dialect) (s : List Lexeme) :
    Option ((QName × List Char) × List Lexeme) := do
  let (name, rest) ← readQName s
  let rest ← after? [.equals] (skipBlanks rest)
  let (value, rest) ← readValue d (skipBlanks rest)
  return ((name, value), rest)

/-- Reads the end of an opening tag, and whether it closes the element. -/
def readTagEnd : List Lexeme → Option (Bool × List Lexeme)
  | .tagEnd :: rest => some (false, rest)
  | .emptyTagEnd :: rest => some (true, rest)
  | _ => none

theorem suffix_dropChars (p : Char → Bool) (s : List Lexeme) : dropChars p s <:+ s := by
  fun_induction dropChars p s with
  | case1 c s hc ih => exact ih.trans (List.suffix_cons _ _)
  | case2 => exact List.suffix_rfl
  | case3 => exact List.suffix_rfl

theorem suffix_skipBlanks (s : List Lexeme) : skipBlanks s <:+ s :=
  suffix_dropChars isBlank s

theorem suffix_readName {s rest : List Lexeme} {name : List Char}
    (h : readName s = some (name, rest)) : rest <:+ s := by
  unfold readName at h
  split at h
  · simp at h
  · split at h
    · simp only [Option.some.injEq, Prod.mk.injEq] at h
      rw [← h.2]
      exact suffix_dropChars isNameChar s
    · simp at h

theorem suffix_readQName {s rest : List Lexeme} {q : QName} (h : readQName s = some (q, rest)) :
    rest <:+ s := by
  simp only [readQName, Option.bind_eq_bind, Option.bind_eq_some_iff, Option.pure_def,
    Option.some.injEq, Prod.mk.injEq, Prod.exists] at h
  obtain ⟨name, rest', hn, _, _, _, rfl⟩ := h
  exact suffix_readName hn

theorem suffix_of_after? {mark l rest : List Lexeme} (h : after? mark l = some rest) :
    rest <:+ l :=
  ⟨mark, (eq_append_of_after? h).symm⟩

theorem suffix_of_cutAt? {mark l before rest : List Lexeme}
    (h : cutAt? mark l = some (before, rest)) : rest <:+ l :=
  ⟨before ++ mark, (eq_append_of_cutAt? h).symm⟩

theorem suffix_readValue {d : Dialect} {s rest : List Lexeme} {value : List Char}
    (h : readValue d s = some (value, rest)) : rest <:+ s := by
  unfold readValue at h
  split at h
  · simp only [Option.bind_eq_bind, Option.bind_eq_some_iff, Option.pure_def, Option.some.injEq,
      Prod.mk.injEq, Prod.exists] at h
    obtain ⟨_, _, h₁, _, _, _, rfl⟩ := h
    exact (suffix_of_cutAt? h₁).trans (List.suffix_cons _ _)
  · simp at h

theorem suffix_readAttribute {d : Dialect} {s rest : List Lexeme} {a : QName × List Char}
    (h : readAttribute d s = some (a, rest)) : rest <:+ s := by
  simp only [readAttribute, Option.bind_eq_bind, Option.bind_eq_some_iff, Option.pure_def,
    Option.some.injEq, Prod.mk.injEq, Prod.exists] at h
  obtain ⟨name, r₁, h₁, r₂, h₂, value, r₃, h₃, _, rfl⟩ := h
  have hvalue := (suffix_readValue h₃).trans (suffix_skipBlanks r₂)
  have hsign := (suffix_of_after? h₂).trans (suffix_skipBlanks r₁)
  exact (hvalue.trans hsign).trans (suffix_readQName h₁)

theorem suffix_readTagEnd {s rest : List Lexeme} {closed : Bool}
    (h : readTagEnd s = some (closed, rest)) : rest <:+ s := by
  unfold readTagEnd at h
  split at h
  · simp only [Option.some.injEq, Prod.mk.injEq] at h
    exact h.2 ▸ List.suffix_cons _ _
  · simp only [Option.some.injEq, Prod.mk.injEq] at h
    exact h.2 ▸ List.suffix_cons _ _
  · simp at h

/-- Reads the attributes of an opening tag, with blanks before each, and the end of the tag. -/
def readAttributes (d : Dialect) (s : List Lexeme) :
    Option (List (QName × List Char) × Bool × List Lexeme) :=
  match readTagEnd (skipBlanks s) with
  | some (closed, rest) => some ([], closed, rest)
  | none =>
    match s with
    | [] => none
    | lexeme :: s =>
      if lexeme.isBlank then
        match _h : readAttribute d (skipBlanks s) with
        | some (a, rest) =>
          (readAttributes d rest).map fun (attributes, tail) => (a :: attributes, tail)
        | none => none
      else none
termination_by s.length
decreasing_by
  exact Nat.lt_succ_of_le ((suffix_readAttribute _h).trans (suffix_skipBlanks s)).length_le

theorem suffix_readAttributes {d : Dialect} {s rest : List Lexeme}
    {attributes : List (QName × List Char)} {closed : Bool}
    (h : readAttributes d s = some (attributes, closed, rest)) : rest <:+ s := by
  fun_induction readAttributes d s generalizing attributes with
  | case1 s closed' rest' h' =>
    simp only [Option.some.injEq, Prod.mk.injEq] at h
    obtain ⟨_, _, rfl⟩ := h
    exact (suffix_readTagEnd h').trans (suffix_skipBlanks s)
  | case2 => simp at h
  | case3 lexeme s _ a rest' ha _ ih =>
    simp only [Option.map_eq_some_iff, Prod.mk.injEq, Prod.exists] at h
    obtain ⟨attributes', closed', rest'', h', _, rfl, rfl⟩ := h
    have hrest := (suffix_readAttribute ha).trans (suffix_skipBlanks s)
    exact ((ih h').trans hrest).trans (List.suffix_cons _ _)
  | case4 => simp at h
  | case5 => simp at h

namespace Token

/-- Reads an opening tag behind its first mark. -/
def readOpening (d : Dialect) (s : List Lexeme) : Option (Token × List Lexeme) := do
  let (name, rest) ← readQName s
  let (attributes, closed, rest) ← readAttributes d rest
  return (opening name attributes closed, rest)

/-- Reads a closing tag behind its first mark. -/
def readClosing (s : List Lexeme) : Option (Token × List Lexeme) := do
  let (name, rest) ← readQName s
  let rest ← after? [.tagEnd] (skipBlanks rest)
  return (closing name, rest)

/-- Reads a comment behind its first mark. -/
def readComment (version : Version) (s : List Lexeme) : Option (Token × List Lexeme) := do
  let (body, rest) ← cutAt? [.commentEnd] s
  return (comment (← plainChars? version body), rest)

/-- Reads text that counts as it stands, behind its first mark. -/
def readVerbatim (version : Version) (s : List Lexeme) : Option (Token × List Lexeme) := do
  let (body, rest) ← cutAt? [.verbatimEnd] s
  return (verbatim (← plainChars? version body), rest)

/-- Reads an instruction behind its first mark. One blank parts the target and the data. -/
def readInstruction (version : Version) (s : List Lexeme) : Option (Token × List Lexeme) := do
  let (target, rest) ← readName s
  match rest with
  | .instructionEnd :: rest => return (instruction (String.ofList target) none, rest)
  | lexeme :: rest =>
    if lexeme.isBlank then
      let (data, rest) ← cutAt? [.instructionEnd] rest
      return (instruction (String.ofList target) (some (← plainChars? version data)), rest)
    else none
  | [] => none

/-- Reads the text at the front, which is up to the next markup. What entities say in it is read
behind the references to them. -/
def readText (d : Dialect) (s : List Lexeme) : Option (Token × List Lexeme) :=
  let body := s.takeWhile (!·.isMarkup)
  let rest := s.dropWhile (!·.isMarkup)
  if body.all Lexeme.isBlank then some (blanks (body.flatMap Lexeme.write), rest)
  else (expand d.silent body).map fun body => (text body, rest)

/-- Reads the token that a lexeme begins. -/
def read (d : Dialect) (lexeme : Lexeme) (s : List Lexeme) : Option (Token × List Lexeme) :=
  match lexeme with
  | .tagStart => readOpening d s
  | .closingStart => readClosing s
  | .instructionStart => readInstruction d.version s
  | .commentStart => readComment d.version s
  | .verbatimStart => readVerbatim d.version s
  | .doctypeStart => some (doctype, s)
  | .verbatimEnd => none
  | .declarationStart _ => none
  | lexeme => readText d (lexeme :: s)

section Suffix

variable {d : Dialect} {version : Version} {s rest : List Lexeme} {t : Token}

theorem suffix_readOpening (h : readOpening d s = some (t, rest)) : rest <:+ s := by
  simp only [readOpening, Option.bind_eq_bind, Option.bind_eq_some_iff, Option.pure_def,
    Option.some.injEq, Prod.mk.injEq, Prod.exists] at h
  obtain ⟨_, _, h₁, _, _, _, h₂, _, rfl⟩ := h
  exact (suffix_readAttributes h₂).trans (suffix_readQName h₁)

theorem suffix_readClosing (h : readClosing s = some (t, rest)) : rest <:+ s := by
  simp only [readClosing, Option.bind_eq_bind, Option.bind_eq_some_iff, Option.pure_def,
    Option.some.injEq, Prod.mk.injEq, Prod.exists] at h
  obtain ⟨_, _, h₁, _, h₂, _, rfl⟩ := h
  exact ((suffix_of_after? h₂).trans (suffix_skipBlanks _)).trans (suffix_readQName h₁)

theorem suffix_readComment (h : readComment version s = some (t, rest)) : rest <:+ s := by
  simp only [readComment, Option.bind_eq_bind, Option.bind_eq_some_iff, Option.pure_def,
    Option.some.injEq, Prod.mk.injEq, Prod.exists] at h
  obtain ⟨_, _, h₁, _, _, _, rfl⟩ := h
  exact suffix_of_cutAt? h₁

theorem suffix_readVerbatim (h : readVerbatim version s = some (t, rest)) : rest <:+ s := by
  simp only [readVerbatim, Option.bind_eq_bind, Option.bind_eq_some_iff, Option.pure_def,
    Option.some.injEq, Prod.mk.injEq, Prod.exists] at h
  obtain ⟨_, _, h₁, _, _, _, rfl⟩ := h
  exact suffix_of_cutAt? h₁

theorem suffix_readInstruction (h : readInstruction version s = some (t, rest)) : rest <:+ s := by
  simp only [readInstruction, Option.bind_eq_bind, Option.bind_eq_some_iff, Prod.exists] at h
  obtain ⟨_, r, h₁, h⟩ := h
  have hname := suffix_readName h₁
  split at h
  · simp only [Option.pure_def, Option.some.injEq, Prod.mk.injEq] at h
    obtain ⟨_, rfl⟩ := h
    exact (List.suffix_cons _ _).trans hname
  · split at h
    · simp only [Option.bind_eq_some_iff, Option.pure_def, Option.some.injEq, Prod.mk.injEq,
        Prod.exists] at h
      obtain ⟨_, _, h₂, _, _, _, rfl⟩ := h
      exact ((suffix_of_cutAt? h₂).trans (List.suffix_cons _ _)).trans hname
    · simp at h
  · simp at h

theorem suffix_readText {lexeme : Lexeme} (hm : lexeme.isMarkup = false)
    (h : readText d (lexeme :: s) = some (t, rest)) : rest <:+ s := by
  have hs : (lexeme :: s).dropWhile (!·.isMarkup) <:+ s := by
    rw [List.dropWhile_cons_of_pos (by simp [hm])]
    exact List.dropWhile_suffix _
  simp only [readText] at h
  split at h
  · simp only [Option.some.injEq, Prod.mk.injEq] at h
    exact h.2 ▸ hs
  · simp only [Option.map_eq_some_iff, Prod.mk.injEq] at h
    obtain ⟨_, _, _, rfl⟩ := h
    exact hs

theorem suffix_read {lexeme : Lexeme} (h : read d lexeme s = some (t, rest)) : rest <:+ s := by
  unfold read at h
  split at h
  · exact suffix_readOpening h
  · exact suffix_readClosing h
  · exact suffix_readInstruction h
  · exact suffix_readComment h
  · exact suffix_readVerbatim h
  · simp only [Option.some.injEq, Prod.mk.injEq] at h
    exact h.2 ▸ List.suffix_rfl
  · simp at h
  · simp at h
  · have hm : lexeme.isMarkup = false := by
      cases lexeme <;> simp_all [Lexeme.isMarkup]
    exact suffix_readText hm h

end Suffix

/-- Puts lexemes together to tokens. -/
def readAll (d : Dialect) : List Lexeme → Option (List Token)
  | [] => some []
  | lexeme :: s =>
    match _h : read d lexeme s with
    | some (t, rest) => (readAll d rest).map (t :: ·)
    | none => none
termination_by s => s.length
decreasing_by exact Nat.lt_succ_of_le (suffix_read _h).length_le

/-- An attribute as it is written. -/
def writeAttribute (a : QName × List Char) : List Char :=
  ' ' :: (a.1.write ++ '=' :: '"' :: (escape valueReference? a.2 ++ ['"']))

/-- A token as it is written. -/
def write : Token → List Char
  | opening name attributes closed =>
    '<' :: (name.write ++ attributes.flatMap writeAttribute ++
      (if closed then " />".toList else ['>']))
  | closing name => '<' :: '/' :: (name.write ++ ['>'])
  | blanks body => body
  | text body => escape textReference? body
  | verbatim body => "<![CDATA[".toList ++ body ++ "]]>".toList
  | comment body => "<!--".toList ++ body ++ "-->".toList
  | instruction target data =>
    '<' :: '?' :: (target.toList ++ (data.map (' ' :: ·)).getD [] ++ ['?', '>'])
  | doctype => "<!DOCTYPE>".toList

end Token

end ModelIR.Xml
