import Mathlib.Logic.Basic
import Mathlib.Tactic.SplitIfs
import Mathlib.Tactic.Tauto
import ModelIR.Proofs.Lexing
import ModelIR.Xml.Reference

/-!
# Lexemes of what is written

The lexemes of a name, of escaped text and of each kind of token, and what has to stand behind them
for the text to be taken apart into them. Characters that no mark begins with are always taken as
they are (`Lexed.chars`); behind escaped text no bracket may complete a mark (`Lexed.escaped`).
-/

namespace ModelIR.Xml

variable {mode : Mode} {region : Region} {ls : List Lexeme} {c : Char} {s : List Char}

/-- The content of a document. -/
abbrev content : Mode := .plain .content

/-- Whether no mark of content begins with a character. -/
def isQuiet (c : Char) : Bool :=
  c ∉ ['<', '>', '"', '\'', '&', ';', '/', '=', ']']

theorem isQuiet_of_isNameChar (h : isNameChar c = true) : isQuiet c = true := by
  rw [isQuiet, decide_eq_true_eq]
  intro hc
  simp only [List.mem_cons, List.not_mem_nil, or_false] at hc
  rcases hc with rfl | rfl | rfl | rfl | rfl | rfl | rfl | rfl | rfl <;> revert h <;> decide

/-- No mark begins where none of the marks has the first character. -/
theorem firstMark?_eq_none {marks : List (Lexeme × Mode)}
    (h : ∀ mark ∈ marks, mark.1.write.head? ≠ some c) : firstMark? marks (c :: s) = none := by
  refine List.findSome?_eq_none_iff.2 fun mark hmark => ?_
  have hc := h mark hmark
  rcases hw : mark.1.write with _ | ⟨m, rest⟩
  · exact absurd hw (write_ne_nil _)
  · rw [hw, List.head?_cons, ne_eq, Option.some.injEq] at hc
    simp [hw, after?, hc]

theorem nextLexeme?_quiet (h : isQuiet c = true) :
    nextLexeme? content c s = some (.char c, content, s) := by
  have hmarks : ∀ mark ∈ contentMarks, mark.1.write.head?.all (!isQuiet ·) = true := by decide
  have hnone : firstMark? contentMarks (c :: s) = none := by
    refine firstMark?_eq_none fun mark hmark hhead => ?_
    have hloud := hmarks mark hmark
    rw [hhead, Option.all_some, h] at hloud
    simp at hloud
  have hopen : c ≠ '<' := by
    rintro rfl
    simp [isQuiet] at h
  simp [nextLexeme?, Mode.marks, hnone, standsAlone, hopen]

/-- Quiet characters are taken as they are. -/
theorem Lexed.chars (h : Lexed content ls) : ∀ {s : List Char}, s.all isQuiet = true →
    Lexed content (s.map .char ++ ls)
  | [], _ => h
  | c :: s, hs => by
    rw [List.all_cons, Bool.and_eq_true] at hs
    exact (h.chars hs.2).cons (nextLexeme?_quiet hs.1)

/-! ## Escaped text -/

/-- The lexeme of a character that stands for itself in text. -/
def plainLexeme (c : Char) : Lexeme :=
  if c = '=' then .equals
  else if c = ';' then .referenceEnd
  else if c = '"' || c = '\'' then .quote c
  else .char c

theorem plainLexeme_cases (c : Char) : c = '=' ∨ c = ';' ∨ c = '"' ∨ c = '\'' ∨
    (c ≠ '=' ∧ c ≠ ';' ∧ c ≠ '"' ∧ c ≠ '\'') ∧ plainLexeme c = .char c := by
  by_cases hsign : c = '=' ∨ c = ';' ∨ c = '"' ∨ c = '\''
  · tauto
  · simp only [not_or] at hsign
    exact .inr (.inr (.inr (.inr ⟨hsign, by simp [plainLexeme, hsign]⟩)))

theorem write_plainLexeme (c : Char) : (plainLexeme c).write = [c] := by
  rcases plainLexeme_cases c with rfl | rfl | rfl | rfl | ⟨-, h⟩
  iterate 4 rfl
  rw [h]
  rfl

/-- What may stand behind text: nothing that a slash or brackets in the text make a mark with. -/
def Follows (s : List Char) : Prop :=
  s.head? ≠ some '>' ∧ s.take 2 ≠ [']', '>']

theorem Follows.cons (h : s.head? ≠ some '>') (hc : c ≠ '>') : Follows (c :: s) := by
  refine ⟨by simpa using hc, ?_⟩
  rcases s with _ | ⟨d, s⟩
  · simp
  · rw [List.head?_cons, ne_eq, Option.some.injEq] at h
    simp [h]

theorem Follows.of_ne (hc : c ≠ '>' ∧ c ≠ ']') : Follows (c :: s) := by
  refine ⟨by simpa using hc.1, ?_⟩
  rcases s with _ | ⟨d, s⟩ <;> simp [hc.2]

theorem nextLexeme?_slash (hs : s.head? ≠ some '>') :
    nextLexeme? content '/' s = some (.char '/', content, s) := by
  have hmark : firstMark? contentMarks ('/' :: s) = none := by
    rcases s with _ | ⟨d, s⟩
    · rfl
    · rw [List.head?_cons, ne_eq, Option.some.injEq] at hs
      simp [firstMark?, contentMarks, plainMarks, Lexeme.write, after?, Ne.symm hs]
  simp [nextLexeme?, Mode.marks, hmark, standsAlone]

theorem nextLexeme?_bracket (hs : s.take 2 ≠ [']', '>']) :
    nextLexeme? content ']' s = some (.char ']', content, s) := by
  have hmark : firstMark? contentMarks (']' :: s) = none := by
    rcases s with _ | ⟨d, _ | ⟨d', s⟩⟩
    · rfl
    · simp [firstMark?, contentMarks, plainMarks, Lexeme.write, after?]
    · simp only [List.take_succ_cons, List.take_zero, ne_eq, List.cons.injEq, and_true,
        not_and] at hs
      simp [firstMark?, contentMarks, plainMarks, Lexeme.write, after?]
      exact fun h h' => hs h.symm h'.symm
  simp [nextLexeme?, Mode.marks, hmark, standsAlone]

theorem firstLexeme?_plainLexeme (hc : c ≠ '<' ∧ c ≠ '>' ∧ c ≠ '&') (hs : Follows s) :
    firstLexeme? content (c :: s) = some (plainLexeme c, content, s) := by
  rcases plainLexeme_cases c with rfl | rfl | rfl | rfl | ⟨hsign, h⟩
  iterate 4 rfl
  · rw [h]
    by_cases hquiet : isQuiet c
    · exact nextLexeme?_quiet hquiet
    · have hrest : c = '/' ∨ c = ']' := by
        simp only [isQuiet, decide_eq_true_eq, not_not, List.mem_cons, List.not_mem_nil,
          or_false] at hquiet
        tauto
      rcases hrest with rfl | rfl
      · exact nextLexeme?_slash hs.1
      · exact nextLexeme?_bracket hs.2

/-- The lexemes of escaped text. -/
def escapedLexemes (reference : Char → Option String) (text : List Char) : List Lexeme :=
  text.flatMap fun c =>
    match reference c with
    | some name => .referenceStart :: (name.toList.map .char ++ [.referenceEnd])
    | none => [plainLexeme c]

theorem spell_escapedLexemes (reference : Char → Option String) (text : List Char) :
    spell (escapedLexemes reference text) = escape reference text := by
  induction text with
  | nil => rfl
  | cons c text ih =>
    rw [escapedLexemes, escape, List.flatMap_cons, List.flatMap_cons, spell_append]
    refine congrArg₂ (· ++ ·) ?_ ih
    rcases reference c with _ | name
    · simp [spell, write_plainLexeme]
    · simp only [spell_cons, spell_append, spell_chars]
      rfl

/-- References are made of quiet characters, and stand for the characters that are written so. The
characters that open or close a mark have one. -/
structure IsEscaping (reference : Char → Option String) : Prop where
  quiet : ∀ c name, reference c = some name → name.toList.all isQuiet = true
  reads : ∀ c name, reference c = some name → reference? {} name.toList = some [c]
  escapes : ∀ c, reference c = none → c ≠ '<' ∧ c ≠ '>' ∧ c ≠ '&'

theorem isEscaping_textReference : IsEscaping textReference? where
  quiet c name h := by
    unfold textReference? at h
    split at h <;> simp only [Option.some.injEq, reduceCtorEq] at h <;> subst h <;> decide
  reads c name h := by
    unfold textReference? at h
    split at h <;> simp only [Option.some.injEq, reduceCtorEq] at h <;> subst h <;> decide
  escapes c h := by
    unfold textReference? at h
    split at h <;> simp_all

theorem isEscaping_valueReference : IsEscaping valueReference? where
  quiet c name h := by
    unfold valueReference? at h
    split at h
    iterate 4 (obtain rfl := Option.some.inj h; decide)
    exact isEscaping_textReference.quiet c name h
  reads c name h := by
    unfold valueReference? at h
    split at h
    iterate 4 (obtain rfl := Option.some.inj h; decide)
    exact isEscaping_textReference.reads c name h
  escapes c h := by
    unfold valueReference? at h
    split at h
    iterate 4 simp at h
    exact isEscaping_textReference.escapes c h

section Escaped

variable {reference : Char → Option String} (escaping : IsEscaping reference)

include escaping

theorem IsEscaping.follows (h : Follows s) : ∀ text : List Char,
    Follows (escape reference text ++ s)
  | [] => h
  | c :: text => by
    have ih := IsEscaping.follows h text
    rw [escape, List.flatMap_cons, List.append_assoc]
    rcases hc : reference c with _ | name
    · exact .cons ih.1 (escaping.escapes c hc).2.1
    · exact .of_ne (by decide)

/-- Escaped text is taken apart as it is written. -/
theorem Lexed.escaped (h : Lexed content ls) (hf : Follows (spell ls)) :
    ∀ text : List Char, Lexed content (escapedLexemes reference text ++ ls)
  | [] => h
  | c :: text => by
    have ih := h.escaped hf text
    have hfollows : Follows (spell (escapedLexemes reference text ++ ls)) := by
      rw [spell_append, spell_escapedLexemes]
      exact escaping.follows hf text
    rw [escapedLexemes, List.flatMap_cons, List.append_assoc]
    rcases hc : reference c with _ | name
    · refine ih.cons ?_
      rw [spell_cons, write_plainLexeme]
      exact firstLexeme?_plainLexeme (escaping.escapes c hc) hfollows
    · have hend : Lexed content (.referenceEnd :: (escapedLexemes reference text ++ ls)) :=
        ih.cons rfl
      have hname := hend.chars (escaping.quiet c name hc)
      rw [← List.singleton_append (l := escapedLexemes reference text ++ ls),
        ← List.append_assoc] at hname
      exact hname.cons rfl

end Escaped

end ModelIR.Xml
