import ModelIR.Proofs.WrittenLexemes
import ModelIR.Xml.Declaration
import ModelIR.Xml.Scope

/-!
# Written tokens

A plain token has no prefix and declares none, and holds what a token of its kind can. What it is
written to (`spell_lexemes`) is taken apart into its lexemes, whatever stands behind it that does
not complete a mark (`Lexed.token`). For this its text may be made of any
characters.
-/

namespace ModelIR.Xml

variable {ls : List Lexeme} {c : Char} {s : List Char} {C : Char → Bool}

/-- Whether characters make a name, colons included. -/
def isName : List Char → Bool
  | [] => false
  | c :: s => isNameStart c && (c :: s).all isNameChar

/-- A name without a prefix. -/
structure QName.IsLocal (q : QName) : Prop where
  nsPrefix : q.nsPrefix = none
  name : isName q.name.toList = true
  no_colon : ':' ∉ q.name.toList

/-- Whether a comment may have a body: no two dashes meet in it or at its end. -/
def isCommentBody : List Char → Bool
  | [] => true
  | c :: s => !(c = '-' && s.head?.getD '-' = '-') && isCommentBody s

/-- Whether an instruction may have some data: no mark that ends it stands in them. -/
def isInstructionData : List Char → Bool
  | [] => true
  | c :: s => !(c = '?' && s.head? = some '>') && isInstructionData s

namespace Token

/-- A token of a document without namespaces, with text of some characters. -/
def PlainWith (C : Char → Bool) : Token → Prop
  | opening name attributes _ => name.IsLocal ∧
    ∀ a ∈ attributes, a.1.IsLocal ∧ a.1.name ≠ Scope.xmlnsPrefix ∧ a.2.all C = true
  | closing name => name.IsLocal
  | blanks body => body.all isBlank = true
  | text body => body.all C = true
  | verbatim body => body.all C = true
  | comment body => body.all C = true ∧ isCommentBody body = true
  | instruction target data => isName target.toList = true ∧
    ∀ body ∈ data, body.all C = true ∧ isInstructionData body = true
  | doctype => True

/-- A token of a document without namespaces, made of characters that a document may hold. -/
abbrev Plain : Token → Prop :=
  PlainWith isChar

/-- The lexemes of an attribute. -/
def attributeLexemes (a : QName × List Char) : List Lexeme :=
  .char ' ' :: (a.1.write.map .char ++ .equals :: .quote '"' ::
    (escapedLexemes valueReference? a.2 ++ [.quote '"']))

/-- The lexemes of a token that is written. No verbatim text and no document type is. -/
def lexemes : Token → List Lexeme
  | opening name attributes closed => .tagStart :: (name.write.map .char ++
      (attributes.flatMap attributeLexemes ++
        if closed then [.char ' ', .emptyTagEnd] else [.tagEnd]))
  | closing name => .closingStart :: (name.write.map .char ++ [.tagEnd])
  | blanks body => escapedLexemes textReference? body
  | text body => escapedLexemes textReference? body
  | comment body => .commentStart :: (body.map .char ++ [.commentEnd])
  | instruction target data => .instructionStart :: (target.toList.map .char ++
      ((data.map fun body => .char ' ' :: body.map dataLexeme).getD [] ++ [.instructionEnd]))
  | verbatim _ => []
  | doctype => []

/-- Whether a token is markup that is written. -/
def isWrittenMarkup : Token → Bool
  | opening .. | closing _ | comment _ | instruction .. => true
  | _ => false

/-- Whether a token is text that is written. -/
def isWrittenText : Token → Bool
  | blanks _ | text _ => true
  | _ => false

end Token

theorem mem_of_isName {c : Char} (h : isName s = true) (hc : c ∈ s) : isNameChar c = true := by
  rcases s with _ | ⟨d, s⟩
  · simp at hc
  · rw [isName, Bool.and_eq_true] at h
    exact List.all_eq_true.1 h.2 c hc

theorem exists_of_isName (h : isName s = true) : ∃ c s', s = c :: s' ∧ isNameStart c = true := by
  rcases s with _ | ⟨c, s⟩
  · simp [isName] at h
  · rw [isName, Bool.and_eq_true] at h
    exact ⟨c, s, rfl, h.1⟩

theorem QName.IsLocal.write {q : QName} (h : q.IsLocal) : q.write = q.name.toList := by
  rw [QName.write, h.nsPrefix]

/-! ## Taking written tokens apart -/

/-- A bracket before a name opens a tag. -/
theorem firstLexeme?_tagStart (hc : isNameStart c = true) :
    firstLexeme? content ('<' :: c :: s) = some (.tagStart, content, c :: s) := by
  have hne : ∀ d ∈ ['?', '/', '!'], d ≠ c := by
    rintro d hd rfl
    simp only [List.mem_cons, List.not_mem_nil, or_false] at hd
    rcases hd with rfl | rfl | rfl <;> revert hc <;> decide
  have hmark : firstMark? contentMarks ('<' :: c :: s) = none := by
    simp [firstMark?, contentMarks, plainMarks, Lexeme.write, after?, hne]
  have hname : isNameChar c = true := by rw [isNameChar, hc, Bool.true_or]
  simp [firstLexeme?, nextLexeme?, Mode.marks, hmark, standsAlone, opensTag, hname]

theorem Lexed.name (h : Lexed content ls) (hs : isName s = true) :
    Lexed content (s.map .char ++ ls) :=
  h.chars (List.all_eq_true.2 fun _ hc => isQuiet_of_isNameChar (mem_of_isName hs hc))

theorem Lexed.attribute {a : QName × List Char} (h : Lexed content ls) (ha : a.1.IsLocal) :
    Lexed content (Token.attributeLexemes a ++ ls) := by
  have hquote : Lexed content (.quote '"' :: ls) := h.cons rfl
  have hvalue := hquote.escaped isEscaping_valueReference (.of_ne (by decide)) a.2
  have hopen : Lexed content
      (.quote '"' :: (escapedLexemes valueReference? a.2 ++ .quote '"' :: ls)) :=
    hvalue.cons rfl
  have hequals : Lexed content (.equals :: .quote '"' ::
      (escapedLexemes valueReference? a.2 ++ .quote '"' :: ls)) := hopen.cons rfl
  have hname := hequals.name ha.name
  rw [Token.attributeLexemes, ha.write]
  simp only [List.cons_append, List.append_assoc, List.nil_append]
  exact hname.chars (s := [' ']) (by decide)

theorem Lexed.attributes (h : Lexed content ls) : ∀ {attributes : List (QName × List Char)},
    (∀ a ∈ attributes, a.1.IsLocal) →
    Lexed content (attributes.flatMap Token.attributeLexemes ++ ls)
  | [], _ => h
  | a :: attributes, ha => by
    obtain ⟨ha, hrest⟩ := List.forall_mem_cons.1 ha
    rw [List.flatMap_cons, List.append_assoc]
    exact (h.attributes hrest).attribute ha

theorem Lexed.opening {name : QName} {attributes : List (QName × List Char)} (closed : Bool)
    (h : Lexed content ls) (hname : name.IsLocal) (ha : ∀ a ∈ attributes, a.1.IsLocal) :
    Lexed content ((Token.opening name attributes closed).lexemes ++ ls) := by
  have hend : Lexed content ((if closed then [.char ' ', .emptyTagEnd] else [.tagEnd]) ++ ls) := by
    cases closed
    · exact h.cons rfl
    · have hempty : Lexed content (.emptyTagEnd :: ls) := h.cons rfl
      exact hempty.chars (s := [' ']) (by decide)
  have hlexed := (hend.attributes ha).name hname.name
  rw [Token.lexemes, hname.write]
  simp only [List.cons_append, List.append_assoc]
  refine hlexed.cons ?_
  obtain ⟨c, s, hs, hc⟩ := exists_of_isName hname.name
  rw [hs]
  exact firstLexeme?_tagStart hc

theorem Lexed.closing {name : QName} (h : Lexed content ls) (hname : name.IsLocal) :
    Lexed content ((Token.closing name).lexemes ++ ls) := by
  have hend : Lexed content (.tagEnd :: ls) := h.cons rfl
  have hlexed := hend.name hname.name
  rw [Token.lexemes, hname.write]
  simp only [List.cons_append, List.append_assoc, List.nil_append]
  exact hlexed.cons rfl

theorem nextLexeme?_comment {region : Region} (h : (c = '-' && s.head? = some '-') = false) :
    nextLexeme? (.comment region) c s = some (.char c, .comment region, s) := by
  have hmark : firstMark? [(Lexeme.commentEnd, .plain region)] (c :: s) = none := by
    rcases s with _ | ⟨d, s⟩
    · by_cases hc : '-' = c <;> simp [firstMark?, Lexeme.write, after?, hc]
    · by_cases hc : '-' = c
      · subst hc
        have hd : '-' ≠ d := by
          rintro rfl
          simp at h
        simp [firstMark?, Lexeme.write, after?, hd]
      · simp [firstMark?, Lexeme.write, after?, hc]
  simp [nextLexeme?, Mode.marks, hmark, standsAlone, h]

/-- The body of a comment is taken as it is. -/
theorem Lexed.commentBody {region : Region} (h : Lexed (.plain region) ls) :
    ∀ {body : List Char}, isCommentBody body = true →
      Lexed (.comment region) (body.map .char ++ .commentEnd :: ls)
  | [], _ => h.cons rfl
  | c :: body, hbody => by
    rw [isCommentBody, Bool.and_eq_true, Bool.not_eq_true'] at hbody
    refine (h.commentBody hbody.2).cons (nextLexeme?_comment ?_)
    change (c = '-' && (spell (body.map .char ++ .commentEnd :: ls)).head? = some '-') = false
    rw [spell_append, spell_chars]
    rcases body with _ | ⟨d, body⟩
    · have hend : (spell (.commentEnd :: ls)).head? = some '-' := rfl
      simpa [hend] using hbody.1
    · simp only [List.cons_append, List.head?_cons, Option.some.injEq]
      exact hbody.1

theorem Lexed.comment {body : List Char} (h : Lexed content ls)
    (hbody : isCommentBody body = true) :
    Lexed content ((Token.comment body).lexemes ++ ls) := by
  have hlexed := h.commentBody hbody
  rw [Token.lexemes]
  simp only [List.cons_append, List.append_assoc, List.nil_append]
  exact hlexed.cons rfl

theorem write_dataLexeme (c : Char) : (dataLexeme c).write = [c] := by
  unfold dataLexeme
  split_ifs <;> first | rfl | (subst_vars; rfl)

theorem spell_data (body : List Char) : spell (body.map dataLexeme) = body := by
  induction body with
  | nil => rfl
  | cons c body ih => rw [List.map_cons, spell_cons, write_dataLexeme, ih]; rfl

theorem firstLexeme?_data {region : Region} (h : (c = '?' && s.head? = some '>') = false) :
    firstLexeme? (.instruction region) (c :: s) = some (dataLexeme c, .instruction region, s) := by
  unfold dataLexeme
  split_ifs with h₁ h₂ h₃ h₄ h₅ h₆
  · subst h₁; rfl
  · subst h₂; rfl
  · subst h₃; rfl
  · rw [Bool.or_eq_true, decide_eq_true_eq, decide_eq_true_eq] at h₄
    rcases h₄ with rfl | rfl <;> rfl
  · subst h₅; rfl
  · subst h₆; rfl
  · rw [Bool.or_eq_true, decide_eq_true_eq, decide_eq_true_eq, not_or] at h₄
    have hmark : firstMark? (instructionMarks region) (c :: s) = none := by
      by_cases hq : c = '?'
      · subst hq
        rcases s with _ | ⟨d, s⟩
        · simp [firstMark?, instructionMarks, Lexeme.write, after?]
        · have hd : '>' ≠ d := by
            rintro rfl
            simp at h
          simp [firstMark?, instructionMarks, Lexeme.write, after?, hd]
      · simp [firstMark?, instructionMarks, Lexeme.write, after?, Ne.symm hq, Ne.symm h₁,
          Ne.symm h₂, Ne.symm h₃, Ne.symm h₄.1, Ne.symm h₄.2, Ne.symm h₅, Ne.symm h₆]
    simp [firstLexeme?, nextLexeme?, Mode.marks, hmark, standsAlone]

/-- The data of an instruction are taken apart character by character. -/
theorem Lexed.data {region : Region} (h : Lexed (.plain region) ls) :
    ∀ {body : List Char}, isInstructionData body = true →
      Lexed (.instruction region) (body.map dataLexeme ++ .instructionEnd :: ls)
  | [], _ => h.cons rfl
  | c :: body, hbody => by
    rw [isInstructionData, Bool.and_eq_true, Bool.not_eq_true'] at hbody
    refine (h.data hbody.2).cons ?_
    rw [spell_cons, write_dataLexeme]
    refine firstLexeme?_data ?_
    rw [spell_append, spell_data]
    rcases body with _ | ⟨d, body⟩
    · have hend : (spell (.instructionEnd :: ls)).head? = some '?' := rfl
      simp [hend]
    · simpa using hbody.1

theorem dataLexeme_of_isNameChar (hc : isNameChar c = true) : dataLexeme c = .char c := by
  have hquiet := isQuiet_of_isNameChar hc
  simp only [isQuiet, decide_eq_true_eq, List.mem_cons, List.not_mem_nil, or_false, not_or]
    at hquiet
  simp [dataLexeme, hquiet]

theorem isInstructionData_append : ∀ {s : List Char}, (∀ c ∈ s, isNameChar c = true) →
    ∀ {body : List Char}, isInstructionData body = true → isInstructionData (s ++ body) = true
  | [], _, _, hbody => hbody
  | c :: s, hs, body, hbody => by
    obtain ⟨hc, hs⟩ := List.forall_mem_cons.1 hs
    have hne : c ≠ '?' := by
      rintro rfl
      revert hc
      decide
    rw [List.cons_append, isInstructionData, isInstructionData_append hs hbody]
    simp [hne]

theorem Lexed.instruction {target : String} {data : Option (List Char)} (h : Lexed content ls)
    (htarget : isName target.toList = true)
    (hdata : ∀ body ∈ data, isInstructionData body = true) :
    Lexed content ((Token.instruction target data).lexemes ++ ls) := by
  have hchars : ∀ c ∈ target.toList, isNameChar c = true := fun c => mem_of_isName htarget
  have hmap : target.toList.map dataLexeme = target.toList.map .char :=
    List.map_congr_left fun c hc => dataLexeme_of_isNameChar (hchars c hc)
  have hall : isInstructionData (target.toList ++ (data.map (' ' :: ·)).getD []) = true := by
    refine isInstructionData_append hchars ?_
    rcases data with _ | body
    · rfl
    · simpa [isInstructionData] using hdata body rfl
  have hlexed : Lexed (.instruction .content) _ := h.data hall
  have hbody : (target.toList ++ (data.map (' ' :: ·)).getD []).map dataLexeme =
      target.toList.map .char ++
        (data.map fun body => .char ' ' :: body.map dataLexeme).getD [] := by
    rw [List.map_append, hmap]
    rcases data with _ | body
    · rfl
    · rfl
  rw [hbody] at hlexed
  rw [Token.lexemes]
  simp only [List.cons_append, List.append_assoc, List.nil_append] at hlexed ⊢
  exact hlexed.cons rfl

/-- A written token is taken apart into its lexemes. -/
theorem Lexed.token (h : Lexed content ls) (hf : Follows (spell ls)) {t : Token}
    (ht : t.PlainWith C) :
    Lexed content (t.lexemes ++ ls) := by
  cases t with
  | opening name attributes closed => exact h.opening closed ht.1 fun a ha => (ht.2 a ha).1
  | closing name => exact h.closing ht
  | blanks body => exact h.escaped isEscaping_textReference hf body
  | text body => exact h.escaped isEscaping_textReference hf body
  | verbatim body => exact h
  | comment body => exact h.comment ht.2
  | instruction target data => exact h.instruction ht.1 fun body hbody => (ht.2 body hbody).2
  | doctype => exact h

theorem follows_lexemes {t : Token} (hf : Follows s) : Follows (spell t.lexemes ++ s) := by
  cases t with
  | blanks body =>
    rw [Token.lexemes, spell_escapedLexemes]
    exact isEscaping_textReference.follows hf body
  | text body =>
    rw [Token.lexemes, spell_escapedLexemes]
    exact isEscaping_textReference.follows hf body
  | verbatim body => exact hf
  | doctype => exact hf
  | _ => exact .of_ne (by decide)

theorem follows_tokens (hf : Follows (spell ls)) : ∀ tokens : List Token,
    Follows (spell (tokens.flatMap Token.lexemes ++ ls))
  | [] => hf
  | t :: tokens => by
    rw [List.flatMap_cons, List.append_assoc, spell_append]
    exact follows_lexemes (follows_tokens hf tokens)

/-- Written tokens are taken apart into their lexemes. -/
theorem Lexed.tokens (h : Lexed content ls) (hf : Follows (spell ls)) : ∀ {tokens : List Token},
    (∀ t ∈ tokens, t.PlainWith C) → Lexed content (tokens.flatMap Token.lexemes ++ ls)
  | [], _ => h
  | t :: tokens, ht => by
    obtain ⟨ht, hrest⟩ := List.forall_mem_cons.1 ht
    rw [List.flatMap_cons, List.append_assoc]
    exact (h.tokens hf hrest).token (follows_tokens hf tokens) ht

theorem spell_attributeLexemes {a : QName × List Char} :
    spell (Token.attributeLexemes a) = Token.writeAttribute a := by
  simp only [Token.attributeLexemes, Token.writeAttribute, spell_cons, spell_append, spell_chars,
    spell_escapedLexemes]
  rfl

theorem spell_attributes : ∀ attributes : List (QName × List Char),
    spell (attributes.flatMap Token.attributeLexemes) = attributes.flatMap Token.writeAttribute
  | [] => rfl
  | a :: attributes => by
    rw [List.flatMap_cons, List.flatMap_cons, spell_append, spell_attributeLexemes,
      spell_attributes attributes]

theorem escape_blanks : ∀ {body : List Char}, body.all isBlank = true →
    escape textReference? body = body
  | [], _ => rfl
  | c :: body, h => by
    rw [List.all_cons, Bool.and_eq_true] at h
    rw [escape, List.flatMap_cons]
    have hc : textReference? c = none := by
      have := h.1
      simp only [isBlank, Bool.or_eq_true, decide_eq_true_eq] at this
      rcases this with ((rfl | rfl) | rfl) | rfl <;> rfl
    rw [hc]
    exact congrArg (c :: ·) (escape_blanks h.2)

/-- The lexemes of a token are written as the token is. -/
theorem spell_lexemes {t : Token} (ht : t.PlainWith C)
    (hw : t.isWrittenMarkup = true ∨ t.isWrittenText = true) : spell t.lexemes = t.write := by
  cases t with
  | opening name attributes closed =>
    have hend : spell (if closed then [.char ' ', .emptyTagEnd] else [.tagEnd]) =
        if closed then " />".toList else ['>'] := by
      cases closed <;> rfl
    change _ = '<' :: (name.write ++ attributes.flatMap Token.writeAttribute ++
      if closed then " />".toList else ['>'])
    rw [Token.lexemes, spell_cons, spell_append, spell_append, spell_chars, spell_attributes, hend,
      ← List.append_assoc name.write]
    rfl
  | closing name =>
    simp only [Token.lexemes, spell_cons, spell_append, spell_chars]
    rfl
  | blanks body =>
    rw [Token.lexemes, spell_escapedLexemes, escape_blanks ht]
    rfl
  | text body =>
    rw [Token.lexemes, spell_escapedLexemes]
    rfl
  | comment body =>
    simp only [Token.lexemes, spell_cons, spell_append, spell_chars]
    change _ = ['<', '!', '-', '-'] ++ body ++ ['-', '-', '>']
    rw [List.append_assoc]
    rfl
  | instruction target data =>
    change _ = '<' :: '?' :: (target.toList ++ (data.map (' ' :: ·)).getD [] ++ ['?', '>'])
    simp only [Token.lexemes, spell_cons, spell_append, spell_chars]
    rcases data with _ | body <;> simp [spell_cons, spell_nil, spell_data, Lexeme.write]
  | verbatim body => simp [Token.isWrittenMarkup, Token.isWrittenText] at hw
  | doctype => simp [Token.isWrittenMarkup, Token.isWrittenText] at hw

end ModelIR.Xml
