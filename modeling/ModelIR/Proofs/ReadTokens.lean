import Mathlib.Data.List.TakeWhile
import ModelIR.Proofs.WrittenTokens

/-!
# Reading written tokens

From the lexemes of a written token the token is read back: its names (`readQName_chars`), its
escaped text (`expand_escapedLexemes`), its attributes (`readAttributes_lexemes`), and so the whole
of it (`readAll_markup`).
-/

namespace ModelIR.Xml

variable {ls : List Lexeme} {c : Char} {s : List Char}

theorem takeChars_chars {p : Char → Bool} (hls : ∀ c ls', ls = .char c :: ls' → p c = false) :
    ∀ {s : List Char}, (∀ c ∈ s, p c = true) →
      takeChars p (s.map .char ++ ls) = s ∧ dropChars p (s.map .char ++ ls) = ls
  | [], _ => by
    rcases ls with _ | ⟨lexeme, ls⟩
    · exact ⟨rfl, rfl⟩
    · cases lexeme with
      | char c => simp [takeChars, dropChars, hls c ls rfl]
      | _ => exact ⟨rfl, rfl⟩
  | c :: s, hs => by
    obtain ⟨hc, hs⟩ := List.forall_mem_cons.1 hs
    obtain ⟨htake, hdrop⟩ := takeChars_chars hls hs
    simp [takeChars, dropChars, hc, htake, hdrop]

/-- Lexemes that do not go on with a name. -/
def EndsName (ls : List Lexeme) : Prop :=
  ∀ c ls', ls = .char c :: ls' → isNameChar c = false

theorem endsName_cons {lexeme : Lexeme} (h : ∀ c, lexeme = .char c → isNameChar c = false) :
    EndsName (lexeme :: ls) := by
  intro c ls' hls
  exact h c (List.cons.inj hls).1

theorem readName_chars (hs : isName s = true) (hls : EndsName ls) :
    readName (s.map .char ++ ls) = some (s, ls) := by
  obtain ⟨htake, hdrop⟩ := takeChars_chars hls fun c => mem_of_isName hs
  obtain ⟨c, s', rfl, hc⟩ := exists_of_isName hs
  rw [readName, htake, hdrop]
  simp [hc]

theorem ofChars?_name {q : QName} (hq : q.IsLocal) : QName.ofChars? q.name.toList = some q := by
  have hcolon : ∀ c ∈ q.name.toList, decide (c ≠ ':') = true := by
    intro c hc
    rw [decide_eq_true_eq]
    rintro rfl
    exact hq.no_colon hc
  have htake : q.name.toList.takeWhile (· ≠ ':') = q.name.toList :=
    List.takeWhile_eq_self_iff.2 hcolon
  have hdrop : q.name.toList.dropWhile (· ≠ ':') = [] := List.dropWhile_eq_nil_iff.2 hcolon
  have hne : q.name.toList ≠ [] := by
    obtain ⟨c, s, hs, -⟩ := exists_of_isName hq.name
    simp [hs]
  rw [QName.ofChars?, htake, if_neg hne, hdrop, String.ofList_toList]
  exact congrArg some (by cases q; simp [hq.nsPrefix.symm])

theorem readQName_chars {q : QName} (hq : q.IsLocal) (hls : EndsName ls) :
    readQName (q.write.map .char ++ ls) = some (q, ls) := by
  rw [readQName, hq.write, readName_chars hq.name hls]
  simp [ofChars?_name hq]

/-- References and plain lexemes say the text that they are written for. -/
theorem expandFrom_name (c : Char) : ∀ (name begun : List Char),
    reference? {} (begun.reverse ++ name) = some [c] →
    expandFrom {} (some begun) (name.map .char ++ .referenceEnd :: ls) =
      (expandFrom {} none ls).map (c :: ·)
  | [], begun, h => by
    rw [List.append_nil] at h
    change expandFrom {} (some begun) (.referenceEnd :: ls) = _
    rw [expandFrom_end, h, Option.bind_some]
    rfl
  | d :: name, begun, h => by
    have ih := expandFrom_name c name (d :: begun) (by simpa using h)
    rw [List.map_cons, List.cons_append, expandFrom_begun, ih]

theorem expand_plainLexeme (hc : isChar c = true) (hne : c ≠ '&') :
    expandFrom {} none (plainLexeme c :: ls) = (expandFrom {} none ls).map (c :: ·) := by
  rcases plainLexeme_cases c with rfl | rfl | rfl | rfl | ⟨-, h⟩
  iterate 4 rfl
  rw [h]
  exact expandFrom_char {} ls c hc

theorem expand_escapedLexemes {reference : Char → Option String} (escaping : IsEscaping reference) :
    ∀ {text : List Char}, text.all isChar = true →
      expand {} (escapedLexemes reference text) = some text
  | [], _ => rfl
  | c :: text, h => by
    rw [List.all_cons, Bool.and_eq_true] at h
    have ih := expand_escapedLexemes escaping h.2
    rw [expand] at ih
    rw [expand, escapedLexemes, List.flatMap_cons]
    change expandFrom {} none (_ ++ escapedLexemes reference text) = _
    rcases hc : reference c with _ | name
    · rw [List.singleton_append, expand_plainLexeme h.1 (escaping.escapes c hc).2.2, ih]
      rfl
    · have hname : expandFrom {} (some [])
          (name.toList.map .char ++ .referenceEnd :: escapedLexemes reference text) =
            (expandFrom {} none (escapedLexemes reference text)).map (c :: ·) :=
        expandFrom_name c name.toList [] (escaping.reads c name hc)
      simp only [List.cons_append, List.append_assoc, List.nil_append]
      rw [expandFrom_start, hname, ih]
      rfl

theorem cutAt?_singleton {α : Type} [DecidableEq α] {m : α} {l : List α} :
    ∀ {body : List α}, (∀ a ∈ body, a ≠ m) → cutAt? [m] (body ++ m :: l) = some (body, l)
  | [], _ => by simp [cutAt?, after?]
  | a :: body, h => by
    obtain ⟨ha, hbody⟩ := List.forall_mem_cons.1 h
    rw [List.cons_append, cutAt?]
    simp [after?, Ne.symm ha, cutAt?_singleton hbody]

theorem isMarkup_plainLexeme (c : Char) : (plainLexeme c).isMarkup = false := by
  unfold plainLexeme
  split_ifs <;> rfl

/-- Nothing in escaped text is markup. -/
theorem isMarkup_of_mem_escapedLexemes {reference : Char → Option String} {text : List Char}
    {lexeme : Lexeme} (h : lexeme ∈ escapedLexemes reference text) : lexeme.isMarkup = false := by
  obtain ⟨c, -, hc⟩ := List.mem_flatMap.1 h
  rcases hr : reference c with _ | name
  · rw [hr] at hc
    obtain rfl := List.mem_singleton.1 hc
    exact isMarkup_plainLexeme c
  · rw [hr] at hc
    simp only [List.mem_cons, List.mem_append, List.mem_map, List.not_mem_nil, or_false] at hc
    rcases hc with rfl | ⟨d, -, rfl⟩ | rfl <;> rfl

theorem ne_quote_of_mem_value {text : List Char} {lexeme : Lexeme}
    (h : lexeme ∈ escapedLexemes valueReference? text) : lexeme ≠ .quote '"' := by
  obtain ⟨c, -, hc⟩ := List.mem_flatMap.1 h
  rcases hr : valueReference? c with _ | name
  · rw [hr] at hc
    obtain rfl := List.mem_singleton.1 hc
    intro hquote
    unfold plainLexeme at hquote
    split_ifs at hquote
    obtain rfl := Lexeme.quote.inj hquote
    simp [valueReference?] at hr
  · rw [hr] at hc
    simp only [List.mem_cons, List.mem_append, List.mem_map, List.not_mem_nil, or_false] at hc
    rcases hc with rfl | ⟨d, -, rfl⟩ | rfl <;> nofun

/-- A value between quotes is read if it can be expanded. -/
theorem readValue_escaped (value : List Char) :
    readValue {} (.quote '"' :: (escapedLexemes valueReference? value ++ .quote '"' :: ls)) =
      (expand {} (escapedLexemes valueReference? value)).map (·, ls) := by
  have hmarkup : ∀ lexeme ∈ [Lexeme.tagStart, .instructionStart],
      lexeme ∉ escapedLexemes valueReference? value := by
    intro lexeme hlexeme hmem
    have := isMarkup_of_mem_escapedLexemes hmem
    simp only [List.mem_cons, List.not_mem_nil, or_false] at hlexeme
    rcases hlexeme with rfl | rfl <;> simp [Lexeme.isMarkup] at this
  have hvalue : valueOf? {} (escapedLexemes valueReference? value) =
      expand {} (escapedLexemes valueReference? value) :=
    if_neg (not_or.2 ⟨hmarkup _ (by simp), hmarkup _ (by simp)⟩)
  rw [readValue, cutAt?_singleton fun lexeme => ne_quote_of_mem_value]
  simp only [Option.bind_eq_bind, Option.bind_some, hvalue]
  rcases expand {} (escapedLexemes valueReference? value) with _ | text <;> rfl

theorem isBlank_of_isNameStart (hc : isNameStart c = true) : isBlank c = false := by
  rw [← Bool.not_eq_true]
  intro hblank
  simp only [isBlank, Bool.or_eq_true, decide_eq_true_eq] at hblank
  rcases hblank with ((rfl | rfl) | rfl) | rfl <;> revert hc <;> decide

theorem skipBlanks_name (hs : isName s = true) :
    skipBlanks (s.map .char ++ ls) = s.map .char ++ ls := by
  obtain ⟨c, s', rfl, hc⟩ := exists_of_isName hs
  simp [skipBlanks, dropChars, isBlank_of_isNameStart hc]

theorem readAttribute_escaped {a : QName × List Char} (ha : a.1.IsLocal) :
    readAttribute {} (a.1.write.map .char ++ .equals :: .quote '"' ::
      (escapedLexemes valueReference? a.2 ++ .quote '"' :: ls)) =
        (expand {} (escapedLexemes valueReference? a.2)).map fun value => ((a.1, value), ls) := by
  rw [readAttribute, readQName_chars ha (endsName_cons (by simp))]
  simp only [Option.bind_eq_bind, Option.bind_some, skipBlanks, dropChars, after?, if_true,
    readValue_escaped]
  rcases expand {} (escapedLexemes valueReference? a.2) with _ | value <;> rfl

theorem readAttributes_of_end {s rest : List Lexeme} {closed : Bool}
    (h : readTagEnd (skipBlanks s) = some (closed, rest)) :
    readAttributes {} s = some ([], closed, rest) := by
  rw [readAttributes.eq_def, h]

theorem readAttributes_cons {s : List Lexeme} (hend : readTagEnd (skipBlanks s) = none) :
    readAttributes {} (.char ' ' :: s) = (readAttribute {} (skipBlanks s)).bind fun (a, rest) =>
      (readAttributes {} rest).map fun (attributes, tail) => (a :: attributes, tail) := by
  have hblank : skipBlanks (.char ' ' :: s) = skipBlanks s := rfl
  rw [readAttributes.eq_def, hblank, hend]
  simp only [show Lexeme.isBlank (.char ' ') = true by decide, if_true]
  split
  · next a rest h => rw [h, Option.bind_some]
  · next h => rw [h, Option.bind_none]

/-- An attribute is read if its value can be expanded. -/
theorem readAttributes_attribute {a : QName × List Char} (ha : a.1.IsLocal) :
    readAttributes {} (Token.attributeLexemes a ++ ls) =
      (expand {} (escapedLexemes valueReference? a.2)).bind fun value =>
        (readAttributes {} ls).map fun (attributes, tail) =>
          ((a.1, value) :: attributes, tail) := by
  have hname : isName a.1.write = true := ha.write ▸ ha.name
  rw [Token.attributeLexemes]
  simp only [List.cons_append, List.append_assoc, List.nil_append]
  rw [readAttributes_cons ?_]
  · rw [skipBlanks_name hname, readAttribute_escaped ha, Option.bind_map]
    rfl
  · rw [skipBlanks_name hname]
    obtain ⟨c, s, hs, -⟩ := exists_of_isName hname
    rw [hs]
    rfl

/-- Attributes and the end of a tag are read back. -/
theorem readAttributes_lexemes (closed : Bool) : ∀ {attributes : List (QName × List Char)},
    (∀ a ∈ attributes, a.1.IsLocal ∧ a.2.all isChar = true) →
    readAttributes {} (attributes.flatMap Token.attributeLexemes ++
      ((if closed then [.char ' ', .emptyTagEnd] else [.tagEnd]) ++ ls)) =
        some (attributes, closed, ls)
  | [], _ => by
    cases closed <;> exact readAttributes_of_end rfl
  | a :: attributes, h => by
    obtain ⟨⟨ha, hvalue⟩, hrest⟩ := List.forall_mem_cons.1 h
    rw [List.flatMap_cons, List.append_assoc, readAttributes_attribute ha,
      expand_escapedLexemes isEscaping_valueReference hvalue, readAttributes_lexemes closed hrest]
    rfl

theorem endsName_attributes {attributes : List (QName × List Char)} (closed : Bool) :
    EndsName (attributes.flatMap Token.attributeLexemes ++
      ((if closed then [.char ' ', .emptyTagEnd] else [.tagEnd]) ++ ls)) := by
  have hblank : ∀ c, Lexeme.char ' ' = .char c → isNameChar c = false := by
    rintro c ⟨⟩
    decide
  rcases attributes with _ | ⟨a, attributes⟩
  · cases closed
    · exact endsName_cons nofun
    · exact endsName_cons hblank
  · exact endsName_cons hblank

theorem plainChars?_chars {body : List Char} (h : body.all isChar = true) :
    plainChars? .one (body.map .char) = some body := by
  have hspell : (body.map Lexeme.char).flatMap Lexeme.write = body := spell_chars body
  rw [plainChars?, hspell]
  exact if_pos h

theorem plainChars?_data {body : List Char} (h : body.all isChar = true) :
    plainChars? .one (body.map dataLexeme) = some body := by
  have hspell : (body.map dataLexeme).flatMap Lexeme.write = body := spell_data body
  rw [plainChars?, hspell]
  exact if_pos h

/-- The data of an instruction are read if they are made of characters that a document may hold. -/
theorem readInstruction_data {target : String} {body : List Char}
    (htarget : isName target.toList = true) :
    Token.readInstruction .one (target.toList.map .char ++
      (.char ' ' :: body.map dataLexeme ++ .instructionEnd :: ls)) =
        (plainChars? .one (body.map dataLexeme)).map fun data =>
          (.instruction target (some data), ls) := by
  have hend : ∀ lexeme ∈ body.map dataLexeme, lexeme ≠ .instructionEnd := by
    intro lexeme hlexeme
    obtain ⟨c, -, rfl⟩ := List.mem_map.1 hlexeme
    unfold dataLexeme
    split_ifs <;> simp
  have hblank : ∀ c, Lexeme.char ' ' = .char c → isNameChar c = false := by
    rintro c ⟨⟩
    decide
  have hspace : Lexeme.isBlank (.char ' ') = true := by decide
  rw [Token.readInstruction, List.cons_append, readName_chars htarget (endsName_cons hblank)]
  simp only [Option.bind_eq_bind, Option.bind_some, hspace, if_true, cutAt?_singleton hend,
    Option.pure_def, String.ofList_toList, Option.map_eq_bind]
  rfl

theorem readInstruction_lexemes {target : String} {data : Option (List Char)}
    (htarget : isName target.toList = true) (hdata : ∀ body ∈ data, body.all isChar = true) :
    Token.readInstruction .one (target.toList.map .char ++
      ((data.map fun body => .char ' ' :: body.map dataLexeme).getD [] ++
        .instructionEnd :: ls)) = some (.instruction target data, ls) := by
  rcases data with _ | body
  · rw [Token.readInstruction, Option.map_none, Option.getD_none, List.nil_append,
      readName_chars htarget (endsName_cons (by simp))]
    simp
  · exact (readInstruction_data htarget).trans (by rw [plainChars?_data (hdata body rfl)]; rfl)

theorem readAll_of_read {d : Dialect} {lexeme : Lexeme} {s : List Lexeme} {t : Token}
    (h : Token.read d lexeme s = some (t, ls)) :
    Token.readAll d (lexeme :: s) = (Token.readAll d ls).map (t :: ·) := by
  rw [Token.readAll.eq_def]
  simp only
  split
  · next t' rest h' =>
    rw [h] at h'
    obtain ⟨rfl, rfl⟩ := Prod.mk.inj (Option.some.inj h')
    rfl
  · next h' =>
    rw [h] at h'
    simp at h'

/-- Written markup is read back. -/
theorem readAll_markup {t : Token} (ht : t.Plain) (hw : t.isWrittenMarkup = true) :
    Token.readAll {} (t.lexemes ++ ls) = (Token.readAll {} ls).map (t :: ·) := by
  cases t with
  | opening name attributes closed =>
    rw [Token.lexemes]
    simp only [List.cons_append, List.append_assoc]
    refine readAll_of_read ?_
    change Token.readOpening {} _ = _
    rw [Token.readOpening, readQName_chars ht.1 (endsName_attributes closed)]
    simp [readAttributes_lexemes closed fun a ha => ⟨(ht.2 a ha).1, (ht.2 a ha).2.2⟩]
  | closing name =>
    rw [Token.lexemes]
    simp only [List.cons_append, List.append_assoc, List.nil_append]
    refine readAll_of_read ?_
    change Token.readClosing _ = _
    rw [Token.readClosing, readQName_chars ht (endsName_cons (by simp))]
    rfl
  | comment body =>
    rw [Token.lexemes]
    simp only [List.cons_append, List.append_assoc, List.nil_append]
    refine readAll_of_read ?_
    change Token.readComment .one _ = _
    rw [Token.readComment, cutAt?_singleton (by simp)]
    simp [plainChars?_chars ht.1]
  | instruction target data =>
    rw [Token.lexemes]
    simp only [List.cons_append, List.append_assoc, List.nil_append]
    refine readAll_of_read ?_
    exact readInstruction_lexemes ht.1 fun body hbody => (ht.2 body hbody).1
  | blanks body => simp [Token.isWrittenMarkup] at hw
  | text body => simp [Token.isWrittenMarkup] at hw
  | verbatim body => simp [Token.isWrittenMarkup] at hw
  | doctype => simp [Token.isWrittenMarkup] at hw

end ModelIR.Xml
