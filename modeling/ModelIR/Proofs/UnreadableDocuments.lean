import ModelIR.Proofs.SoundTokens
import ModelIR.Proofs.WrittenDocuments

/-!
# Documents that cannot be read back

Documents are written without a look at their characters. A value, a run of text, a comment and an
instruction are not read if a character in them is one that no document of the first version may
hold (`expand_eq_none`, `readAll_run_eq_none`, `readAll_eq_none`). So of the documents that are
plain but for their characters, exactly the plain ones are read back (`isSome_parse_print_iff`).
-/

namespace ModelIR.Xml

variable {ls : List Lexeme} {c : Char} {run : List Char} {C : Char → Bool}

/-! ## Values and text -/

theorem plainLexeme_of_not_isChar (hc : ¬ isChar c = true) : plainLexeme c = .char c := by
  rcases plainLexeme_cases c with rfl | rfl | rfl | rfl | ⟨-, h⟩
  iterate 4 exact absurd (by decide) hc
  exact h

theorem isChar_of_named {name : List Char} (h : reference? {} name = some [c]) :
    isChar c = true := by
  have hempty : Dialect.Sound {} := List.forall_mem_nil _
  have hall := allows_of_reference? hempty h
  rwa [List.all_cons, List.all_nil, Bool.and_true] at hall

/-- Text is not read back from its lexemes if it has a character that a document may not hold. -/
theorem expand_eq_none {reference : Char → Option String} (escaping : IsEscaping reference) :
    ∀ {text : List Char}, ¬ text.all isChar = true →
      expand {} (escapedLexemes reference text) = none
  | [], h => absurd rfl h
  | c :: text, h => by
    have ih (hc : isChar c = true) : expandFrom {} none (escapedLexemes reference text) = none :=
      expand_eq_none escaping fun htext => h (by rw [List.all_cons, hc, htext]; rfl)
    rw [expand, escapedLexemes, List.flatMap_cons]
    change expandFrom {} none (_ ++ escapedLexemes reference text) = none
    rcases hr : reference c with _ | name
    · rw [List.singleton_append]
      by_cases hc : isChar c = true
      · rw [expand_plainLexeme hc (escaping.escapes c hr).2.2, ih hc]
        rfl
      · rw [plainLexeme_of_not_isChar hc]
        exact if_neg hc
    · have hc : isChar c = true := isChar_of_named (escaping.reads c name hr)
      simp only [List.cons_append, List.append_assoc, List.nil_append]
      rw [expandFrom_start, expandFrom_name c name.toList [] (escaping.reads c name hr), ih hc]
      rfl

theorem readAll_of_read_eq_none {lexeme : Lexeme} (h : Token.read {} lexeme ls = none) :
    Token.readAll {} (lexeme :: ls) = none := by
  rw [Token.readAll.eq_def]
  simp only
  split
  · next h' =>
    rw [h] at h'
    cases h'
  · rfl

/-- A run of text is not read if it has a character that a document may not hold. -/
theorem readAll_run_eq_none (hrun : ¬ run.all isChar = true) (hls : EndsText ls) :
    Token.readAll {} (escapedLexemes textReference? run ++ ls) = none := by
  have hne : run ≠ [] := by
    rintro rfl
    exact hrun rfl
  have hblank : ¬ run.all isBlank = true := fun h => hrun (all_isChar_of_isBlank h)
  obtain ⟨lexeme, rest, hs, hread⟩ := exists_read_run hne ls
  rw [readText_escapedLexemes hls, if_neg hblank, expand_eq_none isEscaping_textReference hrun]
    at hread
  rw [hs]
  exact readAll_of_read_eq_none hread

/-! ## Tokens -/

theorem readAttributes_eq_none (closed : Bool) : ∀ {attributes : List (QName × List Char)},
    (∀ a ∈ attributes, a.1.IsLocal) → ¬ (∀ a ∈ attributes, a.2.all isChar = true) →
    readAttributes {} (attributes.flatMap Token.attributeLexemes ++
      ((if closed then [.char ' ', .emptyTagEnd] else [.tagEnd]) ++ ls)) = none
  | [], _, h => absurd (List.forall_mem_nil _) h
  | a :: attributes, hnames, h => by
    obtain ⟨ha, hnames⟩ := List.forall_mem_cons.1 hnames
    rw [List.flatMap_cons, List.append_assoc, readAttributes_attribute ha]
    by_cases hvalue : a.2.all isChar = true
    · have hrest : ¬ ∀ b ∈ attributes, b.2.all isChar = true :=
        fun hrest => h (List.forall_mem_cons.2 ⟨hvalue, hrest⟩)
      rw [expand_escapedLexemes isEscaping_valueReference hvalue,
        readAttributes_eq_none closed hnames hrest]
      rfl
    · rw [expand_eq_none isEscaping_valueReference hvalue]
      rfl

theorem readOpening_eq_none {name : QName} {attributes : List (QName × List Char)} {closed : Bool}
    (ht : (Token.opening name attributes closed).PlainWith C)
    (hplain : ¬ (Token.opening name attributes closed).Plain) :
    Token.readOpening {} (name.write.map .char ++
      (attributes.flatMap Token.attributeLexemes ++
        ((if closed then [.char ' ', .emptyTagEnd] else [.tagEnd]) ++ ls))) = none := by
  have hvalues : ¬ ∀ a ∈ attributes, a.2.all isChar = true := fun hvalues =>
    hplain ⟨ht.1, fun a ha => ⟨(ht.2 a ha).1, (ht.2 a ha).2.1, hvalues a ha⟩⟩
  rw [Token.readOpening, readQName_chars ht.1 (endsName_attributes closed)]
  simp [readAttributes_eq_none closed (fun a ha => (ht.2 a ha).1) hvalues]

theorem plainChars?_eq_none {body : List Char} (ls : List Lexeme) (hspell : spell ls = body)
    (hbody : ¬ body.all isChar = true) : plainChars? .one ls = none := by
  subst hspell
  exact if_neg hbody

theorem readInstruction_eq_none {target : String} {data : Option (List Char)}
    (htarget : isName target.toList = true) (hdata : ¬ ∀ body ∈ data, body.all isChar = true) :
    Token.readInstruction .one (target.toList.map .char ++
      ((data.map fun body => .char ' ' :: body.map dataLexeme).getD [] ++
        .instructionEnd :: ls)) = none := by
  rcases data with _ | body
  · exact absurd nofun hdata
  · have hbody : ¬ body.all isChar = true := fun hbody => hdata (by rintro _ ⟨⟩; exact hbody)
    exact (readInstruction_data htarget).trans
      (by rw [plainChars?_eq_none _ (spell_data body) hbody]; rfl)

/-- Markup that is plain but for its characters is not read if it is not plain. -/
theorem readAll_eq_none {t : Token} (ht : t.PlainWith C) (hw : t.isWrittenMarkup = true)
    (hplain : ¬ t.Plain) (ls : List Lexeme) : Token.readAll {} (t.lexemes ++ ls) = none := by
  cases t with
  | opening name attributes closed =>
    rw [Token.lexemes]
    simp only [List.cons_append, List.append_assoc]
    exact readAll_of_read_eq_none (readOpening_eq_none ht hplain)
  | closing name => exact absurd ht hplain
  | comment body =>
    have hbody : ¬ body.all isChar = true := fun hbody => hplain ⟨hbody, ht.2⟩
    rw [Token.lexemes]
    simp only [List.cons_append, List.append_assoc, List.nil_append]
    refine readAll_of_read_eq_none ?_
    change Token.readComment .one _ = _
    rw [Token.readComment, cutAt?_singleton (by simp)]
    simp [plainChars?_eq_none _ (spell_chars body) hbody]
  | instruction target data =>
    have hdata : ¬ ∀ body ∈ data, body.all isChar = true := fun hdata =>
      hplain ⟨ht.1, fun body hbody => ⟨hdata body hbody, (ht.2 body hbody).2⟩⟩
    rw [Token.lexemes]
    simp only [List.cons_append, List.append_assoc, List.nil_append]
    exact readAll_of_read_eq_none (readInstruction_eq_none ht.1 hdata)
  | _ => simp [Token.isWrittenMarkup] at hw

/-- Tokens behind an open run of text are not read if one of them is not plain, or if the run has a
character that a document may not hold. -/
theorem readAll_lexemes_eq_none : ∀ {tokens : List Token} {run : List Char}, Legible C tokens →
    ¬ (run.all isChar = true ∧ ∀ t ∈ tokens, t.Plain) →
    Token.readAll {} (escapedLexemes textReference? run ++ tokens.flatMap Token.lexemes) = none
  | [], run, _, h =>
    readAll_run_eq_none (fun hrun => h ⟨hrun, List.forall_mem_nil _⟩) endsText_nil
  | t :: tokens, run, hlegible, h => by
    obtain ⟨⟨ht, hw⟩, hlegible⟩ := List.forall_mem_cons.1 hlegible
    rw [List.forall_mem_cons] at h
    have htext : ∀ body : List Char, (body.all isChar = true → t.Plain) →
        Token.readAll {} (escapedLexemes textReference? run ++
          (escapedLexemes textReference? body ++ tokens.flatMap Token.lexemes)) = none := by
      intro body hbody
      rw [← List.append_assoc, escapedLexemes, escapedLexemes, ← List.flatMap_append]
      refine readAll_lexemes_eq_none hlegible fun hrest => h ?_
      obtain ⟨hboth, htokens⟩ := hrest
      rw [List.all_append, Bool.and_eq_true] at hboth
      exact ⟨hboth.1, hbody hboth.2, htokens⟩
    rw [List.flatMap_cons]
    rcases hw with hw | hw
    · by_cases hrun : run.all isChar = true
      · rw [readAll_run hrun (endsText_markup hw)]
        by_cases hplain : t.Plain
        · have hrest : Token.readAll {} (escapedLexemes textReference? [] ++
              tokens.flatMap Token.lexemes) = none :=
            readAll_lexemes_eq_none hlegible fun hrest => h ⟨hrun, hplain, hrest.2⟩
          change Token.readAll {} (tokens.flatMap Token.lexemes) = none at hrest
          rw [readAll_markup hplain hw, hrest]
          rfl
        · rw [readAll_eq_none ht hw hplain]
          rfl
      · exact readAll_run_eq_none hrun (endsText_markup hw)
    · cases t with
      | blanks body => exact htext body fun _ => ht
      | text body => exact htext body id
      | _ => simp [Token.isWrittenText] at hw

/-! ## Nodes -/

variable {D : Char → Bool}

theorem Tag.PlainWith.of_opening {tag : Tag} {closed : Bool} (h : tag.PlainWith C)
    (ht : (Token.opening tag.qname (tag.written []) closed).PlainWith D) : tag.PlainWith D :=
  h.iff_values.2 fun a ha =>
    (ht.2 ({ name := a.1 }, a.2.toList) (h.written ▸ List.mem_map_of_mem ha)).2.2

theorem all_of_padded {body : List Char} (h : (padded body).all D = true) :
    body.all D = true := by
  rw [padded, List.all_append, List.all_append, Bool.and_eq_true, Bool.and_eq_true] at h
  exact h.1.2

mutual

/-- A node is made of the characters that its tokens are made of. -/
theorem Node.PlainWith.of_tokens (depth : Nat) : ∀ {node : Node}, node.PlainWith C →
    (∀ t ∈ node.tokens [] depth, t.PlainWith D) → node.PlainWith D
  | .element tag children, h, ht => by
    obtain ⟨htag, hchildren⟩ := h
    rw [Node.tokens, htag.declaredWithin] at ht
    by_cases hempty : children.isEmpty
    · rw [if_pos hempty] at ht
      obtain rfl := List.isEmpty_iff.1 hempty
      exact ⟨htag.of_opening (ht _ List.mem_cons_self), trivial⟩
    · rw [if_neg hempty] at ht
      obtain ⟨hopening, ht⟩ := List.forall_mem_cons.1 ht
      refine ⟨htag.of_opening hopening, Node.PlainAllWith.of_tokens (depth + 1) false hchildren ?_⟩
      exact fun t hmem => ht t (List.mem_append_left _ (List.mem_append_left _ hmem))
  | .text _, _, ht => ht _ List.mem_cons_self
  | .comment _, h, ht => ⟨all_of_padded (ht _ List.mem_cons_self).1, h.2⟩
  | .instruction _ data, h, ht => by
    refine ⟨h.1, h.2.1, fun body hbody => ⟨?_, (h.2.2 body hbody).2⟩⟩
    exact ((ht _ List.mem_cons_self).2 body.toList (Option.mem_map_of_mem _ hbody)).1

theorem Node.PlainAllWith.of_tokens (depth : Nat) (afterText : Bool) : ∀ {nodes : List Node},
    Node.PlainAllWith C nodes → (∀ t ∈ Node.childTokens [] depth afterText nodes, t.PlainWith D) →
      Node.PlainAllWith D nodes
  | [], _, _ => trivial
  | node :: nodes, h, ht => by
    rw [Node.childTokens] at ht
    refine ⟨Node.PlainWith.of_tokens depth h.1 fun t hmem => ?_,
      Node.PlainAllWith.of_tokens depth node.isText h.2 fun t hmem => ?_⟩
    · exact ht t (List.mem_append_left _ (List.mem_append_right _ hmem))
    · exact ht t (List.mem_append_right _ hmem)

end

/-! ## Documents -/

variable {root : Element}

theorem parse_print_eq_none (hspace : C ' ' = true) (h : root.PlainWith C) (hplain : ¬ root.Plain) :
    Element.parse root.print.toUTF8 = none := by
  have htokens : ¬ ∀ t ∈ root.documentTokens, t.Plain := fun ht =>
    hplain (Node.PlainWith.of_tokens 0 h fun t hmem => ht t (List.mem_cons_of_mem _ hmem))
  have hread : Token.readAll {} (escapedLexemes textReference? [] ++
      root.documentTokens.flatMap Token.lexemes) = none :=
    readAll_lexemes_eq_none (legible_document hspace h) fun hboth => htokens hboth.2
  change Token.readAll {} (root.documentTokens.flatMap Token.lexemes) = none at hread
  rw [Element.parse, tokensOfBytes?_eq hspace h, hread]
  rfl

/-- A document that is plain but for its characters is read back if and only if all of them are
characters that a document may hold. -/
theorem isSome_parse_print_iff (hspace : C ' ' = true) (h : root.PlainWith C) :
    (Element.parse root.print.toUTF8).isSome = true ↔ root.Plain := by
  constructor
  · intro hsome
    by_contra hplain
    rw [parse_print_eq_none hspace h hplain] at hsome
    exact absurd hsome nofun
  · intro hplain
    rw [parse_print hplain]
    rfl

end ModelIR.Xml
